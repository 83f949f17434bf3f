import Mathlib
import NamedData.Name.Text
import NamedData.Proofs.Text.Numeral
import NamedData.Proofs.Tlv.Fields

/-!
# Which texts are names

A text is a name if each of its parts denotes a component: two hexadecimal digits stand behind
every percent sign that begins an escape, and every type fits in 64 bits. Beyond these, only texts
are read in which a plus sign takes the place of the first digit of an escape.
-/

namespace NamedData

open Numeral

namespace Component

/-! ## Escapes -/

/-- Two hexadecimal digits, and the byte that they denote. -/
inductive HexPair : Char → Char → UInt8 → Prop where
  | digits {high low : Char} {h l : Nat} (hhigh : digit? 16 high = some h)
      (hlow : digit? 16 low = some l) : HexPair high low (.ofNat (h * 16 + l))

/-- Two characters that are read as a byte: a plus sign may take the place of the first digit. -/
inductive ReadPair : Char → Char → UInt8 → Prop where
  | hex {high low : Char} {b : UInt8} (h : HexPair high low b) : ReadPair high low b
  | signed {low : Char} {l : Nat} (hlow : digit? 16 low = some l) : ReadPair '+' low (.ofNat l)

/-- The bytes that a text spells, with such pairs behind the percent signs that begin an escape. -/
inductive Spells (pair : Char → Char → UInt8 → Prop) : List Char → Bytes → Prop where
  | nil : Spells pair [] []
  | escape {high low : Char} {b : UInt8} {cs : List Char} {bs : Bytes} (hpair : pair high low b)
      (hrest : Spells pair cs bs) : Spells pair ('%' :: high :: low :: cs) (b :: bs)
  | plain {c : Char} {cs : List Char} {bs : Bytes} (hc : c ≠ '%') (hrest : Spells pair cs bs) :
      Spells pair (c :: cs) (String.utf8EncodeChar c ++ bs)

/-- A percent sign with a plus sign behind it. -/
def signedEscape : List Char := ['%', '+']

theorem digit?_plus : digit? 16 '+' = none := by decide

theorem HexPair.ne_of_digit?_eq_none {high low c : Char} {b : UInt8} (h : HexPair high low b)
    (hc : digit? 16 c = none) : high ≠ c ∧ low ≠ c := by
  obtain ⟨hhigh, hlow⟩ := h
  constructor
  · rintro rfl
    simp [hhigh] at hc
  · rintro rfl
    simp [hlow] at hc

theorem hexByte?_eq_some_iff {high low : Char} {b : UInt8} :
    hexByte? high low = some b ↔ ReadPair high low b := by
  by_cases hplus : high = '+'
  · subst hplus
    rw [hexByte?_plus, Option.map_eq_some_iff]
    constructor
    · rintro ⟨l, hlow, rfl⟩
      exact .signed hlow
    · intro h
      cases h with
      | hex h => exact absurd rfl (h.ne_of_digit?_eq_none digit?_plus).1
      | signed hlow => exact ⟨_, hlow, rfl⟩
  · rw [hexByte?_of_ne_plus hplus, Option.bind_eq_some_iff]
    constructor
    · rintro ⟨h, hhigh, hbyte⟩
      obtain ⟨l, hlow, rfl⟩ := Option.map_eq_some_iff.mp hbyte
      exact .hex (.digits hhigh hlow)
    · intro h
      cases h with
      | hex h =>
          obtain ⟨hhigh, hlow⟩ := h
          exact ⟨_, hhigh, by rw [hlow, Option.map_some]⟩
      | signed => exact absurd rfl hplus

/-- Reading takes exactly the texts whose escapes are pairs that are read. -/
theorem unescape?_eq_some_iff {cs : List Char} {bs : Bytes} :
    unescape? cs = some bs ↔ Spells ReadPair cs bs := by
  constructor
  · intro h
    induction cs using unescape?.induct generalizing bs with
    | case1 =>
        cases h
        exact .nil
    | case2 high low rest ih =>
        simp only [unescape?, Option.bind_eq_bind, Option.bind_eq_some_iff, Option.pure_def,
          Option.some.injEq] at h
        obtain ⟨b, hpair, bs', hrest, rfl⟩ := h
        exact .escape (hexByte?_eq_some_iff.mp hpair) (ih hrest)
    | case3 rest hescape =>
        rw [unescape?, if_pos rfl] at h
        · cases h
        · exact hescape
    | case4 c rest hescape hc ih =>
        rw [unescape?, if_neg hc] at h
        · obtain ⟨bs', hrest, rfl⟩ := Option.map_eq_some_iff.mp h
          exact .plain hc (ih hrest)
        · exact hescape
  · intro h
    induction h with
    | nil => rfl
    | escape hpair _ ih => simp [unescape?, hexByte?_eq_some_iff.mpr hpair, ih]
    | plain hc _ ih =>
        rw [unescape?, if_neg hc, ih, Option.map_some]
        exact fun _ _ _ h => absurd h hc

/-- Two digits stand behind every percent sign if and only if no plus sign is read. -/
theorem spells_hexPair_iff {cs : List Char} {bs : Bytes} :
    Spells HexPair cs bs ↔ Spells ReadPair cs bs ∧ ¬ signedEscape <:+: cs := by
  have hpercent : digit? 16 '%' = none := by decide
  constructor
  · intro h
    induction h with
    | nil => exact ⟨.nil, by simp [signedEscape]⟩
    | escape hpair _ ih =>
        refine ⟨.escape (.hex hpair) ih.1, ?_⟩
        obtain ⟨hhigh, hlow⟩ := hpair.ne_of_digit?_eq_none hpercent
        have hplus := (hpair.ne_of_digit?_eq_none digit?_plus).1
        -- Neither digit is a percent sign, and the first one is no plus sign.
        simpa [signedEscape, List.infix_cons_iff, hhigh.symm, hlow.symm, hplus.symm] using ih.2
    | plain hc _ ih =>
        refine ⟨.plain hc ih.1, ?_⟩
        simpa [signedEscape, List.infix_cons_iff, hc.symm] using ih.2
  · rintro ⟨h, hunsigned⟩
    induction h with
    | nil => exact .nil
    | escape hpair _ ih =>
        have hrest := fun h => hunsigned (List.infix_cons (List.infix_cons (List.infix_cons h)))
        cases hpair with
        | hex hpair => exact .escape hpair (ih hrest)
        | signed => exact absurd (List.infix_append [] signedEscape _) hunsigned
    | plain hc _ ih => exact .plain hc (ih fun h => hunsigned (List.infix_cons h))

/-! ## Types -/

/-- A text with a decimal type and an equals sign in front of its value. -/
structure Typed (part digits value : List Char) : Prop where
  eq : part = digits ++ '=' :: value
  nonempty : digits ≠ []
  digits : ∀ c ∈ digits, c.isDigit = true

/-- The component that a part of a name denotes, with such pairs as escapes. -/
inductive Denotes (pair : Char → Char → UInt8 → Prop) : List Char → Component → Prop where
  | typed {part digits value : List Char} {type : Nat} {bytes : Bytes}
      (hpart : Typed part digits value) (htype : digits? 10 digits = some type)
      (hfits : type < 2 ^ 64) (hvalue : Spells pair value bytes) :
      Denotes pair part ⟨.ofNat type, bytes⟩
  | generic {part : List Char} {bytes : Bytes} (hpart : ∀ digits value, ¬ Typed part digits value)
      (hvalue : Spells pair part bytes) : Denotes pair part (Component.generic bytes)

theorem typed?_eq_some_iff {part digits value : List Char} :
    typed? part = some (digits, value) ↔ Typed part digits value := by
  constructor
  · intro h
    simp only [typed?] at h
    split at h
    · next value' hrest =>
        obtain ⟨⟨hne, hall⟩, heq⟩ := Option.ite_none_right_eq_some.mp h
        cases heq
        refine ⟨?_, hne, by simpa using hall⟩
        rw [← hrest, List.takeWhile_append_dropWhile]
    · cases h
  · rintro ⟨rfl, hne, hall⟩
    have hsign : ∀ c ∈ digits, decide (c ≠ '=') = true := by
      intro c hc
      refine decide_eq_true ?_
      rintro rfl
      exact absurd (hall '=' hc) (by decide)
    have hall' : digits.all Char.isDigit = true := List.all_eq_true.mpr hall
    simp only [typed?, List.takeWhile_append_of_pos hsign, List.dropWhile_append_of_pos hsign]
    simp [hne, hall']

theorem typed?_eq_none_iff {part : List Char} :
    typed? part = none ↔ ∀ digits value, ¬ Typed part digits value := by
  rw [Option.eq_none_iff_forall_ne_some]
  exact ⟨fun h digits value htyped => h _ (typed?_eq_some_iff.mpr htyped),
    fun h r hr => h r.1 r.2 (typed?_eq_some_iff.mp hr)⟩

theorem decimal64?_eq_some_iff {digits : List Char} (hall : ∀ c ∈ digits, c.isDigit = true)
    {type : UInt64} :
    decimal64? digits = some type ↔ ∃ n, digits? 10 digits = some n ∧ n < 2 ^ 64
      ∧ .ofNat n = type := by
  have hplus : digits.head? ≠ some '+' := by
    intro h
    exact absurd (hall '+' (List.mem_of_mem_head? h)) (by decide)
  have hlimit (n : Nat) : n ≤ 0xFFFFFFFFFFFFFFFF ↔ n < 2 ^ 64 := by omega
  simp [decimal64?, unsigned?_of_head hplus, Option.filter_eq_some_iff, hlimit, and_assoc]

theorem denotes_of_ofChars {part : List Char} {c : Component} (h : ofChars part = .ok c) :
    Denotes ReadPair part c := by
  simp only [ofChars] at h
  split at h
  · next huntyped =>
      cases hvalue : unescape? part with
      | none =>
          rw [hvalue] at h
          cases h
      | some bytes =>
          rw [hvalue] at h
          cases h
          exact .generic (typed?_eq_none_iff.mp huntyped) (unescape?_eq_some_iff.mp hvalue)
  · next digits value htyped =>
      have hpart := typed?_eq_some_iff.mp htyped
      split at h
      · cases h
      · next type htype =>
          obtain ⟨n, hn, hfits, rfl⟩ := (decimal64?_eq_some_iff hpart.digits).mp htype
          cases hvalue : unescape? value with
          | none =>
              rw [hvalue] at h
              cases h
          | some bytes =>
              rw [hvalue] at h
              cases h
              exact .typed hpart hn hfits (unescape?_eq_some_iff.mp hvalue)

theorem ofChars_of_denotes {part : List Char} {c : Component} (h : Denotes ReadPair part c) :
    ofChars part = .ok c := by
  cases h with
  | typed hpart htype hfits hvalue =>
      have htype' := (decimal64?_eq_some_iff hpart.digits).mpr ⟨_, htype, hfits, rfl⟩
      simp only [ofChars, typed?_eq_some_iff.mpr hpart, htype', unescape?_eq_some_iff.mpr hvalue]
      rfl
  | generic hpart hvalue =>
      simp only [ofChars, typed?_eq_none_iff.mpr hpart, unescape?_eq_some_iff.mpr hvalue]
      rfl

/-- A part is read exactly as what it denotes. -/
theorem ofChars_eq_ok_iff {part : List Char} {c : Component} :
    ofChars part = .ok c ↔ Denotes ReadPair part c :=
  ⟨denotes_of_ofChars, ofChars_of_denotes⟩

theorem Typed.signedEscape_infix_iff {part digits value : List Char} (h : Typed part digits value) :
    signedEscape <:+: part ↔ signedEscape <:+: value := by
  obtain ⟨rfl, -, hall⟩ := h
  constructor
  · intro h
    induction digits with
    | nil => simpa [signedEscape, List.infix_cons_iff] using h
    | cons d digits ih =>
        have hd : d ≠ '%' := by
          rintro rfl
          exact absurd (hall '%' (by simp)) (by decide)
        refine ih (fun c hc => hall c (by simp [hc])) ?_
        simpa [signedEscape, List.infix_cons_iff, hd.symm] using h
  · intro h
    exact h.trans ((List.suffix_cons '=' value).isInfix.trans (List.suffix_append digits _).isInfix)

/-- A part has two digits behind each percent sign if and only if no plus sign is read in it. -/
theorem denotes_hexPair_iff {part : List Char} {c : Component} :
    Denotes HexPair part c ↔ Denotes ReadPair part c ∧ ¬ signedEscape <:+: part := by
  constructor
  · intro h
    cases h with
    | typed hpart htype hfits hvalue =>
        obtain ⟨hvalue, hunsigned⟩ := spells_hexPair_iff.mp hvalue
        exact ⟨.typed hpart htype hfits hvalue, hunsigned ∘ hpart.signedEscape_infix_iff.mp⟩
    | generic hpart hvalue =>
        obtain ⟨hvalue, hunsigned⟩ := spells_hexPair_iff.mp hvalue
        exact ⟨.generic hpart hvalue, hunsigned⟩
  · rintro ⟨h, hunsigned⟩
    cases h with
    | typed hpart htype hfits hvalue =>
        exact .typed hpart htype hfits
          (spells_hexPair_iff.mpr ⟨hvalue, hunsigned ∘ hpart.signedEscape_infix_iff.mpr⟩)
    | generic hpart hvalue => exact .generic hpart (spells_hexPair_iff.mpr ⟨hvalue, hunsigned⟩)

end Component

namespace Name

open Component

/-! ## Parts -/

/-- What is left of a text without an optional scheme in front. -/
inductive HasPath : List Char → List Char → Prop where
  | scheme (path : List Char) : HasPath ("ndn:".toList ++ path) path
  | plain {text : List Char} (h : ¬ "ndn:".toList <+: text) : HasPath text text

/-- The pieces of a path between its slashes. -/
structure Divided (path : List Char) (pieces : List (List Char)) : Prop where
  joined : List.intercalate ['/'] pieces = path
  nonempty : pieces ≠ []
  slash_not_mem : ∀ piece ∈ pieces, '/' ∉ piece

theorem not_mem_of_mem_splitOn {sep : Char} {cs piece : List Char} (h : piece ∈ cs.splitOn sep) :
    sep ∉ piece := by
  induction cs generalizing piece with
  | nil =>
      rw [List.splitOn_nil, List.mem_singleton] at h
      simp [h]
  | cons c cs ih =>
      rw [List.splitOn_cons_eq_if_modifyHead] at h
      obtain ⟨first, rest, hpieces⟩ := List.exists_cons_of_ne_nil (List.splitOn_ne_nil sep cs)
      rw [hpieces] at h ih
      split at h
      · rcases List.mem_cons.mp h with rfl | h
        · simp
        · exact ih h
      · next hc =>
          rcases List.mem_cons.mp h with rfl | h
          · have hfirst : sep ∉ first := ih List.mem_cons_self
            simpa [eq_comm (a := sep)] using ⟨by simpa using hc, hfirst⟩
          · exact ih (List.mem_cons_of_mem _ h)

theorem divided_splitOn (path : List Char) : Divided path (path.splitOn '/') where
  joined := List.intercalate_splitOn '/'
  nonempty := List.splitOn_ne_nil '/' path
  slash_not_mem _ h := not_mem_of_mem_splitOn h

theorem exists_divided (cs : List Char) :
    ∃ path pieces, HasPath cs path ∧ Divided path pieces ∧ parts cs = pieces.filter (· ≠ []) := by
  by_cases hscheme : "ndn:".toList <+: cs
  · obtain ⟨path, rfl⟩ := hscheme
    exact ⟨path, _, .scheme path, divided_splitOn path, by simp [parts]⟩
  · have hscheme' : "ndn:".toList.isPrefixOf cs = false :=
      Bool.eq_false_iff.mpr fun h => hscheme (List.isPrefixOf_iff_prefix.mp h)
    exact ⟨cs, _, .plain hscheme, divided_splitOn cs, by simp only [parts, hscheme']; rfl⟩

theorem mapM_eq_ok_iff {α β : Type} {f : α → Except Error β} {xs : List α} {ys : List β} :
    xs.mapM f = .ok ys ↔ List.Forall₂ (fun x y => f x = .ok y) xs ys := by
  induction xs generalizing ys with
  | nil => cases ys <;> simp [pure, Except.pure]
  | cons x xs ih =>
      rw [List.mapM_cons, List.forall₂_cons_left_iff]
      constructor
      · intro h
        obtain ⟨y, hy, h⟩ := Tlv.exists_of_bind_eq_ok h
        obtain ⟨ys', hys, h⟩ := Tlv.exists_of_bind_eq_ok h
        cases h
        exact ⟨y, ys', hy, ih.mp hys, rfl⟩
      · rintro ⟨y, ys', hy, hys, rfl⟩
        rw [hy, ih.mpr hys]
        rfl

theorem exists_forall₂_iff {α β : Type} {R : α → β → Prop} {xs : List α} :
    (∃ ys, List.Forall₂ R xs ys) ↔ ∀ x ∈ xs, ∃ y, R x y := by
  induction xs with
  | nil => simp
  | cons x xs ih =>
      rw [List.forall_mem_cons, ← ih]
      constructor
      · rintro ⟨_, h⟩
        cases h with
        | cons hx hxs => exact ⟨⟨_, hx⟩, _, hxs⟩
      · rintro ⟨⟨y, hx⟩, ys, hxs⟩
        exact ⟨y :: ys, .cons hx hxs⟩

theorem ofText_eq_ok_iff {text : String} {n : Name} :
    ofText text = .ok n ↔ List.Forall₂ (Denotes ReadPair) (parts text.toList) n.components := by
  have hparts : (parts text.toList).mapM Component.ofChars = .ok n.components
      ↔ List.Forall₂ (Denotes ReadPair) (parts text.toList) n.components := by
    simp only [mapM_eq_ok_iff, ofChars_eq_ok_iff]
  rw [← hparts, ofText, ofChars]
  constructor
  · intro h
    obtain ⟨components, hread, rfl⟩ := Tlv.exists_of_map_eq_ok h
    exact hread
  · intro h
    rw [h]
    rfl

theorem forall₂_denotes_hexPair_iff {texts : List (List Char)} {cs : List Component} :
    List.Forall₂ (Denotes HexPair) texts cs
      ↔ List.Forall₂ (Denotes ReadPair) texts cs ∧ ∀ part ∈ texts, ¬ signedEscape <:+: part := by
  have hpart : Denotes HexPair
      = fun part c => ¬ signedEscape <:+: part ∧ Denotes ReadPair part c := by
    funext part c
    rw [denotes_hexPair_iff, and_comm]
  rw [hpart, List.forall₂_and_left, and_comm]

/-- A text is read just if each of its parts, the nonempty pieces between its slashes, denotes a
component, and then as those components. Escapes may have a plus sign for their first digit; where
no part has a percent sign with a plus sign behind it, and only there, they all are two hexadecimal
digits. -/
theorem accepted_iff_parts_denote (text : String) :
    (∃ path pieces, HasPath text.toList path ∧ Divided path pieces
        ∧ parts text.toList = pieces.filter (· ≠ []))
      ∧ ((∃ n, ofText text = .ok n) ↔ ∀ part ∈ parts text.toList, ∃ c, Denotes ReadPair part c)
      ∧ (∀ n : Name, ofText text = .ok n
        ↔ List.Forall₂ (Denotes ReadPair) (parts text.toList) n.components)
      ∧ ((∃ n, ofText text = .ok n) ∧ (∀ part ∈ parts text.toList, ¬ signedEscape <:+: part)
        ↔ ∀ part ∈ parts text.toList, ∃ c, Denotes HexPair part c)
      ∧ ∀ n : Name, ofText text = .ok n ∧ (∀ part ∈ parts text.toList, ¬ signedEscape <:+: part)
        ↔ List.Forall₂ (Denotes HexPair) (parts text.toList) n.components := by
  have hname {R : List Char → Component → Prop} :
      (∃ n : Name, List.Forall₂ R (parts text.toList) n.components)
        ↔ ∀ part ∈ parts text.toList, ∃ c, R part c := by
    rw [← exists_forall₂_iff]
    constructor
    · rintro ⟨n, h⟩
      exact ⟨n.components, h⟩
    · rintro ⟨cs, h⟩
      exact ⟨⟨cs⟩, h⟩
  refine ⟨exists_divided _, ?_, fun n => ofText_eq_ok_iff, ?_, fun n => ?_⟩
  · simp only [ofText_eq_ok_iff, hname]
  · simp only [ofText_eq_ok_iff, ← hname, forall₂_denotes_hexPair_iff, exists_and_right]
  · rw [ofText_eq_ok_iff, forall₂_denotes_hexPair_iff]

/-- A plus sign and a digit are read as a byte. -/
theorem signed_escape_is_read :
    ofText "/%+1" = .ok ⟨[Component.generic [1]]⟩
      ∧ ¬ ∀ part ∈ parts "/%+1".toList, ∃ c, Denotes HexPair part c := by
  have hparts : parts "/%+1".toList = ["%+1".toList] := by cbv
  refine ⟨by cbv, fun h => ?_⟩
  obtain ⟨c, hc⟩ := h "%+1".toList (by rw [hparts]; exact List.mem_singleton_self _)
  exact (denotes_hexPair_iff.mp hc).2 (List.infix_append [] signedEscape ['1'])

end Name

end NamedData
