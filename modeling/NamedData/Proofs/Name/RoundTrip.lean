import NamedData.Proofs.Name.Escapes

/-!
# Names read back

The text of a name is read as the name without its empty generic components: nothing stands for
these between two slashes. Names that have none are told apart by their texts.
-/

namespace NamedData

open Numeral

namespace Component

/-! ## Escapes -/

theorem digit?_upper : ∀ d < 16, digit? 16 (Nat.digitChar d).toUpper = some d := by decide

theorem hexPair_upper (b : UInt8) :
    HexPair (Nat.digitChar (b.toNat / 16)).toUpper (Nat.digitChar (b.toNat % 16)).toUpper b := by
  have hlt := b.toNat_lt
  have hpair := HexPair.digits (digit?_upper (b.toNat / 16) (by omega))
    (digit?_upper (b.toNat % 16) (by omega))
  rwa [Nat.div_add_mod', UInt8.ofNat_toNat] at hpair

theorem escape_of_reserved {b : UInt8} (h : isUnreserved b = false) :
    escape b = ['%', (Nat.digitChar (b.toNat / 16)).toUpper,
      (Nat.digitChar (b.toNat % 16)).toUpper] := by
  simp [escape, h, upperHexByte, hexByte]

theorem toNat_ofNat_toNat (b : UInt8) : (Char.ofNat b.toNat).toNat = b.toNat := by
  have hlt := b.toNat_lt
  have hvalid : b.toNat.isValidChar := .inl (by omega)
  simp [Char.ofNat, hvalid, Char.ofNatAux]

theorem toNat_lt_of_isUnreserved {b : UInt8} (h : isUnreserved b = true) : b.toNat < 128 := by
  rw [← toNat_ofNat_toNat b]
  simp only [isUnreserved, Bool.or_eq_true, beq_iff_eq, Char.isAlphanum, Char.isAlpha, Char.isUpper,
    Char.isLower, Char.isDigit, Bool.and_eq_true, decide_eq_true_eq, UInt32.le_iff_toNat_le,
    ge_iff_le, Char.toNat_val] at h
  generalize Char.ofNat b.toNat = c at h
  rcases h with ((((((⟨-, h⟩ | ⟨-, h⟩) | ⟨-, h⟩) | rfl) | rfl) | rfl) | rfl)
  · exact h.trans_lt (by decide)
  · exact h.trans_lt (by decide)
  · exact h.trans_lt (by decide)
  · decide
  · decide
  · decide
  · decide

/-- A byte that is written as it is stands for itself as a character. -/
theorem utf8EncodeChar_of_isUnreserved {b : UInt8} (h : isUnreserved b = true) :
    String.utf8EncodeChar (Char.ofNat b.toNat) = [b] := by
  have hlt := toNat_lt_of_isUnreserved h
  have hval : (Char.ofNat b.toNat).val.toNat = b.toNat := toNat_ofNat_toNat b
  simp [String.utf8EncodeChar, hval, show b.toNat ≤ 127 by omega]

theorem ne_of_isUnreserved {b : UInt8} {mark : Char} (h : isUnreserved b = true)
    (hmark : mark = '%' ∨ mark = '=' ∨ mark = '/') : Char.ofNat b.toNat ≠ mark := by
  intro hchar
  rw [isUnreserved, hchar] at h
  rcases hmark with rfl | rfl | rfl <;> exact absurd h (by decide)

/-- None of the marks by which a name is divided is written for a byte. -/
theorem not_mem_escape {mark : Char} (hmark : mark = '=' ∨ mark = '/') (b : UInt8) :
    mark ∉ escape b := by
  cases hb : isUnreserved b with
  | true => simpa [escape, hb] using (ne_of_isUnreserved hb (.inr hmark)).symm
  | false =>
      have hnone : digit? 16 mark = none := by
        rcases hmark with rfl | rfl <;> decide
      have hpercent : mark ≠ '%' := by
        rcases hmark with rfl | rfl <;> decide
      obtain ⟨hhigh, hlow⟩ := (hexPair_upper b).ne_of_digit?_eq_none hnone
      simp [escape_of_reserved hb, hpercent, hhigh.symm, hlow.symm]

theorem escape_ne_nil (b : UInt8) : escape b ≠ [] := by
  rw [escape]
  split <;> simp

/-- The escapes of bytes spell the bytes. -/
theorem spells_escapes (value : Bytes) : Spells HexPair (value.flatMap escape) value := by
  induction value with
  | nil => exact .nil
  | cons b value ih =>
      rw [List.flatMap_cons]
      cases hb : isUnreserved b with
      | true =>
          have hplain := Spells.plain (ne_of_isUnreserved hb (.inl rfl)) ih
          rw [utf8EncodeChar_of_isUnreserved hb] at hplain
          simpa [escape, hb] using hplain
      | false =>
          rw [escape_of_reserved hb]
          exact .escape (hexPair_upper b) ih

/-! ## Components -/

theorem toChars_generic (value : Bytes) : (generic value).toChars = value.flatMap escape := by
  rw [toChars, generic, if_pos rfl]

theorem toChars_of_ne {c : Component} (h : c.type ≠ genericType) :
    c.toChars = decimal c.type.toNat ++ '=' :: c.value.flatMap escape :=
  if_neg h

theorem not_mem_escapes {mark : Char} (hmark : mark = '=' ∨ mark = '/') (value : Bytes) :
    mark ∉ value.flatMap escape := by
  intro h
  obtain ⟨b, -, hb⟩ := List.mem_flatMap.mp h
  exact not_mem_escape hmark b hb

theorem eq_generic {c : Component} (h : c.type = genericType) : c = generic c.value := by
  rw [generic, ← h]

/-- A component is denoted by its text. -/
theorem denotes_toChars (c : Component) : Denotes HexPair c.toChars c := by
  by_cases hc : c.type = genericType
  · rw [eq_generic hc, toChars_generic]
    refine .generic (fun digits value h => ?_) (spells_escapes _)
    exact not_mem_escapes (.inl rfl) c.value (h.eq ▸ by simp)
  · rw [toChars_of_ne hc]
    have htyped : Typed (decimal c.type.toNat ++ '=' :: c.value.flatMap escape)
        (decimal c.type.toNat) (c.value.flatMap escape) :=
      ⟨rfl, Nat.toDigits_ne_nil,
        fun d hd => Nat.isDigit_of_mem_toDigits (by decide) (by decide) hd⟩
    have hdenotes := Denotes.typed htyped (digits?_toDigits (by decide) (by decide) _)
      c.type.toNat_lt (spells_escapes c.value)
    rwa [UInt64.ofNat_toNat] at hdenotes

theorem slash_not_mem_toChars (c : Component) : '/' ∉ c.toChars := by
  have hescapes := not_mem_escapes (.inr rfl) c.value
  by_cases hc : c.type = genericType
  · rwa [eq_generic hc, toChars_generic]
  · have hdigits : '/' ∉ decimal c.type.toNat := fun h =>
      absurd (Nat.isDigit_of_mem_toDigits (by decide) (by decide) h) (by decide)
    simp [toChars_of_ne hc, hdigits, hescapes]

/-- Only the empty generic component has an empty text. -/
theorem toChars_eq_nil_iff {c : Component} : c.toChars = [] ↔ c = generic [] := by
  constructor
  · intro h
    by_cases hc : c.type = genericType
    · rw [eq_generic hc, toChars_generic] at h
      cases hvalue : c.value with
      | nil => rw [eq_generic hc, hvalue]
      | cons b value =>
          rw [hvalue, List.flatMap_cons, List.append_eq_nil_iff] at h
          exact absurd h.1 (escape_ne_nil b)
    · simp [toChars_of_ne hc] at h
  · rintro rfl
    rfl

end Component

namespace Name

open Component

/-! ## Names -/

theorem intercalate_slash (first : List Char) (texts : List (List Char)) :
    List.intercalate ['/'] (first :: texts) = first ++ texts.flatMap fun text => '/' :: text := by
  induction texts generalizing first with
  | nil => simp
  | cons text texts ih => rw [List.intercalate_cons_cons, ih, List.flatMap_cons]; simp

theorem parts_slash (cs : List Char) : parts ('/' :: cs) = (cs.splitOn '/').filter (· ≠ []) := by
  simp [parts, List.splitOn_cons_eq_if_modifyHead]

/-- The parts of a name's text are the texts of those components that have one. -/
theorem parts_toChars (n : Name) :
    parts n.toChars = (n.components.filter (· ≠ Component.generic [])).map Component.toChars := by
  have hkept (c : Component) : decide (c.toChars ≠ []) = decide (c ≠ Component.generic []) :=
    decide_eq_decide.mpr (not_congr toChars_eq_nil_iff)
  cases hn : n.components with
  | nil => simp [toChars, hn, parts_slash]
  | cons c cs =>
      have htext : n.toChars = '/' :: List.intercalate ['/'] ((c :: cs).map Component.toChars) := by
        simp [toChars, hn, intercalate_slash, List.flatMap_map]
      have hslash : ∀ text ∈ (c :: cs).map Component.toChars, '/' ∉ text := by
        intro text h
        obtain ⟨c, -, rfl⟩ := List.mem_map.mp h
        exact c.slash_not_mem_toChars
      rw [htext, parts_slash, List.splitOn_intercalate '/' hslash (by simp), List.filter_map]
      simp only [Function.comp_def, hkept]

theorem ofText_toText (n : Name) :
    ofText n.toText = .ok ⟨n.components.filter (· ≠ Component.generic [])⟩ := by
  rw [ofText_eq_ok_iff, toText, String.toList_ofList, parts_toChars, List.forall₂_map_left_iff,
    List.forall₂_same]
  exact fun c _ => (denotes_hexPair_iff.mp c.denotes_toChars).1

/-- The text of a name is read as the name without its empty generic components, so as the name
itself just if it has none. Of the names that have none, no two have the same text. -/
theorem read_without_empty_components (n : Name) :
    ofText n.toText = .ok ⟨n.components.filter (· ≠ Component.generic [])⟩
      ∧ (ofText n.toText = .ok n ↔ Component.generic [] ∉ n.components)
      ∧ ∀ m : Name, Component.generic [] ∉ n.components → Component.generic [] ∉ m.components →
        (n.toText = m.toText ↔ n = m) := by
  have hread (n : Name) : ofText n.toText = .ok n ↔ Component.generic [] ∉ n.components := by
    obtain ⟨components⟩ := n
    rw [ofText_toText, Except.ok.injEq, Name.mk.injEq, List.filter_eq_self]
    constructor
    · intro h hmem
      exact absurd (h _ hmem) (by decide)
    · intro h c hc
      refine decide_eq_true ?_
      rintro rfl
      exact h hc
  refine ⟨ofText_toText n, hread n, fun m hn hm => ⟨fun h => ?_, congrArg toText⟩⟩
  have hback := (hread n).mpr hn
  rw [h, (hread m).mpr hm] at hback
  exact (Except.ok.inj hback).symm

/-- A component with a type, and a generic one whose bytes look like it. -/
theorem read_without_empty_components_of_equals_sign :
    let n : Name := ⟨[⟨35, [120]⟩, ⟨0, []⟩]⟩
    let m : Name := ⟨[.generic [51, 53, 61, 120], ⟨0, []⟩]⟩
    Component.generic [] ∉ n.components ∧ Component.generic [] ∉ m.components
      ∧ ofText n.toText = .ok n ∧ ofText m.toText = .ok m ∧ n.toText ≠ m.toText := by
  intro n m
  have hn : Component.generic [] ∉ n.components := by decide
  have hm : Component.generic [] ∉ m.components := by decide
  obtain ⟨-, hreadN, htexts⟩ := read_without_empty_components n
  obtain ⟨-, hreadM, -⟩ := read_without_empty_components m
  exact ⟨hn, hm, hreadN.mpr hn, hreadM.mpr hm, fun h => absurd ((htexts m hn hm).mp h) (by decide)⟩

end Name

end NamedData
