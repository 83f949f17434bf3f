import NamedData.FaceUri
import NamedData.Proofs.Address.Literal

/-!
# The parts of a URI read back

A scheme, a host, a zone, a port and a hardware address are found again in the text that they were
written into.
-/

namespace NamedData.FaceUri

open Numeral

/-! ## Schemes -/

theorem splitScheme?_append {scheme : List Char} (hscheme : ':' ∉ scheme) (rest : List Char) :
    splitScheme? (scheme ++ "://".toList ++ rest) = some (scheme, rest) := by
  induction scheme with
  | nil => rfl
  | cons c scheme ih =>
      rw [List.mem_cons, not_or] at hscheme
      have hc : c ≠ ':' := Ne.symm hscheme.1
      rw [List.cons_append, List.cons_append, splitScheme?, ih hscheme.2]
      · rfl
      · intro rest' h
        exact absurd h hc

theorem familyScheme_four (base : String) (ip : Ip) :
    ((familyScheme base ip).getLast? == some '4') = ip.isV4 := by
  cases ip <;> simp [familyScheme, Ip.isV4]

theorem familyScheme_six (base : String) (ip : Ip) :
    ((familyScheme base ip).getLast? == some '6') = ip.isV6 := by
  cases ip <;> simp [familyScheme, Ip.isV4, Ip.isV6]

/-! ## Hosts and zones -/

/-- The path of an address and of a zone, if there is one. -/
def addressPath (ip : Ip) : Option (List Char) → List Char
  | none => ip.toChars
  | some zone => ip.toChars ++ '%' :: zone

section

variable {u : FaceUri} {ip : Ip} {zone : Option (List Char)}

theorem ne_percent_of_mem_toChars : ∀ c ∈ ip.toChars, decide (c ≠ '%') = true := by
  intro c hc
  refine decide_eq_true ?_
  rintro rfl
  exact Ip.not_mem_toChars (.inl rfl) hc

theorem host_of_path (h : u.path = addressPath ip zone) : u.host = ip.toChars := by
  rw [host, h]
  cases zone with
  | none => exact List.takeWhile_eq_self_iff.mpr ne_percent_of_mem_toChars
  | some zone => rw [addressPath, List.takeWhile_append_of_pos ne_percent_of_mem_toChars]; simp

theorem zone?_of_path (h : u.path = addressPath ip zone) : u.zone? = zone := by
  rw [zone?, h]
  cases zone with
  | none => rw [addressPath, List.dropWhile_eq_nil_iff.mpr ne_percent_of_mem_toChars]
  | some zone => rw [addressPath, List.dropWhile_append_of_pos ne_percent_of_mem_toChars]; simp

end

/-- What is a zone has no closing bracket, if no interface has one in its name. -/
theorem bracket_not_mem_zone {env : Environment}
    (hnames : ∀ name index, env.interfaceIndex? name = some index → ']' ∉ name)
    {zone : List Char} (h : (zoneIndex? env zone).isSome) : ']' ∉ zone := by
  intro hmem
  rw [zoneIndex?, if_neg (List.ne_nil_of_mem hmem)] at h
  cases hdecimal : decimal32? zone with
  | some index =>
      obtain ⟨n, hn, -⟩ := Option.map_eq_some_iff.mp hdecimal
      exact absurd (eq_plus_or_isSome_digit?_of_mem hn hmem) (by decide)
  | none =>
      rw [hdecimal] at h
      obtain ⟨index, hindex⟩ := Option.isSome_iff_exists.mp (Option.isSome_of_isSome_filter _ _ h)
      exact hnames zone index hindex hmem

/-! ## Brackets and ports -/

theorem dropWhile_eq_self {c : Char} {cs : List Char} (h : cs.head? ≠ some c) :
    cs.dropWhile (· == c) = cs := by
  cases cs with
  | nil => rfl
  | cons d cs => exact List.dropWhile_cons_of_neg (by simpa using h)

theorem trimBrackets_eq {cs : List Char} (hfront : cs.head? ≠ some '[')
    (hback : cs.getLast? ≠ some ']') : trimBrackets cs = cs := by
  have hreverse : cs.reverse.head? ≠ some ']' := List.head?_reverse ▸ hback
  rw [trimBrackets, dropWhile_eq_self hfront, dropWhile_eq_self hreverse, List.reverse_reverse]

theorem trimBrackets_bracketed {cs : List Char} (hfront : cs.head? ≠ some '[')
    (hback : cs.getLast? ≠ some ']') : trimBrackets ('[' :: cs ++ [']']) = cs := by
  have hopen : ('[' :: cs ++ [']']).dropWhile (· == '[') = cs ++ [']'] := by
    have hhead : (cs ++ [']']).head? ≠ some '[' := by
      cases cs with
      | nil => decide
      | cons c cs => exact hfront
    rw [List.cons_append, List.dropWhile_cons_of_pos rfl, dropWhile_eq_self hhead]
  have hreverse : cs.reverse.head? ≠ some ']' := List.head?_reverse ▸ hback
  have hclose : (cs ++ [']']).reverse.dropWhile (· == ']') = cs.reverse := by
    rw [List.reverse_concat, List.dropWhile_cons_of_pos rfl, dropWhile_eq_self hreverse]
  rw [trimBrackets, hopen, hclose, List.reverse_reverse]

theorem ofHostPort_append (kind : UriKind) (scheme authority : List Char) (port : UInt16) :
    ofHostPort kind scheme (authority ++ ':' :: decimal port.toNat)
      = ⟨kind, scheme, trimBrackets authority, port, false⟩ := by
  have hdigits : ∀ c ∈ (decimal port.toNat).reverse, decide (c ≠ ':') = true := fun c hc => by
    refine decide_eq_true ?_
    rintro rfl
    exact absurd (isSome_digit?_of_mem_toDigits (by decide) (by decide) (List.mem_reverse.mp hc))
      (by decide)
  have htext : (authority ++ ':' :: decimal port.toNat).reverse
      = (decimal port.toNat).reverse ++ ':' :: authority.reverse := by simp
  simp only [ofHostPort, htext, List.takeWhile_append_of_pos hdigits,
    List.dropWhile_append_of_pos hdigits]
  simp [decimal16?_decimal]

/-! ## Hardware addresses -/

theorem hardwarePath_cons_cons (b b' : UInt8) (address : Bytes) :
    hardwarePath (b :: b' :: address) = hexByte b ++ ':' :: hardwarePath (b' :: address) := by
  simp [hardwarePath, List.intercalate_cons_cons]

theorem isHexDigit_of_mem_hexByte {b : UInt8} {c : Char} (h : c ∈ hexByte b) :
    (digit? 16 c).isSome := by
  have hlt := b.toNat_lt
  have hdigit {d : Nat} (hd : d < 16) : (digit? 16 (Nat.digitChar d)).isSome := by
    rw [digit?_digitChar hd (by decide), Option.isSome_some]
  simp only [hexByte, List.mem_cons, List.not_mem_nil, or_false] at h
  rcases h with rfl | rfl
  · exact hdigit (by omega)
  · exact hdigit (by omega)

theorem not_separator_of_mem_hexByte {b : UInt8} {c : Char} (h : c ∈ hexByte b) :
    (c == ':' || c == '-') = false := by
  have hdigit := isHexDigit_of_mem_hexByte h
  rw [Bool.or_eq_false_iff, beq_eq_false_iff_ne, beq_eq_false_iff_ne]
  constructor
  · rintro rfl
    exact absurd hdigit (by decide)
  · rintro rfl
    exact absurd hdigit (by decide)

theorem splitOnP_hardwarePath (b : UInt8) (address : Bytes) :
    (hardwarePath (b :: address)).splitOnP (fun c => c == ':' || c == '-')
      = (b :: address).map hexByte := by
  induction address generalizing b with
  | nil =>
      have hsingle : hardwarePath [b] = hexByte b := by simp [hardwarePath]
      rw [hsingle, List.splitOnP_eq_singleton fun c hc => not_separator_of_mem_hexByte hc]
      rfl
  | cons b' address ih =>
      rw [hardwarePath_cons_cons, List.splitOnP_append_cons_of_forall_mem
        (fun c hc => not_separator_of_mem_hexByte hc) ':' rfl, ih]
      rfl

theorem length_of_mapM {α β : Type} {f : α → Option β} {xs : List α} {ys : List β}
    (h : xs.mapM f = some ys) : ys.length = xs.length := by
  induction xs generalizing ys with
  | nil => cases h; rfl
  | cons x xs ih =>
      simp only [List.mapM_cons, Option.bind_eq_bind, Option.bind_eq_some_iff, Option.pure_def,
        Option.some.injEq] at h
      obtain ⟨y, -, ys', hys, rfl⟩ := h
      rw [List.length_cons, List.length_cons, ih hys]

theorem mapM_map_eq_some {α β : Type} {f : β → Option α} {g : α → β}
    (h : ∀ x, f (g x) = some x) (xs : List α) : (xs.map g).mapM f = some xs := by
  induction xs with
  | nil => rfl
  | cons x xs ih => simp [h, ih]

theorem hardwareAddress?_hardwarePath {address : Bytes} (h : address.length = 6) :
    hardwareAddress? (hardwarePath address) = some address := by
  cases address with
  | nil => cases h
  | cons b address =>
      rw [hardwareAddress?, splitOnP_hardwarePath]
      simp only [List.length_map, h, guard_true, pure_bind]
      exact mapM_map_eq_some (g := hexByte) (fun b => hexByte?_hexByte b) (b :: address)

theorem length_of_hardwareAddress? {cs : List Char} {address : Bytes}
    (h : hardwareAddress? cs = some address) : address.length = 6 := by
  simp only [hardwareAddress?, Option.bind_eq_bind, Option.bind_eq_some_iff,
    Option.guard_eq_some'] at h
  obtain ⟨-, hparts, hbytes⟩ := h
  rw [length_of_mapM hbytes, hparts]

theorem isHexDigit_or_colon_of_mem_hardwarePath {address : Bytes} {c : Char}
    (h : c ∈ hardwarePath address) : c = ':' ∨ (digit? 16 c).isSome := by
  cases address with
  | nil => cases h
  | cons b address =>
      induction address generalizing b with
      | nil => exact .inr (isHexDigit_of_mem_hexByte (by simpa [hardwarePath] using h))
      | cons b' address ih =>
          rw [hardwarePath_cons_cons, List.mem_append, List.mem_cons] at h
          rcases h with h | rfl | h
          · exact .inr (isHexDigit_of_mem_hexByte h)
          · exact .inl rfl
          · exact ih b' h

theorem trimBrackets_hardwarePath (address : Bytes) :
    trimBrackets ('[' :: hardwarePath address ++ [']']) = hardwarePath address := by
  have hmark {c : Char} (hc : c = '[' ∨ c = ']') : c ∉ hardwarePath address := by
    intro hmem
    have hdigit := isHexDigit_or_colon_of_mem_hardwarePath hmem
    rcases hc with rfl | rfl
    · exact absurd hdigit (by decide)
    · exact absurd hdigit (by decide)
  exact trimBrackets_bracketed (fun h => hmark (.inl rfl) (List.mem_of_mem_head? h))
    (fun h => hmark (.inr rfl) (List.mem_of_getLast? h))

end NamedData.FaceUri
