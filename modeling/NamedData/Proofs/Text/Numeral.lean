import Mathlib
import NamedData.Text.Numeral

/-!
# Numerals read back

The digits of a number denote it, in every base up to sixteen.
-/

namespace NamedData.Numeral

variable {base : Nat}

/-! ## Digits -/

theorem digit?_eq_filter (hbase : base ≤ 16) (c : Char) :
    digit? base c = (digit? 16 c).filter (· < base) := by
  have hsame (v : Nat) : (decide (v < 16) && decide (v < base)) = decide (v < base) := by
    simpa using fun h => by omega
  simp only [digit?, Option.filter_filter, hsame]

theorem isSome_digit?_sixteen (hbase : base ≤ 16) {c : Char} (h : (digit? base c).isSome) :
    (digit? 16 c).isSome := by
  rw [digit?_eq_filter hbase] at h
  exact Option.isSome_of_isSome_filter _ _ h

theorem digit?_digitChar {d : Nat} (hd : d < base) (hbase : base ≤ 16) :
    digit? base (Nat.digitChar d) = some d := by
  have hall : ∀ d < 16, digit? 16 (Nat.digitChar d) = some d := by decide
  rw [digit?_eq_filter hbase, hall d (by omega), Option.filter_some, if_pos (by simpa using hd)]

theorem digit?_lt {c : Char} {d : Nat} (h : digit? base c = some d) : d < base := by
  simpa using (Option.filter_eq_some_iff.mp h).2

theorem digits?_eq_foldlM {cs : List Char} (h : cs ≠ []) :
    digits? base cs = cs.foldlM (fun acc c => (digit? base c).map (acc * base + ·)) 0 := by
  cases cs with
  | nil => exact absurd rfl h
  | cons c cs => rfl

theorem digits?_concat {cs : List Char} (h : cs ≠ []) (c : Char) :
    digits? base (cs ++ [c])
      = (digits? base cs).bind fun acc => (digit? base c).map (acc * base + ·) := by
  rw [digits?_eq_foldlM (by simp), digits?_eq_foldlM h, List.foldlM_append]
  refine congrArg _ (funext fun acc => ?_)
  rw [List.foldlM_cons]
  cases digit? base c <;> rfl

theorem digits?_singleton (base : Nat) (c : Char) : digits? base [c] = digit? base c := by
  rw [digits?_eq_foldlM (by simp), List.foldlM_cons]
  cases digit? base c <;> simp

theorem digits?_pair (base : Nat) (high low : Char) :
    digits? base [high, low]
      = (digit? base high).bind fun h => (digit? base low).map (h * base + ·) := by
  have hconcat : digits? base ([high] ++ [low])
      = (digits? base [high]).bind fun h => (digit? base low).map (h * base + ·) :=
    digits?_concat (List.cons_ne_nil high []) low
  rwa [digits?_singleton] at hconcat

/-- A numeral without superfluous digits denotes its number. -/
theorem digits?_toDigits (h1 : 1 < base) (hbase : base ≤ 16) (n : Nat) :
    digits? base (Nat.toDigits base n) = some n := by
  induction n using Nat.strongRecOn with
  | ind n ih =>
      by_cases hn : n < base
      · rw [Nat.toDigits_of_lt_base hn, digits?_eq_foldlM (by simp), List.foldlM_cons,
          digit?_digitChar hn hbase]
        simp
      · have hle : base ≤ n := Nat.not_lt.mp hn
        have hlt : n / base < n := Nat.div_lt_self (by omega) h1
        have hmod : n % base < base := Nat.mod_lt n (by omega)
        rw [Nat.toDigits_of_base_le h1 hle, digits?_concat Nat.toDigits_ne_nil, ih _ hlt,
          Option.bind_some, digit?_digitChar hmod hbase, Option.map_some, Nat.div_add_mod']

theorem isSome_digit?_of_mem_toDigits (h1 : 1 < base) (hbase : base ≤ 16) {n : Nat} {c : Char}
    (h : c ∈ Nat.toDigits base n) : (digit? base c).isSome := by
  induction n using Nat.strongRecOn with
  | ind n ih =>
      by_cases hn : n < base
      · rw [Nat.toDigits_of_lt_base hn, List.mem_singleton] at h
        rw [h, digit?_digitChar hn hbase, Option.isSome_some]
      · have hle : base ≤ n := Nat.not_lt.mp hn
        rw [Nat.toDigits_of_base_le h1 hle, List.mem_append, List.mem_singleton] at h
        rcases h with h | rfl
        · exact ih _ (Nat.div_lt_self (by omega) h1) h
        · rw [digit?_digitChar (Nat.mod_lt n (by omega)) hbase, Option.isSome_some]

theorem isSome_digit?_of_mem {cs : List Char} {n : Nat} {c : Char} (h : digits? base cs = some n)
    (hc : c ∈ cs) : (digit? base c).isSome := by
  have hfold (acc : Nat)
      (h : cs.foldlM (fun acc c => (digit? base c).map (acc * base + ·)) acc = some n) :
      (digit? base c).isSome := by
    clear * - h hc
    induction cs generalizing acc with
    | nil => cases hc
    | cons d cs ih =>
        rw [List.foldlM_cons] at h
        obtain ⟨acc', hd, h⟩ := Option.bind_eq_some_iff.mp h
        rcases List.mem_cons.mp hc with rfl | hc
        · obtain ⟨v, hv, -⟩ := Option.map_eq_some_iff.mp hd
          rw [hv, Option.isSome_some]
        · exact ih hc acc' h
  exact hfold 0 (digits?_eq_foldlM (List.ne_nil_of_mem hc) ▸ h)

/-- Only zero begins with the digit zero. -/
theorem eq_zero_of_head?_toDigits (h1 : 1 < base) {n : Nat}
    (h : (Nat.toDigits base n).head? = some '0') : n = 0 := by
  induction n using Nat.strongRecOn with
  | ind n ih =>
      by_cases hn : n < base
      · rw [Nat.toDigits_of_lt_base hn, List.head?_cons, Option.some.injEq] at h
        exact Nat.digitChar_eq_zero.mp h
      · have hle : base ≤ n := Nat.not_lt.mp hn
        rw [Nat.toDigits_of_base_le h1 hle, List.head?_append_of_ne_nil _ Nat.toDigits_ne_nil] at h
        have hzero := ih _ (Nat.div_lt_self (by omega) h1) h
        have hpos := Nat.div_pos hle (by omega)
        omega

/-! ## Numerals with a limit -/

theorem unsigned?_of_head {limit : Nat} {cs : List Char} (h : cs.head? ≠ some '+') :
    unsigned? base limit cs = (digits? base cs).filter (· ≤ limit) := by
  unfold unsigned?
  split
  · exact absurd rfl h
  · rfl

theorem unsigned?_toDigits (h1 : 1 < base) (hbase : base ≤ 16) {n limit : Nat} (hn : n ≤ limit) :
    unsigned? base limit (Nat.toDigits base n) = some n := by
  have hplus : (Nat.toDigits base n).head? ≠ some '+' := by
    intro h
    have hdigit := isSome_digit?_of_mem_toDigits h1 hbase (List.mem_of_mem_head? h)
    have hnone : digit? 16 '+' = none := by decide
    rw [digit?_eq_filter hbase, hnone] at hdigit
    cases hdigit
  rw [unsigned?_of_head hplus, digits?_toDigits h1 hbase, Option.filter_some,
    if_pos (by simpa using hn)]

theorem eq_plus_or_isSome_digit?_of_mem {limit n : Nat} {cs : List Char} {c : Char}
    (h : unsigned? base limit cs = some n) (hc : c ∈ cs) : c = '+' ∨ (digit? base c).isSome := by
  unfold unsigned? at h
  obtain ⟨hdigits, -⟩ := Option.filter_eq_some_iff.mp h
  split at hdigits
  · rcases List.mem_cons.mp hc with rfl | hc
    · exact .inl rfl
    · exact .inr (isSome_digit?_of_mem hdigits hc)
  · exact .inr (isSome_digit?_of_mem hdigits hc)

theorem decimal16?_decimal (n : UInt16) : decimal16? (decimal n.toNat) = some n := by
  have hlt := n.toNat_lt
  rw [decimal16?, decimal, unsigned?_toDigits (by decide) (by decide) (by omega), Option.map_some,
    UInt16.ofNat_toNat]

theorem decimal32?_decimal (n : UInt32) : decimal32? (decimal n.toNat) = some n := by
  have hlt := n.toNat_lt
  rw [decimal32?, decimal, unsigned?_toDigits (by decide) (by decide) (by omega), Option.map_some,
    UInt32.ofNat_toNat]

/-! ## Bytes in hexadecimal -/

theorem hexByte?_plus (low : Char) : hexByte? '+' low = (digit? 16 low).map UInt8.ofNat := by
  simp only [hexByte?, unsigned?, digits?_singleton]
  cases hlow : digit? 16 low with
  | none => rfl
  | some l =>
      have hlt := digit?_lt hlow
      rw [Option.filter_some, if_pos (by simpa using by omega)]

theorem hexByte?_of_ne_plus {high : Char} (h : high ≠ '+') (low : Char) :
    hexByte? high low
      = (digit? 16 high).bind fun h => (digit? 16 low).map fun l => UInt8.ofNat (h * 16 + l) := by
  rw [hexByte?, unsigned?_of_head (by simpa using h), digits?_pair]
  cases hhigh : digit? 16 high with
  | none => rfl
  | some h =>
      cases hlow : digit? 16 low with
      | none => rfl
      | some l =>
          have hh := digit?_lt hhigh
          have hl := digit?_lt hlow
          have hle : h * 16 + l ≤ 255 := by omega
          simp [Option.filter_some, hle]

theorem hexByte?_hexByte (b : UInt8) :
    hexByte? (Nat.digitChar (b.toNat / 16)) (Nat.digitChar (b.toNat % 16)) = some b := by
  have hlt := b.toNat_lt
  have hhigh : b.toNat / 16 < 16 := by omega
  have hlow : b.toNat % 16 < 16 := by omega
  have hplus : Nat.digitChar (b.toNat / 16) ≠ '+' := by simp
  rw [hexByte?_of_ne_plus hplus, digit?_digitChar hhigh (by decide),
    digit?_digitChar hlow (by decide), Option.bind_some, Option.map_some, Nat.div_add_mod',
    UInt8.ofNat_toNat]

end NamedData.Numeral
