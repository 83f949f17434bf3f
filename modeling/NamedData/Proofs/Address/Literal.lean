import NamedData.Address.Literal
import NamedData.Proofs.Text.Numeral

/-!
# Address literals read back

The text of an address denotes the address, and has none of the characters by which the parts of a
URI are told apart.
-/

namespace NamedData

open Numeral

namespace Literal

variable {base most : Nat} {leadingZero : Bool} {rest cs : List Char}

/-! ## Numbers -/

/-- A text that does not begin with a digit, so that digits in front of it end there. -/
def EndsDigits (base : Nat) (cs : List Char) : Prop :=
  ∀ c ∈ cs.head?, digit? base c = none

theorem takeWhile_digits (digits : List Char) (hdigits : ∀ c ∈ digits, (digit? base c).isSome)
    (hrest : EndsDigits base rest) :
    (digits ++ rest).takeWhile (fun c => (digit? base c).isSome) = digits := by
  rw [List.takeWhile_append_of_pos hdigits]
  cases rest with
  | nil => exact List.append_nil digits
  | cons c rest =>
      have hc : digit? base c = none := hrest c rfl
      simp [hc]

theorem number?_toDigits (h1 : 1 < base) (hbase : base ≤ 16) {n : Nat} (hmost : 0 < most)
    (hn : n < base ^ most) (hrest : EndsDigits base rest) :
    number? base most leadingZero (Nat.toDigits base n ++ rest) = some (n, rest) := by
  have hdigits := takeWhile_digits (Nat.toDigits base n)
    (fun c hc => isSome_digit?_of_mem_toDigits h1 hbase hc) hrest
  have hlength : (Nat.toDigits base n).length ≤ most := (Nat.length_toDigits_le_iff h1 hmost).mpr hn
  -- A leading zero is the whole number.
  have hzero : (leadingZero = true ∨ (Nat.toDigits base n).length ≤ 1)
      ∨ ¬ (Nat.toDigits base n).head? = some '0' := by
    by_cases hhead : (Nat.toDigits base n).head? = some '0'
    · rw [eq_zero_of_head?_toDigits h1 hhead, Nat.toDigits_zero]
      exact .inl (.inr (by simp))
    · exact .inr hhead
  simp [number?, hdigits, hlength, hzero, digits?_toDigits h1 hbase]

theorem number?_eq_none (h : EndsDigits base cs) : number? base most leadingZero cs = none := by
  have hdigits := takeWhile_digits [] (fun c hc => by cases hc) h
  rw [List.nil_append] at hdigits
  simp [number?, hdigits, digits?]

theorem exists_of_number? {n : Nat} (h : number? base most leadingZero cs = some (n, rest)) :
    ∃ digits, cs = digits ++ rest ∧ ∀ c ∈ digits, (digit? base c).isSome := by
  simp only [number?, Option.bind_eq_bind, Option.bind_eq_some_iff, Option.pure_def,
    Option.some.injEq, Prod.mk.injEq] at h
  obtain ⟨-, -, -, -, n', -, -, hrest⟩ := h
  refine ⟨cs.takeWhile fun c => (digit? base c).isSome, ?_, fun c hc => ?_⟩
  · rw [← hrest]
    have hprefix := List.takeWhile_prefix (fun c => (digit? base c).isSome) (l := cs)
    exact (List.prefix_iff_eq_append.mp hprefix).symm
  · exact List.mem_takeWhile_imp (p := fun c => (digit? base c).isSome) hc

/-! ## Dotted addresses -/

theorem octet?_decimal (b : UInt8) (hrest : EndsDigits 10 rest) :
    octet? (decimal b.toNat ++ rest) = some (b, rest) := by
  have hlt := b.toNat_lt
  have hnumber : number? 10 3 false (decimal b.toNat ++ rest) = some (b.toNat, rest) :=
    number?_toDigits (by decide) (by decide) (by decide) (by omega) hrest
  simp [octet?, hnumber, show b.toNat ≤ 255 by omega]

theorem ipv4Front?_toChars (ip : Ipv4) {rest : List Char} (hrest : EndsDigits 10 rest) :
    ipv4Front? (ip.toChars ++ rest) = some (ip, rest) := by
  have hdot (cs : List Char) : EndsDigits 10 ('.' :: cs) := by
    rintro c ⟨⟩
    decide
  simp only [ipv4Front?, Ipv4.toChars, List.append_assoc, List.cons_append,
    octet?_decimal _ (hdot _), octet?_decimal _ hrest, after?, Option.bind_eq_bind,
    Option.bind_some, Option.pure_def, ↓reduceIte]

theorem ipv4Front?_eq_none (h : EndsDigits 10 cs) : ipv4Front? cs = none := by
  simp [ipv4Front?, octet?, number?_eq_none h]

theorem exists_of_octet? {b : UInt8} (h : octet? cs = some (b, rest)) :
    ∃ digits, cs = digits ++ rest ∧ ∀ c ∈ digits, (digit? 10 c).isSome := by
  simp only [octet?, Option.bind_eq_bind, Option.bind_eq_some_iff, Option.pure_def,
    Option.some.injEq, Prod.mk.injEq] at h
  obtain ⟨⟨n, rest'⟩, hnumber, -, -, -, rfl⟩ := h
  exact exists_of_number? hnumber

theorem eq_cons_of_after? {separator : Char} (h : after? separator cs = some rest) :
    cs = separator :: rest := by
  cases cs with
  | nil => cases h
  | cons c cs =>
      simp only [after?, Option.ite_none_right_eq_some, Option.some.injEq] at h
      rw [h.1, h.2]

/-- What is read as a dotted address has dots, and digits between them. -/
theorem exists_of_ipv4Front? {ip : Ipv4} (h : ipv4Front? cs = some (ip, rest)) :
    ∃ front, cs = front ++ rest ∧ '.' ∈ front ∧ ∀ c ∈ front, c = '.' ∨ (digit? 10 c).isSome := by
  simp only [ipv4Front?, Option.bind_eq_bind, Option.bind_eq_some_iff, Option.pure_def,
    Option.some.injEq, Prod.mk.injEq] at h
  obtain ⟨⟨a, cs₁⟩, ha, cs₂, hdot₁, ⟨b, cs₃⟩, hb, cs₄, hdot₂, ⟨c, cs₅⟩, hc, cs₆, hdot₃, ⟨d, cs₇⟩,
    hd, -, rfl⟩ := h
  obtain ⟨as, rfl, has⟩ := exists_of_octet? ha
  obtain ⟨bs, rfl, hbs⟩ := exists_of_octet? hb
  obtain ⟨cs', rfl, hcs⟩ := exists_of_octet? hc
  obtain ⟨ds, rfl, hds⟩ := exists_of_octet? hd
  cases eq_cons_of_after? hdot₁
  cases eq_cons_of_after? hdot₂
  cases eq_cons_of_after? hdot₃
  refine ⟨as ++ '.' :: bs ++ '.' :: cs' ++ '.' :: ds, by simp, by simp, fun x hx => ?_⟩
  simp only [List.append_assoc, List.cons_append, List.mem_append, List.mem_cons] at hx
  rcases hx with hx | rfl | hx | rfl | hx | rfl | hx
  · exact .inr (has x hx)
  · exact .inl rfl
  · exact .inr (hbs x hx)
  · exact .inl rfl
  · exact .inr (hcs x hx)
  · exact .inl rfl
  · exact .inr (hds x hx)

theorem ipv4Front?_of_no_dot (h : '.' ∉ cs) : ipv4Front? cs = none := by
  cases hfront : ipv4Front? cs with
  | none => rfl
  | some r =>
      obtain ⟨front, rfl, hdot, -⟩ := exists_of_ipv4Front? hfront
      exact absurd (List.mem_append_left _ hdot) h

/-! ## Groups -/

/-- Groups with a colon in front of each. -/
def laterGroups (gs : List UInt16) : List Char :=
  gs.flatMap fun g => ':' :: hex g.toNat

theorem joinGroups_cons (g : UInt16) (gs : List UInt16) :
    Ipv6.joinGroups (g :: gs) = hex g.toNat ++ laterGroups gs := by
  induction gs generalizing g with
  | nil => simp [Ipv6.joinGroups, laterGroups]
  | cons h gs ih =>
      have hlater : laterGroups (h :: gs) = ':' :: (hex h.toNat ++ laterGroups gs) := rfl
      rw [hlater, ← ih h]
      simp [Ipv6.joinGroups, List.intercalate_cons_cons]

theorem isHexOrColon_of_mem_laterGroups {gs : List UInt16} {c : Char} (h : c ∈ laterGroups gs) :
    c = ':' ∨ (digit? 16 c).isSome := by
  obtain ⟨g, -, hc⟩ := List.mem_flatMap.mp h
  rcases List.mem_cons.mp hc with rfl | hc
  · exact .inl rfl
  · exact .inr (isSome_digit?_of_mem_toDigits (by decide) (by decide) hc)

theorem isHexOrColon_of_mem_joinGroups {gs : List UInt16} {c : Char}
    (h : c ∈ Ipv6.joinGroups gs) : c = ':' ∨ (digit? 16 c).isSome := by
  cases gs with
  | nil => simp [Ipv6.joinGroups] at h
  | cons g gs =>
      rw [joinGroups_cons, List.mem_append] at h
      rcases h with h | h
      · exact .inr (isSome_digit?_of_mem_toDigits (by decide) (by decide) h)
      · exact isHexOrColon_of_mem_laterGroups h

/-- What may stand behind groups: nothing, or two colons where groups are missing. -/
def EndsGroups (cs : List Char) : Prop :=
  cs = [] ∨ ∃ rest, cs = ':' :: ':' :: rest

theorem endsDigits_nil (base : Nat) : EndsDigits base [] := by
  rintro c ⟨⟩

theorem endsDigits_colon (base : Nat) (cs : List Char) : EndsDigits base (':' :: cs) := by
  rintro c ⟨⟩
  rw [Numeral.digit?]
  rfl

theorem EndsGroups.endsDigits (h : EndsGroups cs) (base : Nat) : EndsDigits base cs := by
  rcases h with rfl | ⟨rest, rfl⟩
  · exact endsDigits_nil base
  · exact endsDigits_colon base _

theorem endsDigits_laterGroups (gs : List UInt16) (h : EndsGroups rest) (base : Nat) :
    EndsDigits base (laterGroups gs ++ rest) := by
  cases gs with
  | nil => exact h.endsDigits base
  | cons g gs => exact endsDigits_colon base _

/-- No group is read where neither a digit nor a colon before one stands. -/
theorem groupsFront_of_none {room : Nat} {first : Bool}
    (h : ∀ body, (if first then some cs else after? ':' cs) = some body → EndsDigits 10 body
      ∧ EndsDigits 16 body) :
    groupsFront room first cs = ⟨[], false, cs⟩ := by
  cases room with
  | zero => rfl
  | succ room =>
      rw [groupsFront]
      cases hbody : if first then some cs else after? ':' cs with
      | none => rfl
      | some body =>
          obtain ⟨h10, h16⟩ := h body hbody
          simp [ipv4Front?_eq_none h10, number?_eq_none h16]

theorem groupsFront_of_end (room : Nat) (h : EndsGroups cs) :
    groupsFront room false cs = ⟨[], false, cs⟩ := by
  refine groupsFront_of_none fun body hbody => ?_
  rcases h with rfl | ⟨rest, rfl⟩
  · cases hbody
  · cases hbody
    exact ⟨endsDigits_colon 10 rest, endsDigits_colon 16 rest⟩

theorem groupsFront_cons (room : Nat) {first : Bool} {g : UInt16}
    (hbody : (if first then some cs else after? ':' cs) = some (hex g.toNat ++ rest))
    (hfront : ipv4Front? (hex g.toNat ++ rest) = none) (hrest : EndsDigits 16 rest) :
    groupsFront (room + 1) first cs
      = { groupsFront room false rest with
          groups := g :: (groupsFront room false rest).groups } := by
  have hlt := g.toNat_lt
  have hnumber : number? 16 4 true (hex g.toNat ++ rest) = some (g.toNat, rest) :=
    number?_toDigits (by decide) (by decide) (by decide) (by omega) hrest
  rw [groupsFront, hbody]
  simp [hfront, hnumber]

theorem not_dot_of_isHexOrColon {c : Char} (h : c = ':' ∨ (digit? 16 c).isSome) : c ≠ '.' := by
  rintro rfl
  rcases h with h | h
  · cases h
  · exact absurd h (by decide)

theorem ipv4Front?_group (g : UInt16) (gs : List UInt16) (hdot : '.' ∉ rest) :
    ipv4Front? (hex g.toNat ++ (laterGroups gs ++ rest)) = none := by
  refine ipv4Front?_of_no_dot fun hmem => ?_
  rw [← List.append_assoc, ← joinGroups_cons, List.mem_append] at hmem
  rcases hmem with hmem | hmem
  · exact not_dot_of_isHexOrColon (isHexOrColon_of_mem_joinGroups hmem) rfl
  · exact hdot hmem

theorem groupsFront_laterGroups {room : Nat} (gs : List UInt16) (hroom : gs.length ≤ room)
    (hend : EndsGroups rest) (hdot : '.' ∉ rest) :
    groupsFront room false (laterGroups gs ++ rest) = ⟨gs, false, rest⟩ := by
  induction gs generalizing room with
  | nil => exact groupsFront_of_end room hend
  | cons g gs ih =>
      obtain ⟨room, rfl⟩ := Nat.exists_eq_add_of_le' (Nat.lt_of_lt_of_le (Nat.succ_pos _) hroom)
      rw [groupsFront_cons room (by simp [laterGroups, after?]) (ipv4Front?_group g gs hdot)
        (endsDigits_laterGroups gs hend 16), ih (by simpa using hroom)]

/-- Groups are read back up to where they end. -/
theorem groupsFront_joinGroups (room : Nat) (gs : List UInt16) (hroom : gs.length ≤ room)
    (hend : EndsGroups rest) (hdot : '.' ∉ rest) :
    groupsFront room true (Ipv6.joinGroups gs ++ rest) = ⟨gs, false, rest⟩ := by
  cases gs with
  | nil =>
      refine groupsFront_of_none fun body hbody => ?_
      cases hbody
      exact ⟨hend.endsDigits 10, hend.endsDigits 16⟩
  | cons g gs =>
      obtain ⟨room, rfl⟩ := Nat.exists_eq_add_of_le' (Nat.lt_of_lt_of_le (Nat.succ_pos _) hroom)
      rw [joinGroups_cons, List.append_assoc,
        groupsFront_cons room rfl (ipv4Front?_group g gs hdot) (endsDigits_laterGroups gs hend 16),
        groupsFront_laterGroups gs (by simpa using hroom) hend hdot]

/-- The groups of a mapped address are one in hexadecimal and two in dotted decimal. -/
theorem groupsFront_mapped (ip : Ipv4) :
    groupsFront 7 true ("ffff:".toList ++ ip.toChars) = ⟨0xffff :: ip.groups, true, []⟩ := by
  have hhead (cs : List Char) : EndsDigits 10 ('f' :: cs) := by
    rintro c ⟨⟩
    decide
  have hlast : groupsFront 6 false (':' :: ip.toChars) = ⟨ip.groups, true, []⟩ := by
    have hfront := ipv4Front?_toChars ip (endsDigits_nil 10)
    rw [List.append_nil] at hfront
    simp [groupsFront, after?, hfront]
  have htext : "ffff:".toList ++ ip.toChars = hex (0xffff : UInt16).toNat ++ ':' :: ip.toChars :=
    rfl
  rw [htext, groupsFront_cons 6 rfl (ipv4Front?_eq_none (hhead _)) (endsDigits_colon 16 _), hlast]

end Literal

open Literal

/-! ## Addresses -/

theorem Ipv4.parse?_toChars (ip : Ipv4) : parse? ip.toChars = some ip := by
  have hfront := ipv4Front?_toChars ip (endsDigits_nil 10)
  rw [List.append_nil] at hfront
  simp [parse?, hfront]

theorem Ipv4.isDotOrDigit_of_mem_toChars {ip : Ipv4} {c : Char} (h : c ∈ ip.toChars) :
    c = '.' ∨ (digit? 10 c).isSome := by
  obtain ⟨front, hfront, -, hall⟩ :=
    exists_of_ipv4Front? (ipv4Front?_toChars ip (endsDigits_nil 10))
  rw [List.append_nil, List.append_nil] at hfront
  exact hall c (hfront ▸ h)

/-- No dotted address has a colon. -/
theorem Ipv4.parse?_eq_none {cs : List Char} (h : ':' ∈ cs) : parse? cs = none := by
  cases hparse : parse? cs with
  | none => rfl
  | some ip =>
      simp only [parse?, Option.bind_eq_bind, Option.bind_eq_some_iff, Option.pure_def,
        Option.some.injEq, Prod.exists, Option.guard_eq_some'] at hparse
      obtain ⟨ip', rest, hfront, -, rfl, -⟩ := hparse
      obtain ⟨front, rfl, -, hall⟩ := exists_of_ipv4Front? hfront
      rw [List.append_nil] at h
      exact absurd (hall ':' h) (by decide)

theorem Ipv4.groups_ofGroups (high low : UInt16) :
    (Ipv4.ofGroups high low).groups = [high, low] := by
  have hjoin (g : UInt16) : (g / 256).toUInt8.toUInt16 * 256 + g.toUInt8.toUInt16 = g := by
    have hlt := g.toNat_lt
    rw [← UInt16.toNat_inj]
    simp
    omega
  simp only [groups, ofGroups, hjoin]

namespace Ipv6

theorem ofGroups?_groups (ip : Ipv6) : ofGroups? ip.groups.toList = some ip := by
  have hvector (h : ip.groups.toList.toArray.size = 8) :
      Vector.mk ip.groups.toList.toArray h = ip.groups := Vector.mk_eq.mpr rfl
  rw [ofGroups?, dif_pos (by simp), hvector]

/-- Where the longest run of zero groups stands, the groups are zero. -/
theorem longestZeros_spec (start : Nat) (gs : List UInt16) :
    ∃ i, (longestZeros start gs).1 = start + i
      ∧ gs = gs.take i ++ (List.replicate (longestZeros start gs).2 0
        ++ gs.drop (i + (longestZeros start gs).2)) := by
  induction gs generalizing start with
  | nil => exact ⟨0, rfl, rfl⟩
  | cons g gs ih =>
      simp only [longestZeros]
      by_cases hlater : (longestZeros (start + 1) gs).2 ≤ ((g :: gs).takeWhile (· == 0)).length
      · rw [if_pos hlater]
        have hzeros : (g :: gs).takeWhile (· == 0)
            = List.replicate ((g :: gs).takeWhile (· == 0)).length 0 :=
          List.eq_replicate_of_mem fun b hb =>
            eq_of_beq (List.mem_takeWhile_imp (p := fun x => x == 0) hb)
        have hprefix := List.prefix_iff_eq_append.mp
          (List.takeWhile_prefix (l := g :: gs) fun x => x == 0)
        refine ⟨0, rfl, ?_⟩
        rw [List.take_zero, List.nil_append, Nat.zero_add, ← hzeros, hprefix]
      · obtain ⟨i, hstart, hgroups⟩ := ih (start + 1)
        rw [if_neg hlater]
        refine ⟨i + 1, by omega, ?_⟩
        rw [List.take_succ_cons, Nat.add_right_comm, List.drop_succ_cons, List.cons_append,
          ← hgroups]

theorem groups_of_toIpv4Mapped? {ip : Ipv6} {v4 : Ipv4} (h : ip.toIpv4Mapped? = some v4) :
    ip.groups.toList = List.replicate 5 0 ++ 0xffff :: v4.groups := by
  unfold toIpv4Mapped? at h
  split at h
  · next high low hgroups =>
      cases h
      rw [hgroups, Ipv4.groups_ofGroups]
      rfl
  · cases h

/-- The text of an address leaves out a run of zero groups or nothing. -/
theorem toChars_eq (ip : Ipv6) (h : ip.toIpv4Mapped? = none) :
    ip.toChars = joinGroups ip.groups.toList
      ∨ ∃ front missing back, 2 ≤ missing
        ∧ ip.groups.toList = front ++ (List.replicate missing 0 ++ back)
        ∧ ip.toChars = joinGroups front ++ ("::".toList ++ joinGroups back) := by
  obtain ⟨i, hstart, hgroups⟩ := longestZeros_spec 0 ip.groups.toList
  rw [Nat.zero_add] at hstart
  rw [toChars, h]
  dsimp only
  split
  · exact .inl rfl
  · exact .inr ⟨_, _, _, by omega, hgroups, by rw [hstart, List.append_assoc]⟩

theorem colon_mem_toChars (ip : Ipv6) : ':' ∈ ip.toChars := by
  have hlength : ip.groups.toList.length = 8 := by simp
  cases hmapped : ip.toIpv4Mapped? with
  | some v4 => simp [toChars, hmapped]
  | none =>
      rcases toChars_eq ip hmapped with h | ⟨front, missing, back, -, -, h⟩
      · match hgs : ip.groups.toList with
        | g :: g' :: gs => simp [h, hgs, joinGroups_cons, laterGroups]
        | [g] => simp [hgs] at hlength
        | [] => simp [hgs] at hlength
      · simp [h]

/-- Two colons stand for the zero groups that are missing between those on their two sides. -/
theorem parse?_of_missing {ip : Ipv6} {cs rest : List Char} {front back : List UInt16}
    {missing : Nat} {dotted : Bool}
    (hfront : groupsFront 8 true cs = ⟨front, false, ':' :: ':' :: rest⟩)
    (hback : groupsFront (7 - front.length) true rest = ⟨back, dotted, []⟩)
    (hmissing : 0 < missing)
    (hgroups : ip.groups.toList = front ++ (List.replicate missing 0 ++ back)) :
    parse? cs = some ip := by
  have hlength := congrArg List.length hgroups
  simp only [Vector.length_toList, List.length_append, List.length_replicate] at hlength
  have hcount : 8 - front.length - back.length = missing := by omega
  rw [parse?, hfront]
  simp [after?, hback, hcount, show front.length ≠ 8 by omega, ← hgroups, ofGroups?_groups]

theorem parse?_toChars (ip : Ipv6) : parse? ip.toChars = some ip := by
  have hnone : EndsGroups ([] : List Char) := .inl rfl
  cases hmapped : ip.toIpv4Mapped? with
  | some v4 =>
      have htext : ip.toChars = ':' :: ':' :: ("ffff:".toList ++ v4.toChars) := by
        rw [toChars, hmapped]
        rfl
      have hfront : groupsFront 8 true ip.toChars
          = ⟨[], false, ':' :: ':' :: ("ffff:".toList ++ v4.toChars)⟩ := by
        rw [htext]
        exact groupsFront_of_none fun body hbody => by
          cases hbody
          exact ⟨endsDigits_colon 10 _, endsDigits_colon 16 _⟩
      have hgroups : ip.groups.toList = [] ++ (List.replicate 5 0 ++ 0xffff :: v4.groups) :=
        groups_of_toIpv4Mapped? hmapped
      exact parse?_of_missing hfront (groupsFront_mapped v4) (by decide) hgroups
  | none =>
      rcases toChars_eq ip hmapped with h | ⟨front, missing, back, hmissing, hgroups, h⟩
      · have hread := groupsFront_joinGroups 8 ip.groups.toList (by simp) hnone (by simp)
        rw [List.append_nil] at hread
        simp [parse?, h, hread, ofGroups?_groups]
      · have hsum := congrArg List.length hgroups
        simp only [Vector.length_toList, List.length_append, List.length_replicate] at hsum
        have hdot : '.' ∉ ':' :: ':' :: joinGroups back := by
          simpa using fun hmem => not_dot_of_isHexOrColon (isHexOrColon_of_mem_joinGroups hmem) rfl
        have hfront := groupsFront_joinGroups 8 front (by omega)
          (.inr ⟨joinGroups back, rfl⟩) hdot
        have hback := groupsFront_joinGroups (7 - front.length) back (by omega) hnone
          (by simp)
        rw [List.append_nil] at hback
        rw [h]
        exact parse?_of_missing hfront hback (by omega) hgroups

theorem isHexOrMark_of_mem_toChars {ip : Ipv6} {c : Char} (h : c ∈ ip.toChars) :
    c = '.' ∨ c = ':' ∨ (digit? 16 c).isSome := by
  cases hmapped : ip.toIpv4Mapped? with
  | some v4 =>
      rw [toChars, hmapped] at h
      rcases List.mem_append.mp h with h | h
      · have hc : c = ':' ∨ c = 'f' ∨ c = ':' := by simpa using h
        rcases hc with rfl | rfl | rfl
        · exact .inr (.inl rfl)
        · exact .inr (.inr (by decide))
        · exact .inr (.inl rfl)
      · exact (Ipv4.isDotOrDigit_of_mem_toChars h).imp_right fun hdigit =>
          .inr (isSome_digit?_sixteen (by decide) hdigit)
  | none =>
      refine .inr ?_
      rcases toChars_eq ip hmapped with htext | ⟨front, -, back, -, -, htext⟩
      · exact isHexOrColon_of_mem_joinGroups (htext ▸ h)
      · rw [htext, List.mem_append, List.mem_append] at h
        rcases h with h | h | h
        · exact isHexOrColon_of_mem_joinGroups h
        · exact .inl (by simpa using h)
        · exact isHexOrColon_of_mem_joinGroups h

end Ipv6

namespace Ip

theorem parse?_toChars (ip : Ip) : Ip.parse? ip.toChars = some ip := by
  cases ip with
  | v4 ip => simp [parse?, toChars, Ipv4.parse?_toChars]
  | v6 ip =>
      simp [parse?, toChars, Ipv4.parse?_eq_none ip.colon_mem_toChars, Ipv6.parse?_toChars]

theorem toChars_ne_nil (ip : Ip) : ip.toChars ≠ [] := by
  intro h
  have hparse := ip.parse?_toChars
  rw [h] at hparse
  cases hparse

theorem colon_mem_toChars {ip : Ip} : ':' ∈ ip.toChars ↔ ip.isV4 = false := by
  cases ip with
  | v4 ip =>
      refine iff_of_false (fun h => ?_) (by simp [isV4])
      exact absurd (Ipv4.isDotOrDigit_of_mem_toChars h) (by decide)
  | v6 ip => exact iff_of_true ip.colon_mem_toChars rfl

/-- None of the marks around an address in a URI is a character of an address. -/
theorem not_mem_toChars {ip : Ip} {c : Char} (h : c = '%' ∨ c = '[' ∨ c = ']') :
    c ∉ ip.toChars := by
  have hmark : ¬ (c = '.' ∨ c = ':' ∨ (digit? 16 c).isSome) := by
    rcases h with rfl | rfl | rfl <;> decide
  intro hmem
  cases ip with
  | v4 ip =>
      exact hmark ((Ipv4.isDotOrDigit_of_mem_toChars hmem).imp_right fun hdigit =>
        .inr (isSome_digit?_sixteen (by decide) hdigit))
  | v6 ip => exact hmark (Ipv6.isHexOrMark_of_mem_toChars hmem)

end Ip

end NamedData
