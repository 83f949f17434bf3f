import NamedData.Proofs.Tlv.Shortest

/-!
# The forms of numbers and blocks

A number has up to four forms, of which the shortest is written. A block is a type and a length in
any of their forms, and then its value. Reading takes exactly the bytes of one form, and needs all
of them.
-/

namespace NamedData

/-- Bytes are the digits of the number that they denote. -/
theorem Bytes.bigEndian_toNumber (bs : Bytes) : bigEndian bs.length bs.toNumber = bs := by
  induction bs using List.reverseRecOn with
  | nil => rfl
  | append_singleton bs b ih =>
      have hb := b.toNat_lt
      have hhigh : (toNumber bs * 256 + b.toNat) / 256 = toNumber bs := by omega
      have hlow : UInt8.ofNat (toNumber bs * 256 + b.toNat) = b := by
        apply UInt8.toNat_inj.mp
        rw [UInt8.toNat_ofNat']
        omega
      rw [toNumber_concat, List.length_append, List.length_singleton, bigEndian, hhigh, hlow, ih]

namespace Tlv

/-! ## Numbers -/

namespace VarNumber

/-- The marks of the wide forms, and the digits behind each of them. -/
def marks : List (UInt8 × Nat) :=
  [(0xFD, 2), (0xFE, 4), (0xFF, 8)]

/-- The forms of a number: one byte below the marks, or a mark and as many digits as it stands for,
whether or not fewer would do. -/
inductive Form (v : UInt64) : Bytes → Prop where
  | plain (small : v < 0xFD) : Form v [v.toUInt8]
  | wide {mark : UInt8} {width : Nat} (marked : (mark, width) ∈ marks)
      (fits : v.toNat < 256 ^ width) : Form v (mark :: Bytes.bigEndian width v.toNat)

/-- A form than which no other of the number is shorter. -/
structure Shortest (v : UInt64) (form : Bytes) : Prop where
  isForm : Form v form
  least : ∀ other, Form v other → form.length ≤ other.length

variable {v w : UInt64} {bs form other : Bytes} {n : Nat}

theorem width_of_mem_marks {mark : UInt8} {width : Nat} (h : (mark, width) ∈ marks) :
    width = 2 ∨ width = 4 ∨ width = 8 := by
  simp only [marks, List.mem_cons, Prod.mk.injEq, List.not_mem_nil, or_false] at h
  tauto

theorem mark_unique {mark mark' : UInt8} {width : Nat} (h : (mark, width) ∈ marks)
    (h' : (mark', width) ∈ marks) : mark = mark' := by
  simp only [marks, List.mem_cons, Prod.mk.injEq, List.not_mem_nil, or_false] at h h'
  rcases h with ⟨rfl, rfl⟩ | ⟨rfl, rfl⟩ | ⟨rfl, rfl⟩ <;> simpa [eq_comm] using h'

theorem decode?_wide {mark : UInt8} {width : Nat} (h : (mark, width) ∈ marks) (rest : Bytes) :
    decode? (mark :: rest) = decodeWide? width rest := by
  simp only [marks, List.mem_cons, Prod.mk.injEq, List.not_mem_nil, or_false] at h
  rcases h with ⟨rfl, rfl⟩ | ⟨rfl, rfl⟩ | ⟨rfl, rfl⟩ <;> rfl

theorem form_encode (v : UInt64) : Form v (encode v) := by
  unfold encode
  split
  · exact .plain ‹_›
  · split
    · rename_i h
      exact .wide (by simp [marks]) (Nat.lt_succ_of_le (UInt64.le_iff_toNat_le.mp h))
    · split
      · rename_i h
        exact .wide (by simp [marks]) (Nat.lt_succ_of_le (UInt64.le_iff_toNat_le.mp h))
      · exact .wide (by simp [marks]) v.toNat_lt

theorem Form.decode?_append (h : Form v form) (tail : Bytes) :
    decode? (form ++ tail) = some (v, form.length) := by
  cases h with
  | plain small =>
      have hencode : encode v = [v.toUInt8] := if_pos small
      have hsize : size v = 1 := if_pos small
      have hread := decode?_encode_append v tail
      rwa [hencode, hsize] at hread
  | wide marked fits =>
      rw [List.cons_append, decode?_wide marked, decodeWide?_bigEndian fits, List.length_cons,
        Bytes.length_bigEndian]

theorem form_of_decodeWide? {mark : UInt8} {width : Nat} (hmark : (mark, width) ∈ marks)
    (h : decodeWide? width bs = some (v, n)) :
    ∃ form rest, Form v form ∧ form.length = n ∧ mark :: bs = form ++ rest := by
  obtain ⟨⟨digits, rest⟩, hcut, heq⟩ := Option.map_eq_some_iff.mp h
  cases heq
  obtain ⟨hle, hdigits, hrest⟩ := Bytes.cut?_eq_some_iff.mp hcut
  have hlength : digits.length = width := by
    rw [hdigits, List.length_take, Nat.min_eq_left hle]
  have hlt : digits.toNumber < 256 ^ width := hlength ▸ digits.toNumber_lt
  have hwidth := width_of_mem_marks hmark
  have hvalue : (UInt64.ofNat digits.toNumber).toNat = digits.toNumber :=
    Bytes.toNat_ofNat_toNumber (by omega)
  have hback : Bytes.bigEndian width (UInt64.ofNat digits.toNumber).toNat = digits := by
    rw [hvalue, ← hlength, Bytes.bigEndian_toNumber]
  refine ⟨_, rest, .wide hmark (hvalue.symm ▸ hlt), ?_, ?_⟩
  · rw [List.length_cons, Bytes.length_bigEndian]
  · rw [hback, hdigits, hrest, List.cons_append, List.take_append_drop]

/-- Reading a number takes the bytes of one of its forms. -/
theorem decode?_eq_some_iff :
    decode? bs = some (v, n) ↔ ∃ form rest, Form v form ∧ form.length = n ∧ bs = form ++ rest := by
  constructor
  · intro h
    cases bs with
    | nil => cases h
    | cons first rest =>
        have hplain := h
        simp only [decode?] at h
        split at h
        · subst first
          exact form_of_decodeWide? (by simp [marks]) h
        · split at h
          · subst first
            exact form_of_decodeWide? (by simp [marks]) h
          · split at h
            · subst first
              exact form_of_decodeWide? (by simp [marks]) h
            · cases h
              have hsize := size_le_of_decode? hplain
              have hsmall : first.toUInt64 < 0xFD := by
                by_contra hlarge
                rw [size, if_neg hlarge] at hsize
                split_ifs at hsize <;> omega
              refine ⟨[first], rest, ?_, rfl, rfl⟩
              have hform := Form.plain hsmall
              rwa [UInt8.toUInt8_toUInt64] at hform
  · rintro ⟨form, rest, hform, rfl, rfl⟩
    exact hform.decode?_append rest

/-- No form of a number is the beginning of a form of another. -/
theorem Form.append_inj (h : Form v form) (h' : Form w other) {rest tail : Bytes}
    (heq : form ++ rest = other ++ tail) : v = w ∧ form = other ∧ rest = tail := by
  have hread := h.decode?_append rest
  rw [heq, h'.decode?_append tail] at hread
  simp only [Option.some.injEq, Prod.mk.injEq] at hread
  exact ⟨hread.1.symm, List.append_inj heq hread.2.symm⟩

theorem Form.size_le (h : Form v form) : size v ≤ form.length :=
  size_le_of_decode? (h.decode?_append [])

theorem Form.eq_of_length_eq (h : Form v form) (h' : Form v other)
    (hlength : form.length = other.length) : form = other := by
  cases h with
  | plain small =>
      cases h' with
      | plain small => rfl
      | wide marked fits =>
          have := width_of_mem_marks marked
          simp only [List.length_cons, List.length_nil, Bytes.length_bigEndian] at hlength
          omega
  | wide marked fits =>
      cases h' with
      | plain small =>
          have := width_of_mem_marks marked
          simp only [List.length_cons, List.length_nil, Bytes.length_bigEndian] at hlength
          omega
      | wide marked' fits' =>
          simp only [List.length_cons, Bytes.length_bigEndian, Nat.add_right_cancel_iff] at hlength
          subst hlength
          rw [mark_unique marked marked']

/-- What is written is the one shortest form. -/
theorem shortest_iff : Shortest v form ↔ form = encode v := by
  constructor
  · intro h
    have hle := h.least _ (form_encode v)
    have hge := h.isForm.size_le
    rw [length_encode] at hle
    exact h.isForm.eq_of_length_eq (form_encode v)
      (by rw [length_encode]; exact Nat.le_antisymm hle hge)
  · rintro rfl
    exact ⟨form_encode v, fun other hother => by rw [length_encode]; exact hother.size_le⟩

end VarNumber

/-! ## Headers -/

theorem Header.decode_eq_ok_iff {bs : Bytes} {h : Header} :
    decode bs = .ok h ↔ ∃ type length rest, VarNumber.Form h.type type
      ∧ VarNumber.Form h.length length ∧ h.size = type.length + length.length
      ∧ bs = type ++ (length ++ rest) := by
  constructor
  · intro hd
    simp only [decode] at hd
    split at hd
    · cases hd
    · rename_i hfirst
      obtain ⟨type, behind, htype, rfl, rfl⟩ := VarNumber.decode?_eq_some_iff.mp hfirst
      rw [List.drop_left] at hd
      split at hd
      · cases hd
      · rename_i hsecond
        obtain ⟨length, rest, hlength, rfl, rfl⟩ := VarNumber.decode?_eq_some_iff.mp hsecond
        cases hd
        exact ⟨type, length, rest, htype, hlength, rfl, rfl⟩
  · rintro ⟨type, length, rest, htype, hlength, hsize, rfl⟩
    simp only [decode, htype.decode?_append, List.drop_left, hlength.decode?_append, ← hsize]

theorem Header.truncated_of_decode_eq_error {bs : Bytes} {e : Error} (hd : decode bs = .error e) :
    ∃ need, e = .truncated need bs.length := by
  simp only [decode] at hd
  split at hd
  · cases hd
    exact ⟨_, rfl⟩
  · split at hd
    · cases hd
      exact ⟨_, rfl⟩
    · cases hd

/-! ## Blocks -/

namespace Block

/-- The forms of a block: its type, its length and its value, the numbers in any of their forms. -/
inductive Form (b : Block) : Bytes → Prop where
  | intro {type length : Bytes} {n : UInt64} (type_form : VarNumber.Form b.type type)
      (length_form : VarNumber.Form n length) (length_eq : n.toNat = b.value.length) :
      Form b (type ++ (length ++ b.value))

variable {b : Block} {bs form rest : Bytes}

theorem Form.two_le_length (h : b.Form form) : 2 ≤ form.length := by
  cases h with
  | @intro type length n type_form length_form =>
      have htype := (VarNumber.size_pos b.type).trans_le type_form.size_le
      have hlength := (VarNumber.size_pos n).trans_le length_form.size_le
      simp only [List.length_append]
      omega

theorem Form.header (h : b.Form form) (tail : Bytes) :
    ∃ header, Header.decode (form ++ tail) = .ok header ∧ header.type = b.type
      ∧ header.total = form.length ∧ header.length.toNat = b.value.length
      ∧ (form ++ tail).drop header.size = b.value ++ tail := by
  cases h with
  | @intro type length n type_form length_form length_eq =>
      refine ⟨⟨b.type, n, type.length + length.length⟩, ?_, rfl, ?_, length_eq, ?_⟩
      · exact Header.decode_eq_ok_iff.mpr ⟨type, length, b.value ++ tail, type_form, length_form,
          rfl, by simp only [List.append_assoc]⟩
      · simp only [Header.total, length_eq, List.length_append]
        omega
      · rw [← List.length_append, ← List.append_assoc type, List.append_assoc _ b.value,
          List.drop_left]

theorem Form.decode_append (h : b.Form form) (hsize : form.length ≤ maxSize) (tail : Bytes) :
    decode (form ++ tail) = .ok (b, tail) := by
  obtain ⟨header, hheader, htype, htotal, hlength, hdrop⟩ := h.header tail
  have hcut := Bytes.cut?_append b.value tail
  simp only [decode, hheader, htotal, if_neg (Nat.not_lt.mpr hsize), hlength, hdrop, hcut, htype]

/-- Reading a block takes the bytes of one of its forms. -/
theorem decode_eq_ok_iff :
    decode bs = .ok (b, rest)
      ↔ ∃ form, b.Form form ∧ form.length ≤ maxSize ∧ bs = form ++ rest := by
  constructor
  · intro h
    simp only [decode] at h
    split at h
    · cases h
    · rename_i header hheader
      obtain ⟨type, length, behind, htype, hlength, hsize, rfl⟩ :=
        Header.decode_eq_ok_iff.mp hheader
      split at h
      · cases h
      · rename_i hmax
        rw [hsize, ← List.length_append, ← List.append_assoc, List.drop_left] at h
        split at h
        · cases h
        · rename_i value tail hcut
          cases h
          obtain ⟨hle, hvalue, hrest⟩ := Bytes.cut?_eq_some_iff.mp hcut
          have heq : header.length.toNat = value.length := by
            rw [hvalue, List.length_take, Nat.min_eq_left hle]
          refine ⟨_, .intro htype hlength heq, ?_, ?_⟩
          · rw [Header.total] at hmax
            simp only [List.length_append]
            omega
          · dsimp only
            rw [List.append_assoc, List.append_assoc, hvalue, hrest, List.take_append_drop]
  · rintro ⟨form, hform, hsize, rfl⟩
    exact hform.decode_append hsize rest

/-- While bytes of a form are missing, nothing else can be said of it. -/
theorem Form.decode_take (h : b.Form form) (hsize : form.length ≤ maxSize) {m : Nat}
    (hm : m < form.length) : ∃ need, decode (form.take m) = .error (.truncated need m) := by
  have hlength : (form.take m).length = m := List.length_take_of_le (Nat.le_of_lt hm)
  cases hheader : Header.decode (form.take m) with
  | error e =>
      obtain ⟨need, rfl⟩ := Header.truncated_of_decode_eq_error hheader
      exact ⟨need, by simp only [decode, hheader, hlength]⟩
  | ok header =>
      -- The header is complete, so it is that of the whole form.
      have hwhole := Header.decode_append hheader (form.drop m)
      obtain ⟨header', hheader', -, htotal, -, -⟩ := h.header []
      rw [List.take_append_drop, ← List.append_nil form, hheader'] at hwhole
      cases hwhole
      have hcut : Bytes.cut? header.length.toNat ((form.take m).drop header.size) = none := by
        rw [Bytes.cut?_eq_none_iff, List.length_drop, hlength]
        rw [Header.total] at htotal
        have := (Header.decode_size_pos hheader).2
        omega
      refine ⟨form.length, ?_⟩
      simp only [decode, hheader, htotal, if_neg (Nat.not_lt.mpr hsize), hcut, hlength]

/-- A form is the one that is written if its numbers are as short as they can be. -/
theorem encode_eq_iff {type length : Bytes} {n : UInt64} (htype : VarNumber.Form b.type type)
    (hlength : VarNumber.Form n length) (hn : n.toNat = b.value.length) :
    b.encode = type ++ (length ++ b.value)
      ↔ VarNumber.Shortest b.type type ∧ VarNumber.Shortest n length := by
  have hn' : UInt64.ofNat b.value.length = n := by rw [← hn, UInt64.ofNat_toNat]
  rw [encode, hn', List.append_assoc, VarNumber.shortest_iff, VarNumber.shortest_iff]
  constructor
  · intro heq
    obtain ⟨-, rfl, hrest⟩ := (VarNumber.form_encode b.type).append_inj htype heq
    exact ⟨rfl, (List.append_cancel_right hrest).symm⟩
  · rintro ⟨rfl, rfl⟩
    rfl

end Block

end Tlv

end NamedData
