import NamedData.Proofs.Tlv.Forms

/-!
# Numbers are written exactly and in the fewest bytes

Both ways to write a number are read back, in as many bytes as their size says. Nothing shorter is
read as the same number, and nothing else that is as short.
-/

namespace NamedData.Tlv

variable {v : UInt64} {bs : Bytes} {n : Nat}

namespace VarNumber

/-- While bytes of a number are missing, nothing is read. -/
theorem decode?_of_prefix {front : Bytes} (h : front <+: encode v) (hne : front ≠ encode v) :
    decode? front = none := by
  obtain ⟨missing, hsplit⟩ := h
  cases hread : decode? front with
  | none => rfl
  | some read =>
      obtain ⟨w, n⟩ := read
      -- What was read would be read from all bytes too, which are more than it takes.
      have hwhole := decode?_append hread missing
      have hback := decode?_encode_append v []
      rw [List.append_nil, ← hsplit, hwhole] at hback
      cases hback
      have hle := (decode?_pos hread).2
      have hlength : front.length = (encode v).length := by
        apply Nat.le_antisymm
        · rw [← hsplit, List.length_append]
          exact Nat.le_add_right _ _
        · rwa [length_encode]
      exact absurd (List.IsPrefix.eq_of_length ⟨missing, hsplit⟩ hlength) hne

/-- A number that takes no more bytes than it has to stands there as it is written. -/
theorem encode_prefix_of_decode? (h : decode? bs = some (v, n)) (hn : n = size v) :
    encode v <+: bs := by
  obtain ⟨form, rest, hform, hlength, rfl⟩ := decode?_eq_some_iff.mp h
  have hencode : form = encode v :=
    hform.eq_of_length_eq (form_encode v) (by rw [hlength, hn, length_encode])
  exact ⟨rest, by rw [hencode]⟩

end VarNumber

namespace Nni

theorem eq_encode_of_decode (h : decode bs = .ok v) (hn : bs.length = size v) :
    bs = encode v := by
  simp only [decode] at h
  split at h
  · rename_i hlength
    cases h
    simp only [List.mem_cons, List.not_mem_nil, or_false] at hlength
    rw [encode, ← hn, Bytes.toNat_ofNat_toNumber (by omega), Bytes.bigEndian_toNumber]
  · cases h

end Nni

/-- A number of variable size is read back from the bytes that were written, whatever stands behind
them; it takes as many as its size says, and nothing is read from fewer of them. Wherever it is read
it takes as many bytes at least, and just as many only where it stands as it is written. So it is
with a nonnegative integer, whose bytes are counted by what encloses them. -/
theorem written_numbers_are_exact (v : UInt64) :
    ((∀ tail, VarNumber.decode? (VarNumber.encode v ++ tail) = some (v, VarNumber.size v))
        ∧ (VarNumber.encode v).length = VarNumber.size v
        ∧ (∀ front, front <+: VarNumber.encode v → front ≠ VarNumber.encode v →
          VarNumber.decode? front = none)
        ∧ ∀ bs n, VarNumber.decode? bs = some (v, n) →
          VarNumber.size v ≤ n ∧ (n = VarNumber.size v → VarNumber.encode v <+: bs))
      ∧ Nni.decode (Nni.encode v) = .ok v
      ∧ (Nni.encode v).length = Nni.size v
      ∧ ∀ bs, Nni.decode bs = .ok v →
        Nni.size v ≤ bs.length ∧ (bs.length = Nni.size v → bs = Nni.encode v) := by
  refine ⟨⟨VarNumber.decode?_encode_append v, VarNumber.length_encode v, ?_, ?_⟩,
    Nni.decode_encode v, Nni.length_encode v, ?_⟩
  · intro front hfront hne
    exact VarNumber.decode?_of_prefix hfront hne
  · intro bs n hread
    exact ⟨VarNumber.size_le_of_decode? hread, VarNumber.encode_prefix_of_decode? hread⟩
  · intro bs hread
    exact ⟨Nni.size_le_of_decode hread, Nni.eq_encode_of_decode hread⟩

/-- The least number of three bytes, which has a form of five bytes too and is a nonnegative integer
of one. -/
theorem written_numbers_are_exact_of_least_wide :
    VarNumber.decode? ([0xFD, 0, 0xFD] ++ [7]) = some (0xFD, 3)
      ∧ VarNumber.decode? [0xFD, 0] = none
      ∧ VarNumber.decode? [0xFE, 0, 0, 0, 0xFD] = some (0xFD, 5) ∧ VarNumber.size 0xFD ≤ 5
      ∧ Nni.decode [0, 0xFD] = .ok 0xFD ∧ Nni.size 0xFD ≤ 2
      ∧ Nni.decode [0xFD] = .ok 0xFD ∧ [0xFD] = Nni.encode 0xFD := by
  obtain ⟨⟨hback, -, hmissing, hleast⟩, -, -, hleast'⟩ := written_numbers_are_exact 0xFD
  have hlong : VarNumber.decode? [0xFE, 0, 0, 0, 0xFD] = some (0xFD, 5) := by decide
  have hlong' : Nni.decode [0, 0xFD] = .ok 0xFD := by decide
  have hshort' : Nni.decode [0xFD] = .ok 0xFD := by decide
  exact ⟨hback [7], hmissing [0xFD, 0] (by decide) (by decide), hlong, (hleast _ _ hlong).1, hlong',
    (hleast' _ hlong').1, hshort', (hleast' _ hshort').2 rfl⟩

end NamedData.Tlv
