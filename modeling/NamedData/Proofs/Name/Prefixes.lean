import Mathlib
import NamedData.Name.Hash

/-!
# The prefixes of a name

The hashes that are computed in one pass over a name are those of its prefixes.
-/

namespace NamedData.Name

variable {n a b : Name} {k : Nat}

/-! ## Hashes -/

theorem registers_eq (c : Crc32) (cs : List Component) :
    registers c cs
      = (List.range (cs.length + 1)).map fun k =>
        c.push ((cs.take k).flatMap Component.encode) := by
  induction cs generalizing c with
  | nil => rfl
  | cons component cs ih =>
      rw [registers, ih, List.length_cons, List.range_succ_eq_map (n := cs.length + 1),
        List.map_cons, List.map_map]
      congr 1
      refine List.map_congr_left fun k _ => ?_
      simp only [Function.comp_apply, List.take_succ_cons, List.flatMap_cons, Crc32.push_append]

/-- The hash at each place is that of the prefix with so many components. -/
theorem prefixHashes_eq (n : Name) :
    n.prefixHashes = (List.range (n.length + 1)).map fun k => (n.take k).hash := by
  rw [prefixHashes, registers_eq, List.map_map]
  rfl

theorem mem_prefixHashes_drop_one {h : UInt64} :
    h ∈ n.prefixHashes.drop 1 ↔ ∃ k, 1 ≤ k ∧ k ≤ n.length ∧ (n.take k).hash = h := by
  rw [prefixHashes_eq, List.range_succ_eq_map, List.map_cons, List.drop_one, List.tail_cons,
    List.map_map]
  simp only [List.mem_map, List.mem_range, Function.comp_apply]
  constructor
  · rintro ⟨k, hk, rfl⟩
    exact ⟨k + 1, Nat.succ_pos k, hk, rfl⟩
  · rintro ⟨k, hpos, hle, rfl⟩
    refine ⟨k - 1, by omega, ?_⟩
    rw [Nat.succ_eq_add_one, Nat.sub_add_cancel hpos]

/-! ## Prefixes -/

theorem isLocalhost_take (hk : 1 ≤ k) : (n.take k).isLocalhost = n.isLocalhost := by
  unfold isLocalhost take
  rw [List.head?_take, if_neg (by omega)]

theorem length_pos_of_isLocalhost (h : n.isLocalhost = true) : 1 ≤ n.length := by
  obtain ⟨cs⟩ := n
  cases cs with
  | nil => simp [isLocalhost] at h
  | cons component cs => simp [length]

theorem length_pos_of_ne_empty (h : n ≠ empty) : 1 ≤ n.length := by
  obtain ⟨cs⟩ := n
  cases cs with
  | nil => exact absurd rfl h
  | cons component cs => simp [length]

theorem eq_take_of_isPrefixOf (h : a.isPrefixOf b = true) :
    a.length ≤ b.length ∧ a = b.take a.length := by
  have hfront : a.components <+: b.components := List.isPrefixOf_iff_prefix.mp h
  exact ⟨hfront.length_le, congrArg Name.mk (List.prefix_iff_eq_take.mp hfront)⟩

end NamedData.Name
