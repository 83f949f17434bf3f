import NamedData.Link.Reassembly
import NamedData.Proofs.Keyed

/-!
# Groups of fragments

What holds of a group while its fragments come in, and what looking up a base finds in a store
after groups are stored, erased or expired.
-/

namespace NamedData

/-! ## Fragments -/

/-- The base that a link packet claims by its sequence number and index. -/
def LpPacket.base? (p : LpPacket) : Option UInt64 :=
  p.sequence.map fun n => n - p.fragIndex.getD 0

namespace Fragment

variable {p : LpPacket} {f : Fragment}

/-- What is checked of a fragment before it is accepted. -/
structure Placed (f : Fragment) : Prop where
  index_lt : f.index < f.count
  count_le : f.count.toNat ≤ maxPacketSize
  bare : f.header.fragment = none

/-- A fragment has its fields from this link packet. -/
structure TakenFrom (f : Fragment) (p : LpPacket) : Prop where
  base_eq : p.base? = some f.base
  index_eq : p.fragIndex.getD 0 = f.index
  count_eq : p.fragCount.getD 1 = f.count
  payload_eq : p.fragment = some f.payload
  header_eq : { p with fragment := none } = f.header

theorem ofPacket_spec (h : ofPacket p = .ok f) : f.TakenFrom p ∧ f.Placed := by
  unfold ofPacket at h
  split at h
  · cases h
  · cases h
  · rename_i sequence payload hseq hfrag
    dsimp only at h
    split at h
    · cases h
    · split at h
      · cases h
      · cases h
        exact ⟨⟨by simp [LpPacket.base?, hseq], rfl, rfl, hfrag, rfl⟩,
          ⟨UInt64.not_le.mp ‹_›, Nat.not_lt.mp ‹_›, rfl⟩⟩

theorem placed_of_ofPacket (h : ofPacket p = .ok f) : f.Placed :=
  (ofPacket_spec h).2

theorem takenFrom_of_ofPacket (h : ofPacket p = .ok f) : f.TakenFrom p :=
  (ofPacket_spec h).1

end Fragment

namespace FragmentGroup

variable {g : FragmentGroup} {f : Fragment}

theorem mem_place {i : UInt64} {bs : Bytes} {fragments : List (UInt64 × Bytes)}
    {e : UInt64 × Bytes} : e ∈ place i bs fragments ↔ e = (i, bs) ∨ e ∈ fragments := by
  induction fragments with
  | nil => simp [place]
  | cons x rest ih =>
      simp only [place]
      split
      · exact List.mem_cons
      · rw [List.mem_cons, ih, List.mem_cons]
        exact or_left_comm

@[simp] theorem length_place (i : UInt64) (bs : Bytes) (fragments : List (UInt64 × Bytes)) :
    (place i bs fragments).length = fragments.length + 1 := by
  induction fragments with
  | nil => rfl
  | cons x rest ih =>
      simp only [place]
      split
      · rfl
      · simp only [List.length_cons, ih]

theorem place_increasing {i : UInt64} {bs : Bytes} {fragments : List (UInt64 × Bytes)}
    (h : fragments.Pairwise fun a b => a.1 < b.1) (hi : ∀ e ∈ fragments, e.1 ≠ i) :
    (place i bs fragments).Pairwise fun a b => a.1 < b.1 := by
  induction fragments with
  | nil => exact List.pairwise_singleton _ _
  | cons x rest ih =>
      obtain ⟨hx, hrest⟩ := List.pairwise_cons.mp h
      simp only [place]
      split
      · rename_i hlt
        refine List.pairwise_cons.mpr ⟨fun e he => ?_, h⟩
        rcases List.mem_cons.mp he with rfl | he
        · exact hlt
        · exact UInt64.lt_trans hlt (hx e he)
      · rename_i hlt
        have hxi : x.1 < i :=
          UInt64.lt_of_le_of_ne (UInt64.not_lt.mp hlt) (hi x List.mem_cons_self)
        refine List.pairwise_cons.mpr
          ⟨fun e he => ?_, ih hrest fun e he => hi e (List.mem_cons_of_mem x he)⟩
        rcases mem_place.mp he with rfl | he
        · exact hxi
        · exact hx e he

theorem sum_place (i : UInt64) (bs : Bytes) (fragments : List (UInt64 × Bytes)) :
    ((place i bs fragments).map (·.2.length)).sum
      = (fragments.map (·.2.length)).sum + bs.length := by
  induction fragments with
  | nil => simp [place]
  | cons x rest ih =>
      simp only [place]
      split
      · simp only [List.map_cons, List.sum_cons]; omega
      · simp only [List.map_cons, List.sum_cons, ih]; omega

/-- What holds of a group at all times: the fragments are in order and below the count, their
bytes are counted, and the header is that of the first fragment. -/
structure Consistent (g : FragmentGroup) : Prop where
  increasing : g.fragments.Pairwise fun a b => a.1 < b.1
  index_lt : ∀ e ∈ g.fragments, e.1 < g.count
  total_eq : g.totalLength = (g.fragments.map (·.2.length)).sum
  head_iff : g.head.isSome ↔ ∃ bytes, (0, bytes) ∈ g.fragments
  head_bare : ∀ h, g.head = some h → h.fragment = none

/-- A group that stays in a store: some of its fragments have come and some have not. -/
structure Waiting (g : FragmentGroup) : Prop extends Consistent g where
  count_ge : 2 ≤ g.count.toNat
  count_le : g.count.toNat ≤ maxPacketSize
  nonempty : 1 ≤ g.fragments.length
  incomplete : g.fragments.length < g.count.toNat
  total_le : g.totalLength ≤ maxPacketSize

theorem start_consistent (count : UInt64) (now : Instant) : (start count now).Consistent where
  increasing := List.Pairwise.nil
  index_lt := by simp [start]
  total_eq := rfl
  head_iff := by simp [start]
  head_bare := by simp [start]

theorem not_mem_of_contains {i : UInt64} (h : g.contains i = false) :
    ∀ e ∈ g.fragments, e.1 ≠ i := by
  intro e he heq
  have := List.any_eq_false.mp h e he
  simp [heq] at this

theorem mem_add {e : UInt64 × Bytes} :
    e ∈ (g.add f).fragments ↔ e = (f.index, f.payload) ∨ e ∈ g.fragments :=
  mem_place

@[simp] theorem count_add : (g.add f).count = g.count := rfl

@[simp] theorem length_add : (g.add f).fragments.length = g.fragments.length + 1 :=
  length_place f.index f.payload g.fragments

theorem Consistent.add (hg : g.Consistent) (hf : f.Placed) (hcount : g.count = f.count)
    (hnew : g.contains f.index = false) : (g.add f).Consistent where
  increasing := place_increasing hg.increasing (not_mem_of_contains hnew)
  index_lt := by
    intro e he
    rcases mem_add.mp he with rfl | he
    · exact hcount ▸ hf.index_lt
    · exact hg.index_lt e he
  total_eq := by
    rw [FragmentGroup.add, sum_place, ← hg.total_eq]
  head_iff := by
    simp only [mem_add, Prod.mk.injEq]
    by_cases h0 : f.index = 0
    · simp [FragmentGroup.add, h0]
    · simp [FragmentGroup.add, h0, hg.head_iff, Ne.symm h0]
  head_bare := by
    intro h hh
    by_cases h0 : f.index = 0
    · simp only [FragmentGroup.add, h0, ↓reduceIte, Option.some.injEq] at hh
      exact hh ▸ hf.bare
    · simp only [FragmentGroup.add, h0, ↓reduceIte] at hh
      exact hg.head_bare h hh

/-- A consistent group with as many fragments as it counts has each of them once, in order. -/
theorem Consistent.indices_eq_range (hg : g.Consistent) (hfull : g.isComplete = true) :
    g.fragments.map (·.1.toNat) = List.range g.count.toNat := by
  have hinc : (g.fragments.map (·.1.toNat)).Pairwise (· < ·) :=
    List.pairwise_map.mpr (hg.increasing.imp fun h => UInt64.lt_iff_toNat_lt.mp h)
  have hsub : g.fragments.map (·.1.toNat) ⊆ List.range g.count.toNat := by
    intro i hi
    obtain ⟨e, he, rfl⟩ := List.mem_map.mp hi
    exact List.mem_range.mpr (UInt64.lt_iff_toNat_lt.mp (hg.index_lt e he))
  have hlen : (List.range g.count.toNat).length ≤ (g.fragments.map (·.1.toNat)).length := by
    simpa [isComplete] using hfull
  have hperm := (List.subperm_of_subset hinc.nodup hsub).perm_of_length_le hlen
  exact hperm.eq_of_pairwise (fun a b _ _ hab hba => absurd hab (Nat.lt_asymm hba)) hinc
    List.pairwise_lt_range

theorem Consistent.index_of_getElem? (hg : g.Consistent) (hfull : g.isComplete = true) {i : Nat}
    {e : UInt64 × Bytes} (h : g.fragments[i]? = some e) : e.1.toNat = i := by
  have hi : (g.fragments.map (·.1.toNat))[i]? = some e.1.toNat := by
    rw [List.getElem?_map, h]; rfl
  rw [hg.indices_eq_range hfull, List.getElem?_eq_some_iff] at hi
  obtain ⟨_, hi⟩ := hi
  rw [← hi, List.getElem_range]

theorem Consistent.first_of_complete (hg : g.Consistent) (hfull : g.isComplete = true)
    (hpos : 0 < g.count.toNat) : ∃ bytes rest, g.fragments = (0, bytes) :: rest := by
  cases hf : g.fragments with
  | nil => simp [isComplete, hf] at hfull; omega
  | cons e rest =>
      have h0 : e.1.toNat = 0 := hg.index_of_getElem? hfull (by rw [hf]; rfl)
      have : e.1 = 0 := UInt64.toNat_inj.mp h0
      exact ⟨e.2, rest, by rw [← this]⟩

theorem Consistent.head_of_complete (hg : g.Consistent) (hfull : g.isComplete = true)
    (hpos : 0 < g.count.toNat) : ∃ head, g.head = some head := by
  obtain ⟨bytes, rest, hf⟩ := hg.first_of_complete hfull hpos
  exact Option.isSome_iff_exists.mp (hg.head_iff.mpr ⟨bytes, by simp [hf]⟩)

theorem Consistent.length_payload (hg : g.Consistent) : g.payload.length = g.totalLength := by
  rw [payload, List.length_flatMap, hg.total_eq]

end FragmentGroup

end NamedData
