import NamedData.Proofs.Reassembly.Groups

/-!
# The store of incomplete groups

What is found under a base after groups are stored, erased or expired, and the five ways in which a
store takes in a fragment.
-/

namespace NamedData.Reassembly

variable {s : Reassembly} {g : FragmentGroup} {f : Fragment} {base other : UInt64} {now : Instant}

/-! ## Storing and erasing -/

theorem mem_putIn {groups : List (UInt64 × FragmentGroup)} {e : UInt64 × FragmentGroup}
    (h : e ∈ putIn base g groups) : e = (base, g) ∨ e ∈ groups := by
  induction groups with
  | nil => exact Or.inl (by simpa [putIn] using h)
  | cons x rest ih =>
      simp only [putIn] at h
      split at h
      · rcases List.mem_cons.mp h with h | h
        · exact Or.inl h
        · exact Or.inr (List.mem_cons_of_mem x h)
      · rcases List.mem_cons.mp h with rfl | h
        · exact Or.inr List.mem_cons_self
        · rcases ih h with h | h
          · exact Or.inl h
          · exact Or.inr (List.mem_cons_of_mem x h)

theorem keys_putIn (base : UInt64) (g : FragmentGroup) (groups : List (UInt64 × FragmentGroup)) :
    (putIn base g groups).map (·.1)
      = if base ∈ groups.map (·.1) then groups.map (·.1) else groups.map (·.1) ++ [base] := by
  induction groups with
  | nil => simp [putIn]
  | cons x rest ih =>
      simp only [putIn]
      split
      · rename_i h
        simp [h]
      · rename_i h
        rw [List.map_cons, ih, List.map_cons]
        by_cases hr : base ∈ rest.map (·.1)
        · rw [if_pos hr, if_pos (List.mem_cons_of_mem _ hr)]
        · have hx : base ∉ x.1 :: rest.map (·.1) := by
            simpa [Ne.symm h] using hr
          rw [if_neg hr, if_neg hx, List.cons_append]

theorem lookup_putIn (base other : UInt64) (g : FragmentGroup)
    (groups : List (UInt64 × FragmentGroup)) :
    (putIn base g groups).lookup other
      = if other = base then some g else groups.lookup other := by
  induction groups with
  | nil =>
      by_cases h : other = base
      · simp [putIn, h]
      · simp [putIn, h, List.lookup_cons, beq_false_of_ne h]
  | cons x rest ih =>
      obtain ⟨key, old⟩ := x
      simp only [putIn]
      split
      · rename_i h
        subst h
        by_cases ho : other = key
        · simp [ho]
        · simp [List.lookup_cons, ho, beq_false_of_ne ho]
      · rename_i h
        by_cases hk : other = key
        · subst hk
          simp [h]
        · rw [List.lookup_cons, beq_false_of_ne hk, List.lookup_cons, beq_false_of_ne hk]
          exact ih

theorem group?_put :
    (s.put base g).group? other = if other = base then some g else s.group? other :=
  lookup_putIn base other g s.groups

theorem erase_sublist (s : Reassembly) (base : UInt64) : (s.erase base).groups.Sublist s.groups :=
  List.filter_sublist

theorem group?_erase (hd : DistinctKeys s.groups) :
    (s.erase base).group? other = if other = base then none else s.group? other := by
  unfold group? erase
  rw [Keyed.lookup_filter hd]
  by_cases h : other = base
  · simp [h]
  · cases s.groups.lookup other <;> simp [h, Option.filter]

/-! ## Expiry and making room -/

theorem evictExpired_sublist (s : Reassembly) (now : Instant) :
    (s.evictExpired now).groups.Sublist s.groups :=
  List.filter_sublist

theorem group?_evictExpired (hd : DistinctKeys s.groups) :
    (s.evictExpired now).group? base
      = (s.group? base).filter fun g => now - g.created < s.ttl.nanos :=
  Keyed.lookup_filter hd _

theorem mem_oldest {groups : List (UInt64 × FragmentGroup)} :
    base ∈ oldest groups
      ↔ ∃ g, (base, g) ∈ groups ∧ ∀ e ∈ groups, g.created ≤ e.2.created := by
  simp [oldest]

/-- Some group is an oldest one. -/
theorem oldest_ne_nil {groups : List (UInt64 × FragmentGroup)} (h : groups ≠ []) :
    oldest groups ≠ [] := by
  obtain ⟨e, he, hle⟩ := groups.toFinset.exists_min_image (fun e => e.2.created)
    ((List.toFinset_nonempty_iff groups).mpr h)
  have hmem : e.1 ∈ oldest groups :=
    mem_oldest.mpr ⟨e.2, List.mem_toFinset.mp he, fun x hx => hle x (List.mem_toFinset.mpr hx)⟩
  exact List.ne_nil_of_mem hmem

/-- A store without groups drops none, and any other one of the oldest. -/
theorem evictOldest_cases (s : Reassembly) :
    s.groups = [] ∧ s.evictOldest = s
      ∨ ∃ base ∈ oldest s.groups,
        s.evictOldest = (s.erase base).choosing s.choices.tail := by
  unfold evictOldest
  dsimp only
  split
  · rename_i hnone
    refine .inl ⟨?_, rfl⟩
    by_contra hgroups
    have hpos := List.length_pos_iff.mpr (oldest_ne_nil hgroups)
    exact Nat.not_lt.mpr (List.getElem?_eq_none_iff.mp hnone) (Nat.mod_lt _ hpos)
  · rename_i base hbase
    exact .inr ⟨base, List.mem_of_getElem? hbase, rfl⟩

theorem evictOldest_sublist (s : Reassembly) : s.evictOldest.groups.Sublist s.groups := by
  rcases s.evictOldest_cases with ⟨-, hsame⟩ | ⟨base, -, hevict⟩
  · rw [hsame]
  · rw [hevict]
    exact erase_sublist s base

theorem size_evictOldest_lt (h : 0 < s.size) : s.evictOldest.size < s.size := by
  rcases s.evictOldest_cases with ⟨hnone, -⟩ | ⟨base, hbase, hevict⟩
  · simp [size, hnone] at h
  · rw [hevict]
    obtain ⟨g, hg, -⟩ := mem_oldest.mp hbase
    exact List.length_filter_lt_length_iff_exists.mpr ⟨_, hg, by simp⟩

theorem makeRoom_sublist (s : Reassembly) : s.makeRoom.groups.Sublist s.groups := by
  unfold makeRoom
  split
  · exact evictOldest_sublist s
  · exact List.Sublist.refl _

@[simp] theorem ttl_erase : (s.erase base).ttl = s.ttl := rfl

@[simp] theorem ttl_put : (s.put base g).ttl = s.ttl := rfl

@[simp] theorem ttl_evictExpired : (s.evictExpired now).ttl = s.ttl := rfl

@[simp] theorem maxGroups_erase : (s.erase base).maxGroups = s.maxGroups := rfl

@[simp] theorem maxGroups_put : (s.put base g).maxGroups = s.maxGroups := rfl

@[simp] theorem maxGroups_evictExpired : (s.evictExpired now).maxGroups = s.maxGroups := rfl

@[simp] theorem ttl_evictOldest : s.evictOldest.ttl = s.ttl := by
  rcases s.evictOldest_cases with ⟨-, h⟩ | ⟨base, -, h⟩
  · rw [h]
  · rw [h]
    rfl

@[simp] theorem maxGroups_evictOldest : s.evictOldest.maxGroups = s.maxGroups := by
  rcases s.evictOldest_cases with ⟨-, h⟩ | ⟨base, -, h⟩
  · rw [h]
  · rw [h]
    rfl

@[simp] theorem ttl_makeRoom : s.makeRoom.ttl = s.ttl := by
  unfold makeRoom
  split <;> simp

@[simp] theorem maxGroups_makeRoom : s.makeRoom.maxGroups = s.maxGroups := by
  unfold makeRoom
  split <;> simp

theorem size_makeRoom_lt (hpos : 0 < s.maxGroups) (hle : s.size ≤ s.maxGroups) :
    s.makeRoom.size < s.maxGroups := by
  unfold makeRoom
  split
  · exact Nat.lt_of_lt_of_le (size_evictOldest_lt (by omega)) hle
  · omega

/-! ## Taking in a fragment -/

/-- The group that a fragment joins: the one under its base, or else a new one. -/
def target (s : Reassembly) (f : Fragment) (now : Instant) : FragmentGroup :=
  ((s.evictExpired now).group? f.base).getD (.start f.count now)

/-- The store in which the group of a fragment has its place. -/
def roomFor (s : Reassembly) (f : Fragment) (now : Instant) : Reassembly :=
  match (s.evictExpired now).group? f.base with
  | some _ => s.evictExpired now
  | none => (s.evictExpired now).makeRoom

/-- The five ways in which a store takes in a fragment. -/
inductive Outcome (s : Reassembly) (f : Fragment) (now : Instant) :
    Except Error (Option Reassembled) × Reassembly → Prop where
  | mismatch {g : FragmentGroup} (found : (s.evictExpired now).group? f.base = some g)
      (differs : g.count ≠ f.count) :
      Outcome s f now
        (.error (.invalidFragment (.countMismatch f.base)), (s.evictExpired now).erase f.base)
  | duplicate {g : FragmentGroup} (found : (s.evictExpired now).group? f.base = some g)
      (agrees : g.count = f.count) (old : g.contains f.index = true) :
      Outcome s f now (.ok none, s.evictExpired now)
  | tooLarge (agrees : (s.target f now).count = f.count)
      (new : (s.target f now).contains f.index = false)
      (large : maxPacketSize < ((s.target f now).add f).totalLength) :
      Outcome s f now
        (.error (.packetTooLarge ((s.target f now).add f).totalLength maxPacketSize),
          (s.roomFor f now).erase f.base)
  | complete (agrees : (s.target f now).count = f.count)
      (new : (s.target f now).contains f.index = false)
      (fits : ((s.target f now).add f).totalLength ≤ maxPacketSize)
      (full : ((s.target f now).add f).isComplete = true) :
      Outcome s f now (.ok (some ((s.target f now).add f).result), (s.roomFor f now).erase f.base)
  | kept (agrees : (s.target f now).count = f.count)
      (new : (s.target f now).contains f.index = false)
      (fits : ((s.target f now).add f).totalLength ≤ maxPacketSize)
      (partly : ((s.target f now).add f).isComplete = false) :
      Outcome s f now (.ok none, (s.roomFor f now).put f.base ((s.target f now).add f))

theorem extend_outcome (agrees : (s.target f now).count = f.count)
    (new : (s.target f now).contains f.index = false) :
    Outcome s f now ((s.roomFor f now).extend (s.target f now) f) := by
  unfold extend
  rw [new]
  simp only [Bool.false_eq_true, ↓reduceIte]
  split
  · rename_i large
    exact .tooLarge agrees new large
  · rename_i fits
    have fits := Nat.not_lt.mp fits
    split
    · rename_i full
      exact .complete agrees new fits full
    · rename_i partly
      exact .kept agrees new fits (by simpa using partly)

theorem accept_outcome (s : Reassembly) (f : Fragment) (now : Instant) :
    Outcome s f now (s.accept f now) := by
  unfold accept
  dsimp only
  split
  · rename_i g hg
    have htarget : s.target f now = g := by simp [target, hg]
    have hroom : s.roomFor f now = s.evictExpired now := by simp [roomFor, hg]
    split
    · rename_i agrees
      by_cases old : g.contains f.index = true
      · unfold extend
        rw [if_pos old]
        exact .duplicate hg agrees old
      · rw [← hroom, ← htarget]
        exact extend_outcome (htarget ▸ agrees) (htarget ▸ by simpa using old)
    · rename_i differs
      exact .mismatch hg differs
  · rename_i hg
    have htarget : s.target f now = .start f.count now := by simp [target, hg]
    have hroom : s.roomFor f now = (s.evictExpired now).makeRoom := by simp [roomFor, hg]
    rw [← hroom, ← htarget]
    exact extend_outcome (by rw [htarget]; rfl) (by rw [htarget]; rfl)

theorem insert_of_error {p : LpPacket} {e : Error} (h : Fragment.ofPacket p = .error e) :
    s.insert p now = (.error e, s) := by
  simp only [insert, h]

theorem insert_of_ok {p : LpPacket} (h : Fragment.ofPacket p = .ok f) :
    s.insert p now = s.accept f now := by
  simp only [insert, h]

theorem roomFor_sublist (s : Reassembly) (f : Fragment) (now : Instant) :
    (s.roomFor f now).groups.Sublist s.groups := by
  unfold roomFor
  split
  · exact evictExpired_sublist s now
  · exact (makeRoom_sublist _).trans (evictExpired_sublist s now)

@[simp] theorem ttl_roomFor : (s.roomFor f now).ttl = s.ttl := by
  unfold roomFor
  split <;> simp

@[simp] theorem maxGroups_roomFor : (s.roomFor f now).maxGroups = s.maxGroups := by
  unfold roomFor
  split <;> simp

end NamedData.Reassembly
