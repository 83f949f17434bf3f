import NamedData.Proofs.Reassembly.Store

/-!
# Bounds on a store

However a store is used, it keeps no more groups than it may, and every group that it keeps still
waits for a fragment. The header of a completed packet is therefore never made up.
-/

namespace NamedData.Reassembly

/-! ## Runs -/

/-- One call on a store. -/
inductive Call where
  | insert (p : LpPacket) (now : Instant)
  | evictExpired (now : Instant)
deriving DecidableEq, Repr

/-- The store after one call. -/
def apply (s : Reassembly) : Call → Reassembly
  | .insert p now => (s.insert p now).2
  | .evictExpired now => s.evictExpired now

/-- The store after some calls. -/
def run (s : Reassembly) (calls : List Call) : Reassembly :=
  calls.foldl apply s

theorem run_concat (s : Reassembly) (calls : List Call) (c : Call) :
    s.run (calls ++ [c]) = (s.run calls).apply c := by
  simp [run]

/-- The bytes that wait in all groups. -/
def bufferedBytes (s : Reassembly) : Nat :=
  (s.groups.map fun g => (g.2.fragments.map (·.2.length)).sum).sum

/-! ## The invariant -/

/-- What holds of a store between calls. -/
structure Valid (s : Reassembly) : Prop where
  distinct : DistinctKeys s.groups
  room : 0 < s.maxGroups
  size_le : s.size ≤ s.maxGroups
  waiting : ∀ e ∈ s.groups, e.2.Waiting

variable {s s' : Reassembly} {f : Fragment} {now : Instant}

theorem empty_valid (ttl : Duration) (maxGroups : Nat) (choices : List Nat) :
    ((empty ttl maxGroups).choosing choices).Valid where
  distinct := List.nodup_nil
  room := by simp [empty, choosing]
  size_le := by simp [empty, choosing, size]
  waiting := by simp [empty, choosing]

theorem Valid.of_sublist (h : s.Valid) (hsub : s'.groups.Sublist s.groups)
    (hmax : s'.maxGroups = s.maxGroups) : s'.Valid where
  distinct := Keyed.distinctKeys_of_sublist hsub h.distinct
  room := hmax ▸ h.room
  size_le := hmax ▸ Nat.le_trans hsub.length_le h.size_le
  waiting := fun e he => h.waiting e (hsub.subset he)

theorem Valid.evictExpired (h : s.Valid) (now : Instant) : (s.evictExpired now).Valid :=
  h.of_sublist (evictExpired_sublist s now) rfl

theorem Valid.erase (h : s.Valid) (base : UInt64) : (s.erase base).Valid :=
  h.of_sublist (erase_sublist s base) rfl

theorem Valid.roomFor (h : s.Valid) (f : Fragment) (now : Instant) : (s.roomFor f now).Valid :=
  h.of_sublist (roomFor_sublist s f now) maxGroups_roomFor

theorem Valid.target_consistent (h : s.Valid) (f : Fragment) (now : Instant) :
    (s.target f now).Consistent := by
  unfold target
  cases hg : (s.evictExpired now).group? f.base with
  | none => exact FragmentGroup.start_consistent f.count now
  | some g =>
      exact ((h.evictExpired now).waiting _ (Keyed.mem_of_lookup hg)).toConsistent

theorem Valid.put {base : UInt64} {g : FragmentGroup} (h : s.Valid) (hg : g.Waiting)
    (hsize : (s.put base g).size ≤ s.maxGroups) : (s.put base g).Valid where
  distinct := by
    unfold DistinctKeys Reassembly.put
    rw [keys_putIn]
    split
    · exact h.distinct
    · rename_i hbase
      exact List.nodup_append.mpr ⟨h.distinct, List.nodup_singleton base, fun k hk b hb =>
        fun heq => hbase (List.mem_singleton.mp hb ▸ heq ▸ hk)⟩
  room := h.room
  size_le := hsize
  waiting := by
    intro e he
    rcases mem_putIn he with rfl | he
    · exact hg
    · exact h.waiting e he

/-- A group that is kept has its place already, or there is room for it. -/
theorem Valid.size_put_roomFor_le (h : s.Valid) (f : Fragment) (now : Instant)
    (g : FragmentGroup) : ((s.roomFor f now).put f.base g).size ≤ s.maxGroups := by
  have hlen : ((s.roomFor f now).put f.base g).size
      = ((putIn f.base g (s.roomFor f now).groups).map (·.1)).length := (List.length_map _).symm
  rw [hlen, keys_putIn]
  have hv := h.evictExpired now
  cases hg : (s.evictExpired now).group? f.base with
  | some old =>
      have hroom : s.roomFor f now = s.evictExpired now := by simp [Reassembly.roomFor, hg]
      have hmem : f.base ∈ (s.evictExpired now).groups.map (·.1) :=
        List.mem_map.mpr ⟨_, Keyed.mem_of_lookup hg, rfl⟩
      rw [hroom, if_pos hmem, List.length_map]
      exact hv.size_le
  | none =>
      have hroom : s.roomFor f now = (s.evictExpired now).makeRoom := by
        simp [Reassembly.roomFor, hg]
      have habsent : f.base ∉ (s.roomFor f now).groups.map (·.1) := fun hmem =>
        Keyed.not_mem_keys_of_lookup hg (((hroom ▸ makeRoom_sublist _).map _).subset hmem)
      rw [if_neg habsent, List.length_append, List.length_map, hroom]
      exact size_makeRoom_lt hv.room hv.size_le

theorem Valid.target_add_waiting (h : s.Valid) (hf : f.Placed)
    (agrees : (s.target f now).count = f.count) (new : (s.target f now).contains f.index = false)
    (fits : ((s.target f now).add f).totalLength ≤ maxPacketSize)
    (partly : ((s.target f now).add f).isComplete = false) : ((s.target f now).add f).Waiting := by
  have hlt : (s.target f now).fragments.length + 1 < (s.target f now).count.toNat := by
    simpa [FragmentGroup.isComplete] using partly
  have hcount : (s.target f now).count.toNat ≤ maxPacketSize := agrees ▸ hf.count_le
  exact
    { toConsistent := (h.target_consistent f now).add hf agrees new
      count_ge := by rw [FragmentGroup.count_add]; omega
      count_le := hcount
      nonempty := by rw [FragmentGroup.length_add]; omega
      incomplete := by rw [FragmentGroup.length_add]; exact hlt
      total_le := fits }

theorem Valid.accept (h : s.Valid) (hf : f.Placed) (now : Instant) : (s.accept f now).2.Valid := by
  have houtcome := accept_outcome s f now
  generalize s.accept f now = r at houtcome ⊢
  cases houtcome with
  | mismatch found differs => exact (h.evictExpired now).erase f.base
  | duplicate found agrees old => exact h.evictExpired now
  | tooLarge agrees new large => exact (h.roomFor f now).erase f.base
  | complete agrees new fits full => exact (h.roomFor f now).erase f.base
  | kept agrees new fits partly =>
      refine (h.roomFor f now).put (h.target_add_waiting hf agrees new fits partly) ?_
      rw [maxGroups_roomFor]
      exact h.size_put_roomFor_le f now _

theorem Valid.apply (h : s.Valid) (c : Call) : (s.apply c).Valid := by
  cases c with
  | evictExpired now => exact h.evictExpired now
  | insert p now =>
      unfold Reassembly.apply
      cases hp : Fragment.ofPacket p with
      | error e => simpa only [insert_of_error hp] using h
      | ok f => simpa only [insert_of_ok hp] using h.accept (Fragment.placed_of_ofPacket hp) now

theorem Valid.run (h : s.Valid) (calls : List Call) : (s.run calls).Valid := by
  induction calls generalizing s with
  | nil => exact h
  | cons c rest ih => exact ih (h.apply c)

@[simp] theorem maxGroups_accept : (s.accept f now).2.maxGroups = s.maxGroups := by
  have houtcome := accept_outcome s f now
  generalize s.accept f now = r at houtcome ⊢
  cases houtcome <;> simp

@[simp] theorem maxGroups_apply (s : Reassembly) (c : Call) :
    (s.apply c).maxGroups = s.maxGroups := by
  cases c with
  | evictExpired now => rfl
  | insert p now =>
      unfold apply
      cases hp : Fragment.ofPacket p with
      | error e => simp only [insert_of_error hp]
      | ok f => simp only [insert_of_ok hp, maxGroups_accept]

@[simp] theorem maxGroups_run (s : Reassembly) (calls : List Call) :
    (s.run calls).maxGroups = s.maxGroups := by
  induction calls generalizing s with
  | nil => rfl
  | cons c rest ih => exact (ih (s.apply c)).trans (maxGroups_apply s c)

/-! ## What follows for every run -/

theorem Valid.bufferedBytes_le (h : s.Valid) : s.bufferedBytes ≤ s.maxGroups * maxPacketSize := by
  have hgroup : ∀ n ∈ s.groups.map fun g => (g.2.fragments.map (·.2.length)).sum,
      n ≤ maxPacketSize := by
    intro n hn
    obtain ⟨e, he, rfl⟩ := List.mem_map.mp hn
    have hw := h.waiting e he
    exact hw.total_eq ▸ hw.total_le
  calc s.bufferedBytes
      ≤ (s.groups.map fun g => (g.2.fragments.map (·.2.length)).sum).length * maxPacketSize :=
        List.sum_le_card_nsmul _ _ hgroup
    _ = s.size * maxPacketSize := by rw [List.length_map]; rfl
    _ ≤ s.maxGroups * maxPacketSize := Nat.mul_le_mul_right _ h.size_le

theorem accept_completes {done : Reassembled} (h : (s.accept f now).1 = .ok (some done)) :
    (s.target f now).count = f.count ∧ (s.target f now).contains f.index = false
      ∧ ((s.target f now).add f).totalLength ≤ maxPacketSize
      ∧ ((s.target f now).add f).isComplete = true
      ∧ done = ((s.target f now).add f).result
      ∧ (s.accept f now).2 = (s.roomFor f now).erase f.base := by
  have houtcome := accept_outcome s f now
  generalize s.accept f now = r at houtcome h ⊢
  cases houtcome with
  | complete agrees new fits full => cases h; exact ⟨agrees, new, fits, full, rfl, rfl⟩
  | _ => cases h

theorem Valid.head_of_completes (h : s.Valid) (hf : f.Placed) {done : Reassembled}
    (hdone : (s.accept f now).1 = .ok (some done)) :
    ((s.target f now).add f).head = some done.head := by
  obtain ⟨agrees, new, -, full, rfl, -⟩ := accept_completes hdone
  have hg := (h.target_consistent f now).add hf agrees new
  have hpos : 0 < ((s.target f now).add f).count.toNat := by
    have := UInt64.lt_iff_toNat_lt.mp hf.index_lt
    rw [FragmentGroup.count_add, agrees]; omega
  obtain ⟨head, hhead⟩ := hg.head_of_complete full hpos
  simp [FragmentGroup.result, hhead]

/-- However a store is used, its groups stay few and small, each of them waits for a fragment, and
no packet is completed without the header of its first fragment. -/
theorem run_bounded (ttl : Duration) (maxGroups : Nat) (choices : List Nat) (calls : List Call) :
    let s := ((empty ttl maxGroups).choosing choices).run calls
    s.size ≤ max maxGroups 1 ∧ DistinctKeys s.groups ∧ (∀ e ∈ s.groups, e.2.Waiting)
      ∧ s.bufferedBytes ≤ max maxGroups 1 * maxPacketSize
      ∧ ∀ p f now done, Fragment.ofPacket p = .ok f → (s.insert p now).1 = .ok (some done) →
        done = ((s.target f now).add f).result
          ∧ ((s.target f now).add f).head = some done.head := by
  intro s
  have hs : s.Valid := (empty_valid ttl maxGroups choices).run calls
  have hmax : s.maxGroups = max maxGroups 1 := maxGroups_run _ calls
  refine ⟨hmax ▸ hs.size_le, hs.distinct, hs.waiting, hmax ▸ hs.bufferedBytes_le, ?_⟩
  intro p f now done hp hdone
  rw [insert_of_ok hp] at hdone
  obtain ⟨-, -, -, -, hresult, -⟩ := accept_completes hdone
  exact ⟨hresult, hs.head_of_completes (Fragment.placed_of_ofPacket hp) hdone⟩

end NamedData.Reassembly
