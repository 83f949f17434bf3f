import NamedData.Proofs.Reassembly.Bounds

/-!
# Where a completed packet comes from

Every completed packet is put together from inserts of the run that claim its base and its count,
one for each index. A group keeps the fragments that came since the last packet of its base was
completed, so no insert goes into two packets.
-/

namespace NamedData.Reassembly

/-! ## Completions and their sources -/

/-- The link packet of the insert at a position of a run. -/
def insertedAt (calls : List Call) (pos : Nat) : Option LpPacket :=
  match calls[pos]? with
  | some (.insert p _) => some p
  | _ => none

/-- The call at position `k` of a run inserts a link packet, which completes a packet. -/
def Completes (start : Reassembly) (calls : List Call) (k : Nat) (last : LpPacket)
    (done : Reassembled) : Prop :=
  ∃ now, calls[k]? = some (.insert last now)
    ∧ ((start.run (calls.take k)).insert last now).1 = .ok (some done)

/-- A packet that is complete after the call at `k` consists of the fragments of one base that the
inserts at `sources` brought, in the order of their indices. -/
structure MadeFrom (calls : List Call) (k : Nat) (sources : List Nat) (base : UInt64)
    (parts : List LpPacket) (done : Reassembled) : Prop where
  not_later : ∀ pos ∈ sources, pos ≤ k
  inserted : sources.map (insertedAt calls) = parts.map some
  placed : ∀ (i : Nat) (p : LpPacket), parts[i]? = some p →
    p.base? = some base ∧ (p.fragIndex.getD 0).toNat = i
      ∧ (p.fragCount.getD 1).toNat = parts.length ∧ p.fragment.isSome
  payload_eq : done.payload = parts.flatMap fun p => p.fragment.getD []
  head_eq : parts.head?.map (fun p => { p with fragment := none }) = some done.head
  size_le : done.payload.length ≤ maxPacketSize

variable {start s : Reassembly} {calls : List Call} {c : Call} {g : FragmentGroup} {f : Fragment}
  {p : LpPacket} {base : UInt64} {now : Instant} {k since : Nat} {done : Reassembled}

theorem insertedAt_concat {pos : Nat} (h : insertedAt calls pos = some p) (c : Call) :
    insertedAt (calls ++ [c]) pos = some p := by
  unfold insertedAt at h ⊢
  have hlt : pos < calls.length := by
    by_contra hge
    rw [List.getElem?_eq_none (Nat.not_lt.mp hge)] at h
    cases h
  rwa [List.getElem?_append_left hlt]

theorem insertedAt_length (calls : List Call) (p : LpPacket) (now : Instant) :
    insertedAt (calls ++ [.insert p now]) calls.length = some p := by
  simp [insertedAt]

theorem insertedAt_of_take {pos n : Nat} (h : insertedAt (calls.take n) pos = some p) :
    pos < n ∧ insertedAt calls pos = some p := by
  unfold insertedAt at h ⊢
  by_cases hlt : pos < n
  · rw [List.getElem?_take_of_lt hlt] at h
    exact ⟨hlt, h⟩
  · rw [List.getElem?_take_eq_none (Nat.not_lt.mp hlt)] at h
    cases h

theorem completes_concat (h : Completes start (calls ++ [c]) k p done) :
    Completes start calls k p done ∨ k = calls.length ∧ ∃ now, c = .insert p now
      ∧ ((start.run calls).insert p now).1 = .ok (some done) := by
  obtain ⟨now, hk, hdone⟩ := h
  by_cases hlt : k < calls.length
  · rw [List.getElem?_append_left hlt] at hk
    rw [List.take_append_of_le_length (Nat.le_of_lt hlt)] at hdone
    exact Or.inl ⟨now, hk, hdone⟩
  · have hlen : k = calls.length := by
      have := (List.getElem?_eq_some_iff.mp hk).1
      simp only [List.length_append, List.length_singleton] at this
      omega
    subst hlen
    rw [List.getElem?_append_right (Nat.le_refl _), Nat.sub_self] at hk
    rw [List.take_left] at hdone
    exact Or.inr ⟨rfl, now, by simpa using hk, hdone⟩

theorem Completes.lt_length (h : Completes start calls k p done) : k < calls.length := by
  obtain ⟨now, hk, -⟩ := h
  exact (List.getElem?_eq_some_iff.mp hk).1

/-! ## The invariant -/

/-- Every fragment of a group came with an insert at `since` or later. -/
def Sourced (calls : List Call) (since : Nat) (base : UInt64) (g : FragmentGroup) : Prop :=
  ∀ e ∈ g.fragments, ∃ pos p, since ≤ pos ∧ insertedAt calls pos = some p
    ∧ p.base? = some base ∧ p.fragIndex.getD 0 = e.1 ∧ p.fragCount.getD 1 = g.count
    ∧ p.fragment = some e.2 ∧ (e.1 = 0 → g.head = some { p with fragment := none })

/-- All packets of a base that a run has completed so far were completed before `since`. -/
structure AfterCompletions (start : Reassembly) (calls : List Call) (base : UInt64) (since : Nat) :
    Prop where
  le_length : since ≤ calls.length
  completed_lt : ∀ k p done, Completes start calls k p done → p.base? = some base → k < since

/-- All groups of a store have their fragments from inserts behind the last completion. -/
def AllSourced (start : Reassembly) (calls : List Call) (s : Reassembly) : Prop :=
  ∀ e ∈ s.groups, ∃ since,
    AfterCompletions start calls e.1 since ∧ Sourced calls since e.1 e.2

theorem Sourced.concat (h : Sourced calls since base g) (c : Call) :
    Sourced (calls ++ [c]) since base g := by
  intro e he
  obtain ⟨pos, p, hsince, hpos, hrest⟩ := h e he
  exact ⟨pos, p, hsince, insertedAt_concat hpos c, hrest⟩

theorem AfterCompletions.concat (h : AfterCompletions start calls base since)
    (hother : ∀ now p done, c = .insert p now →
      ((start.run calls).insert p now).1 = .ok (some done) → p.base? ≠ some base) :
    AfterCompletions start (calls ++ [c]) base since where
  le_length := by
    rw [List.length_append]
    exact Nat.le_add_right_of_le h.le_length
  completed_lt := by
    intro k p done hk hbase
    rcases completes_concat hk with hold | ⟨-, now, hc, hdone⟩
    · exact h.completed_lt k p done hold hbase
    · exact absurd hbase (hother now p done hc hdone)

/-- The group that a fragment joins has its sources, and so has the group with the fragment. -/
theorem AllSourced.target_add (h : AllSourced start calls s) (hp : Fragment.ofPacket p = .ok f)
    (now : Instant) (agrees : (s.target f now).count = f.count)
    (new : (s.target f now).contains f.index = false) :
    ∃ since, AfterCompletions start calls f.base since
      ∧ Sourced (calls ++ [.insert p now]) since f.base ((s.target f now).add f) := by
  have htarget : ∃ since, AfterCompletions start calls f.base since
      ∧ Sourced calls since f.base (s.target f now) := by
    unfold target
    cases hg : (s.evictExpired now).group? f.base with
    | some g => exact h _ ((evictExpired_sublist s now).subset (Keyed.mem_of_lookup hg))
    | none =>
        exact ⟨calls.length, ⟨Nat.le_refl _, fun k p done hk _ => hk.lt_length⟩,
          fun e he => by cases he⟩
  obtain ⟨since, hafter, hsourced⟩ := htarget
  obtain ⟨hbase, hindex, hcount, hpayload, hheader⟩ := Fragment.takenFrom_of_ofPacket hp
  refine ⟨since, hafter, fun e he => ?_⟩
  rcases FragmentGroup.mem_add.mp he with rfl | he
  · refine ⟨calls.length, p, hafter.le_length, insertedAt_length calls p now, hbase, hindex,
      hcount.trans agrees.symm, hpayload, fun h0 => ?_⟩
    simp only [FragmentGroup.add, if_pos h0, hheader]
  · obtain ⟨pos, q, hsince, hpos, hq, hqi, hqc, hqp, hqh⟩ := hsourced.concat _ e he
    refine ⟨pos, q, hsince, hpos, hq, hqi, hqc, hqp, fun h0 => ?_⟩
    have hne : f.index ≠ 0 := fun hf0 =>
      FragmentGroup.not_mem_of_contains new e he (h0.trans hf0.symm)
    simp only [FragmentGroup.add, if_neg hne]
    exact hqh h0

theorem AllSourced.concat (h : AllSourced start calls s) {s' : Reassembly}
    (hsub : s'.groups ⊆ s.groups)
    (hother : ∀ e ∈ s'.groups, ∀ now p done, c = .insert p now →
      ((start.run calls).insert p now).1 = .ok (some done) → p.base? ≠ some e.1) :
    AllSourced start (calls ++ [c]) s' := by
  intro e he
  obtain ⟨since, hafter, hsourced⟩ := h e (hsub he)
  exact ⟨since, hafter.concat (hother e he), hsourced.concat c⟩

theorem AllSourced.insert (h : AllSourced start calls (start.run calls))
    (hp : Fragment.ofPacket p = .ok f) (now : Instant) :
    AllSourced start (calls ++ [.insert p now]) ((start.run calls).accept f now).2 := by
  have hsame : ∀ {t q d}, Call.insert p now = .insert q t →
      ((start.run calls).insert q t).1 = .ok (some d) →
      ((start.run calls).accept f now).1 = .ok (some d) := by
    intro t q d hc hd
    cases hc
    rwa [insert_of_ok hp] at hd
  have houtcome := accept_outcome (start.run calls) f now
  generalize (start.run calls).accept f now = r at houtcome hsame ⊢
  cases houtcome with
  | mismatch found differs =>
      refine h.concat ?_ fun e he t q d hc hd => by cases hsame hc hd
      exact ((erase_sublist _ _).trans (evictExpired_sublist _ _)).subset
  | duplicate found agrees old =>
      refine h.concat (evictExpired_sublist _ _).subset fun e he t q d hc hd => by
        cases hsame hc hd
  | tooLarge agrees new large =>
      refine h.concat ?_ fun e he t q d hc hd => by cases hsame hc hd
      exact ((erase_sublist _ _).trans (roomFor_sublist _ _ _)).subset
  | complete agrees new fits full =>
      refine h.concat ?_ fun e he t q d hc hd => ?_
      · exact ((erase_sublist _ _).trans (roomFor_sublist _ _ _)).subset
      · cases hc
        rw [(Fragment.takenFrom_of_ofPacket hp).base_eq]
        intro heq
        have := (List.mem_filter.mp he).2
        simp [Option.some.inj heq] at this
  | kept agrees new fits partly =>
      intro e he
      rcases mem_putIn he with rfl | he
      · obtain ⟨since, hafter, hsourced⟩ := h.target_add hp now agrees new
        exact ⟨since, hafter.concat (fun t q d hc hd => by cases hsame hc hd), hsourced⟩
      · exact h.concat (roomFor_sublist _ _ _).subset
          (fun e he t q d hc hd => by cases hsame hc hd) e he

theorem allSourced_run (hnone : start.groups = []) (calls : List Call) :
    AllSourced start calls (start.run calls) := by
  induction calls using List.reverseRecOn with
  | nil => exact fun e he => absurd (hnone ▸ he) List.not_mem_nil
  | append_singleton calls c ih =>
      rw [run_concat]
      unfold apply
      cases c with
      | evictExpired now =>
          exact ih.concat (evictExpired_sublist _ _).subset fun e he t q d hc => by cases hc
      | insert p now =>
          cases hp : Fragment.ofPacket p with
          | ok f => simpa only [insert_of_ok hp] using ih.insert hp now
          | error err =>
              simp only [insert_of_error hp]
              refine ih.concat (List.Subset.refl _) fun e he t q d hc hd => ?_
              cases hc
              rw [insert_of_error hp] at hd
              cases hd

/-! ## Completed packets -/

theorem Sourced.madeFrom (h : Sourced (calls.take (k + 1)) since base g) (hg : g.Consistent)
    (hpos : 0 < g.count.toNat) (full : g.isComplete = true)
    (hsize : g.totalLength ≤ maxPacketSize) :
    ∃ sources parts, MadeFrom calls k sources base parts g.result
      ∧ ∀ pos ∈ sources, since ≤ pos := by
  have : Nonempty LpPacket := ⟨{}⟩
  choose! pos part hsince hpart hbase hindex hcount hpayload hhead using h
  have hrange := hg.indices_eq_range full
  have hlen : g.fragments.length = g.count.toNat := by
    rw [← List.length_range (n := g.count.toNat), ← hrange, List.length_map]
  refine ⟨g.fragments.map pos, g.fragments.map part, ?_, ?_⟩
  · exact
      { not_later := by
          intro n hn
          obtain ⟨e, he, rfl⟩ := List.mem_map.mp hn
          exact Nat.le_of_lt_succ (insertedAt_of_take (hpart e he)).1
        inserted := by
          rw [List.map_map, List.map_map]
          exact List.map_congr_left fun e he => (insertedAt_of_take (hpart e he)).2
        placed := by
          intro i p hp
          rw [List.getElem?_map, Option.map_eq_some_iff] at hp
          obtain ⟨e, he, rfl⟩ := hp
          have hmem := List.mem_of_getElem? he
          refine ⟨hbase e hmem, ?_, ?_, ?_⟩
          · rw [hindex e hmem]
            exact hg.index_of_getElem? full he
          · rw [hcount e hmem, List.length_map, hlen]
          · rw [hpayload e hmem]; rfl
        payload_eq := by
          rw [List.flatMap_map]
          refine List.flatMap_congr fun e he => ?_
          rw [hpayload e he]; rfl
        head_eq := by
          obtain ⟨bytes, rest, hf⟩ := hg.first_of_complete full hpos
          have hmem : (0, bytes) ∈ g.fragments := by simp [hf]
          simp [FragmentGroup.result, hf, hhead _ hmem rfl]
        size_le := by
          rw [FragmentGroup.result, hg.length_payload]
          exact hsize }
  · intro n hn
    obtain ⟨e, he, rfl⟩ := List.mem_map.mp hn
    exact hsince e he

/-- Every completed packet consists of fragments of its base that came after the last packet of the
same base was completed. -/
theorem madeFrom_of_completes (hstart : start.Valid) (hnone : start.groups = [])
    {last : LpPacket} (h : Completes start calls k last done) :
    ∃ base sources parts, last.base? = some base ∧ MadeFrom calls k sources base parts done
      ∧ ∀ j p d, j < k → Completes start calls j p d → p.base? = some base →
        ∀ pos ∈ sources, j < pos := by
  obtain ⟨now, hk, hdone⟩ := h
  have hvalid := hstart.run (calls.take k)
  have hsourced := allSourced_run hnone (calls.take k)
  cases hp : Fragment.ofPacket last with
  | error e => rw [insert_of_error hp] at hdone; cases hdone
  | ok f =>
      rw [insert_of_ok hp] at hdone
      have hf := Fragment.placed_of_ofPacket hp
      obtain ⟨agrees, new, fits, full, rfl, -⟩ := accept_completes hdone
      obtain ⟨since, hafter, hg⟩ := hsourced.target_add hp now agrees new
      have htake : calls.take k ++ [.insert last now] = calls.take (k + 1) := by
        rw [List.take_add_one, hk]; rfl
      have hpos : 0 < f.count.toNat := by
        have := UInt64.lt_iff_toNat_lt.mp hf.index_lt
        omega
      rw [htake] at hg
      obtain ⟨sources, parts, hmade, hsince⟩ :=
        hg.madeFrom ((hvalid.target_consistent f now).add hf agrees new) (agrees ▸ hpos) full fits
      refine ⟨f.base, sources, parts, (Fragment.takenFrom_of_ofPacket hp).base_eq, hmade, ?_⟩
      rintro j p d hj ⟨t, hcall, hd⟩ hbase pos hmem
      have hj' : Completes start (calls.take k) j p d := by
        refine ⟨t, ?_, ?_⟩
        · rw [List.getElem?_take_of_lt hj, hcall]
        · rw [List.take_take, Nat.min_eq_left (Nat.le_of_lt hj)]
          exact hd
      exact Nat.lt_of_lt_of_le (hafter.completed_lt j p d hj' hbase) (hsince pos hmem)

theorem Completes.unique {q : LpPacket} {other : Reassembled} (h : Completes start calls k p done)
    (h' : Completes start calls k q other) : p = q ∧ done = other := by
  obtain ⟨now, hk, hdone⟩ := h
  obtain ⟨now', hk', hdone'⟩ := h'
  cases hk.symm.trans hk'
  cases hdone.symm.trans hdone'
  exact ⟨rfl, rfl⟩

theorem MadeFrom.base_of_mem {sources : List Nat} {parts : List LpPacket}
    (h : MadeFrom calls k sources base parts done) {pos : Nat} (hpos : pos ∈ sources) :
    ∃ p, insertedAt calls pos = some p ∧ p.base? = some base := by
  have hmem : insertedAt calls pos ∈ parts.map some :=
    h.inserted ▸ List.mem_map.mpr ⟨pos, hpos, rfl⟩
  obtain ⟨p, hp, heq⟩ := List.mem_map.mp hmem
  obtain ⟨i, hi⟩ := List.mem_iff_getElem?.mp hp
  exact ⟨p, heq.symm, (h.placed i p hi).1⟩

/-- Whatever is inserted and whenever groups expire, every completed packet is put together from
inserts of its own base and count, and no insert goes into two packets. -/
theorem run_mixes_nothing (ttl : Duration) (maxGroups : Nat) (choices : List Nat)
    (calls : List Call) :
    ∃ sources : Nat → List Nat,
      (∀ k last done, Completes ((empty ttl maxGroups).choosing choices) calls k last done →
        ∃ base parts, last.base? = some base ∧ MadeFrom calls k (sources k) base parts done)
      ∧ ∀ j k p q d e, j ≠ k → Completes ((empty ttl maxGroups).choosing choices) calls j p d →
        Completes ((empty ttl maxGroups).choosing choices) calls k q e →
          (sources j).Disjoint (sources k) := by
  obtain ⟨hstart, hnone⟩ : ((empty ttl maxGroups).choosing choices).Valid
      ∧ ((empty ttl maxGroups).choosing choices).groups = [] :=
    ⟨empty_valid ttl maxGroups choices, rfl⟩
  generalize (empty ttl maxGroups).choosing choices = start at hstart hnone
  have hchoice : ∀ k, ∃ sources, ∀ last done, Completes start calls k last done →
      ∃ base parts, last.base? = some base ∧ MadeFrom calls k sources base parts done
        ∧ ∀ j p d, j < k → Completes start calls j p d → p.base? = some base →
          ∀ pos ∈ sources, j < pos := by
    intro k
    by_cases h : ∃ last done, Completes start calls k last done
    · obtain ⟨last, done, h⟩ := h
      obtain ⟨base, sources, parts, hmade⟩ := madeFrom_of_completes hstart hnone h
      refine ⟨sources, fun last' done' h' => ?_⟩
      obtain ⟨rfl, rfl⟩ := h.unique h'
      exact ⟨base, parts, hmade⟩
    · exact ⟨[], fun last done h' => absurd ⟨last, done, h'⟩ h⟩
  choose sources hsources using hchoice
  -- Of two completions of one base, the later one has all its sources behind the earlier one.
  have hlt : ∀ j k p q d e, j < k → Completes start calls j p d → Completes start calls k q e →
      (sources j).Disjoint (sources k) := by
    intro j k p q d e hjk hj hk pos hposj hposk
    obtain ⟨base, parts, hbase, hmade, -⟩ := hsources j p d hj
    obtain ⟨base', parts', hbase', hmade', hafter⟩ := hsources k q e hk
    obtain ⟨r, hr, hrbase⟩ := hmade.base_of_mem hposj
    obtain ⟨r', hr', hrbase'⟩ := hmade'.base_of_mem hposk
    cases hr.symm.trans hr'
    cases hrbase.symm.trans hrbase'
    exact Nat.not_lt.mpr (hmade.not_later pos hposj) (hafter j p d hjk hj hbase pos hposk)
  refine ⟨sources, fun k last done h => ?_, fun j k p q d e hne hj hk => ?_⟩
  · obtain ⟨base, parts, hbase, hmade, -⟩ := hsources k last done h
    exact ⟨base, parts, hbase, hmade⟩
  · rcases Nat.lt_or_gt_of_ne hne with hjk | hkj
    · exact hlt j k p q d e hjk hj hk
    · exact (hlt k j q p e d hkj hk hj).symm

end NamedData.Reassembly
