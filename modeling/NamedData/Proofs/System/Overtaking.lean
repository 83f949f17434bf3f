import NamedData.Proofs.Interleaving
import NamedData.Proofs.System.Accounts

/-!
# Removals that overtake additions

When several callers add faces and take them out again, a face can be found in the table before it
is registered, and be removed by then. The registry then has an ID in the end that the table lacks.
This is the only way in which they come to differ.
-/

namespace NamedData.FaceSystem

variable {s s₀ : FaceSystem} {key : FaceKey} {id : UInt64} {x : Step} {steps : List Step} {n : Nat}
  {all : Multiset Step} {t : Trace}

/-! ## Runs -/

section Runs

variable {ι : Type} [Fintype ι] {w : Joint ι Trace (List Step)}

/-- The steps that were taken and those that callers are still to take. -/
def allSteps (w : Joint ι Trace (List Step)) : Multiset Step :=
  w.shared.steps + ∑ i, (w.parties i : Multiset Step)

theorem allSteps_of_done (h : ∀ i, w.parties i = []) : allSteps w = w.shared.steps := by
  simp [allSteps, h]

theorem cons_le_allSteps {i : ι} {rest : List Step} (h : w.parties i = x :: rest) :
    x ::ₘ (w.shared.steps : Multiset Step) ≤ allSteps w := by
  have hparty : (w.parties i : Multiset Step) ≤ ∑ j, (w.parties j : Multiset Step) :=
    Finset.single_le_sum (f := fun j => (w.parties j : Multiset Step))
      (fun j _ => Multiset.zero_le _) (Finset.mem_univ i)
  have hx : {x} ≤ ∑ j, (w.parties j : Multiset Step) := by
    rw [h] at hparty
    exact (Multiset.singleton_le.mpr List.mem_cons_self).trans hparty
  rw [← Multiset.singleton_add, add_comm, allSteps]
  exact add_le_add le_rfl hx

/-- Callers that are about to make their calls. -/
def awaiting (s : FaceSystem) (calls : ι → TableCall) : Joint ι Trace (List Step) where
  shared := ⟨s, [], []⟩
  parties := fun i => [(calls i).entry]

theorem mem_allSteps_awaiting {calls : ι → TableCall} (hx : x ∈ allSteps (s.awaiting calls)) :
    ∃ i, x = (calls i).entry := by
  simpa [allSteps, awaiting] using hx

theorem bindsIn_awaiting_le (s : FaceSystem) (calls : ι → TableCall) :
    bindsIn (allSteps (s.awaiting calls)) ≤ Fintype.card ι := by
  refine (Multiset.countP_le_card _ _).trans ?_
  simp [allSteps, awaiting]

theorem Recorded.ascending {given : List Addition} (h : Recorded given s₀)
    (hcount : given.length < 2 ^ 64 - 1) (hbinds : bindsIn all ≤ n) :
    Ascending s₀ n s₀ 0 all where
  binds_le := hbinds
  pos := fun hzero => by
    have hnext := (h.numbered hcount).1
    rw [hzero] at hnext
    cases hnext
  next_le := by simp [bindsIn]
  below := fun _ _ => h.lt_nextId hcount
  owner := fun _ _ _ => h.owner hcount

theorem Recorded.owned {given : List Addition} (h : Recorded given s₀)
    (hall : ∀ x ∈ all, ∃ c : TableCall, x = c.entry) : Owned s₀ s₀ all [] where
  table := fun e he => (h.consistent.bound e he).2
  registry := fun e he => (h.consistent.bound e (h.consistent.registry_eq ▸ he)).2
  start := fun id hid => by
    obtain ⟨e, he, rfl⟩ := List.mem_map.mp hid
    exact ⟨e.2, (h.consistent.bound e he).2⟩
  steps := fun x hx => by
    obtain ⟨c, rfl⟩ := hall x hx
    cases c <;> trivial
  events := fun e he => by cases he

theorem Recorded.count_ids_le_one {given : List Addition} (h : Recorded given s₀) (id : UInt64) :
    s₀.ids.count id ≤ 1 :=
  List.nodup_iff_count_le_one.mp h.consistent.distinct id

theorem Recorded.account {given : List Addition} (h : Recorded given s₀)
    (hall : ∀ x ∈ all, ∃ c : TableCall, x = c.entry) (id : UInt64) (key : FaceKey) :
    Account s₀ ⟨s₀, [], []⟩ all id key where
  balanced := by
    have hempty : Balanced s₀ s₀ 0 id key :=
      ⟨by simpa using h.count_ids_le_one id, by simp, rfl, by simp⟩
    refine hempty.congr rfl fun y hy => Multiset.count_eq_zero.mpr fun hmem => ?_
    obtain ⟨c, rfl⟩ := hall y hmem
    cases c <;> simp [stepsOf, TableCall.entry] at hy
  registered := by
    have honce := h.count_ids_le_one id
    have hin : id ∈ s₀.ids ↔ 0 < s₀.ids.count id := List.count_pos_iff.symm
    rw [Registered, h.consistent.registry_eq, List.count_nil]
    refine hin.trans ⟨fun hpos => ⟨by omega, fun hmem => by cases hmem⟩, ?_⟩
    rintro ⟨hone, -⟩
    omega
  passages_eq := rfl

theorem Recorded.tallied {given : List Addition} (h : Recorded given s₀)
    (hcount : given.length < 2 ^ 64 - 1) (calls : ι → TableCall) :
    Tallied s₀ (Fintype.card ι) (s₀.awaiting calls).shared (allSteps (s₀.awaiting calls)) := by
  have hall : ∀ x ∈ allSteps (s₀.awaiting calls), ∃ c : TableCall, x = c.entry := fun x hx =>
    (mem_allSteps_awaiting hx).imp' calls fun _ => id
  exact ⟨Multiset.zero_le _, h.ascending hcount (s₀.bindsIn_awaiting_le calls), h.owned hall,
    fun k id _ => h.account hall id k⟩

variable [DecidableEq ι]

theorem allSteps_turn {i : ι} {rest : List Step} (h : w.parties i = x :: rest) :
    allSteps (w.turn Trace.advance i) = allSteps w + (w.shared.system.perform x).2 := by
  have hsum : ∑ j, ((w.turn Trace.advance i).parties j : Multiset Step)
      + (w.parties i : Multiset Step) = ∑ j, (w.parties j : Multiset Step)
        + ((w.shared.advance (w.parties i)).2 : Multiset Step) :=
    Joint.sum_turn (fun p : List Step => (p : Multiset Step)) w i
  have hsteps : (w.turn Trace.advance i).shared.steps = w.shared.steps ++ [x] := by
    rw [Joint.turn, h]
    rfl
  rw [h, Trace.advance] at hsum
  ext y
  have hcount := congrArg (Multiset.count y) hsum
  simp only [Multiset.count_add, Multiset.coe_count, List.count_append, List.count_cons]
    at hcount
  simp only [allSteps, hsteps, Multiset.count_add, Multiset.coe_count, List.count_append,
    List.count_cons, List.count_nil]
  omega

theorem Tallied.turn (h : Tallied s₀ n w.shared (allSteps w))
    (hroom : s₀.nextId.toNat + n < 2 ^ 64) (i : ι) :
    Tallied s₀ n (w.turn Trace.advance i).shared (allSteps (w.turn Trace.advance i)) := by
  cases hparty : w.parties i with
  | nil =>
      have hturn : w.turn Trace.advance i = w := by
        rw [Joint.turn, hparty, Trace.advance, ← hparty, Function.update_eq_self]
      rw [hturn]
      exact h
  | cons x rest =>
      have hshared : (w.turn Trace.advance i).shared = w.shared.take x := by
        rw [Joint.turn, hparty]
        rfl
      rw [hshared, allSteps_turn hparty]
      exact h.take hroom (cons_le_allSteps hparty)

theorem Tallied.run (h : Tallied s₀ n w.shared (allSteps w))
    (hroom : s₀.nextId.toNat + n < 2 ^ 64) (schedule : List ι) :
    Tallied s₀ n (w.run Trace.advance schedule).shared (allSteps (w.run Trace.advance schedule)) :=
  Joint.run_induction (P := fun w => Tallied s₀ n w.shared (allSteps w))
    (fun _ i hw => hw.turn hroom i) h schedule

omit [Fintype ι] in
theorem log_advance (w : Joint ι Trace (List Step))
    (hw : w.shared.system.log = s₀.log.record w.shared.events) (schedule : List ι) :
    (w.run Trace.advance schedule).shared.system.log
      = s₀.log.record (w.run Trace.advance schedule).shared.events := by
  refine Joint.run_induction (P := fun w => w.shared.system.log = s₀.log.record w.shared.events)
    (fun (w : Joint ι Trace (List Step)) i hw => ?_) hw schedule
  rw [Joint.turn]
  cases w.parties i with
  | nil => exact hw
  | cons x rest =>
      rw [Trace.advance, Trace.take, log_perform, hw]
      rw [EventLog.record, EventLog.record, EventLog.record, List.foldl_append]

end Runs

/-! ## What callers leave behind -/

/-- An ID is taken out of the registry before it is put there. -/
def Overtaken (id : UInt64) (steps : List Step) : Prop :=
  ∃ key, [.unregister id, .register id key].Sublist steps

theorem Step.eq_announce_of_passage? {kind : FaceEventKind} (h : x.passage? key = some kind) :
    x = .announce kind key ∧ passage kind := by
  cases x with
  | announce kind' k =>
      rw [passage?] at h
      split at h
      · rename_i hk
        cases h
        exact ⟨by rw [hk.1], hk.2⟩
      · cases h
  | _ => cases h

theorem pair_sublist_passages_iff {first second : FaceEventKind} (hfirst : passage first)
    (hsecond : passage second) :
    [first, second].Sublist (steps.filterMap (Step.passage? key))
      ↔ [.announce first key, .announce second key].Sublist steps := by
  constructor
  · intro h
    obtain ⟨taken, hsub, heq⟩ := List.sublist_filterMap_iff.mp h
    obtain ⟨before, x, rest, rfl, -, hx, hrest⟩ := List.filterMap_eq_cons_iff.mp heq.symm
    obtain ⟨between, y, after, rfl, -, hy, -⟩ := List.filterMap_eq_cons_iff.mp hrest
    obtain ⟨rfl, -⟩ := Step.eq_announce_of_passage? hx
    obtain ⟨rfl, -⟩ := Step.eq_announce_of_passage? hy
    refine List.Sublist.trans ?_ hsub
    refine List.Sublist.trans ?_ (List.sublist_append_right ..)
    refine List.Sublist.cons_cons _ (List.Sublist.trans ?_ (List.sublist_append_right ..))
    exact List.Sublist.cons_cons _ (List.nil_sublist _)
  · intro h
    have hmap := h.filterMap (Step.passage? key)
    simpa [Step.passage?, hfirst, hsecond] using hmap

section Done

variable (h : Tallied s₀ n t t.steps)

include h

theorem Tallied.registry_iff_of_bound (hid : t.system.boundId? key = some id) :
    (id ∈ t.system.registry.map (·.1) ↔ id ∈ t.system.ids ∨ Overtaken id t.steps)
      ∧ (Overtaken id t.steps → id ∉ t.system.ids) := by
  obtain ⟨⟨honce, hbalance, -, -⟩, hregistry, -⟩ := h.account key id hid
  have hovertaken : Overtaken id t.steps ↔ [.unregister id, .register id key].Sublist t.steps := by
    refine ⟨fun ⟨k, hsub⟩ => ?_, fun hsub => ⟨key, hsub⟩⟩
    have hmem := hsub.subset (List.mem_cons_of_mem _ List.mem_cons_self)
    rwa [h.numbers.owner k key id (h.owned.steps _ hmem) hid] at hsub
  have hboth (hsub : [.unregister id, .register id key].Sublist t.steps) :
      0 < t.steps.count (.unregister id) ∧ 0 < t.steps.count (.register id key) :=
    ⟨List.count_pos_iff.mpr (hsub.subset (by simp)),
      List.count_pos_iff.mpr (hsub.subset (by simp))⟩
  rw [Multiset.coe_count, Multiset.coe_count] at hbalance
  rw [Multiset.coe_count] at honce
  rw [hovertaken, show _ ↔ _ from hregistry, ← List.count_pos_iff (l := t.system.ids),
    ← List.count_pos_iff (l := t.steps)]
  by_cases hsub : [.unregister id, .register id key].Sublist t.steps
  · have := hboth hsub
    simp only [hsub, implies_true, and_true, or_true, iff_true, forall_const]
    omega
  · simp only [hsub, or_false, false_implies, and_true, imp_false]
    omega

/-- The registry has the IDs of the table and those whose removal has overtaken their addition. -/
theorem Tallied.registry_iff (id : UInt64) :
    (id ∈ t.system.registry.map (·.1) ↔ id ∈ t.system.ids ∨ Overtaken id t.steps)
      ∧ (Overtaken id t.steps → id ∉ t.system.ids) := by
  by_cases howned : ∃ key, t.system.boundId? key = some id
  · obtain ⟨key, hid⟩ := howned
    exact h.registry_iff_of_bound hid
  · have hnone := h.owned.unmentioned (not_exists.mp howned)
    have hsteps : ¬ Overtaken id t.steps := fun ⟨k, hsub⟩ =>
      hnone.register k (hsub.subset (List.mem_cons_of_mem _ List.mem_cons_self))
    simp [hnone.registry, hnone.table, hsteps]

/-- Each ID comes into the table once, and leaves it once, at most. -/
theorem Tallied.passages_nodup (id : UInt64) : (passages id t.events).Nodup := by
  by_cases howned : ∃ key, t.system.boundId? key = some id
  · obtain ⟨key, hid⟩ := howned
    obtain ⟨⟨honce, hbalance, hcreated, hdestroyed⟩, -, heq⟩ := h.account key id hid
    simp only [Multiset.coe_count] at honce hbalance hcreated hdestroyed
    refine List.nodup_iff_count_le_one.mpr fun kind => ?_
    have hle : (passages id t.events).count kind ≤ t.steps.count (.announce kind key) := by
      rw [heq, List.count_filterMap]
      refine List.countP_mono_left fun x _ hx => ?_
      simpa using (Step.eq_announce_of_passage? (by simpa using hx)).1
    cases kind with
    | created => omega
    | destroyed => omega
    | _ =>
        rw [List.count_eq_zero.mpr fun hmem => by cases (mem_passages.mp hmem).1]
        exact Nat.zero_le 1
  · rw [(h.owned.unmentioned (not_exists.mp howned)).passages_eq]
    exact List.nodup_nil

/-- The removal of an ID stands before its addition in the log if it is announced before. -/
theorem Tallied.belated_iff (id : UInt64) :
    [.destroyed, .created].Sublist (passages id t.events)
      ↔ ∃ key, t.system.boundId? key = some id
        ∧ [.announce .destroyed key, .announce .created key].Sublist t.steps := by
  by_cases howned : ∃ key, t.system.boundId? key = some id
  · obtain ⟨key, hid⟩ := howned
    rw [(h.account key id hid).passages_eq, pair_sublist_passages_iff rfl rfl]
    refine ⟨fun hsub => ⟨key, hid, hsub⟩, fun ⟨k, hk, hsub⟩ => ?_⟩
    rwa [h.numbers.owner k key id hk hid] at hsub
  · rw [(h.owned.unmentioned (not_exists.mp howned)).passages_eq]
    refine iff_of_false (by simp) fun ⟨key, hid, _⟩ => howned ⟨key, hid⟩

end Done

/-- When callers have added and removed faces, each in its own time, the registry has the IDs of the
table and those that were unregistered before they were registered, which the table has not. An ID
has at most one event for its addition and one for its removal, in the order in which they were
announced. -/
theorem registry_differs_where_overtaken {ι : Type} [Fintype ι] [DecidableEq ι] (config : Config)
    (os : List Operation) (calls : ι → TableCall) (schedule : List ι) :
    let s₀ := os.foldl operate (create config)
    let w := (s₀.awaiting calls).run Trace.advance schedule
    let t := w.shared
    (along operate admitted (create config) os).length + Fintype.card ι + 1 < 2 ^ 64 →
      (∀ i, w.parties i = []) →
        t.system.log = s₀.log.record t.events
          ∧ ∀ id, ((id ∈ t.system.registry.map (·.1) ↔ id ∈ t.system.ids ∨ Overtaken id t.steps)
              ∧ (Overtaken id t.steps → id ∉ t.system.ids))
            ∧ (passages id t.events).Nodup
            ∧ ([.destroyed, .created].Sublist (passages id t.events)
              ↔ ∃ key, t.system.boundId? key = some id
                ∧ [.announce .destroyed key, .announce .created key].Sublist t.steps) := by
  intro s₀ w t hroom hdone
  have hrecorded := (traced_of_operations config os).recorded
  have hcount : (along operate admitted (create config) os).length < 2 ^ 64 - 1 := by omega
  have hnext : s₀.nextId.toNat + Fintype.card ι < 2 ^ 64 := by
    rw [(hrecorded.numbered hcount).1]
    omega
  have htallied : Tallied s₀ (Fintype.card ι) t t.steps := by
    rw [← allSteps_of_done hdone]
    exact (hrecorded.tallied hcount calls).run hnext schedule
  exact ⟨log_advance _ rfl schedule, fun id => ⟨htallied.registry_iff id,
    htallied.passages_nodup id, htallied.belated_iff id⟩⟩

/-- A caller that adds the first face, and one that closes all faces. -/
def addingAndClosing : Fin 2 → TableCall
  | 0 => .add 0 false
  | 1 => .closeAll

/-- A face that nobody has added yet. -/
def makingOne : List Operation :=
  [.call (.make ⟨.null, Face.new_null⟩)]

/-- What comes of the two callers when they take turns in some order. -/
def addingAndClosingIn (schedule : List (Fin 2)) : Joint (Fin 2) Trace (List Step) :=
  ((makingOne.foldl operate (create {})).awaiting addingAndClosing).run Trace.advance schedule

/-- The second caller finds the face before it is registered, and removes it after. -/
theorem registry_agrees_of_two :
    let w := addingAndClosingIn [0, 1, 1, 1, 0, 0, 1, 1, 1, 1, 1, 1, 1]
    (∀ i, w.parties i = []) ∧ ∀ id,
      (id ∈ w.shared.system.registry.map (·.1) ↔ id ∈ w.shared.system.ids)
        ∧ ¬ [.destroyed, .created].Sublist (passages id w.shared.events) := by
  intro w
  have hdone : ∀ i, w.parties i = [] := by decide +kernel
  have hmarks : w.shared.steps.filter Step.marks = [.bind 0 false, .register 1 0,
      .announce .created 0, .unregister 1, .announce .destroyed 0] := by decide +kernel
  obtain ⟨-, hall⟩ := registry_differs_where_overtaken {} makingOne addingAndClosing
    [0, 1, 1, 1, 0, 0, 1, 1, 1, 1, 1, 1, 1] (by decide +kernel) hdone
  refine ⟨hdone, fun id => ?_⟩
  obtain ⟨⟨hregistry, -⟩, -, hbelated⟩ := hall id
  constructor
  · refine hregistry.trans (or_iff_left ?_)
    rintro ⟨key, hsub⟩
    have hmarked : [.unregister id, .register id key].Sublist (w.shared.steps.filter Step.marks) :=
      hsub.filter Step.marks
    rw [hmarks] at hmarked
    obtain ⟨rfl, rfl⟩ : id = 1 ∧ key = 0 := by
      simpa using hmarked.subset (List.mem_cons_of_mem _ List.mem_cons_self)
    exact absurd hmarked (by decide)
  · intro hbefore
    obtain ⟨key, -, hsub⟩ := hbelated.mp hbefore
    have hmarked : [.announce .destroyed key, .announce .created key].Sublist
        (w.shared.steps.filter Step.marks) := hsub.filter Step.marks
    rw [hmarks] at hmarked
    obtain rfl : key = 0 := by
      simpa using hmarked.subset (List.mem_cons_of_mem _ List.mem_cons_self)
    exact absurd hmarked (by decide)

/-- The second caller takes the face of the first out of the table before it is registered: the
registry keeps it for good, and its addition has a greater number than its removal. -/
theorem removal_overtakes_addition :
    let w := addingAndClosingIn [0, 1, 1, 1, 1, 1, 1, 1, 1, 1, 1, 0, 0]
    (∀ i, w.parties i = []) ∧ w.shared.system.ids = []
      ∧ w.shared.system.registry.map (·.1) = [1]
      ∧ w.shared.system.log.events.map (fun e => (e.id, e.kind, e.face.faceId))
        = [(1, .down, 1), (2, .destroyed, 1), (3, .created, 1)] := by
  decide +kernel

end NamedData.FaceSystem
