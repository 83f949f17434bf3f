import NamedData.Proofs.System.Creation

/-!
# Calls that agree on a face

When several calls create faces to the same remote end, the steps of each leave alone what the
others have made. So one face for it comes into the table, and all calls answer with its ID. As the
event log forgets, the events of a run are told by its steps.
-/

namespace NamedData.FaceSystem

open Creation

variable {s s₀ : FaceSystem} {a : Act} {x : Addition} {key k : FaceKey} {f : Face} {id : UInt64}
  {remote : FaceUri} {p q : Caller}

/-! ## What all steps keep -/

/-- What a system keeps of an earlier one while faces are created in it. -/
structure Keeps (s₀ s : FaceSystem) : Prop extends s.Consistent where
  config_eq : s.config = s₀.config
  single : ∀ remote, s₀.find? remote = none → (s.facing remote).length ≤ 1
  serving : ∀ remote, s₀.find? remote = none → ∀ e ∈ s.facing remote, s.Serving remote e.1 e.2

theorem Keeps.refl (h : s.Consistent) : Keeps s s where
  toConsistent := h
  config_eq := rfl
  single := fun remote hnone => by
    rw [find?_eq_none_iff.mp hnone]
    exact Nat.zero_le 1
  serving := fun remote hnone e he => by
    rw [find?_eq_none_iff.mp hnone] at he
    cases he

/-- No caller does anything to a face in the table but to start it. -/
theorem Serving.act {config : Config} (h : s.Serving remote id key) (hs : s.Consistent)
    (hp : Holds config s p) (ha : p.act? s = some a) : (s.act a).Serving remote id key := by
  have hbound : s.boundId? key = some id := (hs.bound _ (mem_facing.mp h.1).1).2
  have hidle {k : FaceKey} {remote' : FaceUri} (hk : s.Idle remote' k) : some k ≠ some key := by
    rintro ⟨⟩
    cases hk.outside.symm.trans hbound
  have hkept := hp.kept ha
  unfold Caller.act? at ha
  split at ha
  · obtain ⟨f, -, rfl⟩ := Option.map_eq_some_iff.mp ha
    exact h.after hs hkept (by simp [Act.key?])
  · rename_i k hprogress
    cases ha
    rw [Holds, hprogress] at hp
    exact h.after hs hkept (hidle hp)
  · rename_i id' k hprogress
    cases ha
    by_cases hk : k = key
    · exact hk ▸ h.start hs
    · exact h.after hs hkept fun heq => hk (Option.some.inj heq)
  · rename_i k answer hprogress
    cases ha
    rw [Holds, hprogress] at hp
    exact h.after hs hkept (hidle hp.1)
  · cases ha

/-- The face that a caller adds is up. -/
theorem Holds.serving_added {config : Config} (hp : Holds config s p) (hs : s.Consistent)
    (ha : p.act? s = some a) (hadd : s.added a = [x]) :
    (s.act a).Serving p.call.remote x.id x.key := by
  unfold Caller.act? at ha
  split at ha
  · obtain ⟨f, -, rfl⟩ := Option.map_eq_some_iff.mp ha
    cases hadd
  · rename_i key hprogress
    cases ha
    rw [Holds, hprogress] at hp
    rcases hp.add hs with ⟨id, s', hok, hserving⟩ | ⟨e, herror, -⟩
    · obtain ⟨state, hadded⟩ := added_of_ok hok
      cases hadded.symm.trans hadd
      have hact : s.act (.add key true) = s' := by rw [FaceSystem.act, hok]; rfl
      exact hact.symm ▸ hserving
    · cases (added_of_error herror).symm.trans hadd
  · cases ha
    cases hadd
  · cases ha
    cases hadd
  · cases ha

theorem Keeps.act (h : Keeps s₀ s) (hp : Holds s₀.config s p) (ha : p.act? s = some a) :
    Keeps s₀ (s.act a) where
  toConsistent := h.toConsistent.after a
  config_eq := (config_act h.registry_eq a).trans h.config_eq
  single := fun remote hnone =>
    h.length_facing_act_le (unique_of_act? ha) (h.single remote hnone)
  serving := fun remote hnone e he => by
    have hold (he : e ∈ s.facing remote) : (s.act a).Serving remote e.1 e.2 :=
      (h.serving remote hnone e he).act h.toConsistent hp ha
    rcases added_cases s a with hadd | ⟨x, hadd⟩
    · rw [h.facing_act_of_kept hadd (hp.kept ha)] at he
      exact hold he
    · have hafter := he
      rw [h.facing_act_of_added hadd] at he
      rcases List.mem_append.mp he with he | hnew
      · exact hold he
      · split at hnew
        · cases List.mem_singleton.mp hnew
          have hserving := hp.serving_added h.toConsistent ha hadd
          have hremote := (mem_facing.mp hserving.1).2
          rw [(mem_facing.mp hafter).2] at hremote
          cases hremote
          exact hserving
        · cases hnew

/-- Two callers have not made the same face. -/
def Separate (p q : Caller) : Prop :=
  ∀ k, p.progress.key? = some k → q.progress.key? ≠ some k

theorem key?_next (hk : (p.next s).key? = some k) :
    p.progress.key? = some k ∨ k = s.faces.length := by
  obtain ⟨call, progress⟩ := p
  unfold Caller.next at hk
  cases progress with
  | waiting =>
      dsimp only at hk
      split at hk
      · cases hk
      · split at hk <;> cases hk
  | searched =>
      dsimp only at hk
      split at hk
      · exact .inr (Option.some.inj hk).symm
      · cases hk
  | dialled key =>
      dsimp only at hk
      split at hk <;> exact .inl hk
  | _ => exact .inl hk

theorem step_cases (s : FaceSystem) (p : Caller) :
    (∃ a, p.act? s = some a ∧ (p.step s).1 = s.act a)
      ∨ p.act? s = none ∧ (p.step s).1 = s := by
  unfold Caller.step
  cases p.act? s with
  | none => exact .inr ⟨rfl, rfl⟩
  | some a => exact .inl ⟨a, rfl, rfl⟩

theorem Keeps.step (h : Keeps s₀ s) (hp : Holds s₀.config s p) :
    Keeps s₀ (p.step s).1 ∧ Holds s₀.config (p.step s).1 (p.step s).2 := by
  refine ⟨?_, hp.step h.toConsistent h.config_eq⟩
  rcases step_cases s p with ⟨a, ha, hstep⟩ | ⟨-, hstep⟩
  · exact hstep ▸ h.act hp ha
  · rwa [hstep]

theorem Holds.step_other {config : Config} (hq : Holds config s q) (hs : s.Consistent)
    (hp : Holds config s p) (hpq : Separate p q) :
    Holds config (p.step s).1 q ∧ Separate (p.step s).2 q := by
  constructor
  · rcases step_cases s p with ⟨a, ha, hstep⟩ | ⟨-, hstep⟩
    · rw [hstep]
      exact hq.after hs (hp.kept ha) fun k hk hkey => hpq k (key?_of_act? ha hkey) hk
    · rwa [hstep]
  · intro k hk hqk
    rcases key?_next hk with hold | hnew
    · exact hpq k hold hqk
    · exact absurd (hq.lt_length hqk) (Nat.not_lt.mpr (Nat.le_of_eq hnew.symm))

section Joint

variable {ι : Type} {w : Joint ι FaceSystem Caller}

/-- Callers that have done nothing yet. -/
def poised (s : FaceSystem) (calls : ι → Creation) : Joint ι FaceSystem Caller :=
  ⟨s, fun i => ⟨calls i, .waiting⟩⟩

/-- What holds of a system in which callers create faces. -/
abbrev Creating (s₀ : FaceSystem) (w : Joint ι FaceSystem Caller) : Prop :=
  w.Sound (Keeps s₀) (Holds s₀.config) Separate

theorem creating_poised (h : s.Consistent) (calls : ι → Creation) :
    Creating s (s.poised calls) where
  shared := .refl h
  parties := fun _ => trivial
  apart := fun _ _ _ _ hk => by cases hk

variable [DecidableEq ι]

theorem Creating.turn (h : Creating s₀ w) (i : ι) : Creating s₀ (w.turn Caller.step i) :=
  Joint.Sound.turn h (fun _ _ hpq k hq hp => hpq k hp hq) (fun _ _ hs hp => hs.step hp)
    (fun _ _ _ hs hp hq hpq => hq.step_other hs.toConsistent hp hpq) i

theorem Creating.run (h : Creating s₀ w) (schedule : List ι) :
    Creating s₀ (w.run Caller.step schedule) :=
  Joint.run_induction (fun _ i hw => hw.turn i) h schedule

theorem call_run (w : Joint ι FaceSystem Caller) (schedule : List ι) (i : ι) :
    ((w.run Caller.step schedule).parties i).call = (w.parties i).call := by
  refine Joint.run_induction (P := fun w' => (w'.parties i).call = (w.parties i).call)
    (fun (w' : Joint ι FaceSystem Caller) j hw' => ?_) rfl schedule
  by_cases hj : i = j
  · subst hj
    rw [Joint.parties_turn_self]
    exact hw'
  · rw [Joint.parties_turn_of_ne w' hj]
    exact hw'

/-! ## Events -/

/-- The events of the next step of a caller. -/
def announcedIn (w : Joint ι FaceSystem Caller) (i : ι) : List Announcement :=
  ((w.parties i).act? w.shared).toList.flatMap w.shared.announced

/-- The events while the callers take their turns. -/
def eventsOf (w : Joint ι FaceSystem Caller) (schedule : List ι) : List Announcement :=
  along (Joint.turn Caller.step) announcedIn w schedule

end Joint

/-- How a system has come from an earlier one by the creation of faces, with what was announced. -/
structure Growth (s₀ s : FaceSystem) (new : List (UInt64 × FaceKey)) (events : List Announcement) :
    Prop where
  table_eq : s.table = s₀.table ++ new
  remote?_eq : ∀ e ∈ s₀.table, s.remote? e.2 = s₀.remote? e.2
  events_eq : events.map (fun e => (e.1, e.2.faceId)) = new.map fun e => (.created, e.1)
  log_eq : s.log = s₀.log.record events

theorem Growth.refl (s : FaceSystem) : Growth s s [] [] where
  table_eq := (List.append_nil _).symm
  remote?_eq := fun _ _ => rfl
  events_eq := rfl
  log_eq := rfl

theorem Growth.trans {s₁ s₂ : FaceSystem} {new new' : List (UInt64 × FaceKey)}
    {events events' : List Announcement} (h : Growth s₀ s₁ new events)
    (h' : Growth s₁ s₂ new' events') : Growth s₀ s₂ (new ++ new') (events ++ events') where
  table_eq := by rw [h'.table_eq, h.table_eq, List.append_assoc]
  remote?_eq := fun e he => by
    rw [h'.remote?_eq e (h.table_eq ▸ List.mem_append_left _ he), h.remote?_eq e he]
  events_eq := by rw [List.map_append, List.map_append, h.events_eq, h'.events_eq]
  log_eq := by rw [h'.log_eq, h.log_eq, EventLog.record, EventLog.record, EventLog.record,
    List.foldl_append]

theorem Holds.announced_eq_nil {config : Config} (h : Holds config s p) (hs : s.Consistent)
    (ha : p.act? s = some a) (hnone : s.added a = []) : s.announced a = [] := by
  unfold Caller.act? at ha
  split at ha
  · obtain ⟨f, -, rfl⟩ := Option.map_eq_some_iff.mp ha
    rfl
  · cases ha
    exact announced_add_eq_nil hnone
  · cases ha
    rfl
  · rename_i key answer hp
    cases ha
    rw [Holds, hp] at h
    -- Events of a change of state would be about the ID of the face, and it has none.
    refine List.eq_nil_iff_forall_not_mem.mpr fun e he => ?_
    have howner := (hs.announced_move e he).1
    rw [h.1.outside] at howner
    cases howner
  · cases ha

theorem Holds.growth {config : Config} (h : Holds config s p) (hs : s.Consistent)
    (ha : p.act? s = some a) :
    Growth s (s.act a) ((s.added a).map fun x => (x.id, x.key)) (s.announced a) where
  table_eq := table_act_of_kept hs.registry_eq (h.kept ha)
  remote?_eq := fun e he => hs.remote?_act_of_mem he
  events_eq := by
    rcases added_cases s a with hnone | ⟨x, hadd⟩
    · rw [h.announced_eq_nil hs ha hnone, hnone]
      rfl
    · obtain ⟨f, hf, -⟩ := act_of_added hadd
      rw [announced_of_added hadd hf, hadd]
      rfl
  log_eq := log_act s a

section Joint

variable {ι : Type} [DecidableEq ι] {w : Joint ι FaceSystem Caller}

theorem Creating.growth_turn (h : Creating s₀ w) (i : ι) :
    ∃ new, Growth w.shared (w.turn Caller.step i).shared new (announcedIn w i) := by
  have hshared : (w.turn Caller.step i).shared = ((w.parties i).step w.shared).1 := rfl
  rw [hshared, announcedIn]
  rcases step_cases w.shared (w.parties i) with ⟨a, ha, hstep⟩ | ⟨hnone, hstep⟩
  · rw [hstep, ha, Option.toList_some, List.flatMap_singleton]
    exact ⟨_, (h.parties i).growth h.shared.toConsistent ha⟩
  · rw [hstep, hnone]
    exact ⟨[], .refl w.shared⟩

theorem Creating.growth (h : Creating s₀ w) (schedule : List ι) :
    ∃ new, Growth w.shared (w.run Caller.step schedule).shared new (eventsOf w schedule) := by
  induction schedule generalizing w with
  | nil => exact ⟨[], .refl w.shared⟩
  | cons i rest ih =>
      obtain ⟨new, hfirst⟩ := h.growth_turn i
      obtain ⟨new', hrest⟩ := ih (h.turn i)
      exact ⟨new ++ new', hfirst.trans hrest⟩

end Joint

/-- The only event about a face that was added is its addition. -/
theorem Growth.about_eq {new : List (UInt64 × FaceKey)} {events : List Announcement}
    (h : Growth s₀ s new events) (hs : s.Consistent) (hmem : (id, key) ∈ new) :
    about id events = [.created] := by
  obtain ⟨before, after, rfl⟩ := List.mem_iff_append.mp hmem
  have hdistinct := hs.distinct
  rw [h.table_eq] at hdistinct
  have habout : about id events
      = ((events.map fun e => (e.1, e.2.faceId)).filter fun e => e.2 == id).map (·.1) := by
    simp [about, List.filter_map, Function.comp_def]
  have hothers : ∀ e ∈ before ++ after, e.1 ≠ id := by
    rw [DistinctKeys, List.map_append] at hdistinct
    have hnew := hdistinct.of_append_right
    rw [List.map_append, List.map_cons, List.nodup_middle, List.nodup_cons,
      ← List.map_append] at hnew
    rintro e he rfl
    exact hnew.1 (List.mem_map_of_mem (f := (·.1)) he)
  have hnone (es : List (UInt64 × FaceKey)) (hes : ∀ e ∈ es, e ∈ before ++ after) :
      (es.map fun e => (FaceEventKind.created, e.1)).filter (fun e => e.2 == id) = [] := by
    refine List.filter_eq_nil_iff.mpr fun e he => ?_
    obtain ⟨e', he', rfl⟩ := List.mem_map.mp he
    simpa using hothers e' (hes e' he')
  rw [habout, h.events_eq, List.map_append, List.map_cons, List.filter_append,
    hnone before fun e he => List.mem_append_left _ he, List.nil_append,
    List.filter_cons_of_pos (by simp), hnone after fun e he => List.mem_append_right _ he]
  rfl

theorem Growth.of_mem {new : List (UInt64 × FaceKey)} {events : List Announcement}
    (h : Growth s₀ s new events) {e : Announcement} (he : e ∈ events) :
    e.1 = .created ∧ e.2.faceId ∈ s.ids := by
  have hmem := List.mem_map_of_mem (f := fun e : Announcement => (e.1, e.2.faceId)) he
  rw [h.events_eq] at hmem
  obtain ⟨entry, hentry, heq⟩ := List.mem_map.mp hmem
  obtain ⟨hkind, hid⟩ := Prod.mk.inj heq
  refine ⟨hkind.symm, ?_⟩
  rw [← hid, ids, h.table_eq]
  exact List.mem_map_of_mem (f := (·.1)) (List.mem_append_right _ hentry)

/-! ## Answers -/

/-- A call that made a face, or found one, is told an ID; a call fails if its dialling fails. -/
theorem Holds.answer {config : Config} {answer : Except Error UInt64} (h : Holds config s p)
    (hcanonical : p.call.remote.canonical = true) (hanswer : p.progress.answer? = some answer) :
    s.Agrees p.call.remote answer
      ∨ ∃ e, p.call.outcome config = .error e ∧ p.progress = .failed e := by
  unfold Holds at h
  cases hp : p.progress <;> rw [hp] at h hanswer <;> cases hanswer
  case found id =>
      obtain ⟨key, hmem⟩ := h
      exact .inl (.inl ⟨id, key, rfl, hmem⟩)
  case failed e =>
      rcases h with hnot | houtcome
      · rw [hcanonical] at hnot
        cases hnot
      · exact .inr ⟨e, houtcome, rfl⟩
  case created id key => exact .inl (.inl ⟨id, key, rfl, h.1⟩)
  case yielded key => exact .inl h.2

/-- A face that was made stands in the table once its call has ended, or is discarded. -/
theorem Holds.made {config : Config} (h : Holds config s p) (hk : p.progress.key? = some k)
    (hdone : p.progress.answer? ≠ none) :
    (∃ id, p.progress.answer? = some (.ok id) ∧ s.Serving p.call.remote id k) ∨ s.Discarded k := by
  unfold Holds at h
  cases hp : p.progress <;> rw [hp] at h hk hdone <;> cases hk
  case dialled => exact absurd rfl hdone
  case added => exact absurd rfl hdone
  case refused => exact absurd rfl hdone
  case created id => exact .inl ⟨id, rfl, h⟩
  case yielded => exact .inr h.1

theorem Discarded.not_mem (h : s.Discarded k) (hs : s.Consistent) (id : UInt64) :
    (id, k) ∉ s.table ∧ (id, k) ∉ s.registry := by
  rw [hs.registry_eq, and_self]
  intro hmem
  obtain ⟨f, hf, hid, -⟩ := h
  have hbound := (hs.bound _ hmem).2
  rw [boundId?, hf, Option.bind_some, hid] at hbound
  cases hbound

theorem Agrees.ok {answer : Except Error UInt64} (h : s.Agrees remote answer) (hroom : ¬ s.Full)
    (hfacing : s.facing remote = [(id, key)]) : answer = .ok id := by
  rcases h with ⟨id', key', rfl, hmem⟩ | hfull
  · rw [hfacing, List.mem_singleton] at hmem
    cases hmem
    rfl
  · exact absurd hfull hroom

section Joint

variable {ι : Type}

/-- What callers have made of a remote end that no face in the table had before. -/
structure Outcome (s₀ : FaceSystem) (calls : ι → Creation) (w : Joint ι FaceSystem Caller)
    (events : List Announcement) (remote : FaceUri) (id : UInt64) (key : FaceKey) : Prop where
  /-- One face in the table has the remote end, and it is up. -/
  facing_eq : w.shared.facing remote = [(id, key)]
  serving : w.shared.Serving remote id key
  /-- All calls for the remote end answer with its ID, but those that could not dial. -/
  answers : ∀ i, (calls i).remote = remote → (w.parties i).progress.answer? = some (.ok id)
    ∨ ∃ e, (calls i).outcome s₀.config = .error e ∧ (w.parties i).progress = .failed e
  /-- All other faces that were made for it are discarded. -/
  losers : ∀ i k, (calls i).remote = remote → (w.parties i).progress.key? = some k → k ≠ key →
    w.shared.Discarded k ∧ ∀ id', (id', k) ∉ w.shared.table ∧ (id', k) ∉ w.shared.registry
  /-- Its addition is the only event about it. -/
  about_eq : about id events = [.created]
  /-- All events are additions of faces that are still in the table. -/
  created : ∀ e ∈ events, e.1 = .created ∧ e.2.faceId ∈ w.shared.ids

theorem Creating.outcome {w : Joint ι FaceSystem Caller} (h : Creating s₀ w)
    {new : List (UInt64 × FaceKey)} {events : List Announcement}
    (hgrowth : Growth s₀ w.shared new events) (hroom : ¬ w.shared.Full)
    (hcanonical : remote.canonical = true) (hnone : s₀.find? remote = none)
    (hdone : ∀ i, (w.parties i).call.remote = remote → (w.parties i).progress.answer? ≠ none)
    {i : ι} (hremote : (w.parties i).call.remote = remote)
    (hmade : (w.parties i).progress.key? ≠ none) :
    ∃ id key, Outcome s₀ (fun i => (w.parties i).call) w events remote id key := by
  have hs := h.shared.toConsistent
  have hsingle := h.shared.single remote hnone
  obtain ⟨id, key, hmem⟩ : ∃ id key, (id, key) ∈ w.shared.facing remote := by
    obtain ⟨answer, hanswer⟩ := Option.ne_none_iff_exists'.mp (hdone i hremote)
    rcases (h.parties i).answer (hremote.symm ▸ hcanonical) hanswer with
      (⟨id, key, -, hmem⟩ | hfull) | ⟨e, -, hfailed⟩
    · exact ⟨id, key, hremote ▸ hmem⟩
    · exact absurd hfull hroom
    · rw [hfailed] at hmade
      exact absurd rfl hmade
  have hfacing : w.shared.facing remote = [(id, key)] := by
    obtain ⟨e, he⟩ := List.length_eq_one_iff.mp
      (Nat.le_antisymm hsingle (List.length_pos_of_mem hmem))
    rw [he, List.mem_singleton] at hmem
    rw [he, hmem]
  have hadded : (id, key) ∈ new := by
    obtain ⟨htable, hof⟩ := mem_facing.mp hmem
    rw [hgrowth.table_eq] at htable
    refine (List.mem_append.mp htable).resolve_left fun hold => ?_
    have hfaced : (id, key) ∈ s₀.facing remote :=
      mem_facing.mpr ⟨hold, (hgrowth.remote?_eq _ hold).symm.trans hof⟩
    rw [find?_eq_none_iff.mp hnone] at hfaced
    cases hfaced
  refine ⟨id, key, hfacing, h.shared.serving remote hnone _ hmem, fun j hj => ?_,
    fun j k hj hk hne => ?_, hgrowth.about_eq hs hadded, fun e he => hgrowth.of_mem he⟩
  · obtain ⟨answer, hanswer⟩ := Option.ne_none_iff_exists'.mp (hdone j hj)
    refine ((h.parties j).answer (hj.symm ▸ hcanonical) hanswer).imp_left fun hagrees => ?_
    rw [hanswer, Agrees.ok hagrees hroom (hj.symm ▸ hfacing)]
  · rcases (h.parties j).made hk (hdone j hj) with ⟨id', -, hserving, -⟩ | hdiscarded
    · rw [hj, hfacing, List.mem_singleton] at hserving
      cases hserving
      exact absurd rfl hne
    · exact ⟨hdiscarded, hdiscarded.not_mem hs⟩

variable [DecidableEq ι]

/-- What happens while callers create faces: a caller takes its next step, or something else. -/
inductive Happening (ι : Type) where
  | turn (i : ι)
  | operation (o : Operation)

def happen (w : Joint ι FaceSystem Caller) : Happening ι → Joint ι FaceSystem Caller
  | .turn i => w.turn Caller.step i
  | .operation o => { w with shared := w.shared.operate o }

theorem Apart.happen {w : Joint ι FaceSystem Caller} {h : Happening ι} (hs : w.shared.Apart)
    (hunique : ∀ o, h = .operation o → o.Unique) : (happen w h).shared.Apart := by
  cases h with
  | turn i =>
      have hshared : (w.turn Caller.step i).shared = ((w.parties i).step w.shared).1 := rfl
      rw [FaceSystem.happen, hshared]
      rcases step_cases w.shared (w.parties i) with ⟨a, ha, hstep⟩ | ⟨-, hstep⟩
      · exact hstep ▸ hs.after (unique_of_act? ha)
      · rwa [hstep]
  | operation o => exact hs.operate (hunique o rfl)

theorem Apart.happenings {w : Joint ι FaceSystem Caller} (h : w.shared.Apart)
    {hs : List (Happening ι)} (hunique : ∀ o, .operation o ∈ hs → o.Unique) :
    (hs.foldl FaceSystem.happen w).shared.Apart := by
  induction hs generalizing w with
  | nil => exact h
  | cons first rest ih =>
      refine ih (h.happen fun o ho => hunique o ?_) fun o ho => hunique o ?_
      · exact ho ▸ List.mem_cons_self
      · exact List.mem_cons_of_mem first ho

/-- However calls that create faces take turns, once all that are for the same remote end have
answered they have made one face: it alone is in the table, all that did not fail answer with its
ID, and the faces that came too late are discarded. While additions are unique, whatever else
happens, all faces in the table have different remote ends. -/
theorem creations_agree (config : Config) :
    (∀ (os : List Operation) (calls : ι → Creation) (schedule : List ι) (remote : FaceUri) (i : ι),
      let s₀ := os.foldl operate (create config)
      let w := (s₀.poised calls).run Caller.step schedule
      remote.canonical = true → s₀.find? remote = none → w.shared.table.length + 1 < 2 ^ 64 →
        (∀ j, (calls j).remote = remote → (w.parties j).progress.answer? ≠ none) →
        (calls i).remote = remote → (w.parties i).progress.key? ≠ none →
          w.shared.log = s₀.log.record (eventsOf (s₀.poised calls) schedule)
            ∧ ∃ id key, Outcome s₀ calls w (eventsOf (s₀.poised calls) schedule) remote id key)
      ∧ ∀ (calls : ι → Creation) (hs : List (Happening ι)),
        (∀ o, .operation o ∈ hs → o.Unique) →
          let s := (hs.foldl happen ((create config).poised calls)).shared
          (s.table.map fun e => s.remote? e.2).Nodup := by
  constructor
  · intro os calls schedule remote i s₀ w hcanonical hnone hroom hdone hremote hmade
    have hpoised : Creating s₀ (s₀.poised calls) :=
      creating_poised (traced_of_operations config os).recorded.consistent calls
    have hcalls : (fun j => (w.parties j).call) = calls :=
      funext fun j => call_run (s₀.poised calls) schedule j
    obtain ⟨new, hgrowth⟩ := hpoised.growth schedule
    refine ⟨hgrowth.log_eq, ?_⟩
    have hcall (j : ι) : (w.parties j).call = calls j := congrFun hcalls j
    have houtcome := (hpoised.run schedule).outcome hgrowth (Nat.not_le.mpr hroom) hcanonical hnone
      (fun j hj => hdone j ((hcall j).symm ▸ hj)) ((hcall i).symm ▸ hremote) hmade
    rwa [hcalls] at houtcome
  · intro calls hs hunique s
    exact (Apart.happenings (w := (create config).poised calls) (create_apart config) hunique).nodup

/-- Two callers that both find no face and both make one, beside a third that is still looking for
another; and two where the face of the first is destroyed before the second looks for one. -/
theorem creations_agree_of_two :
    let made : Creation :=
      { remote := .null, persistency := .permanent, options := none
        dial := fun _ _ => .ok ⟨.null, Face.new_null, rfl⟩ }
    let other : Creation :=
      { remote := .internal, persistency := .permanent, options := none
        dial := fun _ _ => .error (.unsupportedScheme "internal") }
    let calls : Fin 3 → Creation := ![made, made, other]
    let schedule : List (Fin 3) := [0, 1, 2, 0, 1, 0, 1, 0, 1]
    let w := ((create {}).poised calls).run Caller.step schedule
    let others : List (Happening (Fin 3)) :=
      [.turn 0, .turn 0, .turn 0, .turn 0, .operation (.call (.destroy 1)), .turn 1, .turn 1,
        .turn 1, .turn 1]
    let s := (others.foldl happen ((create {}).poised calls)).shared
    (w.parties 0).progress = .created 1 0 ∧ (w.parties 1).progress = .yielded 1 (.ok 1)
      ∧ (w.parties 2).progress = .searched
      ∧ (∃ id key, Outcome (create {}) calls w (eventsOf ((create {}).poised calls) schedule) .null
        id key)
      ∧ s.ids = [2] ∧ (s.table.map fun e => s.remote? e.2).Nodup := by
  intro made other calls schedule w others s
  have hfirst : (w.parties 0).progress = .created 1 0 := by decide +kernel
  have hsecond : (w.parties 1).progress = .yielded 1 (.ok 1) := by decide +kernel
  have hthird : (w.parties 2).progress = .searched := by decide +kernel
  have hroom : w.shared.table.length + 1 < 2 ^ 64 := by decide +kernel
  have hids : s.ids = [2] := by decide +kernel
  have hdone : ∀ j, (calls j).remote = .null → (w.parties j).progress.answer? ≠ none := by
    intro j hj
    match j with
    | 0 => simp [hfirst, Progress.answer?]
    | 1 => simp [hsecond, Progress.answer?]
    | 2 => cases hj
  have hunique : ∀ o, .operation o ∈ others → o.Unique := by
    intro o ho
    obtain rfl : o = .call (.destroy 1) := by simpa [others] using ho
    trivial
  have hmade : (w.parties 0).progress.key? ≠ none := by simp [hfirst, Progress.key?]
  obtain ⟨-, houtcome⟩ :=
    (creations_agree {}).1 [] calls schedule .null 0 rfl rfl hroom hdone rfl hmade
  exact ⟨hfirst, hsecond, hthird, houtcome, hids, (creations_agree {}).2 calls others hunique⟩

end Joint

end NamedData.FaceSystem
