import NamedData.Proofs.System.Destruction

/-!
# Steps of adding and removing

The calls that add faces to the table and take them out of it, step by step. The table, the registry
and the event log are changed in steps of their own, between which other callers may take theirs. A
caller that no other disturbs does what the calls do. All that a step may do to the table, the
registry and the events is said here once.
-/

namespace NamedData.FaceSystem

/-- One step of a call that adds or removes faces. -/
inductive Step where
  | bind (key : FaceKey) (unique : Bool)
  | register (id : UInt64) (key : FaceKey)
  | unbind (id : UInt64)
  | unregister (id : UInt64)
  | announce (kind : FaceEventKind) (key : FaceKey)
  /-- A face of the table is looked up to be taken down. -/
  | find (id : UInt64)
  | findAll
  /-- The service of a face is told that the face goes down. -/
  | request (key : FaceKey)
  /-- A face goes down, which has no consequences if it has gone down before. -/
  | lower (key : FaceKey)
  | follow (key : FaceKey) (c : StateConsequence)
deriving DecidableEq

/-- The steps of taking a face down for good. -/
def takeDown (key : FaceKey) : List Step :=
  [.request key, .lower key]

/-- What a step does, and the steps of the same caller that it brings. -/
def perform (s : FaceSystem) : Step → FaceSystem × List Step
  | .bind key unique =>
    match s.bind key unique with
    | .ok (id, s') => (s', [.register id key, .announce .created key])
    | .error _ => (s, [])
  | .register id key => (s.register id key, [])
  | .unbind id =>
    match s.unbind? id with
    | some (key, s') => (s', [.unregister id, .announce .destroyed key])
    | none => (s, [])
  | .unregister id => (s.unregister id, [])
  | .announce kind key => (s.announce kind key, [])
  | .find id => (s, (s.keyOf? id).toList.flatMap takeDown)
  | .findAll => (s, (s.table.map (·.2)).flatMap takeDown)
  | .request key => (s.modifyFace key fun f => f.requestState .adminDown, [])
  | .lower key =>
    match (s.face? key).elim [] fun f => f.base.state.consequences .adminDown with
    | [] => (s, [])
    | c :: rest => (carryOut key s c, rest.map (.follow key))
  | .follow key .remove => (s, (s.boundId? key).toList.map .unbind)
  | .follow key c => (carryOut key s c, [])

/-! ## Callers that are not disturbed -/

/-- A caller that has some steps to take leaves a system behind when it has taken all of them, with
those that they bring, and no other caller has taken any. -/
inductive Completes : FaceSystem → List Step → FaceSystem → Prop where
  | nil (s : FaceSystem) : Completes s [] s
  | cons {s s' : FaceSystem} {x : Step} {rest : List Step}
      (h : Completes (s.perform x).1 ((s.perform x).2 ++ rest) s') : Completes s (x :: rest) s'

variable {s s₁ s₂ : FaceSystem} {steps steps' : List Step}

theorem Completes.append (h : Completes s steps s₁) (h' : Completes s₁ steps' s₂) :
    Completes s (steps ++ steps') s₂ := by
  induction h with
  | nil s => exact h'
  | cons h ih =>
      rw [List.cons_append]
      refine .cons ?_
      rw [← List.append_assoc]
      exact ih h'

theorem completes_add (s : FaceSystem) (key : FaceKey) (unique : Bool) :
    Completes s [.bind key unique] (s.settled (s.add key unique)).2 := by
  refine .cons ?_
  cases hbind : s.bind key unique with
  | error e =>
      rw [perform, hbind, add_eq_error_iff.mpr hbind]
      exact .nil s
  | ok r =>
      obtain ⟨id, s'⟩ := r
      rw [perform, hbind, add_eq_of_bind hbind]
      exact .cons (.cons (.nil _))

theorem completes_remove (s : FaceSystem) (id : UInt64) :
    Completes s [.unbind id] (s.remove id).2 := by
  refine .cons ?_
  cases hunbind : s.unbind? id with
  | none =>
      rw [perform, remove, hunbind]
      exact .nil s
  | some r =>
      obtain ⟨key, s'⟩ := r
      rw [perform, remove, hunbind]
      exact .cons (.cons (.nil _))

theorem completes_follow (s : FaceSystem) (key : FaceKey) (c : StateConsequence) :
    Completes s [.follow key c] (carryOut key s c) := by
  refine .cons ?_
  cases c with
  | remove =>
      rw [perform, carryOut, List.append_nil]
      cases s.boundId? key with
      | none => exact .nil s
      | some id => exact completes_remove s id
  | _ => exact .nil _

theorem completes_followAll (s : FaceSystem) (key : FaceKey) (cs : List StateConsequence) :
    Completes s (cs.map (.follow key)) (cs.foldl (carryOut key) s) := by
  induction cs generalizing s with
  | nil => exact .nil s
  | cons c rest ih => exact (completes_follow s key c).append (ih (carryOut key s c))

theorem completes_takeDown (s : FaceSystem) (key : FaceKey) :
    Completes s (takeDown key) (s.changeState key .adminDown) := by
  rw [← move_caller]
  refine .cons (.cons ?_)
  cases hf : s.face? key with
  | none =>
      rw [perform, modifyFace_of_absent hf, perform, hf, move_of_absent hf]
      exact .nil s
  | some f =>
      have hface : (s.modifyFace key fun f => f.requestState .adminDown).face? key
          = some (f.requestState .adminDown) := by
        rw [face?_modifyFace, hf]
        rfl
      rw [move_of_face? hf, perform, perform, hface, Option.elim_some, Face.base_requestState]
      cases f.base.state.consequences .adminDown with
      | nil => exact .nil _
      | cons c rest =>
          rw [List.append_nil]
          exact completes_followAll _ key rest

/-- A call that adds a face to the table, or takes faces out of it. -/
inductive TableCall where
  | add (key : FaceKey) (unique : Bool)
  | remove (id : UInt64)
  | destroy (id : UInt64)
  | closeAll

def TableCall.toCall : TableCall → Call
  | .add key unique => .add key unique
  | .remove id => .remove id
  | .destroy id => .destroy id
  | .closeAll => .closeAll

/-- The first step of a call. -/
def TableCall.entry : TableCall → Step
  | .add key unique => .bind key unique
  | .remove id => .unbind id
  | .destroy id => .find id
  | .closeAll => .findAll

/-- A call whose steps no other caller disturbs does what it does in one go. -/
theorem completes_entry (s : FaceSystem) (c : TableCall) :
    Completes s [c.entry] (s.apply c.toCall) := by
  have hall (keys : List FaceKey) (s : FaceSystem) : Completes s (keys.flatMap takeDown)
      (keys.foldl (fun s key => s.changeState key .adminDown) s) := by
    induction keys generalizing s with
    | nil => exact .nil s
    | cons key rest ih => exact (completes_takeDown s key).append (ih _)
  cases c with
  | add key unique => exact completes_add s key unique
  | remove id => exact completes_remove s id
  | destroy id =>
      have hdestroy := hall (s.keyOf? id).toList s
      refine .cons ?_
      rw [TableCall.entry, TableCall.toCall, apply, call, destroy, perform, List.append_nil]
      cases hkey : s.keyOf? id <;> rw [hkey] at hdestroy <;> exact hdestroy
  | closeAll =>
      refine .cons ?_
      rw [TableCall.entry, perform, List.append_nil]
      exact hall (s.table.map (·.2)) s

/-! ## What a step does -/

variable {key k : FaceKey} {id : UInt64} {x : Step}

/-- The table, the registry and the IDs of all faces are as before. -/
structure Unmoved (s s' : FaceSystem) : Prop where
  table_eq : s'.table = s.table
  registry_eq : s'.registry = s.registry
  nextId_eq : s'.nextId = s.nextId
  boundId?_eq : ∀ k, s'.boundId? k = s.boundId? k

theorem Unmoved.refl (s : FaceSystem) : Unmoved s s :=
  ⟨rfl, rfl, rfl, fun _ => rfl⟩

theorem unmoved_announce (s : FaceSystem) (kind : FaceEventKind) (key : FaceKey) :
    Unmoved s (s.announce kind key) := by
  obtain ⟨log, hlog⟩ := s.announce_eq kind key
  rw [hlog]
  exact ⟨rfl, rfl, rfl, fun _ => rfl⟩

theorem unmoved_modifyFace {g : Face → Face} (hg : ∀ f, (g f).base.id? = f.base.id?)
    (s : FaceSystem) (key : FaceKey) : Unmoved s (s.modifyFace key g) :=
  ⟨rfl, rfl, rfl, fun _ => boundId?_modifyFace hg⟩

theorem unmoved_carryOut {c : StateConsequence} (hc : c ≠ .remove) (s : FaceSystem)
    (key : FaceKey) : Unmoved s (carryOut key s c) := by
  cases c with
  | enter state => exact unmoved_modifyFace (fun _ => by rfl) s key
  | announce state =>
      simp only [carryOut]
      split
      · exact ⟨rfl, rfl, rfl, fun _ => rfl⟩
      · exact .refl s
  | stop => exact unmoved_modifyFace (fun _ => by rfl) s key
  | close => exact unmoved_modifyFace (fun f => by rw [f.base_close]) s key
  | remove => exact absurd rfl hc

theorem eq_enter_of_consequences {current target : FaceState} {c : StateConsequence}
    {rest : List StateConsequence} (h : current.consequences target = c :: rest) :
    ∃ state, c = .enter state := by
  unfold FaceState.consequences at h
  split at h
  · cases h
  · cases h
    exact ⟨_, rfl⟩

theorem perform_lower (s : FaceSystem) (key : FaceKey) :
    s.perform (.lower key) = (s, []) ∨ ∃ state, ∃ rest : List StateConsequence,
      s.perform (.lower key) = (carryOut key s (.enter state), rest.map (.follow key)) := by
  rw [perform]
  cases hcs : (s.face? key).elim [] fun f => f.base.state.consequences .adminDown with
  | nil => exact .inl rfl
  | cons c rest =>
      cases hf : s.face? key with
      | none => rw [hf] at hcs; cases hcs
      | some f =>
          rw [hf] at hcs
          obtain ⟨state, rfl⟩ := eq_enter_of_consequences hcs
          exact .inr ⟨state, rest, rfl⟩

namespace Step

def binds : Step → Bool
  | .bind .. => true
  | _ => false

/-- Whether a step belongs to the addition or the removal of an ID. -/
def marks : Step → Bool
  | .bind .. | .register .. | .unregister .. | .announce .. => true
  | _ => false

end Step

/-- What a step does, and the steps that it brings. -/
inductive Effect (s : FaceSystem) : Step → FaceSystem → List Step → Prop where
  | bound {key : FaceKey} {unique : Bool} {f : Face} {id : UInt64} (hf : s.face? key = some f)
      (hid : f.base.id? = none) (hfree : freeId? s.nextId s.ids = some id) :
      Effect s (.bind key unique) { s.modifyFace key fun f => f.bound id with
        table := s.table ++ [(id, key)], nextId := id + 1 }
        [.register id key, .announce .created key]
  | registered {id : UInt64} {key : FaceKey} :
      Effect s (.register id key) (s.register id key) []
  | unbound {id : UInt64} {key : FaceKey} (hkey : s.keyOf? id = some key) :
      Effect s (.unbind id) { s with table := s.table.filter (·.1 != id) }
        [.unregister id, .announce .destroyed key]
  | unregistered {id : UInt64} : Effect s (.unregister id) (s.unregister id) []
  | unmoved {x : Step} {s' : FaceSystem} {more : List Step} (hs' : Unmoved s s')
      (hx : ∀ id key, x ≠ .register id key ∧ x ≠ .unregister id)
      (hmore : ∀ y ∈ more, y.marks = false) : Effect s x s' more

theorem marks_takeDown (keys : List FaceKey) : ∀ y ∈ keys.flatMap takeDown, y.marks = false := by
  intro y hy
  obtain ⟨key, -, hkey⟩ := List.mem_flatMap.mp hy
  rcases List.mem_pair.mp hkey with rfl | rfl <;> rfl

theorem effect (s : FaceSystem) (x : Step) : Effect s x (s.perform x).1 (s.perform x).2 := by
  have hnothing : ∀ y ∈ ([] : List Step), y.marks = false := fun y hy => by cases hy
  cases x with
  | bind key unique =>
      have hbinding := s.binding key unique
      rw [perform]
      cases hbind : s.bind key unique with
      | error e => exact .unmoved (.refl s) (by simp) hnothing
      | ok r =>
          rw [hbind] at hbinding
          cases hbinding with
          | fresh hf hid hfree => exact .bound hf hid hfree
  | register id key => exact .registered
  | unbind id =>
      rw [perform, unbind?]
      cases hkey : s.keyOf? id with
      | none => exact .unmoved (.refl s) (by simp) hnothing
      | some key => exact .unbound hkey
  | unregister id => exact .unregistered
  | announce kind key => exact .unmoved (s.unmoved_announce kind key) (by simp) hnothing
  | find id => exact .unmoved (.refl s) (by simp) (marks_takeDown _)
  | findAll => exact .unmoved (.refl s) (by simp) (marks_takeDown _)
  | request key =>
      exact .unmoved (unmoved_modifyFace (fun f => by rw [f.base_requestState]) s key) (by simp)
        hnothing
  | lower key =>
      rcases s.perform_lower key with h | ⟨state, rest, h⟩
      · rw [h]
        exact .unmoved (.refl s) (by simp) hnothing
      · rw [h]
        have hc : StateConsequence.enter state ≠ .remove := by simp
        exact .unmoved (unmoved_carryOut hc s key) (by simp) (by simp [Step.marks])
  | follow key c =>
      by_cases hc : c = .remove
      · subst hc
        refine .unmoved (.refl s) (by simp) ?_
        simp [perform, Step.marks]
      · have hperform : s.perform (.follow key c) = (carryOut key s c, []) := by
          cases c <;> first | rfl | exact absurd rfl hc
        rw [hperform]
        exact .unmoved (unmoved_carryOut hc s key) (by simp) hnothing

/-! ## What is announced -/

/-- The events of a step. -/
def emitted (s : FaceSystem) : Step → List Announcement
  | .announce kind key => (s.face? key).toList.map fun f => (kind, f.summary)
  | .follow _ .remove => []
  | .follow key c => announcedBy key s c
  | _ => []

theorem log_perform (s : FaceSystem) (x : Step) :
    (s.perform x).1.log = s.log.record (s.emitted x) := by
  cases x with
  | bind key unique =>
      have hbinding := s.binding key unique
      rw [perform]
      cases hbind : s.bind key unique with
      | error e => rfl
      | ok r =>
          rw [hbind] at hbinding
          cases hbinding
          rfl
  | unbind id =>
      rw [perform, unbind?]
      cases s.keyOf? id <;> rfl
  | announce kind key => exact s.log_announce kind key
  | lower key => rcases s.perform_lower key with h | ⟨state, rest, h⟩ <;> rw [h] <;> rfl
  | follow key c =>
      cases c with
      | remove => rfl
      | _ => exact log_carryOut key s _
  | _ => rfl

/-- Whether an event is that a face has come into the table, or has left it. -/
def passage : FaceEventKind → Bool
  | .created | .destroyed => true
  | _ => false

/-- The kinds of the events about an ID that tell of its addition and its removal. -/
def passages (id : UInt64) (events : List Announcement) : List FaceEventKind :=
  (about id events).filter passage

theorem passages_append (id : UInt64) (es es' : List Announcement) :
    passages id (es ++ es') = passages id es ++ passages id es' := by
  rw [passages, about, List.filter_append, List.map_append, List.filter_append]
  rfl

/-- The passage of a face that a step announces. -/
def Step.passage? (key : FaceKey) : Step → Option FaceEventKind
  | .announce kind k => if k = key ∧ passage kind then some kind else none
  | _ => none

/-- A step that marks an ID or a face is taken for a face that has an ID. -/
def Step.Owned (s : FaceSystem) : Step → Prop
  | .register id key => s.boundId? key = some id
  | .unregister id => ∃ key, s.boundId? key = some id
  | .announce _ key => ∃ id, s.boundId? key = some id
  | _ => True

theorem mem_passages {kind : FaceEventKind} {es : List Announcement} :
    kind ∈ passages id es ↔ passage kind ∧ ∃ e ∈ es, e.2.faceId = id ∧ e.1 = kind := by
  simp [passages, about, and_comm]

/-- The passage of a face is announced by a step for that, and no other step does it. -/
theorem emitted_cases (hx : x.Owned s) :
    (∃ kind k e, x = .announce kind k ∧ s.emitted x = [e] ∧ e.1 = kind
        ∧ s.boundId? k = some e.2.faceId)
      ∨ (∀ key, x.passage? key = none) ∧ ∀ e ∈ s.emitted x, passage e.1 = false := by
  cases x with
  | announce kind k =>
      obtain ⟨id, hk⟩ := hx
      obtain ⟨f, hf, hid⟩ := Option.bind_eq_some_iff.mp hk
      have hsummary : f.summary.faceId = id := by
        rw [Face.summary, Face.id, FaceBase.id, hid]
        rfl
      refine .inl ⟨kind, k, (kind, f.summary), rfl, ?_, rfl, hk.trans (by rw [hsummary])⟩
      rw [emitted, hf]
      rfl
  | follow k c =>
      refine .inr ⟨fun _ => rfl, fun e he => ?_⟩
      cases c with
      | announce state =>
          obtain ⟨f, -, rfl⟩ := List.mem_map.mp (show e ∈ announcedBy k s (.announce state) from he)
          cases state <;> rfl
      | _ => cases he
  | _ => exact .inr ⟨fun _ => rfl, fun e he => by cases he⟩

theorem passages_emitted (howner : ∀ k, s.boundId? k = some id → k = key)
    (hid : s.boundId? key = some id) (hx : x.Owned s) :
    passages id (s.emitted x) = (x.passage? key).toList := by
  rcases emitted_cases hx with ⟨kind, k, e, rfl, hemitted, rfl, hk⟩ | ⟨hnone, hothers⟩
  · have hsame : e.2.faceId = id ↔ k = key := by
      constructor
      · intro heq
        exact howner k (heq ▸ hk)
      · rintro rfl
        exact Option.some.inj (hk.symm.trans hid)
    rw [hemitted, Step.passage?, passages, about]
    by_cases hkey : k = key <;> cases hkind : passage e.1 <;> simp [hsame, hkey, hkind]
  · rw [hnone, Option.toList_none, List.eq_nil_iff_forall_not_mem]
    intro kind hkind
    obtain ⟨hpassage, e, he, -, rfl⟩ := mem_passages.mp hkind
    rw [hothers e he] at hpassage
    cases hpassage

end NamedData.FaceSystem
