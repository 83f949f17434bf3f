import NamedData.Proofs.System.Calls

/-!
# What a run brings

The faces that a run adds to the table, the events that it announces, and what follows from it for
a single face. The event log forgets; what is announced here is all that was ever recorded in it.
-/

namespace NamedData

/-- A face that got an ID, and the state that it was in. -/
structure Addition where
  id : UInt64
  key : FaceKey
  state : FaceState
deriving DecidableEq, Repr

/-- An event without its number. -/
abbrev Announcement := FaceEventKind × FaceSummary

/-- Records some events one after the other. -/
def EventLog.record (log : EventLog) (announcements : List Announcement) : EventLog :=
  announcements.foldl (fun log a => log.emit a.1 a.2) log

namespace FaceSystem

/-! ## Acts -/

/-- The face that an act adds to the table. -/
def added (s : FaceSystem) : Act → List Addition
  | .add key unique =>
    match s.face? key, s.add key unique with
    | some f, .ok (id, _) => [⟨id, key, f.base.state⟩]
    | _, _ => []
  | _ => []

/-- The ID that an act takes out of the table. -/
def gone? (s : FaceSystem) : Act → Option UInt64
  | .remove id => some id
  | .move _ key target => s.leaving? key target
  | _ => none

/-- What follows from an act for one face. -/
def followed (key : FaceKey) (s : FaceSystem) : Act → List StateConsequence
  | .move _ k target =>
    if k = key then (s.face? key).elim [] fun f => f.base.state.consequences target else []
  | _ => []

/-- The events of one consequence of a change of state. -/
def announcedBy (key : FaceKey) (s : FaceSystem) : StateConsequence → List Announcement
  | .announce state =>
    ((s.boundId? key).bind s.get?).toList.map fun f =>
      (if state = .up then .up else .down, f.summary)
  | .remove => ((s.boundId? key).bind s.get?).toList.map fun f => (.destroyed, f.summary)
  | _ => []

/-- The events of an act. -/
def announced (s : FaceSystem) : Act → List Announcement
  | .add key unique =>
    match s.face? key, s.add key unique with
    | some f, .ok (id, _) => [(.created, (f.bound id).summary)]
    | _, _ => []
  | .remove id => (s.get? id).toList.map fun f => (.destroyed, f.summary)
  | .move mover key target =>
    (s.face? key).elim [] fun f =>
      along (carryOut key) (announcedBy key) (s.modifyFace key fun f => f.asked mover target)
        (f.base.state.consequences target)
  | _ => []

/-! ## Runs -/

/-- The faces that some calls add to the table. -/
def additions (s : FaceSystem) (calls : List Call) : List Addition :=
  along act added s (s.history calls)

/-- What follows from some calls for one face. -/
def consequencesFor (s : FaceSystem) (key : FaceKey) (calls : List Call) : List StateConsequence :=
  along act (followed key) s (s.history calls)

/-- The events of some calls. -/
def announcements (s : FaceSystem) (calls : List Call) : List Announcement :=
  along act announced s (s.history calls)

/-- The kinds of the events about an ID. -/
def about (id : UInt64) (announcements : List Announcement) : List FaceEventKind :=
  (announcements.filter fun e => e.2.faceId == id).map (·.1)

theorem history_singleton (s : FaceSystem) (c : Call) : s.history [c] = s.acts c := by
  rw [history, along, along, List.append_nil]

/-! ## The event log -/

variable {s s' : FaceSystem} {key k : FaceKey} {f : Face} {id : UInt64} {unique : Bool}
  {target : FaceState}

theorem log_announce (s : FaceSystem) (kind : FaceEventKind) (key : FaceKey) :
    (s.announce kind key).log
      = s.log.record ((s.face? key).toList.map fun f => (kind, f.summary)) := by
  unfold announce
  cases s.face? key <;> rfl

theorem log_remove (s : FaceSystem) (id : UInt64) :
    (s.remove id).2.log
      = s.log.record ((s.get? id).toList.map fun f => (.destroyed, f.summary)) := by
  cases hkey : s.keyOf? id with
  | none => rw [remove_of_absent hkey, get?, hkey]; rfl
  | some key =>
      rw [get?, hkey, Option.bind_some, remove, unbind?, hkey]
      exact log_announce _ .destroyed key

theorem log_carryOut (key : FaceKey) (s : FaceSystem) (c : StateConsequence) :
    (carryOut key s c).log = s.log.record (announcedBy key s c) := by
  cases c with
  | enter state => rfl
  | announce state =>
      simp only [carryOut, announcedBy]
      cases (s.boundId? key).bind s.get? <;> rfl
  | stop => rfl
  | close => rfl
  | remove =>
      simp only [carryOut, announcedBy]
      cases s.boundId? key with
      | none => rfl
      | some id => exact log_remove s id

theorem log_along {ι : Type} {step : FaceSystem → ι → FaceSystem}
    {give : FaceSystem → ι → List Announcement}
    (h : ∀ s i, (step s i).log = s.log.record (give s i)) (s : FaceSystem) (is : List ι) :
    (is.foldl step s).log = s.log.record (along step give s is) := by
  induction is generalizing s with
  | nil => rfl
  | cons i rest ih => rw [List.foldl_cons, ih, h, along, EventLog.record, EventLog.record,
      EventLog.record, List.foldl_append]

/-- The log after an act is the log before with the events of the act. -/
theorem log_act (s : FaceSystem) (a : Act) : (s.act a).log = s.log.record (s.announced a) := by
  cases a with
  | make f => rfl
  | add key unique =>
      simp only [act, announced]
      cases hadd : s.add key unique with
      | error e => cases s.face? key <;> rfl
      | ok r =>
          obtain ⟨id, s'⟩ := r
          obtain ⟨f, hf, -, -, rfl⟩ := add_eq_ok hadd
          rw [hf]
          rfl
  | start key => rfl
  | remove id => exact log_remove s id
  | move mover key target =>
      simp only [act, announced]
      cases hf : s.face? key with
      | none => rw [move_of_absent hf]; rfl
      | some f =>
          rw [move_of_face? hf]
          exact log_along (log_carryOut key) _ _

theorem log_run (s : FaceSystem) (calls : List Call) :
    (s.run calls).log = s.log.record (s.announcements calls) := by
  rw [run_eq]
  exact log_along log_act s _

/-! ## What one act can do -/

theorem added_of_ok (h : s.add key unique = .ok (id, s')) :
    ∃ state, s.added (.add key unique) = [⟨id, key, state⟩] := by
  obtain ⟨f, hf, -⟩ := add_eq_ok h
  rw [added, hf, h]
  exact ⟨f.base.state, rfl⟩

theorem added_of_error {e : Error} (h : s.add key unique = .error e) :
    s.added (.add key unique) = [] := by
  rw [added, h]
  cases s.face? key <;> rfl

theorem error_of_added_eq_nil {unique : Bool} (h : s.added (.add key unique) = []) :
    ∃ e, s.add key unique = .error e := by
  cases hadd : s.add key unique with
  | error e => exact ⟨e, rfl⟩
  | ok r =>
      obtain ⟨state, hadded⟩ := added_of_ok hadd
      rw [hadded] at h
      cases h

theorem added_cases (s : FaceSystem) (a : Act) : s.added a = [] ∨ ∃ x, s.added a = [x] := by
  cases a with
  | add key unique =>
      simp only [added]
      split
      · exact .inr ⟨_, rfl⟩
      · exact .inl rfl
  | _ => exact .inl rfl

/-- An act that adds a face gives it a free ID. -/
theorem act_of_added {a : Act} {x : Addition} (h : s.added a = [x]) :
    ∃ f, s.face? x.key = some f ∧ f.base.id? = none ∧ x.state = f.base.state
      ∧ freeId? s.nextId s.ids = some x.id
      ∧ s.act a = { s.modifyFace x.key fun f => f.bound x.id with
          table := s.table ++ [(x.id, x.key)]
          nextId := x.id + 1
          registry := s.registry.filter (·.1 != x.id) ++ [(x.id, x.key)]
          log := s.log.emit .created (f.bound x.id).summary } := by
  cases a with
  | add key unique =>
      simp only [added, act] at h ⊢
      split at h
      · rename_i f id s' hf hadd
        cases h
        obtain ⟨f', hf', hid, hfree, rfl⟩ := add_eq_ok hadd
        cases hf.symm.trans hf'
        refine ⟨f, hf, hid, rfl, hfree, ?_⟩
        rw [hadd]
        rfl
      · cases h
  | _ => cases h

theorem announced_of_added {a : Act} {x : Addition} (h : s.added a = [x])
    (hf : s.face? x.key = some f) : s.announced a = [(.created, (f.bound x.id).summary)] := by
  cases a with
  | add key unique =>
      simp only [added, announced] at h ⊢
      split at h
      · rename_i f' id s' hf' hadd
        cases h
        cases hf.symm.trans hf'
        rfl
      · cases h
  | _ => cases h

/-- An act that adds no face takes at most one ID out of the table. -/
theorem act_of_not_added (hreg : s.registry = s.table) {a : Act} (h : s.added a = []) :
    ∃ faces watches log, s.act a
      = { s with faces := faces, watches := watches, log := log }.without (s.gone? a) := by
  cases a with
  | make f => exact ⟨_, _, _, (without_none (s := (s.adopt f).2) hreg).symm⟩
  | add key unique =>
      simp only [added, act] at h ⊢
      cases hadd : s.add key unique with
      | error e => exact ⟨_, _, _, (without_none hreg).symm⟩
      | ok r =>
          obtain ⟨id, s'⟩ := r
          obtain ⟨f, hf, -⟩ := add_eq_ok hadd
          rw [hf, hadd] at h
          cases h
  | start key => exact ⟨_, _, _, (without_none (s := s.start key) hreg).symm⟩
  | remove id =>
      obtain ⟨log, hlog⟩ := remove_eq hreg id
      exact ⟨_, _, log, hlog⟩
  | move mover key target =>
      obtain ⟨log, hlog⟩ := move_eq hreg mover key target
      exact ⟨_, _, log, hlog⟩

theorem boundId?_act (hreg : s.registry = s.table) {a : Act} (h : s.added a = []) (k : FaceKey) :
    (s.act a).boundId? k = s.boundId? k := by
  cases a with
  | make f => exact boundId?_adopt s f.2.id?_eq k
  | add key unique =>
      simp only [added, act] at h ⊢
      cases hadd : s.add key unique with
      | error e => rfl
      | ok r =>
          obtain ⟨id, s'⟩ := r
          obtain ⟨f, hf, -⟩ := add_eq_ok hadd
          rw [hf, hadd] at h
          cases h
  | start key => exact boundId?_modifyFace fun f => by rw [Face.base_start]
  | remove id =>
      obtain ⟨log, hlog⟩ := remove_eq hreg id
      rw [act, hlog]
      rfl
  | move mover key target =>
      obtain ⟨log, hlog⟩ := move_eq hreg mover key target
      rw [act, hlog]
      exact boundId?_modifyFace (s := { s with log := log }) fun f => f.id?_move mover target

/-! ## What one act does to a face -/

/-- How an act changes the face of a key, and what follows for the face. -/
inductive Evolves (k : FaceKey) (a : Act) (f : Face) : Face → List StateConsequence → Prop where
  | same : Evolves k a f f []
  | bound (id : UInt64) : Evolves k a f (f.bound id) []
  | started : Evolves k a f f.start []
  | moved {mover : Mover} {target : FaceState} (ha : a = .move mover k target) :
      Evolves k a f (f.move mover target) (f.base.state.consequences target)

theorem evolves_act (hreg : s.registry = s.table) (hf : s.face? k = some f) (a : Act) :
    ∃ f', (s.act a).face? k = some f' ∧ Evolves k a f f' (followed k s a) := by
  cases a with
  | make g =>
      refine ⟨f, (face?_adopt s g k).trans ?_, .same⟩
      rw [if_neg (Nat.ne_of_lt (lt_length_of_face? hf)), hf]
  | add key unique =>
      simp only [act]
      cases hadd : s.add key unique with
      | error e => exact ⟨f, hf, .same⟩
      | ok r =>
          obtain ⟨id, s'⟩ := r
          obtain ⟨g, -, -, -, rfl⟩ := add_eq_ok hadd
          by_cases hk : k = key
          · subst hk
            refine ⟨f.bound id, (face?_modifyFace s k _).trans ?_, .bound id⟩
            rw [hf]; rfl
          · exact ⟨f, (face?_modifyFace_of_ne hk _).trans hf, .same⟩
  | start key =>
      by_cases hk : k = key
      · subst hk
        refine ⟨f.start, (face?_modifyFace s k _).trans ?_, .started⟩
        rw [hf]; rfl
      · exact ⟨f, (face?_modifyFace_of_ne hk _).trans hf, .same⟩
  | remove id =>
      obtain ⟨log, hlog⟩ := remove_eq hreg id
      rw [act, hlog]
      exact ⟨f, hf, .same⟩
  | move mover key target =>
      obtain ⟨log, hlog⟩ := move_eq hreg mover key target
      rw [act, hlog]
      by_cases hk : k = key
      · subst hk
        refine ⟨f.move mover target, (face?_modifyFace s k _).trans (by rw [hf]; rfl), ?_⟩
        rw [followed, if_pos rfl, hf]
        exact .moved rfl
      · refine ⟨f, (face?_modifyFace_of_ne hk _).trans hf, ?_⟩
        rw [followed, if_neg (Ne.symm hk)]
        exact .same

/-- A face appears as it was made. -/
theorem face?_act_of_absent (hreg : s.registry = s.table) (hk : s.face? k = none) (a : Act) :
    ((s.act a).face? k = none ∨ ∃ f, f.New ∧ (s.act a).face? k = some f)
      ∧ followed k s a = [] := by
  cases a with
  | make g =>
      refine ⟨?_, rfl⟩
      rw [act, face?_adopt, hk]
      split
      · exact .inr ⟨g, g.2, rfl⟩
      · exact .inl rfl
  | add key unique =>
      refine ⟨.inl ?_, rfl⟩
      simp only [act]
      cases hadd : s.add key unique with
      | error e => exact hk
      | ok r =>
          obtain ⟨id, s'⟩ := r
          obtain ⟨g, -, -, -, rfl⟩ := add_eq_ok hadd
          exact face?_modifyFace_of_absent hk key _
  | start key => exact ⟨.inl (face?_modifyFace_of_absent hk key _), rfl⟩
  | remove id =>
      obtain ⟨log, hlog⟩ := remove_eq hreg id
      rw [act, hlog]
      exact ⟨.inl hk, rfl⟩
  | move mover key target =>
      obtain ⟨log, hlog⟩ := move_eq hreg mover key target
      rw [act, hlog]
      refine ⟨.inl (face?_modifyFace_of_absent hk key _), ?_⟩
      rw [followed, hk]
      split <;> rfl

/-- A face that stands there after an act was made by it or was there before. -/
theorem new_or_evolves (hreg : s.registry = s.table) {a : Act} (hf : (s.act a).face? k = some f) :
    f.New ∨ ∃ f₀, s.face? k = some f₀ ∧ Evolves k a f₀ f (followed k s a) := by
  cases hk : s.face? k with
  | none =>
      rcases (face?_act_of_absent hreg hk a).1 with hnone | ⟨g, hnew, hg⟩
      · rw [hnone] at hf; cases hf
      · cases hg.symm.trans hf
        exact .inl hnew
  | some f₀ =>
      obtain ⟨g, hg, hevolves⟩ := evolves_act hreg hk a
      cases hg.symm.trans hf
      exact .inr ⟨f₀, rfl, hevolves⟩

end FaceSystem

end NamedData
