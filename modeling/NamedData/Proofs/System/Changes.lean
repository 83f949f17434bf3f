import NamedData.Proofs.System.Faces

/-!
# Changes of state

What a change of state does to the face, and what it leaves of the table, the registry and the
event log, whether a caller or the medium of the face brings it about. A face outside the table is
changed without a trace in them.
-/

namespace NamedData

/-- Who moves a face to a state. -/
inductive Mover where
  /-- A caller, whose request goes through the service. -/
  | caller
  /-- The medium of the face, when it fails. -/
  | medium
deriving DecidableEq, Repr

/-! ## Single faces -/

def Face.enter (f : Face) (state : FaceState) : Face :=
  { f with base := { f.base with state } }

/-- What a consequence of a change of state does to the face itself. -/
def StateConsequence.onFace (f : Face) : StateConsequence → Face
  | .enter state => f.enter state
  | .stop => f.signalStop
  | .close => f.close
  | .announce _ | .remove => f

namespace Face

variable {f : Face} {target : FaceState}

/-- The face when its medium learns of a state that it is to go to. -/
def asked (f : Face) (mover : Mover) (target : FaceState) : Face :=
  match mover with
  | .caller => f.requestState target
  | .medium => f

/-- The face after it was moved to a state, with what follows from that. -/
def move (f : Face) (mover : Mover) (target : FaceState) : Face :=
  (f.base.state.consequences target).foldl StateConsequence.onFace (f.asked mover target)

theorem base_asked (f : Face) (mover : Mover) (target : FaceState) :
    (f.asked mover target).base = f.base := by
  cases mover with
  | caller => exact f.base_requestState target
  | medium => rfl

@[simp] theorem id?_onFace (f : Face) (c : StateConsequence) :
    (c.onFace f).base.id? = f.base.id? := by
  cases c with
  | close => rw [StateConsequence.onFace, base_close]
  | _ => rfl

theorem id?_foldl_onFace (f : Face) (cs : List StateConsequence) :
    (cs.foldl StateConsequence.onFace f).base.id? = f.base.id? := by
  induction cs generalizing f with
  | nil => rfl
  | cons c rest ih => rw [List.foldl_cons, ih, id?_onFace]

theorem id?_move (f : Face) (mover : Mover) (target : FaceState) :
    (f.move mover target).base.id? = f.base.id? := by
  rw [move, id?_foldl_onFace, base_asked]

end Face

namespace FaceSystem

variable {s : FaceSystem} {key k : FaceKey} {f : Face} {id : UInt64} {mover : Mover}
  {target : FaceState}

/-! ## Consequences -/

/-- A system with one face changed, one ID gone and another log. -/
def reworked (s : FaceSystem) (key : FaceKey) (g : Face → Face) (gone : Option UInt64)
    (log : EventLog) : FaceSystem :=
  { s.modifyFace key g with log }.without gone

theorem reworked_none (hreg : s.registry = s.table) (key : FaceKey) (g : Face → Face)
    (log : EventLog) : s.reworked key g none log = { s.modifyFace key g with log } :=
  without_none hreg

theorem reworked_id (s : FaceSystem) (key : FaceKey) (gone : Option UInt64) (log : EventLog) :
    s.reworked key (fun f => f) gone log = { s with log }.without gone := by
  rw [reworked, modifyFace_id]

theorem reworked_self (hreg : s.registry = s.table) (key : FaceKey) (log : EventLog) :
    s.reworked key (fun f => f) none log = { s with log } := by
  rw [reworked_none hreg, modifyFace_id]

theorem reworked_reworked {a b c : Option UInt64} (key : FaceKey) (g g' : Face → Face)
    (log log' : EventLog) (h : ∀ id : UInt64, (some id != b && some id != a) = (some id != c)) :
    (s.reworked key g a log).reworked key g' b log'
      = s.reworked key (fun f => g' (g f)) c log' := by
  simp only [reworked, without, modifyFace, List.modify_modify_eq, List.filter_filter, h]
  rfl

/-- The ID that goes with some consequences for a face. -/
def goneBy (cs : List StateConsequence) (id? : Option UInt64) : Option UInt64 :=
  if StateConsequence.remove ∈ cs then id? else none

/-- What one consequence leaves of a system whose registry is its table. -/
theorem carryOut_eq (hreg : s.registry = s.table) (key : FaceKey) (c : StateConsequence) :
    ∃ log, carryOut key s c
      = s.reworked key (fun f => c.onFace f) (goneBy [c] (s.boundId? key)) log := by
  cases c with
  | enter state => exact ⟨s.log, (reworked_none hreg key _ s.log).symm⟩
  | stop => exact ⟨s.log, (reworked_none hreg key _ s.log).symm⟩
  | close => exact ⟨s.log, (reworked_none hreg key _ s.log).symm⟩
  | announce state =>
      simp only [carryOut]
      split
      · exact ⟨_, (reworked_self hreg key _).symm⟩
      · exact ⟨s.log, (reworked_self hreg key s.log).symm⟩
  | remove =>
      simp only [carryOut]
      cases s.boundId? key with
      | none => exact ⟨s.log, (reworked_self hreg key s.log).symm⟩
      | some id =>
          obtain ⟨log, hlog⟩ := remove_eq hreg id
          exact ⟨log, hlog.trans (reworked_id s key (some id) log).symm⟩

theorem foldl_carryOut_eq (hreg : s.registry = s.table) (key : FaceKey)
    (cs : List StateConsequence) :
    ∃ log, cs.foldl (carryOut key) s = s.reworked key
      (fun f => cs.foldl StateConsequence.onFace f) (goneBy cs (s.boundId? key)) log := by
  induction cs generalizing s with
  | nil => exact ⟨s.log, (reworked_self hreg key s.log).symm⟩
  | cons c rest ih =>
      -- A face keeps its ID when the ID leaves the table, so later consequences have the same one.
      obtain ⟨log, hc⟩ := carryOut_eq hreg key c
      have hbound : (carryOut key s c).boundId? key = s.boundId? key := by
        rw [hc]
        exact boundId?_modifyFace fun f => f.id?_onFace c
      obtain ⟨log', hrest⟩ := ih (s := carryOut key s c) (by rw [hc]; rfl)
      refine ⟨log', ?_⟩
      rw [List.foldl_cons, hrest, hbound, hc]
      refine reworked_reworked key _ _ log log' fun id => ?_
      by_cases hfirst : StateConsequence.remove = c
      · by_cases hrest : StateConsequence.remove ∈ rest <;> simp [goneBy, ← hfirst, hrest]
      · simp [goneBy, hfirst]

/-! ## Changes of state -/

/-- The ID that leaves the table when a face is moved to a state. -/
def leaving? (s : FaceSystem) (key : FaceKey) (target : FaceState) : Option UInt64 :=
  (s.face? key).bind fun f => goneBy (f.base.state.consequences target) f.base.id?

theorem leaving?_eq_some (h : s.leaving? key target = some id) :
    ∃ f, s.face? key = some f ∧ f.base.id? = some id
      ∧ StateConsequence.remove ∈ f.base.state.consequences target := by
  obtain ⟨f, hf, hgone⟩ := Option.bind_eq_some_iff.mp h
  unfold goneBy at hgone
  split at hgone
  · rename_i hremove
    exact ⟨f, hf, hgone, hremove⟩
  · cases hgone

theorem leaving?_of_mem (hf : s.face? key = some f)
    (h : StateConsequence.remove ∈ f.base.state.consequences target) :
    s.leaving? key target = f.base.id? := by
  rw [leaving?, hf]
  exact if_pos h

/-- Moves a face to a state, with what the mover does before the medium learns of it. -/
def move (s : FaceSystem) (mover : Mover) (key : FaceKey) (target : FaceState) : FaceSystem :=
  (s.modifyFace key fun f => f.asked mover target).transition key target

theorem move_caller (s : FaceSystem) (key : FaceKey) (target : FaceState) :
    s.move .caller key target = s.changeState key target :=
  rfl

theorem move_medium (s : FaceSystem) (key : FaceKey) (target : FaceState) :
    s.move .medium key target = s.transition key target :=
  congrArg (fun s => transition s key target) (modifyFace_id s key)

theorem move_of_absent (h : s.face? key = none) (mover : Mover) (target : FaceState) :
    s.move mover key target = s := by
  rw [move, modifyFace_of_absent h, transition, h]

theorem move_of_face? (h : s.face? key = some f) (mover : Mover) (target : FaceState) :
    s.move mover key target = (f.base.state.consequences target).foldl (carryOut key)
      (s.modifyFace key fun f => f.asked mover target) := by
  have hasked : (s.modifyFace key fun f => f.asked mover target).face? key
      = some (f.asked mover target) := by
    rw [face?_modifyFace, h]
    rfl
  rw [move, transition, hasked]
  dsimp only
  rw [f.base_asked]

/-- What a change of state leaves of a system whose registry is its table. -/
theorem move_eq (hreg : s.registry = s.table) (mover : Mover) (key : FaceKey)
    (target : FaceState) :
    ∃ log, s.move mover key target
      = s.reworked key (fun f => f.move mover target) (s.leaving? key target) log := by
  cases hf : s.face? key with
  | none =>
      refine ⟨s.log, ?_⟩
      rw [move_of_absent hf, leaving?, hf, Option.bind_none, reworked_none hreg,
        modifyFace_of_absent hf]
  | some f =>
      obtain ⟨log, hlog⟩ := foldl_carryOut_eq
        (s := s.modifyFace key fun f => f.asked mover target) hreg key
        (f.base.state.consequences target)
      refine ⟨log, ?_⟩
      have hbound : (s.modifyFace key fun f => f.asked mover target).boundId? key
          = f.base.id? := by
        rw [boundId?, face?_modifyFace, hf]
        exact congrArg FaceBase.id? (f.base_asked mover target)
      have hfaces : (s.modifyFace key fun f => f.asked mover target).modifyFace key
          (fun g => (f.base.state.consequences target).foldl StateConsequence.onFace g)
          = s.modifyFace key fun f => f.move mover target :=
        (modifyFace_modifyFace s key _ _).trans (modifyFace_congr hf rfl)
      rw [move_of_face? hf, hlog, hbound, leaving?, hf, reworked, hfaces]
      rfl

/-! ## Faces outside the table -/

/-- The table has no ID of a face. -/
def Outside (s : FaceSystem) (key : FaceKey) : Prop :=
  (s.boundId? key).bind s.keyOf? = none

theorem Outside.of_unbound (h : s.boundId? key = none) : s.Outside key := by
  rw [Outside, h]
  rfl

theorem Outside.get?_eq_none (h : s.Outside key) : (s.boundId? key).bind s.get? = none := by
  unfold Outside at h
  cases hid : s.boundId? key with
  | none => rfl
  | some id =>
      rw [hid, Option.bind_some] at h
      rw [Option.bind_some, get?, h]
      rfl

theorem Outside.modifyFace {g : Face → Face} (h : s.Outside key)
    (hg : ∀ f, (g f).base.id? = f.base.id?) : (s.modifyFace key g).Outside key := by
  rw [Outside, boundId?_modifyFace hg]
  exact h

theorem Outside.carryOut_eq (h : s.Outside key) (c : StateConsequence) :
    carryOut key s c = s.modifyFace key fun f => c.onFace f := by
  cases c with
  | enter state => rfl
  | stop => rfl
  | close => rfl
  | announce state =>
      simp only [carryOut, h.get?_eq_none]
      exact (modifyFace_id s key).symm
  | remove =>
      simp only [carryOut]
      refine Eq.trans ?_ (modifyFace_id s key).symm
      cases hid : s.boundId? key with
      | none => rfl
      | some id =>
          rw [Outside, hid] at h
          exact remove_of_absent h

theorem Outside.foldl_carryOut_eq (h : s.Outside key) (cs : List StateConsequence) :
    cs.foldl (carryOut key) s
      = s.modifyFace key fun f => cs.foldl StateConsequence.onFace f := by
  induction cs generalizing s with
  | nil => exact (modifyFace_id s key).symm
  | cons c rest ih =>
      rw [List.foldl_cons, h.carryOut_eq, ih (h.modifyFace fun f => f.id?_onFace c),
        modifyFace_modifyFace]
      rfl

/-- A change of state of a face outside the table changes the face and nothing else. -/
theorem Outside.move_eq (h : s.Outside key) (mover : Mover) (target : FaceState) :
    s.move mover key target = s.modifyFace key fun f => f.move mover target := by
  cases hf : s.face? key with
  | none => rw [move_of_absent hf, modifyFace_of_absent hf]
  | some f =>
      rw [move_of_face? hf, (h.modifyFace fun f => by rw [Face.base_asked]).foldl_carryOut_eq,
        modifyFace_modifyFace]
      exact modifyFace_congr hf rfl

end FaceSystem

end NamedData
