import NamedData.Proofs.System.Table

/-!
# Leaving the state `up`

A face is made in the state `up`, leaves it once and never comes back. Leaving it gives the stop
signal, closes the medium and takes the face out of the table, in this order; all that can follow is
a change between the two other states. A caller who takes a face down marks its service; a medium
that goes down by itself does not, and the next caller does.
-/

namespace NamedData

namespace FaceState

/-- What follows from leaving `up`. -/
def leave (target : FaceState) : List StateConsequence :=
  [.enter target, .announce target, .stop, .close, .remove]

/-- A request does nothing, takes a face out of `up`, or moves a face that has left `up`. -/
theorem consequences_cases (current target : FaceState) :
    ((target = current ∨ target = .up) ∧ current.consequences target = [])
      ∨ (current = .up ∧ target ≠ .up ∧ current.consequences target = leave target)
      ∨ (current ≠ .up ∧ target ≠ .up
        ∧ current.consequences target = [.enter target, .announce target]) := by
  cases current <;> cases target <;> decide

theorem consequences_up {target : FaceState} (h : target ≠ .up) :
    FaceState.up.consequences target = leave target := by
  cases target with
  | up => exact absurd rfl h
  | _ => rfl

theorem consequences_self (state : FaceState) : state.consequences state = [] := by
  cases state <;> rfl

/-- A change between the states other than `up`, and no more. -/
def Aside (cs : List StateConsequence) : Prop :=
  ∀ c ∈ cs, ∃ state, state ≠ .up ∧ (c = .enter state ∨ c = .announce state)

/-- What can follow for a face on its way from a state to a state: nothing while it is `up`, all of
leaving `up` at first when it leaves, and no more than changes aside from then on. -/
inductive Course : FaceState → FaceState → List StateConsequence → Prop where
  | stay : Course .up .up []
  | leave {target state : FaceState} {rest : List StateConsequence} (htarget : target ≠ .up)
      (hstate : state ≠ .up) (hrest : Aside rest) : Course .up state (target.leave ++ rest)
  | aside {current state : FaceState} {cs : List StateConsequence} (hcurrent : current ≠ .up)
      (hstate : state ≠ .up) (hcs : Aside cs) : Course current state cs

theorem Aside.append {cs cs' : List StateConsequence} (h : Aside cs) (h' : Aside cs') :
    Aside (cs ++ cs') := by
  intro c hc
  rcases List.mem_append.mp hc with hc | hc
  · exact h c hc
  · exact h' c hc

variable {a b c : FaceState} {cs cs' : List StateConsequence}

theorem Course.refl (state : FaceState) : Course state state [] := by
  by_cases h : state = .up
  · exact h ▸ .stay
  · exact .aside h h (by simp [Aside])

theorem Course.eq_up (h : Course .up b []) : b = .up := by
  cases h with
  | stay => rfl
  | aside hcurrent => exact absurd rfl hcurrent

theorem Course.count_close (h : Course .up b cs) :
    cs.count .close = if b = .up then 0 else 1 := by
  cases h with
  | stay => rfl
  | leave htarget hstate hrest =>
      have hnone : StateConsequence.close ∉ _ := fun hclose => by
        obtain ⟨state, -, h | h⟩ := hrest _ hclose <;> cases h
      rw [if_neg hstate, List.count_append, List.count_eq_zero.mpr hnone]
      rfl
  | aside hcurrent => exact absurd rfl hcurrent

theorem Course.trans (h : Course a b cs) (h' : Course b c cs') : Course a c (cs ++ cs') := by
  cases h with
  | stay => exact h'
  | leave htarget hstate hrest =>
      -- Nothing leads back to `up`, so what comes next is a change aside.
      rw [List.append_assoc]
      cases h' with
      | stay => exact absurd rfl hstate
      | leave => exact absurd rfl hstate
      | aside _ hstate' hcs => exact .leave htarget hstate' (hrest.append hcs)
  | aside hcurrent hstate hcs =>
      cases h' with
      | stay => exact absurd rfl hstate
      | leave => exact absurd rfl hstate
      | aside _ hstate' hcs' => exact .aside hcurrent hstate' (hcs.append hcs')

end FaceState

/-! ## Single faces -/

namespace Face

open FaceState

variable {f f' : Face} {mover : Mover} {target : FaceState} {cs : List StateConsequence}

/-- A face is stopped just if it is not `up`. -/
def Steady (f : Face) : Prop :=
  f.base.stop.isStopped = true ↔ f.base.state ≠ .up

/-- The service of a face that is not `up` has seen a request. -/
def Marked (f : Face) : Prop :=
  f.base.state ≠ .up → f.lifecycle = .quit ∨ f.lifecycle = .quitting ∧ f.service ≠ .discard

theorem New.steady (h : f.New) : f.Steady := by
  simp [Steady, h.stop_eq, h.state_eq]

theorem New.marked (h : f.New) : f.Marked :=
  fun hstate => absurd h.state_eq hstate

theorem move_cases (f : Face) (mover : Mover) (target : FaceState) :
    ((target = f.base.state ∨ target = .up) ∧ f.move mover target = f.asked mover target
        ∧ f.base.state.consequences target = [])
      ∨ (f.base.state = .up ∧ target ≠ .up
        ∧ f.move mover target = ((f.asked mover target).enter target).signalStop.close
        ∧ f.base.state.consequences target = leave target)
      ∨ (f.base.state ≠ .up ∧ target ≠ .up
        ∧ f.move mover target = (f.asked mover target).enter target
        ∧ f.base.state.consequences target = [.enter target, .announce target]) := by
  rw [move]
  rcases consequences_cases f.base.state target with
    ⟨htarget, hcs⟩ | ⟨hup, htarget, hcs⟩ | ⟨hdown, htarget, hcs⟩
  · rw [hcs]
    exact .inl ⟨htarget, rfl, rfl⟩
  · rw [hcs]
    exact .inr (.inl ⟨hup, htarget, rfl, rfl⟩)
  · rw [hcs]
    exact .inr (.inr ⟨hdown, htarget, rfl, rfl⟩)

theorem Steady.move (h : f.Steady) (mover : Mover) (target : FaceState) :
    (f.move mover target).Steady := by
  rcases f.move_cases mover target with
    ⟨-, hmove, -⟩ | ⟨-, htarget, hmove, -⟩ | ⟨hdown, htarget, hmove, -⟩
  · rw [hmove, Steady, base_asked]
    exact h
  · rw [hmove, Steady, base_close]
    simp [signalStop, enter, StopSignal.stop, StopSignal.isStopped, htarget]
  · rw [hmove, Steady, enter, base_asked]
    simpa [htarget] using h.mpr hdown

theorem course_move (f : Face) (mover : Mover) (target : FaceState) :
    Course f.base.state (f.move mover target).base.state
      (f.base.state.consequences target) := by
  rcases f.move_cases mover target with
    ⟨-, hmove, hcs⟩ | ⟨hup, htarget, hmove, hcs⟩ | ⟨hdown, htarget, hmove, hcs⟩
  · rw [hmove, hcs, base_asked]
    exact .refl _
  · rw [hmove, hcs, hup, base_close]
    exact .leave htarget htarget (by simp [Aside])
  · rw [hmove, hcs]
    exact .aside hdown htarget (by simp [Aside, htarget])

theorem Steady.start (h : f.Steady) : f.start.Steady := by
  rw [Steady, base_start]
  exact h

theorem enter_of_state (h : f.base.state = target) : f.enter target = f := by
  subst h
  rfl

/-- A face that has left `up` only changes its state. -/
theorem move_of_down (hstate : f.base.state ≠ .up) (htarget : target ≠ .up) (mover : Mover) :
    f.move mover target = (f.asked mover target).enter target := by
  rcases f.move_cases mover target with ⟨hsame | hup, hmove, -⟩ | ⟨hup, -⟩ | ⟨-, -, hmove, -⟩
  · rw [hmove, enter_of_state (by rw [base_asked, hsame])]
  · exact absurd hup htarget
  · exact absurd hup hstate
  · exact hmove

/-! ### Requests -/

/-- No request changes the life of a service that has seen one. -/
theorem requestState_of_ended
    (h : f.lifecycle = .quit ∨ f.lifecycle = .quitting ∧ f.service ≠ .discard)
    (target : FaceState) : f.requestState target = f := by
  obtain ⟨base, medium, service, lifecycle, counters, sender, receiver⟩ := f
  unfold requestState
  rcases h with hquit | ⟨hquitting, hservice⟩
  · cases hquit
    cases service <;> simp
  · cases hquitting
    cases service with
    | discard => exact absurd rfl hservice
    | link l => simp

theorem ended_requestState (f : Face) (htarget : target ≠ .up) :
    (f.requestState target).lifecycle = .quit
      ∨ (f.requestState target).lifecycle = .quitting
        ∧ (f.requestState target).service ≠ .discard := by
  obtain ⟨base, medium, service, lifecycle, counters, sender, receiver⟩ := f
  unfold requestState
  rw [if_neg htarget]
  cases service with
  | discard => exact .inl rfl
  | link l => cases lifecycle <;> simp

theorem lifecycle_close (f : Face) : f.close.lifecycle = f.lifecycle := by
  unfold close
  split <;> rfl

theorem service_close (f : Face) : f.close.service = f.service := by
  unfold close
  split <;> rfl

theorem Marked.requestState_eq (h : f.Marked) (target : FaceState)
    (hstate : f.base.state = .up → target = .up) : f.requestState target = f := by
  by_cases hup : f.base.state = .up
  · rw [requestState, if_pos (hstate hup)]
  · exact requestState_of_ended (h hup) target

/-- A caller marks the service when it takes the face down, and the mark stays. -/
theorem Marked.move (h : f.Marked) (target : FaceState) : (f.move .caller target).Marked := by
  rcases f.move_cases .caller target with
    ⟨htarget, hmove, -⟩ | ⟨-, htarget, hmove, -⟩ | ⟨hdown, htarget, hmove, -⟩
  · rw [hmove, asked, h.requestState_eq target fun hup => htarget.elim (·.trans hup) (·)]
    exact h
  · rw [hmove, Marked, lifecycle_close, service_close]
    exact fun _ => f.ended_requestState htarget
  · rw [hmove, asked, h.requestState_eq target fun hup => absurd hup hdown]
    exact fun _ => h hdown

theorem Marked.start (h : f.Marked) : f.start.Marked := by
  intro hstate
  rw [base_start] at hstate
  -- A service that has seen a request is past `created`, and a start does nothing to it.
  have hended := h hstate
  have hstart : f.start = f := if_neg fun hcreated => by simp [hcreated] at hended
  rw [hstart]
  exact hended

end Face

namespace FaceSystem

open FaceState

variable {s : FaceSystem} {key k : FaceKey} {a : Act} {f f' : Face} {cs : List StateConsequence}

theorem Evolves.steady (h : f.Steady) (hf : Evolves k a f f' cs) : f'.Steady := by
  cases hf with
  | same => exact h
  | bound id => exact h
  | started => exact h.start
  | moved => exact h.move _ _

theorem Evolves.course (hf : Evolves k a f f' cs) : Course f.base.state f'.base.state cs := by
  cases hf with
  | same => exact .refl _
  | bound id => exact .refl _
  | started =>
      rw [Face.base_start]
      exact .refl _
  | moved => exact f.course_move _ _

/-- Only a medium moves a face past its service. -/
theorem Evolves.marked (h : f.Marked) (hf : Evolves k a f f' cs)
    (ha : ∀ target, a ≠ .move .medium k target) : f'.Marked := by
  cases hf with
  | same => exact h
  | bound id => exact h
  | started => exact h.start
  | @moved mover target hmove =>
      cases mover with
      | caller => exact h.move target
      | medium => exact absurd hmove (ha target)

/-! ## Runs -/

def Steady (s : FaceSystem) : Prop :=
  ∀ key f, s.face? key = some f → f.Steady

theorem create_steady (config : Config) : (create config).Steady := by
  simp [Steady, face?, create]

theorem Steady.after (h : s.Steady) (hs : s.Consistent) (a : Act) : (s.act a).Steady := by
  intro key f' hf'
  rcases new_or_evolves hs.registry_eq hf' with hnew | ⟨f, hf, hevolves⟩
  · exact hnew.steady
  · exact hevolves.steady (h key f hf)

theorem Steady.afterAll (h : s.Steady) (hs : s.Consistent) (as : List Act) :
    (as.foldl act s).Steady := by
  induction as generalizing s with
  | nil => exact h
  | cons a rest ih => exact ih (h.after hs a) (hs.after a)

theorem course_of_face? (hs : s.Consistent) (hf : s.face? key = some f) (as : List Act) :
    ∃ f', (as.foldl act s).face? key = some f'
      ∧ Course f.base.state f'.base.state (along act (followed key) s as) := by
  induction as generalizing s f with
  | nil => exact ⟨f, hf, .refl _⟩
  | cons a rest ih =>
      obtain ⟨g, hg, hevolves⟩ := evolves_act hs.registry_eq hf a
      obtain ⟨f', hf', hcourse⟩ := ih (hs.after a) hg
      exact ⟨f', hf', hevolves.course.trans hcourse⟩

/-- A face that is still to be made sets out in the state `up`. -/
theorem course_of_absent (hs : s.Consistent) (habsent : s.face? key = none) (as : List Act)
    (hf : (as.foldl act s).face? key = some f) :
    Course .up f.base.state (along act (followed key) s as) := by
  induction as generalizing s with
  | nil => rw [List.foldl_nil, habsent] at hf; cases hf
  | cons a rest ih =>
      obtain ⟨hact, hnothing⟩ := face?_act_of_absent hs.registry_eq habsent a
      rw [along, hnothing, List.nil_append]
      rcases hact with hnone | ⟨g, hnew, hg⟩
      · exact ih (hs.after a) hnone hf
      · obtain ⟨f', hf', hcourse⟩ := course_of_face? (hs.after a) hg rest
        cases hf'.symm.trans hf
        rwa [hnew.state_eq] at hcourse

/-- The face of a key, if there is one, is marked. -/
def MarkedAt (s : FaceSystem) (key : FaceKey) : Prop :=
  ∀ f, s.face? key = some f → f.Marked

theorem create_markedAt (config : Config) (key : FaceKey) : (create config).MarkedAt key := by
  simp [MarkedAt, face?, create]

theorem MarkedAt.after (h : s.MarkedAt key) (hs : s.Consistent)
    (ha : ∀ target, a ≠ .move .medium key target) : (s.act a).MarkedAt key := by
  intro f' hf'
  rcases new_or_evolves hs.registry_eq hf' with hnew | ⟨f, hf, hevolves⟩
  · exact hnew.marked
  · exact hevolves.marked (h f hf) ha

theorem MarkedAt.afterAll (h : s.MarkedAt key) (hs : s.Consistent) {as : List Act}
    (has : ∀ target, .move .medium key target ∉ as) : (as.foldl act s).MarkedAt key := by
  induction as generalizing s with
  | nil => exact h
  | cons a rest ih =>
      refine ih (h.after hs fun target ha => ?_) (hs.after a) fun target hmem => ?_
      · exact has target (ha ▸ List.mem_cons_self)
      · exact has target (List.mem_cons_of_mem a hmem)

/-- A change to the state that a face is in leaves all but the mark of its service as it is. -/
theorem move_self (hf : s.face? key = some f) (mover : Mover) :
    s.move mover key f.base.state
      = s.modifyFace key fun f' => f'.asked mover f.base.state := by
  rw [move_of_face? hf, consequences_self]
  rfl

theorem MarkedAt.changeState_self (h : s.MarkedAt key) (hf : s.face? key = some f) :
    s.changeState key f.base.state = s := by
  rw [← move_caller, move_self hf]
  exact modifyFace_eq_self hf ((h f hf).requestState_eq _ (·))

end FaceSystem

end NamedData
