import NamedData.Proofs.System.Changes

/-!
# Calls on a face system

What callers can do with a face system, one call after the other. Every call is made of acts: a
face is made, added, started or moved to a state, or an ID is removed. What a run adds to the table,
what it announces and what follows for a single face is read off its acts.
-/

namespace NamedData

/-- What the steps of a run give, one after the other. -/
def along {σ ι α : Type} (step : σ → ι → σ) (give : σ → ι → List α) : σ → List ι → List α
  | _, [] => []
  | s, i :: rest => give s i ++ along step give (step s i) rest

section Along

variable {σ ι α : Type} (step : σ → ι → σ) (give : σ → ι → List α) (s : σ)

theorem along_append (before after : List ι) :
    along step give s (before ++ after)
      = along step give s before ++ along step give (before.foldl step s) after := by
  induction before generalizing s with
  | nil => rfl
  | cons i rest ih => simp [along, ih]

theorem along_concat (before : List ι) (i : ι) :
    along step give s (before ++ [i])
      = along step give s before ++ give (before.foldl step s) i := by
  rw [along_append]
  simp [along]

theorem exists_of_mem_along {step : σ → ι → σ} {give : σ → ι → List α} {s : σ} {is : List ι} {x : α}
    (h : x ∈ along step give s is) : ∃ s' i, i ∈ is ∧ x ∈ give s' i := by
  induction is generalizing s with
  | nil => cases h
  | cons i rest ih =>
      rcases List.mem_append.mp h with hfirst | hrest
      · exact ⟨s, i, List.mem_cons_self, hfirst⟩
      · obtain ⟨s', j, hj, hx⟩ := ih hrest
        exact ⟨s', j, List.mem_cons_of_mem i hj, hx⟩

theorem foldl_along {κ : Type} {whole : σ → κ → σ} {parts : σ → κ → List ι}
    (h : ∀ s k, whole s k = (parts s k).foldl step s) (ks : List κ) :
    ks.foldl whole s = (along whole parts s ks).foldl step s := by
  induction ks generalizing s with
  | nil => rfl
  | cons k rest ih => rw [List.foldl_cons, along, List.foldl_append, ← h, ih]

end Along

/-- A face as it is made: it has no ID, it is up, and nothing has started or stopped it. -/
structure Face.New (f : Face) : Prop where
  id?_eq : f.base.id? = none
  state_eq : f.base.state = .up
  stop_eq : f.base.stop.isStopped = false
  lifecycle_eq : f.lifecycle = .created

theorem Face.new_null : Face.null.New :=
  ⟨rfl, rfl, rfl, rfl⟩

theorem Face.new_component (queueSize : Nat) (options : LinkOptions) (config : Config) :
    (Face.component queueSize options config).New :=
  ⟨rfl, rfl, rfl, rfl⟩

abbrev NewFace := { f : Face // f.New }

namespace FaceSystem

/-! ## Calls -/

/-- One call on a face system. -/
inductive Call where
  /-- A face is made outside the table. -/
  | make (f : NewFace)
  | add (key : FaceKey) (unique : Bool)
  | addFace (key : FaceKey)
  | create (build : FaceUri → Persistency → LinkOptions → Except Error NewFace) (remote : FaceUri)
      (persistency : Persistency) (options : Option LinkOptions)
  | registerComponent
  | remove (id : UInt64)
  | destroy (id : UInt64)
  | closeAll
  | changeState (key : FaceKey) (target : FaceState)
  /-- The medium of a face goes to a state by itself. -/
  | transition (key : FaceKey) (target : FaceState)

/-- The answer to an addition and the system after it, which a refusal leaves as it was. -/
def settled (s : FaceSystem) :
    Except Error (UInt64 × FaceSystem) → Except Error (Option UInt64) × FaceSystem
  | .ok (id, s') => (.ok (some id), s')
  | .error e => (.error e, s)

/-- The answer to a call, with the ID that it gives, and the system after the call. -/
def call (s : FaceSystem) : Call → Except Error (Option UInt64) × FaceSystem
  | .make f => (.ok none, (s.adopt f).2)
  | .add key unique => s.settled (s.add key unique)
  | .addFace key => s.settled (s.addFace key)
  | .create build remote persistency options =>
    let (answer, s) :=
      s.createFace (fun r p o => (build r p o).map (·.1)) remote persistency options
    (answer.map some, s)
  | .registerComponent => s.settled s.registerComponent
  | .remove id => (.ok none, (s.remove id).2)
  | .destroy id =>
    match s.destroy id with
    | .ok s => (.ok none, s)
    | .error e => (.error e, s)
  | .closeAll => (.ok none, s.closeAll)
  | .changeState key target => (.ok none, s.changeState key target)
  | .transition key target => (.ok none, s.transition key target)

/-- The calls that add a face, whatever else they do. -/
def Call.Adds : Call → Prop
  | .add .. | .addFace _ | .create .. | .registerComponent => True
  | _ => False

def apply (s : FaceSystem) (c : Call) : FaceSystem :=
  (s.call c).2

def run (s : FaceSystem) (calls : List Call) : FaceSystem :=
  calls.foldl apply s

/-! ## Acts -/

/-- The acts that calls are made of. -/
inductive Act where
  | make (f : NewFace)
  | add (key : FaceKey) (unique : Bool)
  | start (key : FaceKey)
  | remove (id : UInt64)
  | move (mover : Mover) (key : FaceKey) (target : FaceState)

def act (s : FaceSystem) : Act → FaceSystem
  | .make f => (s.adopt f).2
  | .add key unique => (s.settled (s.add key unique)).2
  | .start key => s.start key
  | .remove id => (s.remove id).2
  | .move mover key target => s.move mover key target

/-- The acts of adding a face and starting it, or of what is done with a face that is refused. -/
def actsOfAdding (s : FaceSystem) (key : FaceKey) (unique : Bool) (refused : List Act) : List Act :=
  .add key unique :: match s.add key unique with
    | .ok _ => [.start key]
    | .error _ => refused

/-- The acts of a call. -/
def acts (s : FaceSystem) : Call → List Act
  | .make f => [.make f]
  | .add key unique => [.add key unique]
  | .addFace key => s.actsOfAdding key false []
  | .create build remote persistency options =>
    if remote.canonical && (s.find? remote).isNone then
      match build remote persistency (options.getD s.config.linkOptions) with
      | .error _ => []
      | .ok f =>
        .make f :: (s.adopt f).2.actsOfAdding s.faces.length true
          [.move .caller s.faces.length .adminDown]
    else []
  | .registerComponent =>
    let f : NewFace := ⟨_, Face.new_component s.config.queueSize .internal s.config⟩
    match (s.adopt f).2.add s.faces.length false with
    | .ok _ => [.make f, .add s.faces.length false, .start s.faces.length]
    | .error _ => []
  | .remove id => [.remove id]
  | .destroy id => (s.keyOf? id).toList.map fun key => .move .caller key .adminDown
  | .closeAll => s.table.map fun e => .move .caller e.2 .adminDown
  | .changeState key target => [.move .caller key target]
  | .transition key target => [.move .medium key target]

def history (s : FaceSystem) (calls : List Call) : List Act :=
  along apply acts s calls

theorem addFace_eq (s : FaceSystem) (key : FaceKey) :
    s.addFace key = (s.add key false).map fun r => (r.1, r.2.start key) := by
  unfold addFace
  cases s.add key false <;> rfl

theorem get?_of_addFace {s s' : FaceSystem} {key : FaceKey} {f : Face} {id : UInt64}
    (h : s.addFace key = .ok (id, s')) (hf : s.face? key = some f) :
    s'.get? id = some (f.bound id).start := by
  rw [addFace_eq] at h
  cases hadd : s.add key false with
  | error e => rw [hadd] at h; cases h
  | ok r =>
      obtain ⟨id', s₁⟩ := r
      rw [hadd] at h
      cases h
      obtain ⟨hkey, hface⟩ := get?_of_add hadd hf
      have hstart : (s₁.start key).keyOf? id' = some key := hkey
      rw [get?, hstart, Option.bind_some]
      exact (face?_modifyFace s₁ key _).trans (by rw [hface]; rfl)

theorem foldl_actsOfAdding (s : FaceSystem) (key : FaceKey) (unique : Bool) (refused : List Act) :
    (s.actsOfAdding key unique refused).foldl act s = match s.add key unique with
      | .ok (_, s') => s'.start key
      | .error _ => refused.foldl act s := by
  unfold actsOfAdding
  cases h : s.add key unique with
  | ok r => simp [act, h, settled]
  | error e => simp [act, h, settled]

theorem mem_actsOfAdding {s : FaceSystem} {key : FaceKey} {unique : Bool} {refused : List Act}
    {a : Act} (h : a ∈ s.actsOfAdding key unique refused) :
    a = .add key unique ∨ a = .start key ∨ a ∈ refused := by
  rcases List.mem_cons.mp h with hadd | hrest
  · exact .inl hadd
  · split at hrest
    · exact .inr (.inl (List.mem_singleton.mp hrest))
    · exact .inr (.inr hrest)

theorem settleNew_eq (s : FaceSystem) (key : FaceKey) :
    (s.settleNew key).2
      = (s.actsOfAdding key true [.move .caller key .adminDown]).foldl act s := by
  rw [foldl_actsOfAdding, settleNew]
  cases s.add key true <;> rfl

theorem acts_create (s : FaceSystem)
    (build : FaceUri → Persistency → LinkOptions → Except Error NewFace) (remote : FaceUri)
    (persistency : Persistency) (options : Option LinkOptions) :
    s.acts (.create build remote persistency options) = []
      ∨ ∃ f : NewFace, s.acts (.create build remote persistency options) = .make f ::
        (s.adopt f).2.actsOfAdding s.faces.length true
          [.move .caller s.faces.length .adminDown] := by
  simp only [acts]
  split
  · split
    · exact .inl rfl
    · exact .inr ⟨_, rfl⟩
  · exact .inl rfl

/-- No call but a transition has a medium move a face. -/
theorem eq_transition_of_mem_acts {s : FaceSystem} {c : Call} {key : FaceKey} {target : FaceState}
    (h : .move .medium key target ∈ s.acts c) : c = .transition key target := by
  cases c with
  | transition k target' =>
      cases List.mem_singleton.mp h
      rfl
  | addFace k =>
      rcases mem_actsOfAdding h with hadd | hstart | hrefused
      · cases hadd
      · cases hstart
      · cases hrefused
  | create build remote persistency options =>
      rcases acts_create s build remote persistency options with hnone | ⟨f, hacts⟩
      · rw [hnone] at h; cases h
      · rw [hacts] at h
        rcases List.mem_cons.mp h with hmake | hrest
        · cases hmake
        · rcases mem_actsOfAdding hrest with hadd | hstart | hrefused
          · cases hadd
          · cases hstart
          · cases List.mem_singleton.mp hrefused
  | registerComponent =>
      rw [acts] at h
      split at h <;> simp at h
  | _ => simp [acts] at h

theorem transition_mem_of_history {s : FaceSystem} {calls : List Call} {key : FaceKey}
    {target : FaceState} (h : .move .medium key target ∈ s.history calls) :
    .transition key target ∈ calls := by
  obtain ⟨s', c, hc, hact⟩ := exists_of_mem_along h
  exact eq_transition_of_mem_acts hact ▸ hc

/-- A call does what its acts do. -/
theorem apply_eq (s : FaceSystem) (c : Call) : s.apply c = (s.acts c).foldl act s := by
  cases c with
  | make f => rfl
  | add key unique => rfl
  | addFace key =>
      rw [acts, foldl_actsOfAdding, apply, call, addFace_eq]
      cases s.add key false <;> rfl
  | create build remote persistency options =>
      simp only [apply, call, createFace, acts]
      cases hcanonical : remote.canonical with
      | false => simp
      | true =>
          cases hfind : s.find? remote with
          | some existing => simp
          | none =>
              cases hbuild : build remote persistency (options.getD s.config.linkOptions) with
              | error e => simp [Except.map]
              | ok f =>
                  simpa [Except.map, act, adopt] using settleNew_eq (s.adopt f).2 s.faces.length
  | registerComponent =>
      simp only [apply, call, registerComponent, acts, addFace_eq]
      have hkey : (s.adopt (.component s.config.queueSize .internal s.config)).1
          = s.faces.length := rfl
      cases h : (s.adopt (.component s.config.queueSize .internal s.config)).2.add s.faces.length
        false with
      | ok r => simp [act, h, hkey, Except.map, settled]
      | error e => simp [h, hkey, Except.map, settled]
  | remove id => rfl
  | destroy id =>
      simp only [apply, call, destroy, acts]
      cases s.keyOf? id <;> rfl
  | closeAll =>
      simp only [apply, call, closeAll, acts, List.foldl_map]
      rfl
  | changeState key target => rfl
  | transition key target => exact (s.move_medium key target).symm

theorem run_eq (s : FaceSystem) (calls : List Call) :
    s.run calls = (s.history calls).foldl act s :=
  foldl_along act s apply_eq calls

end FaceSystem

end NamedData
