import NamedData.Proofs.Interleaving
import NamedData.Proofs.System.Destruction
import NamedData.Proofs.System.Remotes

/-!
# Creating faces at the same time

A caller that creates a face looks for one with the same remote end, dials, adds the face if there
is none by then, and starts it. A face that comes too late is taken down. Each of these is one step,
and the steps of several callers may come in any order.
-/

namespace NamedData

/-- A face that was made for a remote end. -/
abbrev Dialled (remote : FaceUri) := { f : Face // f.New ∧ f.base.remote = remote }

/-- A call that creates a face to a remote end. -/
structure Creation where
  remote : FaceUri
  persistency : Persistency
  options : Option LinkOptions
  dial : Persistency → LinkOptions → Except Error (Dialled remote)

namespace Creation

/-- What comes of dialling with the options of the call, or else those of the system. -/
def outcome (c : Creation) (config : Config) : Except Error (Dialled c.remote) :=
  c.dial c.persistency (c.options.getD config.linkOptions)

/-- How far a call has come. -/
inductive Progress where
  | waiting
  /-- No face in the table had the remote end. -/
  | searched
  | dialled (key : FaceKey)
  | added (id : UInt64) (key : FaceKey)
  | refused (key : FaceKey) (answer : Except Error UInt64)
  | found (id : UInt64)
  | failed (e : Error)
  | created (id : UInt64) (key : FaceKey)
  /-- The face that was dialled has been taken down. -/
  | yielded (key : FaceKey) (answer : Except Error UInt64)
deriving DecidableEq

/-- The face that a call has made. -/
def Progress.key? : Progress → Option FaceKey
  | .dialled key | .added _ key | .refused key _ | .created _ key | .yielded key _ => some key
  | .waiting | .searched | .found _ | .failed _ => none

def Progress.answer? : Progress → Option (Except Error UInt64)
  | .found id | .created id _ => some (.ok id)
  | .failed e => some (.error e)
  | .yielded _ answer => some answer
  | .waiting | .searched | .dialled _ | .added .. | .refused .. => none

/-- The answer of a call whose face is refused. -/
def answerTo : Error → Except Error UInt64
  | .faceExists existing => .ok existing
  | e => .error e

end Creation

open Creation

/-- A caller that creates a face. -/
structure Caller where
  call : Creation
  progress : Progress := .waiting

namespace Caller

variable (p : Caller) (s : FaceSystem)

/-- The act of the next step, if the step has one. -/
def act? : Option FaceSystem.Act :=
  match p.progress with
  | .searched => (p.call.outcome s.config).toOption.map fun f => .make ⟨f.1, f.2.1⟩
  | .dialled key => some (.add key true)
  | .added _ key => some (.start key)
  | .refused key _ => some (.move .caller key .adminDown)
  | _ => none

/-- How far the call has come after the next step. -/
def next : Progress :=
  match p.progress with
  | .waiting =>
    if !p.call.remote.canonical then .failed (.nonCanonicalUri p.call.remote.toText)
    else match s.find? p.call.remote with
      | some existing => .found existing.id
      | none => .searched
  | .searched =>
    match p.call.outcome s.config with
    | .ok _ => .dialled s.faces.length
    | .error e => .failed e
  | .dialled key =>
    match s.add key true with
    | .ok (id, _) => .added id key
    | .error e => .refused key (answerTo e)
  | .added id key => .created id key
  | .refused key answer => .yielded key answer
  | done => done

def step (s : FaceSystem) (p : Caller) : FaceSystem × Caller :=
  ((p.act? s).toList.foldl FaceSystem.act s, { p with progress := p.next s })

/-- The last steps of a caller that no other disturbs. -/
theorem step_step_dialled (s : FaceSystem) (c : Creation) (key : FaceKey) :
    ∃ progress, (fun r => step r.1 r.2)^[2] (s, ⟨c, .dialled key⟩)
        = ((s.settleNew key).2, ⟨c, progress⟩)
      ∧ progress.answer? = some (s.settleNew key).1 := by
  simp only [Function.iterate_succ, Function.iterate_zero, Function.comp_apply, id_eq]
  rw [FaceSystem.settleNew]
  cases hadd : s.add key true with
  | ok r =>
      obtain ⟨id, s'⟩ := r
      refine ⟨.created id key, ?_, rfl⟩
      simp [step, act?, next, FaceSystem.act, FaceSystem.settled, hadd]
  | error e =>
      refine ⟨.yielded key (answerTo e), ?_, ?_⟩
      · simp [step, act?, next, FaceSystem.act, FaceSystem.settled, FaceSystem.move_caller, hadd]
      · cases e <;> rfl

/-- A caller that no other disturbs does in four steps what creating a face does. -/
theorem step_alone (s : FaceSystem) (c : Creation) :
    ∃ progress, (fun r => step r.1 r.2)^[4] (s, ⟨c, .waiting⟩)
        = ((s.createFace (fun _ p o => (c.dial p o).map (·.1)) c.remote c.persistency
            c.options).2, ⟨c, progress⟩)
      ∧ progress.answer? = some (s.createFace (fun _ p o => (c.dial p o).map (·.1)) c.remote
          c.persistency c.options).1 := by
  rw [Function.iterate_add_apply _ 2 2, FaceSystem.createFace]
  simp only [Function.iterate_succ, Function.iterate_zero, Function.comp_apply, id_eq]
  cases hcanonical : c.remote.canonical with
  | false => exact ⟨.failed (.nonCanonicalUri c.remote.toText), by
      simp [step, act?, next, hcanonical], rfl⟩
  | true =>
      cases hfind : s.find? c.remote with
      | some existing => exact ⟨.found existing.id, by
          simp [step, act?, next, hcanonical, hfind], rfl⟩
      | none =>
          have hsearched : step s ⟨c, .waiting⟩ = (s, ⟨c, .searched⟩) := by
            simp [step, act?, next, hcanonical, hfind]
          cases houtcome : c.outcome s.config with
          | error e =>
              have hdial : c.dial c.persistency (c.options.getD s.config.linkOptions)
                  = .error e := houtcome
              refine ⟨.failed e, ?_, ?_⟩
              · simp [step, act?, next, hcanonical, hfind, houtcome, hdial, Except.map,
                  Except.toOption]
              · simp [hdial, Except.map, Progress.answer?]
          | ok f =>
              have hdial : c.dial c.persistency (c.options.getD s.config.linkOptions)
                  = .ok f := houtcome
              have hdialled : step s ⟨c, .searched⟩
                  = ((s.adopt f.1).2, ⟨c, .dialled s.faces.length⟩) := by
                simp [step, act?, next, houtcome, Except.toOption, FaceSystem.act]
              rw [hsearched, hdialled, hdial]
              exact step_step_dialled (s.adopt f.1).2 c s.faces.length

end Caller

namespace FaceSystem

variable {s s₀ : FaceSystem} {a : Act} {x : Addition} {key k : FaceKey} {f : Face} {id : UInt64}
  {remote : FaceUri} {p q : Caller}

/-! ## Acts that take nothing away -/

/-- The face that an act is done to. -/
def Act.key? : Act → Option FaceKey
  | .add key _ | .start key | .move _ key _ => some key
  | .make _ | .remove _ => none

/-- An act leaves the faces alone that it is not done to. -/
theorem face?_act_of_ne (hreg : s.registry = s.table) (hf : s.face? k = some f)
    (hk : a.key? ≠ some k) : (s.act a).face? k = some f := by
  cases a with
  | make g =>
      refine (face?_adopt s g k).trans ?_
      rw [if_neg (Nat.ne_of_lt (lt_length_of_face? hf)), hf]
  | add key unique =>
      have hne : k ≠ key := fun heq => hk (congrArg some heq.symm)
      simp only [act]
      cases hadd : s.add key unique with
      | error e => exact hf
      | ok r =>
          obtain ⟨id, s'⟩ := r
          obtain ⟨g, -, -, -, rfl⟩ := add_eq_ok hadd
          exact (face?_modifyFace_of_ne hne _).trans hf
  | start key => exact (face?_modifyFace_of_ne (fun heq => hk (congrArg some heq.symm)) _).trans hf
  | remove id =>
      obtain ⟨log, hlog⟩ := remove_eq hreg id
      rw [act, hlog]
      exact hf
  | move mover key target =>
      obtain ⟨log, hlog⟩ := move_eq hreg mover key target
      rw [act, hlog]
      exact (face?_modifyFace_of_ne (fun heq => hk (congrArg some heq.symm)) _).trans hf

theorem config_act (hreg : s.registry = s.table) (a : Act) : (s.act a).config = s.config := by
  rcases added_cases s a with hnone | ⟨x, hadd⟩
  · obtain ⟨faces, watches, log, hact⟩ := act_of_not_added hreg hnone
    rw [hact]
    rfl
  · obtain ⟨f, -, -, -, -, hact⟩ := act_of_added hadd
    rw [hact]
    rfl

/-- An act that takes nothing out of the table puts an entry behind the others at most. -/
theorem table_act_of_kept (hreg : s.registry = s.table) (hkept : s.gone? a = none) :
    (s.act a).table = s.table ++ (s.added a).map fun x => (x.id, x.key) := by
  rcases added_cases s a with hnone | ⟨x, hadd⟩
  · obtain ⟨faces, watches, log, hact⟩ := act_of_not_added hreg hnone
    rw [hact, hkept, hnone, List.map_nil, List.append_nil]
    exact List.filter_eq_self.mpr fun e he => by simp
  · obtain ⟨f, -, -, -, -, hact⟩ := act_of_added hadd
    rw [hact, hadd]
    rfl

theorem Consistent.mem_facing_act (h : s.Consistent) (hkept : s.gone? a = none)
    {e : UInt64 × FaceKey} (he : e ∈ s.facing remote) : e ∈ (s.act a).facing remote := by
  rw [mem_facing] at he ⊢
  rw [table_act_of_kept h.registry_eq hkept, h.remote?_act_of_mem he.1]
  exact ⟨List.mem_append_left _ he.1, he.2⟩

/-- The table has no room for one more face. -/
def Full (s : FaceSystem) : Prop :=
  2 ^ 64 ≤ s.table.length + 1

theorem Full.after (h : s.Full) (hreg : s.registry = s.table) (hkept : s.gone? a = none) :
    (s.act a).Full := by
  rw [Full, table_act_of_kept hreg hkept, List.length_append]
  rw [Full] at h
  omega

theorem full_of_freeId? (hfree : freeId? s.nextId s.ids = none) : s.Full := by
  have hlength := le_length_of_freeId?_eq_none hfree
  rwa [ids, List.length_map] at hlength

/-! ## What holds of a caller -/

/-- A caller is told the ID of a face in the table with its remote end, unless the table is full. -/
def Agrees (s : FaceSystem) (remote : FaceUri) (answer : Except Error UInt64) : Prop :=
  (∃ id key, answer = .ok id ∧ (id, key) ∈ s.facing remote) ∨ s.Full

/-- A face in the table that is up. -/
def Serving (s : FaceSystem) (remote : FaceUri) (id : UInt64) (key : FaceKey) : Prop :=
  (id, key) ∈ s.facing remote
    ∧ ∃ f, s.face? key = some f ∧ f.base.state = .up ∧ f.base.stop.isStopped = false

/-- A face that got no ID and was taken down for good. -/
def Discarded (s : FaceSystem) (key : FaceKey) : Prop :=
  ∃ f, s.face? key = some f ∧ f.base.id? = none ∧ f.base.state = .adminDown
    ∧ f.base.stop.isStopped = true

def Idle (s : FaceSystem) (remote : FaceUri) (key : FaceKey) : Prop :=
  ∃ f : Dialled remote, s.face? key = some f.1

/-- What holds of a caller in a system with a configuration. -/
def Holds (config : Config) (s : FaceSystem) (p : Caller) : Prop :=
  match p.progress with
  | .waiting | .searched => True
  | .dialled key => s.Idle p.call.remote key
  | .added id key | .created id key => s.Serving p.call.remote id key
  | .refused key answer => s.Idle p.call.remote key ∧ s.Agrees p.call.remote answer
  | .found id => ∃ key, (id, key) ∈ s.facing p.call.remote
  | .failed e => p.call.remote.canonical = false ∨ p.call.outcome config = .error e
  | .yielded key answer => s.Discarded key ∧ s.Agrees p.call.remote answer

theorem Holds.lt_length {config : Config} (h : Holds config s p) (hk : p.progress.key? = some k) :
    k < s.faces.length := by
  unfold Holds at h
  cases hp : p.progress <;> rw [hp] at h hk <;> cases hk
  · obtain ⟨f, hf⟩ := h
    exact lt_length_of_face? hf
  · obtain ⟨-, f, hf, -⟩ := h
    exact lt_length_of_face? hf
  · obtain ⟨⟨f, hf⟩, -⟩ := h
    exact lt_length_of_face? hf
  · obtain ⟨-, f, hf, -⟩ := h
    exact lt_length_of_face? hf
  · obtain ⟨⟨f, hf, -⟩, -⟩ := h
    exact lt_length_of_face? hf

/-! ## What a step keeps -/

theorem unique_of_act? (ha : p.act? s = some a) : a.Unique := by
  unfold Caller.act? at ha
  split at ha
  · obtain ⟨f, -, rfl⟩ := Option.map_eq_some_iff.mp ha
    trivial
  · cases ha
    rfl
  · cases ha
    trivial
  · cases ha
    trivial
  · cases ha

/-- A caller acts on the face that it made. -/
theorem key?_of_act? (ha : p.act? s = some a) (hk : a.key? = some k) :
    p.progress.key? = some k := by
  unfold Caller.act? at ha
  split at ha
  · obtain ⟨f, -, rfl⟩ := Option.map_eq_some_iff.mp ha
    cases hk
  all_goals
    rename_i hp
    cases ha
  all_goals
    rw [hp]
    exact hk

theorem Idle.outside (h : s.Idle remote key) : s.boundId? key = none := by
  obtain ⟨f, hf⟩ := h
  rw [boundId?, hf]
  exact f.2.1.id?_eq

theorem Holds.kept {config : Config} (h : Holds config s p) (ha : p.act? s = some a) :
    s.gone? a = none := by
  unfold Caller.act? at ha
  split at ha
  · obtain ⟨f, -, rfl⟩ := Option.map_eq_some_iff.mp ha
    rfl
  · cases ha
    rfl
  · cases ha
    rfl
  · rename_i key answer hp
    cases ha
    rw [Holds, hp] at h
    obtain ⟨⟨f, hf⟩, -⟩ := h
    rw [gone?, leaving?, hf, Option.bind_some, goneBy, f.2.1.id?_eq, ite_self]
  · cases ha

theorem Agrees.after {answer : Except Error UInt64} (h : s.Agrees remote answer)
    (hs : s.Consistent) (hkept : s.gone? a = none) : (s.act a).Agrees remote answer := by
  rcases h with ⟨id, key, hanswer, hmem⟩ | hfull
  · exact .inl ⟨id, key, hanswer, hs.mem_facing_act hkept hmem⟩
  · exact .inr (hfull.after hs.registry_eq hkept)

theorem Serving.after (h : s.Serving remote id key) (hs : s.Consistent) (hkept : s.gone? a = none)
    (hother : a.key? ≠ some key) : (s.act a).Serving remote id key := by
  obtain ⟨hmem, f, hf, hup⟩ := h
  exact ⟨hs.mem_facing_act hkept hmem, f, face?_act_of_ne hs.registry_eq hf hother, hup⟩

theorem Idle.after (h : s.Idle remote key) (hs : s.Consistent) (hother : a.key? ≠ some key) :
    (s.act a).Idle remote key := by
  obtain ⟨f, hf⟩ := h
  exact ⟨f, face?_act_of_ne hs.registry_eq hf hother⟩

theorem Discarded.after (h : s.Discarded key) (hs : s.Consistent) (hother : a.key? ≠ some key) :
    (s.act a).Discarded key := by
  obtain ⟨f, hf, hdown⟩ := h
  exact ⟨f, face?_act_of_ne hs.registry_eq hf hother, hdown⟩

/-- What holds of a caller is not touched by an act that is not done to its face. -/
theorem Holds.after {config : Config} (h : Holds config s q) (hs : s.Consistent)
    (hkept : s.gone? a = none) (hother : ∀ k, q.progress.key? = some k → a.key? ≠ some k) :
    Holds config (s.act a) q := by
  unfold Holds at h ⊢
  cases hq : q.progress <;> rw [hq] at h hother <;> dsimp only at h ⊢
  case dialled key => exact h.after hs (hother key rfl)
  case added id key => exact h.after hs hkept (hother key rfl)
  case refused key answer => exact ⟨h.1.after hs (hother key rfl), h.2.after hs hkept⟩
  case found id =>
      obtain ⟨key, hmem⟩ := h
      exact ⟨key, hs.mem_facing_act hkept hmem⟩
  case failed e => exact h
  case created id key => exact h.after hs hkept (hother key rfl)
  case yielded key answer => exact ⟨h.1.after hs (hother key rfl), h.2.after hs hkept⟩

/-- A face that was dialled is added, or there is one already that has its remote end. -/
theorem Idle.add (h : s.Idle remote key) (hs : s.Consistent) :
    (∃ id s', s.add key true = .ok (id, s') ∧ s'.Serving remote id key)
      ∨ ∃ e, s.add key true = .error e ∧ s.Agrees remote (answerTo e) := by
  obtain ⟨⟨f, hnew, hremote⟩, hf⟩ := h
  cases hadd : s.add key true with
  | ok r =>
      obtain ⟨id, s'⟩ := r
      refine .inl ⟨id, s', rfl, ?_, f.bound id, (get?_of_add hadd hf).2, hnew.state_eq,
        hnew.stop_eq⟩
      have hact : s.act (.add key true) = s' := by rw [act, hadd]; rfl
      have hadded : s.added (.add key true) = [⟨id, key, f.base.state⟩] := by rw [added, hf, hadd]
      rw [← hact, hs.facing_act_of_added hadded, remote?_of_face? hf, hremote, if_pos rfl]
      exact List.mem_append_right _ (List.mem_singleton_self _)
  | error e =>
      refine .inr ⟨e, rfl, ?_⟩
      have hbinding := s.binding key true
      rw [add_eq_error_iff.mp hadd] at hbinding
      cases hbinding with
      | unknown hnone => cases hnone.symm.trans hf
      | occupied hf' hfind =>
          cases hf'.symm.trans hf
          obtain ⟨key', hmem⟩ := hs.mem_facing_of_find? hfind
          exact .inl ⟨_, key', rfl, hremote ▸ hmem⟩
      | registered hf' hid =>
          cases hf'.symm.trans hf
          cases hnew.id?_eq.symm.trans hid
      | full hfree => exact .inr (full_of_freeId? hfree)

theorem Serving.start (h : s.Serving remote id key) (hs : s.Consistent) :
    (s.act (.start key)).Serving remote id key := by
  obtain ⟨hmem, f, hf, hup⟩ := h
  refine ⟨hs.mem_facing_act rfl hmem, f.start, ?_, ?_⟩
  · exact (face?_modifyFace s key _).trans (by rw [hf]; rfl)
  · rwa [Face.base_start]

theorem Idle.move (h : s.Idle remote key) :
    (s.act (.move .caller key .adminDown)).Discarded key := by
  have houtside := Outside.of_unbound h.outside
  obtain ⟨⟨f, hnew, hremote⟩, hf⟩ := h
  have hstate : (f.move .caller .adminDown).base.state = .adminDown :=
    f.state_move .caller .adminDown
  have hsteady : (f.move .caller .adminDown).Steady := hnew.steady.move .caller .adminDown
  refine ⟨f.move .caller .adminDown, ?_, ?_, hstate, hsteady.mpr ?_⟩
  · rw [act, houtside.move_eq, face?_modifyFace, hf]
    rfl
  · rw [f.id?_move, hnew.id?_eq]
  · rw [hstate]
    simp

/-- A step keeps what holds of the caller that takes it. -/
theorem Holds.step {config : Config} (h : Holds config s p) (hs : s.Consistent)
    (hconfig : s.config = config) : Holds config (p.step s).1 (p.step s).2 := by
  obtain ⟨call, progress⟩ := p
  unfold Holds at h
  cases progress with
  | waiting =>
      cases hcanonical : call.remote.canonical with
      | false => simp [Caller.step, Caller.act?, Caller.next, Holds, hcanonical]
      | true =>
          cases hfind : s.find? call.remote with
          | none => simp [Caller.step, Caller.act?, Caller.next, Holds, hcanonical, hfind]
          | some existing =>
              obtain ⟨key, hmem⟩ := hs.mem_facing_of_find? hfind
              simpa [Caller.step, Caller.act?, Caller.next, Holds, hcanonical, hfind]
                using ⟨key, hmem⟩
  | searched =>
      cases houtcome : call.outcome s.config with
      | error e =>
          have hfailed : call.outcome config = .error e := hconfig ▸ houtcome
          simp [Caller.step, Caller.act?, Caller.next, Holds, houtcome, Except.toOption, hfailed]
      | ok f =>
          have hidle : (s.adopt f.1).2.Idle call.remote s.faces.length :=
            ⟨f, (face?_adopt s f.1 _).trans (if_pos rfl)⟩
          simpa [Caller.step, Caller.act?, Caller.next, Holds, houtcome, Except.toOption, act]
            using hidle
  | dialled key =>
      rcases Idle.add h hs with ⟨id, s', hadd, hserving⟩ | ⟨e, hadd, hagrees⟩
      · simpa [Caller.step, Caller.act?, Caller.next, Holds, act, hadd, settled] using hserving
      · simpa [Caller.step, Caller.act?, Caller.next, Holds, act, hadd, settled]
          using ⟨h, hagrees⟩
  | added id key => exact Serving.start h hs
  | refused key answer =>
      have hrefused : Holds config s ⟨call, .refused key answer⟩ := h
      exact ⟨h.1.move, h.2.after hs (hrefused.kept rfl)⟩
  | found id => exact h
  | failed e => exact h
  | created id key => exact h
  | yielded key answer => exact h

end FaceSystem

end NamedData
