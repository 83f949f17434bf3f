import NamedData.Proofs.Link.Sending
import NamedData.Proofs.System.Table

/-!
# All that happens to a face system

Besides the calls, faces are started and used, their tasks run, and time passes. None of this adds a
face or changes the state of one, but for the expiry of a face.
-/

namespace NamedData

/-! ## Single faces -/

namespace Face

variable {f : Face} {now : Instant}

/-- The ID and the state of a face. -/
def standing (f : Face) : Option UInt64 × FaceState :=
  (f.base.id?, f.base.state)

/-- What no traffic changes of a face: its standing and its remote end. -/
def identity (f : Face) : (Option UInt64 × FaceState) × FaceUri :=
  (f.standing, f.base.remote)

theorem identity_eq_of_base {g : Face} (h : g.base = f.base) : g.identity = f.identity := by
  rw [identity, identity, standing, standing, h]

theorem identity_recordIn (f : Face) (n : Nat) (now : Instant) :
    (f.recordIn n now).identity = f.identity := by
  unfold recordIn FaceBase.recordIn FaceBase.refresh
  split <;> rfl

theorem identity_receive (f : Face) (frame : Bytes) (now : Instant) :
    (f.receive frame now).2.identity = f.identity :=
  identity_eq_of_base (f.base_receive frame now)

theorem identity_sendOne (f : Face) (l : LinkService) (p : Parcel) (now : Instant) :
    (f.sendOne l p now).identity = f.identity := by
  obtain ⟨l', medium, counters, outBytes, expiration, h, -⟩ := f.sendOne_eq l p now
  rw [h]
  rfl

theorem identity_sendNext? {g : Face} (h : f.sendNext? now = some g) :
    g.identity = f.identity := by
  obtain ⟨l, -, h⟩ := Option.bind_eq_some_iff.mp h
  obtain ⟨⟨p, l'⟩, -, h⟩ := Option.bind_eq_some_iff.mp h
  cases h
  exact identity_sendOne f l' p now

theorem identity_sendRounds (now : Instant) (rounds : Nat) (f : Face) :
    (sendRounds now rounds f).identity = f.identity := by
  induction rounds generalizing f with
  | zero => rfl
  | succ rounds ih =>
      rw [sendRounds]
      split
      · rfl
      · rename_i g hg
        rw [ih, identity_sendNext? hg]

theorem identity_runSender (f : Face) (now : Instant) :
    (f.runSender now).identity = f.identity := by
  unfold runSender
  split
  · split
    · rfl
    · exact identity_sendRounds now _ f
  · rfl

theorem identity_evictExpired (f : Face) (now : Instant) :
    (f.evictExpired now).identity = f.identity := by
  unfold evictExpired
  split <;> rfl

end Face

namespace FaceSystem

variable {s s' s'' : FaceSystem} {key k : FaceKey}

/-! ## Quiet changes -/

def standing? (s : FaceSystem) (key : FaceKey) : Option (Option UInt64 × FaceState) :=
  (s.face? key).map Face.standing

theorem boundId?_eq_standing? (s : FaceSystem) (key : FaceKey) :
    s.boundId? key = (s.standing? key).bind (·.1) := by
  rw [boundId?, standing?, Option.bind_map]
  rfl

/-- Neither the table nor the standing of a face changes. -/
structure Quiet (s s' : FaceSystem) : Prop where
  table_eq : s'.table = s.table
  registry_eq : s'.registry = s.registry
  nextId_eq : s'.nextId = s.nextId
  standing?_eq : ∀ k, s'.standing? k = s.standing? k

theorem Quiet.boundId?_eq (h : Quiet s s') (k : FaceKey) : s'.boundId? k = s.boundId? k := by
  rw [boundId?_eq_standing?, boundId?_eq_standing?, h.standing?_eq]

theorem Consistent.quiet (h : s.Consistent) (hs' : Quiet s s') : s'.Consistent :=
  h.of_sublist (by rw [hs'.registry_eq, hs'.table_eq, h.registry_eq]) (by rw [hs'.table_eq])
    hs'.boundId?_eq

theorem map_face?_modifyFace {α : Type} {φ : Face → α} {g : Face → Face}
    (hg : ∀ f, φ (g f) = φ f) (s : FaceSystem) (key k : FaceKey) :
    ((s.modifyFace key g).face? k).map φ = (s.face? k).map φ := by
  by_cases hk : k = key
  · subst hk
    rw [face?_modifyFace, Option.map_map]
    exact congrArg (fun φ => (s.face? k).map φ) (funext hg)
  · rw [face?_modifyFace_of_ne hk]

theorem quiet_modifyFace {g : Face → Face} (hg : ∀ f, (g f).standing = f.standing)
    (s : FaceSystem) (key : FaceKey) : Quiet s (s.modifyFace key g) :=
  ⟨rfl, rfl, rfl, map_face?_modifyFace hg s key⟩

/-- Neither the table nor the identity of a face changes. -/
structure Still (s s' : FaceSystem) : Prop where
  table_eq : s'.table = s.table
  registry_eq : s'.registry = s.registry
  nextId_eq : s'.nextId = s.nextId
  identity_eq : ∀ k, (s'.face? k).map Face.identity = (s.face? k).map Face.identity

theorem Still.map_eq (h : Still s s') {α : Type} (φ : (Option UInt64 × FaceState) × FaceUri → α)
    (k : FaceKey) :
    (s'.face? k).map (fun f => φ f.identity) = (s.face? k).map fun f => φ f.identity := by
  have hmap := congrArg (Option.map φ) (h.identity_eq k)
  rwa [Option.map_map, Option.map_map] at hmap

theorem Still.quiet (h : Still s s') : Quiet s s' :=
  ⟨h.table_eq, h.registry_eq, h.nextId_eq, h.map_eq Prod.fst⟩

theorem Still.refl (s : FaceSystem) : Still s s :=
  ⟨rfl, rfl, rfl, fun _ => rfl⟩

theorem Still.trans (h : Still s s') (h' : Still s' s'') : Still s s'' where
  table_eq := h'.table_eq.trans h.table_eq
  registry_eq := h'.registry_eq.trans h.registry_eq
  nextId_eq := h'.nextId_eq.trans h.nextId_eq
  identity_eq := fun k => (h'.identity_eq k).trans (h.identity_eq k)

theorem Still.foldl {ι : Type} {step : FaceSystem → ι → FaceSystem}
    (h : ∀ s i, Still s (step s i)) (s : FaceSystem) (is : List ι) : Still s (is.foldl step s) := by
  induction is generalizing s with
  | nil => exact .refl s
  | cons i rest ih => exact (h s i).trans (ih (step s i))

theorem still_modifyFace {g : Face → Face} (hg : ∀ f, (g f).identity = f.identity)
    (s : FaceSystem) (key : FaceKey) : Still s (s.modifyFace key g) :=
  ⟨rfl, rfl, rfl, map_face?_modifyFace hg s key⟩

/-! ## Traffic -/

theorem still_start (s : FaceSystem) (key : FaceKey) : Still s (s.start key) :=
  (still_modifyFace (fun f => Face.identity_eq_of_base f.base_start) s key).trans
    ⟨rfl, rfl, rfl, fun _ => rfl⟩

theorem still_receive (s : FaceSystem) (key : FaceKey) (frame : Bytes) :
    Still s (s.receive key frame) := by
  unfold receive
  cases hf : s.face? key with
  | none => exact .refl s
  | some f =>
      have hset : s.modifyFace key (fun f => (f.receive frame s.clock.now).2)
          = { s with faces := s.faces.set key (f.receive frame s.clock.now).2 } := by
        have hf' : s.faces[key]? = some f := hf
        simp only [modifyFace, List.modify_eq_set_getElem?, hf', Option.map_eq_map,
          Option.map_some]
        rfl
      exact (hset ▸ still_modifyFace (fun f => f.identity_receive frame s.clock.now) s key).trans
        ⟨rfl, rfl, rfl, fun _ => rfl⟩

theorem still_receiveCounted (s : FaceSystem) (key : FaceKey) (frame : Bytes) :
    Still s (s.receiveCounted key frame) :=
  (still_modifyFace (fun f => f.identity_recordIn frame.length s.clock.now) s key).trans
    (still_receive _ key frame)

theorem still_receiveAll (s : FaceSystem) (key : FaceKey) (frames : List Bytes) :
    Still s (s.receiveAll key frames) :=
  .foldl (fun s frame => still_receiveCounted s key frame) s frames

theorem still_runStream (s : FaceSystem) (key : FaceKey) (chunks : List Bytes) (last : StreamEnd) :
    Still s (s.runStream key chunks last).2 := by
  unfold runStream
  split
  · exact .refl s
  · refine (still_receiveAll s key (Framer.empty.read last chunks).frames).trans ?_
    dsimp only
    split
    · exact still_modifyFace (fun _ => by rfl) _ key
    · exact .refl _

theorem still_runReceiver (s : FaceSystem) (key : FaceKey) : Still s (s.runReceiver key) := by
  unfold runReceiver
  split
  · exact .refl s
  · split
    · dsimp only
      split
      · exact still_modifyFace (fun _ => by rfl) s key
      · exact (still_modifyFace (fun _ => by rfl) s key).trans (still_receiveAll _ key _)
    · split
      · exact still_modifyFace (fun _ => by rfl) s key
      · exact .refl s
    · exact .refl s

theorem still_runTasks (s : FaceSystem) (key : FaceKey) : Still s (s.runTasks key) :=
  (still_modifyFace (fun f => f.identity_runSender s.clock.now) s key).trans
    (still_runReceiver _ key)

theorem still_settle (s : FaceSystem) : Still s s.settle :=
  (Still.foldl still_runTasks s (List.range s.faces.length)).trans ⟨rfl, rfl, rfl, fun _ => rfl⟩

/-- A check is still, or it takes the face down after a still change. -/
theorem check_cases (earlier : Nat) (s : FaceSystem) (w : ExpiryWatch) :
    ∃ s', Still s s'
      ∧ (check earlier s w = s' ∨ check earlier s w = s'.changeState w.key .down) := by
  unfold check
  split
  · have h := still_modifyFace (fun f => f.identity_evictExpired s.clock.now) s w.key
    dsimp only
    split
    · refine ⟨_, ?_, .inr rfl⟩
      exact h.trans ⟨rfl, rfl, rfl, fun _ => rfl⟩
    · exact ⟨_, h, .inl rfl⟩
  · exact ⟨s, .refl s, .inl rfl⟩

/-! ## Operations -/

/-- All that can happen to a face system. -/
inductive Operation where
  | call (c : Call)
  | start (key : FaceKey)
  /-- A face, or what is at its other end, is used in a way that leaves the face its standing. -/
  | use (key : FaceKey) (g : { g : Face → Face // ∀ f, (g f).standing = f.standing })
  | receive (key : FaceKey) (frame : Bytes)
  | stream (key : FaceKey) (chunks : List Bytes) (last : StreamEnd)
  | tasks (key : FaceKey)
  | settle
  | forward (queues : Dispatcher)
  | wait (now : Instant)
  | tick (secs : Nat)

def operate (s : FaceSystem) : Operation → FaceSystem
  | .call c => s.apply c
  | .start key => s.start key
  | .use key g => s.modifyFace key g
  | .receive key frame => s.receive key frame
  | .stream key chunks last => (s.runStream key chunks last).2
  | .tasks key => s.runTasks key
  | .settle => s.settle
  | .forward queues => { s with dispatcher := queues }
  | .wait now => { s with clock := { s.clock with now } }
  | .tick secs => s.tick secs

/-- The faces that an operation adds to the table. -/
def admitted (s : FaceSystem) : Operation → List Addition
  | .call c => s.additions [c]
  | _ => []

/-- An operation is a call, the use of a face, a still change, or the passing of time, which brings
checks. -/
theorem operate_cases (s : FaceSystem) (o : Operation) :
    (∃ c, o = .call c)
      ∨ s.admitted o = [] ∧ ((∃ key g, o = .use key g) ∨ Still s (s.operate o)
        ∨ ∃ (s' : FaceSystem) (ws : List ExpiryWatch), Still s s'
          ∧ s.operate o = ws.foldl (check s.clock.timer) s') := by
  cases o with
  | call c => exact .inl ⟨c, rfl⟩
  | start key => exact .inr ⟨rfl, .inr (.inl (still_start s key))⟩
  | use key g => exact .inr ⟨rfl, .inl ⟨key, g, rfl⟩⟩
  | receive key frame => exact .inr ⟨rfl, .inr (.inl (still_receive s key frame))⟩
  | stream key chunks last => exact .inr ⟨rfl, .inr (.inl (still_runStream s key chunks last))⟩
  | tasks key => exact .inr ⟨rfl, .inr (.inl (still_runTasks s key))⟩
  | settle => exact .inr ⟨rfl, .inr (.inl (still_settle s))⟩
  | forward queues => exact .inr ⟨rfl, .inr (.inl ⟨rfl, rfl, rfl, fun _ => rfl⟩)⟩
  | wait now => exact .inr ⟨rfl, .inr (.inl ⟨rfl, rfl, rfl, fun _ => rfl⟩)⟩
  | tick secs =>
      refine .inr ⟨rfl, .inr (.inr ⟨_, s.watches, ?_, rfl⟩)⟩
      exact ⟨rfl, rfl, rfl, fun _ => rfl⟩

/-! ## Runs -/

section Runs

variable {P : List Addition → FaceSystem → Prop} {given : List Addition}
  (hact : ∀ {given s}, P given s → ∀ a, P (given ++ s.added a) (s.act a))
  (hquiet : ∀ {given s s'}, P given s → Quiet s s' → P given s')

include hact

theorem acts_induction (h : P given s) (as : List Act) :
    P (given ++ along act added s as) (as.foldl act s) := by
  induction as generalizing given s with
  | nil => simpa [along] using h
  | cons a rest ih =>
      rw [along, ← List.append_assoc]
      exact ih (hact h a)

include hquiet

theorem checks_induction (h : P given s) (earlier : Nat) (ws : List ExpiryWatch) :
    P given (ws.foldl (check earlier) s) := by
  induction ws generalizing s with
  | nil => exact h
  | cons w rest ih =>
      refine ih ?_
      obtain ⟨s', hs', hcheck | hcheck⟩ := check_cases earlier s w
      · exact hcheck ▸ hquiet h hs'.quiet
      · have hnone : s'.added (.move .caller w.key .down) = [] := rfl
        have hdown := hact (hquiet h hs'.quiet) (.move .caller w.key .down)
        rw [hnone, List.append_nil] at hdown
        exact hcheck ▸ hdown

/-- What acts and quiet changes keep is kept by all that happens. -/
theorem operations_induction (h : P given s) (os : List Operation) :
    P (given ++ along operate admitted s os) (os.foldl operate s) := by
  induction os generalizing given s with
  | nil => simpa [along] using h
  | cons o rest ih =>
      rw [along, ← List.append_assoc]
      refine ih ?_
      rcases s.operate_cases o with
        ⟨c, rfl⟩ | ⟨hnone, ⟨key, g, rfl⟩ | hs' | ⟨s', ws, hs', hchecks⟩⟩
      · rw [operate, apply_eq, admitted, additions, history_singleton]
        exact acts_induction hact h (s.acts c)
      · rw [hnone, List.append_nil]
        exact hquiet h (quiet_modifyFace g.2 s key)
      · rw [hnone, List.append_nil]
        exact hquiet h hs'.quiet
      · rw [hnone, List.append_nil, hchecks]
        exact checks_induction (P := P) hact hquiet (hquiet h hs'.quiet) _ ws

end Runs

end FaceSystem

end NamedData
