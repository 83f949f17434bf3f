import NamedData.Proofs.System.Table

/-!
# Answers and refusals

Which ID a call answers with, and what is left of a system by a call that adds no face where it
should add one. With the invariant of the table this is what callers can rely on in any run.
-/

namespace NamedData.FaceSystem

variable {s : FaceSystem}

/-! ## Answers -/

theorem along_added_eq_nil {as : List Act} (h : ∀ a ∈ as, ∀ s, added s a = []) :
    along FaceSystem.act added s as = [] := by
  refine List.eq_nil_iff_forall_not_mem.mpr fun x hx => ?_
  obtain ⟨s', a, ha, hx⟩ := exists_of_mem_along hx
  rw [h a ha s'] at hx
  cases hx

theorem additions_singleton (s : FaceSystem) (c : Call) :
    s.additions [c] = along FaceSystem.act added s (s.acts c) := by
  rw [additions, history_singleton]

theorem along_added_actsOfAdding (s : FaceSystem) (key : FaceKey) (unique : Bool)
    {refused : List Act} (h : ∀ a ∈ refused, ∀ s, added s a = []) :
    along FaceSystem.act added s (s.actsOfAdding key unique refused)
      = s.added (.add key unique) := by
  rw [actsOfAdding, along]
  cases s.add key unique with
  | ok r => exact List.append_nil _
  | error e => rw [along_added_eq_nil h, List.append_nil]

theorem along_added_create (s : FaceSystem) (f : NewFace) :
    along FaceSystem.act added s (.make f :: (s.adopt f).2.actsOfAdding s.faces.length true
        [.move .caller s.faces.length .adminDown])
      = (s.adopt f).2.added (.add s.faces.length true) :=
  along_added_actsOfAdding (s.adopt f).2 s.faces.length true (by simp [added])

theorem Consistent.settleNew_answer (h : s.Consistent) (key : FaceKey) :
    (∃ x, s.added (.add key true) = [x] ∧ (s.settleNew key).1 = .ok x.id)
      ∨ s.added (.add key true) = [] ∧ ∀ id, (s.settleNew key).1 = .ok id → id ∈ s.ids := by
  rw [settleNew]
  cases hadd : s.add key true with
  | ok r =>
      obtain ⟨state, hadded⟩ := added_of_ok hadd
      exact .inl ⟨_, hadded, rfl⟩
  | error e =>
      refine .inr ⟨added_of_error hadd, fun id hid => ?_⟩
      cases e with
      | faceExists existing =>
          cases hid
          obtain ⟨remote, g, hfind, rfl⟩ := add_eq_faceExists hadd
          exact h.id_mem_of_find? hfind
      | _ => cases hid

/-- A call answers with the ID of the face that it adds, if it adds one, and else with none or with
one that is in the table. -/
theorem Consistent.answer (h : s.Consistent) (c : Call) :
    (∃ x, s.additions [c] = [x] ∧ (s.call c).1 = .ok (some x.id))
      ∨ s.additions [c] = [] ∧ ∀ id, (s.call c).1 = .ok (some id) → id ∈ s.ids := by
  rw [additions_singleton]
  cases c with
  | make f => exact .inr ⟨rfl, fun id hid => by cases hid⟩
  | add key unique =>
      rw [acts, call, along, along, List.append_nil]
      cases hadd : s.add key unique with
      | ok r =>
          obtain ⟨state, hadded⟩ := added_of_ok hadd
          exact .inl ⟨_, hadded, rfl⟩
      | error e => exact .inr ⟨added_of_error hadd, fun id hid => by cases hid⟩
  | addFace key =>
      rw [acts, call, along_added_actsOfAdding s key false (by simp), addFace_eq]
      cases hadd : s.add key false with
      | ok r =>
          obtain ⟨state, hadded⟩ := added_of_ok hadd
          exact .inl ⟨_, hadded, rfl⟩
      | error e => exact .inr ⟨added_of_error hadd, fun id hid => by cases hid⟩
  | create build remote persistency options =>
      simp only [call, createFace, acts]
      cases hcanonical : remote.canonical with
      | false => exact .inr ⟨rfl, fun id hid => by cases hid⟩
      | true =>
          cases hfind : s.find? remote with
          | some existing =>
              refine .inr ⟨rfl, fun id hid => ?_⟩
              cases hid
              exact h.id_mem_of_find? hfind
          | none =>
              cases hbuild : build remote persistency (options.getD s.config.linkOptions) with
              | error e => exact .inr ⟨rfl, fun id hid => by cases hid⟩
              | ok f =>
                  have hkey : (s.adopt f).1 = s.faces.length := rfl
                  have hanswer := (h.after (.make f)).settleNew_answer s.faces.length
                  simp only [Except.map, hkey, Bool.not_true, Option.isNone_none,
                    Bool.and_self, if_true, along_added_create, Bool.false_eq_true, if_false]
                  rcases hanswer with ⟨x, hx, hid⟩ | ⟨hnone, hid⟩
                  · exact .inl ⟨x, hx, congrArg (Except.map some) hid⟩
                  · refine .inr ⟨hnone, fun id hsome => hid id ?_⟩
                    have hmap : ((s.adopt f).2.settleNew s.faces.length).1.map some
                        = .ok (some id) := hsome
                    cases hnew : ((s.adopt f).2.settleNew s.faces.length).1 <;>
                      rw [hnew] at hmap <;> cases hmap
                    exact hnew
  | registerComponent =>
      simp only [call, acts, registerComponent, addFace_eq]
      have hkey : (s.adopt (.component s.config.queueSize .internal s.config)).1
          = s.faces.length := rfl
      cases hadd : (s.adopt (.component s.config.queueSize .internal s.config)).2.add
        s.faces.length false with
      | ok r =>
          obtain ⟨id, s'⟩ := r
          obtain ⟨state, hadded⟩ := added_of_ok hadd
          rw [hkey, hadd]
          exact .inl ⟨_, (List.append_nil _).trans hadded, rfl⟩
      | error e =>
          rw [hkey, hadd]
          exact .inr ⟨rfl, fun id hid => by cases hid⟩
  | remove id => exact .inr ⟨rfl, fun id hid => by cases hid⟩
  | destroy id =>
      refine .inr ⟨along_added_eq_nil (by simp [added, acts]), fun id' hid => ?_⟩
      rw [call] at hid
      split at hid <;> cases hid
  | closeAll =>
      refine .inr ⟨along_added_eq_nil fun a ha s => ?_, fun id hid => by cases hid⟩
      obtain ⟨e, -, rfl⟩ := List.mem_map.mp ha
      rfl
  | changeState key target => exact .inr ⟨rfl, fun id hid => by cases hid⟩
  | transition key target => exact .inr ⟨rfl, fun id hid => by cases hid⟩

/-! ## Refusals -/

/-- Nothing but single faces may differ, and no face has got an ID. -/
structure Untouched (s s' : FaceSystem) : Prop where
  table_eq : s'.table = s.table
  nextId_eq : s'.nextId = s.nextId
  registry_eq : s'.registry = s.registry
  dispatcher_eq : s'.dispatcher = s.dispatcher
  log_eq : s'.log = s.log
  boundId?_eq : ∀ k, s'.boundId? k = s.boundId? k

theorem Untouched.refl (s : FaceSystem) : Untouched s s :=
  ⟨rfl, rfl, rfl, rfl, rfl, fun _ => rfl⟩

/-- A call that should add a face and adds none leaves all but single faces alone. -/
theorem untouched_of_refused {c : Call} (hadds : c.Adds) (hnone : s.additions [c] = []) :
    Untouched s (s.apply c) := by
  rw [additions_singleton] at hnone
  cases c with
  | add key unique =>
      rw [acts, along, along, List.append_nil] at hnone
      obtain ⟨e, he⟩ := error_of_added_eq_nil hnone
      rw [apply, call, he]
      exact Untouched.refl s
  | addFace key =>
      rw [acts, along_added_actsOfAdding s key false (by simp)] at hnone
      obtain ⟨e, he⟩ := error_of_added_eq_nil hnone
      rw [apply, call, addFace_eq, he]
      exact Untouched.refl s
  | create build remote persistency options =>
      rw [apply_eq]
      rcases acts_create s build remote persistency options with hnil | ⟨f, hacts⟩
      · rw [hnil]
        exact Untouched.refl s
      · rw [hacts, along_added_create] at hnone
        obtain ⟨e, he⟩ := error_of_added_eq_nil hnone
        -- The face that was made for the call has no ID, so taking it down leaves no trace.
        have hnew : s.boundId? s.faces.length = none := by
          rw [boundId?, face?, List.getElem?_eq_none (Nat.le_refl _)]
          rfl
        have hout : (s.adopt f).2.Outside s.faces.length :=
          .of_unbound ((boundId?_adopt s f.2.id?_eq _).trans hnew)
        have hact : (s.acts (.create build remote persistency options)).foldl act s
            = (s.adopt f).2.modifyFace s.faces.length fun f => f.move .caller .adminDown := by
          rw [hacts, List.foldl_cons]
          refine (foldl_actsOfAdding (s.adopt f).2 _ _ _).trans ?_
          rw [he]
          exact hout.move_eq .caller .adminDown
        rw [hact]
        exact ⟨rfl, rfl, rfl, rfl, rfl, fun k =>
          (boundId?_modifyFace fun f => f.id?_move .caller .adminDown).trans
            (boundId?_adopt s f.2.id?_eq k)⟩
  | registerComponent =>
      rw [apply_eq]
      simp only [acts] at hnone ⊢
      cases hadd : (s.adopt (.component s.config.queueSize .internal s.config)).2.add
        s.faces.length false with
      | error e => exact Untouched.refl s
      | ok r =>
          obtain ⟨state, hadded⟩ := added_of_ok hadd
          rw [hadd] at hnone
          exact absurd (hadded.symm.trans ((List.append_nil _).symm.trans hnone)) (by simp)
  | _ => exact hadds.elim

/-! ## Runs -/

/-- Whatever was called, table and registry agree, the faces of the table have its IDs, IDs were
given in ascending order and to no face twice, and a refusal leaves all but single faces alone. -/
theorem run_keeps_table (config : Config) (calls : List Call)
    (hcount : ((create config).additions calls).length < 2 ^ 64 - 1) :
    let given := (create config).additions calls
    let s := (create config).run calls
    (∀ id, s.registry.lookup id = s.keyOf? id ∧ s.registered? id = s.get? id)
      ∧ (∀ id ∈ s.ids, id ≠ 0 ∧ ∃ f, s.get? id = some f ∧ f.id = id)
      ∧ (given.map (·.id)).Pairwise (· < ·)
      ∧ (given.map (·.key)).Nodup
      ∧ ∀ c,
        ((∃ x, s.additions [c] = [x] ∧ (s.call c).1 = .ok (some x.id))
          ∨ s.additions [c] = [] ∧ ∀ id, (s.call c).1 = .ok (some id) → id ∈ s.ids)
        ∧ (c.Adds → s.additions [c] = [] → Untouched s (s.apply c)) := by
  intro given s
  have h : Recorded given s := run_recorded config calls
  refine ⟨fun id => ⟨?_, h.consistent.registered?_eq id⟩,
    fun id hid => h.consistent.get?_of_mem hid, h.ids_ascending hcount, h.keys_nodup,
    fun c => ⟨h.consistent.answer c, untouched_of_refused⟩⟩
  rw [h.consistent.registry_eq]
  rfl

/-- Two faces of which the first is removed before the second is added. -/
def twoFaces : List Call :=
  [.make ⟨.null, Face.new_null⟩, .make ⟨.null, Face.new_null⟩, .add 0 false, .remove 1,
    .add 1 false]

theorem run_keeps_table_of_two_faces :
    ((create {}).additions twoFaces).length < 2 ^ 64 - 1
      ∧ (((create {}).additions twoFaces).map (·.id)).Pairwise (· < ·) :=
  have hcount : ((create {}).additions twoFaces).length < 2 ^ 64 - 1 := by decide +kernel
  ⟨hcount, (run_keeps_table {} twoFaces hcount).2.2.1⟩

/-- A face that was in the table keeps its ID when it is refused because of another face. -/
theorem refused_face_keeps_id :
    let s := (create {}).run twoFaces
    (s.call (.add 0 true)).1 = .error (.faceExists 2)
      ∧ (s.apply (.add 0 true)).boundId? 0 = some 1 :=
  ⟨rfl, rfl⟩

end NamedData.FaceSystem
