import NamedData.Proofs.System.Leaving
import NamedData.Proofs.System.Operations

/-!
# Remote ends

Which faces of the table have a remote end, and what acts leave of them. No act changes the remote
end of a face, and an addition that is unique finds none with the same.
-/

namespace NamedData

/-! ## Single faces -/

namespace Face

theorem remote_onFace (f : Face) (c : StateConsequence) :
    (c.onFace f).base.remote = f.base.remote := by
  cases c with
  | close => rw [StateConsequence.onFace, base_close]
  | _ => rfl

theorem remote_foldl_onFace (f : Face) (cs : List StateConsequence) :
    (cs.foldl StateConsequence.onFace f).base.remote = f.base.remote := by
  induction cs generalizing f with
  | nil => rfl
  | cons c rest ih => rw [List.foldl_cons, ih, remote_onFace]

theorem remote_move (f : Face) (mover : Mover) (target : FaceState) :
    (f.move mover target).base.remote = f.base.remote := by
  rw [move, remote_foldl_onFace, base_asked]

end Face

namespace FaceSystem

variable {s s' : FaceSystem} {a : Act} {x : Addition} {key k : FaceKey} {f f' : Face} {id : UInt64}
  {remote : FaceUri}

theorem Evolves.remote_eq {cs : List StateConsequence} (h : Evolves k a f f' cs) :
    f'.base.remote = f.base.remote := by
  cases h with
  | same => rfl
  | bound id => rfl
  | started => rw [Face.base_start]
  | moved => exact f.remote_move _ _

def remote? (s : FaceSystem) (key : FaceKey) : Option FaceUri :=
  (s.face? key).map (·.base.remote)

theorem remote?_of_face? (hf : s.face? key = some f) : s.remote? key = some f.base.remote := by
  rw [remote?, hf]
  rfl

theorem remote?_act (hreg : s.registry = s.table) (hf : s.face? k = some f) (a : Act) :
    (s.act a).remote? k = s.remote? k := by
  obtain ⟨f', hf', hevolves⟩ := evolves_act hreg hf a
  rw [remote?_of_face? hf', remote?_of_face? hf, hevolves.remote_eq]

theorem Still.remote?_eq (h : Still s s') (k : FaceKey) : s'.remote? k = s.remote? k :=
  h.map_eq (·.2) k

/-! ## The faces of the table with a remote end -/

/-- The entries of the table whose faces have a remote end. -/
def facing (s : FaceSystem) (remote : FaceUri) : List (UInt64 × FaceKey) :=
  s.table.filter fun e => s.remote? e.2 = some remote

theorem mem_facing {e : UInt64 × FaceKey} :
    e ∈ s.facing remote ↔ e ∈ s.table ∧ s.remote? e.2 = some remote := by
  simp [facing]

theorem exists_of_find? (h : s.find? remote = some f) :
    ∃ e ∈ s.facing remote, s.face? e.2 = some f := by
  obtain ⟨e, he, hf⟩ := List.mem_filterMap.mp (List.mem_of_find?_eq_some h)
  have hremote : f.base.remote = remote := by simpa using List.find?_some h
  exact ⟨e, mem_facing.mpr ⟨he, hremote ▸ remote?_of_face? hf⟩, hf⟩

theorem find?_eq_none_iff : s.find? remote = none ↔ s.facing remote = [] := by
  simp only [find?, List.find?_eq_none, facing, List.filter_eq_nil_iff, List.mem_filterMap,
    beq_iff_eq, decide_eq_true_eq, remote?, Option.map_eq_some_iff]
  constructor
  · rintro h e he ⟨f, hf, hremote⟩
    exact h f ⟨e, he, hf⟩ hremote
  · rintro h f ⟨e, he, hf⟩ hremote
    exact h e he ⟨f, hf, hremote⟩

theorem Consistent.face?_of_mem (h : s.Consistent) {e : UInt64 × FaceKey} (he : e ∈ s.table) :
    ∃ f, s.face? e.2 = some f ∧ f.base.id? = some e.1 :=
  Option.bind_eq_some_iff.mp (h.bound e he).2

/-- What the search for a remote end finds stands in the table under its ID. -/
theorem Consistent.mem_facing_of_find? (h : s.Consistent) (hfind : s.find? remote = some f) :
    ∃ key, (f.id, key) ∈ s.facing remote := by
  obtain ⟨⟨id, key⟩, he, hf⟩ := exists_of_find? hfind
  obtain ⟨g, hg, hid⟩ := h.face?_of_mem (mem_facing.mp he).1
  cases hf.symm.trans hg
  have hface : f.id = id := by
    rw [Face.id, FaceBase.id, show f.base.id? = some id from hid]
    rfl
  exact ⟨key, hface ▸ he⟩

/-! ## Acts -/

theorem Consistent.remote?_act_of_mem (h : s.Consistent) {e : UInt64 × FaceKey} (he : e ∈ s.table) :
    (s.act a).remote? e.2 = s.remote? e.2 := by
  obtain ⟨f, hf, -⟩ := h.face?_of_mem he
  exact remote?_act h.registry_eq hf a

/-- An act that adds no face takes at most one entry away. -/
theorem Consistent.facing_act (h : s.Consistent) (hnone : s.added a = []) (remote : FaceUri) :
    (s.act a).facing remote = (s.facing remote).filter fun e => some e.1 != s.gone? a := by
  obtain ⟨faces, watches, log, hact⟩ := act_of_not_added h.registry_eq hnone
  have htable : (s.act a).table = s.table.filter fun e => some e.1 != s.gone? a := by
    rw [hact]
    rfl
  rw [facing, facing, htable, List.filter_filter, List.filter_filter]
  refine List.filter_congr fun e he => ?_
  rw [h.remote?_act_of_mem he, Bool.and_comm]

theorem Consistent.facing_act_of_kept (h : s.Consistent) (hnone : s.added a = [])
    (hkept : s.gone? a = none) (remote : FaceUri) : (s.act a).facing remote = s.facing remote := by
  rw [h.facing_act hnone, hkept]
  exact List.filter_eq_self.mpr fun e he => by simp

/-- An addition puts one entry behind the others. -/
theorem Consistent.facing_act_of_added (h : s.Consistent) (hadd : s.added a = [x])
    (remote : FaceUri) :
    (s.act a).facing remote = s.facing remote
      ++ if s.remote? x.key = some remote then [(x.id, x.key)] else [] := by
  obtain ⟨f, hf, -, -, -, hact⟩ := act_of_added hadd
  have htable : (s.act a).table = s.table ++ [(x.id, x.key)] := by rw [hact]
  have hold : (s.table.filter fun e => (s.act a).remote? e.2 = some remote) = s.facing remote :=
    List.filter_congr fun e he => by rw [h.remote?_act_of_mem he]
  rw [facing, htable, List.filter_append, hold, List.filter_singleton,
    remote?_act h.registry_eq hf a, Bool.cond_decide]

theorem find?_eq_none_of_add (hadd : s.add key true = .ok (id, s')) (hf : s.face? key = some f) :
    s.find? f.base.remote = none := by
  cases hfind : s.find? f.base.remote with
  | none => rfl
  | some existing =>
      have hbind : s.bind key true = .error (.faceExists existing.id) := by
        simp [bind, hf, hfind]
      rw [add_eq_error_iff.mpr hbind] at hadd
      cases hadd

/-! ## Unique additions -/

/-- An act that adds a face only if no other has its remote end. -/
def Act.Unique : Act → Prop
  | .add _ unique => unique = true
  | _ => True

theorem remote?_of_added (hunique : a.Unique) (hadd : s.added a = [x]) :
    ∃ remote, s.remote? x.key = some remote ∧ s.facing remote = [] := by
  cases a with
  | add key unique =>
      cases hunique
      rw [added] at hadd
      split at hadd
      · rename_i f id s' hf hok
        cases hadd
        exact ⟨f.base.remote, remote?_of_face? hf,
          find?_eq_none_iff.mp (find?_eq_none_of_add hok hf)⟩
      · cases hadd
  | _ => cases hadd

theorem Consistent.length_facing_act_le (h : s.Consistent) (hunique : a.Unique)
    (hle : (s.facing remote).length ≤ 1) : ((s.act a).facing remote).length ≤ 1 := by
  rcases added_cases s a with hnone | ⟨x, hadd⟩
  · rw [h.facing_act hnone]
    exact Nat.le_trans (List.length_filter_le _ _) hle
  · obtain ⟨remote', hremote, hnone⟩ := remote?_of_added hunique hadd
    rw [h.facing_act_of_added hadd, hremote]
    by_cases hsame : remote' = remote
    · subst hsame
      simp [hnone]
    · simpa [hsame] using hle

/-! ## Runs with unique additions -/

/-- No two faces in the table have the same remote end. -/
structure Apart (s : FaceSystem) : Prop extends s.Consistent where
  single : ∀ remote, (s.facing remote).length ≤ 1

theorem create_apart (config : Config) : (create config).Apart where
  toConsistent := create_consistent config
  single := fun _ => Nat.zero_le 1

theorem Apart.after (h : s.Apart) (hunique : a.Unique) : (s.act a).Apart where
  toConsistent := h.toConsistent.after a
  single := fun remote => h.length_facing_act_le hunique (h.single remote)

theorem Apart.afterAll {as : List Act} (h : s.Apart) (hunique : ∀ a ∈ as, a.Unique) :
    (as.foldl act s).Apart := by
  induction as generalizing s with
  | nil => exact h
  | cons a rest ih =>
      exact ih (h.after (hunique a List.mem_cons_self)) fun b hb =>
        hunique b (List.mem_cons_of_mem a hb)

theorem Apart.still (h : s.Apart) (hs' : Still s s') : s'.Apart where
  toConsistent := h.quiet hs'.quiet
  single := fun remote => by
    have hfacing : s'.facing remote = s.facing remote := by
      simp only [facing, hs'.table_eq, hs'.remote?_eq]
    rw [hfacing]
    exact h.single remote

theorem Apart.nodup (h : s.Apart) : (s.table.map fun e => s.remote? e.2).Nodup := by
  rw [List.nodup_iff_count_le_one]
  intro remote?
  cases remote? with
  | none =>
      rw [List.count_eq_zero.mpr]
      · exact Nat.zero_le 1
      intro hmem
      obtain ⟨e, he, hnone⟩ := List.mem_map.mp hmem
      obtain ⟨f, hf, -⟩ := h.face?_of_mem he
      rw [remote?_of_face? hf] at hnone
      cases hnone
  | some remote =>
      rw [List.count, List.countP_map, List.countP_eq_length_filter]
      simpa [facing, Function.comp_def, beq_eq_decide] using h.single remote

/-- A call that adds a face only if no other has its remote end. -/
def Call.Unique : Call → Prop
  | .add _ unique => unique = true
  | .addFace _ | .registerComponent => False
  | _ => True

theorem unique_of_mem_actsOfAdding {refused : List Act} (hrefused : ∀ b ∈ refused, b.Unique)
    (ha : a ∈ s.actsOfAdding key true refused) : a.Unique := by
  rcases mem_actsOfAdding ha with rfl | rfl | ha
  · rfl
  · trivial
  · exact hrefused a ha

theorem unique_of_mem_acts {c : Call} (hunique : c.Unique) (ha : a ∈ s.acts c) : a.Unique := by
  cases c with
  | make f =>
      cases List.mem_singleton.mp ha
      trivial
  | add key unique =>
      cases List.mem_singleton.mp ha
      exact hunique
  | addFace key => cases hunique
  | create build remote persistency options =>
      rcases s.acts_create build remote persistency options with hnone | ⟨f, hacts⟩
      · rw [hnone] at ha
        cases ha
      · rw [hacts] at ha
        rcases List.mem_cons.mp ha with rfl | ha
        · trivial
        · exact unique_of_mem_actsOfAdding (by simp [Act.Unique]) ha
  | registerComponent => cases hunique
  | remove id =>
      cases List.mem_singleton.mp ha
      trivial
  | destroy id =>
      obtain ⟨key, -, rfl⟩ := List.mem_map.mp ha
      trivial
  | closeAll =>
      obtain ⟨e, -, rfl⟩ := List.mem_map.mp ha
      trivial
  | changeState key target =>
      cases List.mem_singleton.mp ha
      trivial
  | transition key target =>
      cases List.mem_singleton.mp ha
      trivial

/-- An operation whose additions are unique and that leaves every face its remote end. -/
def Operation.Unique : Operation → Prop
  | .call c => c.Unique
  | .use _ g => ∀ f, (g.1 f).base.remote = f.base.remote
  | _ => True

theorem Apart.checks (h : s.Apart) (earlier : Nat) (ws : List ExpiryWatch) :
    (ws.foldl (check earlier) s).Apart := by
  induction ws generalizing s with
  | nil => exact h
  | cons w rest ih =>
      refine ih ?_
      obtain ⟨s', hs', hcheck | hcheck⟩ := check_cases earlier s w
      · exact hcheck ▸ h.still hs'
      · rw [hcheck]
        exact (h.still hs').after (a := .move .caller w.key .down) trivial

theorem Apart.operate {o : Operation} (h : s.Apart) (hunique : o.Unique) : (s.operate o).Apart := by
  rcases s.operate_cases o with ⟨c, rfl⟩ | ⟨-, ⟨key, g, rfl⟩ | hs' | ⟨s', ws, hs', hchecks⟩⟩
  · rw [FaceSystem.operate, apply_eq]
    exact h.afterAll fun a ha => unique_of_mem_acts hunique ha
  · exact h.still (still_modifyFace (fun f => Prod.ext (g.2 f) (hunique f)) s key)
  · exact h.still hs'
  · rw [hchecks]
    exact (h.still hs').checks _ ws

end FaceSystem

end NamedData
