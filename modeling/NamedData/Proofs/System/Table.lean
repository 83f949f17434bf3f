import NamedData.Proofs.System.Journal

/-!
# The face table

The table and the registry always have the same entries, and a face in the table has the ID under
which it stands there. IDs are given in ascending order, and to every face one at most.
-/

namespace NamedData.FaceSystem

variable {s : FaceSystem} {given : List Addition} {key k : FaceKey} {f : Face} {id : UInt64}

/-! ## The invariant -/

/-- What holds of a system between acts. -/
structure Consistent (s : FaceSystem) : Prop where
  registry_eq : s.registry = s.table
  distinct : DistinctKeys s.table
  bound : ∀ e ∈ s.table, e.1 ≠ 0 ∧ s.boundId? e.2 = some e.1

theorem create_consistent (config : Config) : (create config).Consistent where
  registry_eq := rfl
  distinct := List.nodup_nil
  bound := by simp [create]

theorem boundId?_of_added {a : Act} {x : Addition} (h : s.added a = [x]) (k : FaceKey) :
    (s.act a).boundId? k = if k = x.key then some x.id else s.boundId? k := by
  obtain ⟨f, hf, -, -, -, hact⟩ := act_of_added h
  have hfaces : (s.act a).face? k = (s.modifyFace x.key fun f => f.bound x.id).face? k := by
    rw [hact]
    rfl
  rw [boundId?, hfaces]
  split
  · rename_i hk
    subst hk
    rw [face?_modifyFace, hf]
    rfl
  · rename_i hk
    rw [face?_modifyFace_of_ne hk]
    rfl

theorem boundId?_eq_none_of_added {a : Act} {x : Addition} (h : s.added a = [x]) :
    s.boundId? x.key = none := by
  obtain ⟨f, hf, hid, -⟩ := act_of_added h
  rw [boundId?, hf]
  exact hid

theorem Consistent.of_sublist {s' : FaceSystem} (h : s.Consistent)
    (hreg : s'.registry = s'.table) (hsub : s'.table.Sublist s.table)
    (hbound : ∀ k, s'.boundId? k = s.boundId? k) : s'.Consistent where
  registry_eq := hreg
  distinct := Keyed.distinctKeys_of_sublist hsub h.distinct
  bound := fun e he => by
    rw [hbound]
    exact h.bound e (hsub.subset he)

theorem Consistent.after_addition (h : s.Consistent) {a : Act} {x : Addition}
    (hadd : s.added a = [x]) : (s.act a).Consistent := by
  obtain ⟨f, hf, hid, -, hfree, hact⟩ := act_of_added hadd
  obtain ⟨hzero, hfresh⟩ := freeId?_spec hfree
  have htable : (s.act a).table = s.table ++ [(x.id, x.key)] := by rw [hact]
  have hfilter : s.table.filter (·.1 != x.id) = s.table :=
    List.filter_eq_self.mpr fun e he => bne_iff_ne.mpr fun heq =>
      hfresh (heq ▸ List.mem_map_of_mem he)
  refine ⟨by rw [hact, h.registry_eq, hfilter], ?_, fun e he => ?_⟩
  · rw [htable, DistinctKeys, List.map_append, List.map_singleton, ← List.concat_eq_append]
    exact h.distinct.concat hfresh
  · -- The entries from before belong to faces that had an ID, so not to the face that is added.
    rw [htable, List.mem_append, List.mem_singleton] at he
    rw [boundId?_of_added hadd]
    rcases he with hold | rfl
    · obtain ⟨hne, hbound⟩ := h.bound e hold
      have hk : e.2 ≠ x.key := by
        intro hk
        rw [hk, boundId?_eq_none_of_added hadd] at hbound
        cases hbound
      rw [if_neg hk]
      exact ⟨hne, hbound⟩
    · exact ⟨hzero, if_pos rfl⟩

theorem Consistent.after (h : s.Consistent) (a : Act) : (s.act a).Consistent := by
  rcases added_cases s a with hnone | ⟨x, hadd⟩
  · obtain ⟨faces, watches, log, hact⟩ := act_of_not_added h.registry_eq hnone
    exact h.of_sublist (by rw [hact]; rfl) (by rw [hact]; exact List.filter_sublist)
      (boundId?_act h.registry_eq hnone)
  · exact h.after_addition hadd

theorem Consistent.afterAll (h : s.Consistent) (as : List Act) : (as.foldl act s).Consistent := by
  induction as generalizing s with
  | nil => exact h
  | cons a rest ih => exact ih (h.after a)

/-! ## The IDs that were given -/

/-- How a system reflects the additions that were made to it. -/
structure Recorded (given : List Addition) (s : FaceSystem) : Prop where
  consistent : s.Consistent
  bound_iff : ∀ k id, s.boundId? k = some id ↔ ∃ state, ⟨id, k, state⟩ ∈ given
  keys_nodup : (given.map (·.key)).Nodup
  numbered : given.length < 2 ^ 64 - 1 →
    s.nextId.toNat = given.length + 1 ∧ given.map (·.id.toNat) = List.range' 1 given.length

theorem create_recorded (config : Config) : Recorded [] (create config) where
  consistent := create_consistent config
  bound_iff := by simp [boundId?, face?, create]
  keys_nodup := List.nodup_nil
  numbered := fun _ => ⟨rfl, rfl⟩

theorem Recorded.lt_nextId (h : Recorded given s) (hcount : given.length < 2 ^ 64 - 1)
    (hid : s.boundId? key = some id) : id < s.nextId := by
  obtain ⟨hnext, hids⟩ := h.numbered hcount
  obtain ⟨state, hgiven⟩ := (h.bound_iff key id).mp hid
  have hrange : id.toNat ∈ List.range' 1 given.length :=
    hids ▸ List.mem_map_of_mem (f := fun x : Addition => x.id.toNat) hgiven
  rw [List.mem_range'_1] at hrange
  exact UInt64.lt_iff_toNat_lt.mpr (by omega)

/-- No ID in the table is above those that were given. -/
theorem Recorded.freeId?_eq (h : Recorded given s) (hcount : given.length < 2 ^ 64 - 1) :
    freeId? s.nextId s.ids = some s.nextId := by
  have hnext := (h.numbered hcount).1
  refine freeId?_eq_next ?_ ?_
  · intro hzero
    rw [hzero] at hnext
    cases hnext
  · intro hmem
    obtain ⟨e, he, heq⟩ := List.mem_map.mp hmem
    have hlt := h.lt_nextId hcount (h.consistent.bound e he).2
    rw [heq] at hlt
    exact UInt64.lt_irrefl _ hlt

/-- A face that is added was not added before. -/
theorem Recorded.key_not_mem (h : Recorded given s) {a : Act} {x : Addition}
    (hadd : s.added a = [x]) : x.key ∉ given.map (·.key) := by
  intro hk
  obtain ⟨y, hy, hkey⟩ := List.mem_map.mp hk
  have hbound := (h.bound_iff y.key y.id).mpr ⟨y.state, hy⟩
  rw [hkey, boundId?_eq_none_of_added hadd] at hbound
  cases hbound

theorem Recorded.bound_iff_of_added (h : Recorded given s) {a : Act} {x : Addition}
    (hadd : s.added a = [x]) (k : FaceKey) (id : UInt64) :
    (s.act a).boundId? k = some id ↔ ∃ state, ⟨id, k, state⟩ ∈ given ++ [x] := by
  rw [boundId?_of_added hadd]
  constructor
  · intro hid
    split at hid
    · rename_i hk
      cases hid
      exact ⟨x.state, List.mem_append_right _ (List.mem_singleton.mpr (by rw [hk]))⟩
    · obtain ⟨state, hmem⟩ := (h.bound_iff k id).mp hid
      exact ⟨state, List.mem_append_left _ hmem⟩
  · rintro ⟨state, hmem⟩
    rcases List.mem_append.mp hmem with hold | hnew
    · have hk : k ≠ x.key := fun hk =>
        h.key_not_mem hadd (List.mem_map.mpr ⟨_, hold, hk⟩)
      rw [if_neg hk, (h.bound_iff k id).mpr ⟨state, hold⟩]
    · rw [← List.mem_singleton.mp hnew]
      exact if_pos rfl

theorem Recorded.numbered_of_added (h : Recorded given s) {a : Act} {x : Addition}
    (hadd : s.added a = [x]) (hcount : given.length + 1 < 2 ^ 64 - 1) :
    (s.act a).nextId.toNat = given.length + 1 + 1
      ∧ (given ++ [x]).map (·.id.toNat) = List.range' 1 (given.length + 1) := by
  obtain ⟨f, -, -, -, hfree, hact⟩ := act_of_added hadd
  obtain ⟨hnext, hids⟩ := h.numbered (by omega)
  have hx : x.id = s.nextId := Option.some.inj (hfree.symm.trans (h.freeId?_eq (by omega)))
  have hnext' : (s.act a).nextId = s.nextId + 1 := by rw [hact, hx]
  constructor
  · rw [hnext', UInt64.toNat_add, hnext, UInt64.toNat_one]
    exact Nat.mod_eq_of_lt (by omega)
  · rw [List.map_append, hids, List.range'_concat, List.map_singleton, hx, hnext]
    simp [Nat.add_comm]

theorem Recorded.after (h : Recorded given s) (a : Act) :
    Recorded (given ++ s.added a) (s.act a) := by
  rcases added_cases s a with hnone | ⟨x, hadd⟩
  · obtain ⟨faces, watches, log, hact⟩ := act_of_not_added h.consistent.registry_eq hnone
    have hbound := boundId?_act h.consistent.registry_eq hnone
    rw [hnone, List.append_nil]
    refine ⟨h.consistent.after a, fun k id => by rw [hbound, h.bound_iff], h.keys_nodup, ?_⟩
    rw [hact]
    exact h.numbered
  · rw [hadd]
    refine ⟨h.consistent.after a, h.bound_iff_of_added hadd, ?_, fun hcount => ?_⟩
    · rw [List.map_append, List.map_singleton, ← List.concat_eq_append]
      exact h.keys_nodup.concat (h.key_not_mem hadd)
    · rw [List.length_append, List.length_singleton] at hcount ⊢
      exact h.numbered_of_added hadd hcount

theorem Recorded.afterAll (h : Recorded given s) (as : List Act) :
    Recorded (given ++ along FaceSystem.act added s as) (as.foldl FaceSystem.act s) := by
  induction as generalizing s given with
  | nil => simpa [along] using h
  | cons a rest ih =>
      rw [along, ← List.append_assoc]
      exact ih (h.after a)

theorem run_recorded (config : Config) (calls : List Call) :
    Recorded ((create config).additions calls) ((create config).run calls) := by
  rw [run_eq]
  exact (create_recorded config).afterAll _

theorem Recorded.ids_ascending (h : Recorded given s) (hcount : given.length < 2 ^ 64 - 1) :
    (given.map (·.id)).Pairwise (· < ·) := by
  have hrange : (given.map (·.id.toNat)).Pairwise (· < ·) := by
    rw [(h.numbered hcount).2]
    exact List.pairwise_lt_range'
  exact List.pairwise_map.mpr ((List.pairwise_map.mp hrange).imp UInt64.lt_iff_toNat_lt.mpr)

/-- An ID is that of one face only. -/
theorem Recorded.owner (h : Recorded given s) (hcount : given.length < 2 ^ 64 - 1)
    (hid : s.boundId? key = some id) (hid' : s.boundId? k = some id) : key = k := by
  obtain ⟨state, hgiven⟩ := (h.bound_iff key id).mp hid
  obtain ⟨state', hgiven'⟩ := (h.bound_iff k id).mp hid'
  have hdistinct : (given.map (·.id)).Nodup := (h.ids_ascending hcount).imp UInt64.ne_of_lt
  exact congrArg Addition.key (List.inj_on_of_nodup_map hdistinct hgiven hgiven' rfl)

/-! ## Looking faces up -/

theorem Consistent.registered?_eq (h : s.Consistent) (id : UInt64) :
    s.registered? id = s.get? id := by
  rw [registered?, h.registry_eq]
  rfl

theorem Consistent.get?_of_mem (h : s.Consistent) (hid : id ∈ s.ids) :
    id ≠ 0 ∧ ∃ f, s.get? id = some f ∧ f.id = id := by
  obtain ⟨⟨id', key⟩, he, rfl⟩ := List.mem_map.mp hid
  obtain ⟨hzero, hbound⟩ := h.bound _ he
  refine ⟨hzero, ?_⟩
  have hkey : s.keyOf? id' = some key := Keyed.lookup_of_mem h.distinct he
  unfold boundId? at hbound
  cases hf : s.face? key with
  | none => rw [hf] at hbound; cases hbound
  | some f =>
      rw [hf] at hbound
      refine ⟨f, ?_, ?_⟩
      · rw [get?, hkey]
        exact hf
      · rw [Face.id, FaceBase.id, show f.base.id? = some id' from hbound]
        rfl

theorem Consistent.id_mem_of_find? (h : s.Consistent) {remote : FaceUri}
    (hfind : s.find? remote = some f) : f.id ∈ s.ids := by
  have hmem := List.mem_of_find?_eq_some hfind
  obtain ⟨e, he, hf⟩ := List.mem_filterMap.mp hmem
  have hbound := (h.bound e he).2
  rw [boundId?, hf] at hbound
  rw [Face.id, FaceBase.id, show f.base.id? = some e.1 from hbound]
  exact List.mem_map_of_mem he

end NamedData.FaceSystem
