import NamedData.Face.System
import NamedData.Proofs.Keyed

/-!
# The faces of a system

What each operation on a system leaves of the faces, the table, the registry and the event log.
-/

namespace NamedData

namespace FaceBase

variable {b : FaceBase} {n : Nat} {now : Instant}

@[simp] theorem inBytes_recordIn :
    (b.recordIn n now).inBytes = b.inBytes + UInt64.ofNat n := by
  unfold recordIn refresh
  split <;> rfl

end FaceBase

namespace Face

/-- The face with the ID that the table gave it. -/
def bound (f : Face) (id : UInt64) : Face :=
  { f with base := { f.base with id? := some id } }

@[simp] theorem base_receive (f : Face) (frame : Bytes) (now : Instant) :
    (f.receive frame now).2.base = f.base := by
  unfold receive
  split <;> rfl

@[simp] theorem base_requestState (f : Face) (target : FaceState) :
    (f.requestState target).base = f.base := by
  unfold requestState
  split
  · rfl
  · split <;> rfl

@[simp] theorem base_start (f : Face) : f.start.base = f.base := by
  unfold start
  split
  · split <;> rfl
  · rfl

@[simp] theorem base_close (f : Face) : f.close.base = f.base := by
  unfold close
  split <;> rfl

end Face

namespace FaceSystem

variable {s s' : FaceSystem} {key k : FaceKey} {f : Face} {id : UInt64} {unique : Bool}
  {target : FaceState}

/-! ## Single faces -/

@[simp] theorem face?_modifyFace (s : FaceSystem) (key : FaceKey) (g : Face → Face) :
    (s.modifyFace key g).face? key = (s.face? key).map g := by
  simp [modifyFace, face?]

@[simp] theorem face?_modifyFace_of_ne (h : k ≠ key) (g : Face → Face) :
    (s.modifyFace key g).face? k = s.face? k := by
  simp [modifyFace, face?, h.symm]

theorem face?_modifyFace_of_absent (h : s.face? k = none) (key : FaceKey) (g : Face → Face) :
    (s.modifyFace key g).face? k = none := by
  by_cases hk : k = key
  · subst hk
    rw [face?_modifyFace, h]
    rfl
  · rw [face?_modifyFace_of_ne hk, h]

theorem modifyFace_modifyFace (s : FaceSystem) (key : FaceKey) (g h : Face → Face) :
    (s.modifyFace key g).modifyFace key h = s.modifyFace key fun f => h (g f) := by
  simp only [modifyFace, List.modify_modify_eq]
  rfl

theorem modifyFace_id (s : FaceSystem) (key : FaceKey) : s.modifyFace key (fun f => f) = s := by
  rw [modifyFace]
  exact congrArg (fun faces => { s with faces }) (List.modify_id key s.faces)

theorem modifyFace_congr {g g' : Face → Face} (h : s.face? key = some f) (hg : g f = g' f) :
    s.modifyFace key g = s.modifyFace key g' := by
  have h' : s.faces[key]? = some f := h
  simp only [modifyFace, List.modify_eq_set_getElem?, h', Option.map_eq_map, Option.map_some, hg]

theorem modifyFace_of_absent (h : s.face? key = none) (g : Face → Face) :
    s.modifyFace key g = s := by
  have h' : s.faces[key]? = none := h
  simp only [modifyFace, List.modify_eq_set_getElem?, h', Option.map_eq_map, Option.map_none,
    Option.getD_none]

theorem modifyFace_eq_self {g : Face → Face} (h : s.face? key = some f) (hg : g f = f) :
    s.modifyFace key g = s :=
  (modifyFace_congr h hg).trans (modifyFace_id s key)

theorem lt_length_of_face? (h : s.face? key = some f) : key < s.faces.length :=
  (List.getElem?_eq_some_iff.mp h).1

theorem boundId?_modifyFace {g : Face → Face} (hg : ∀ f, (g f).base.id? = f.base.id?) :
    (s.modifyFace key g).boundId? k = s.boundId? k := by
  unfold boundId?
  by_cases hk : k = key
  · subst hk
    cases hf : s.face? k with
    | none => simp [hf]
    | some f => simp [hf, hg]
  · rw [face?_modifyFace_of_ne hk]

theorem face?_adopt (s : FaceSystem) (f : Face) (k : FaceKey) :
    (s.adopt f).2.face? k = if k = s.faces.length then some f else s.face? k := by
  unfold adopt face?
  rcases Nat.lt_trichotomy k s.faces.length with hlt | rfl | hgt
  · rw [if_neg (Nat.ne_of_lt hlt)]
    exact List.getElem?_append_left hlt
  · simp
  · rw [if_neg (Nat.ne_of_gt hgt), List.getElem?_eq_none (Nat.le_of_lt hgt)]
    exact List.getElem?_eq_none (by rw [List.length_append]; exact hgt)

theorem boundId?_adopt (s : FaceSystem) {f : Face} (h : f.base.id? = none) (k : FaceKey) :
    (s.adopt f).2.boundId? k = s.boundId? k := by
  rw [boundId?, face?_adopt, boundId?]
  by_cases hk : k = s.faces.length
  · have hnone : s.face? k = none := List.getElem?_eq_none (Nat.le_of_eq hk.symm)
    rw [if_pos hk, hnone]
    exact h
  · rw [if_neg hk]

/-! ## Receiving -/

theorem face?_receive (h : s.face? key = some f) (frame : Bytes) :
    (s.receive key frame).face? key = some (f.receive frame s.clock.now).2 := by
  have hlt := lt_length_of_face? h
  simp only [receive, h]
  exact List.getElem?_set_self hlt

theorem inBytes_receiveAll (h : s.face? key = some f) (frames : List Bytes) :
    ∃ g, (s.receiveAll key frames).face? key = some g
      ∧ g.base.inBytes = f.base.inBytes + UInt64.ofNat (frames.map List.length).sum := by
  unfold receiveAll
  induction frames generalizing s f with
  | nil => exact ⟨f, h, by simp⟩
  | cons frame frames ih =>
      have hcounted : (s.modifyFace key fun f => f.recordIn frame.length s.clock.now).face? key
          = some (f.recordIn frame.length s.clock.now) := by
        rw [face?_modifyFace, h]; rfl
      obtain ⟨g, hg, hbytes⟩ := ih (face?_receive hcounted frame)
      refine ⟨g, hg, ?_⟩
      rw [hbytes, Face.base_receive, List.map_cons, List.sum_cons, UInt64.ofNat_add,
        ← UInt64.add_assoc]
      simp [Face.recordIn]

/-! ## Adding and removing -/

theorem freeId?_spec {next : UInt64} {taken : List UInt64} (h : freeId? next taken = some id) :
    id ≠ 0 ∧ id ∉ taken := by
  have := List.find?_some h
  simpa using this

theorem freeId?_eq_next {next : UInt64} {taken : List UInt64} (hzero : next ≠ 0)
    (hfree : next ∉ taken) : freeId? next taken = some next := by
  unfold freeId?
  rw [List.range_succ_eq_map, List.map_cons, List.find?_cons_of_pos]
  · simp
  · simp [hzero, hfree]

/-- There is a free ID unless all but zero are taken. -/
theorem le_length_of_freeId?_eq_none {next : UInt64} {taken : List UInt64}
    (h : freeId? next taken = none) : 2 ^ 64 ≤ taken.length + 1 := by
  by_contra hroom
  -- More numbers are tried than are taken, counting zero as taken.
  have hdistinct : ((List.range (taken.length + 2)).map fun i => next + UInt64.ofNat i).Nodup := by
    refine List.Nodup.map_on (fun i hi j hj heq => ?_) List.nodup_range
    have hsame := congrArg UInt64.toNat ((UInt64.add_right_inj next).mp heq)
    rw [List.mem_range] at hi hj
    rwa [UInt64.toNat_ofNat_of_lt' (by rw [UInt64.size]; omega),
      UInt64.toNat_ofNat_of_lt' (by rw [UInt64.size]; omega)] at hsame
  have htaken : ((List.range (taken.length + 2)).map fun i => next + UInt64.ofNat i)
      ⊆ 0 :: taken := by
    intro id hid
    have hrejected := List.find?_eq_none.mp h id hid
    rw [List.mem_cons]
    by_cases hzero : id = 0
    · exact .inl hzero
    · exact .inr (by simpa [hzero] using hrejected)
  have hlength := (List.subperm_of_subset hdistinct htaken).length_le
  rw [List.length_map, List.length_range, List.length_cons] at hlength
  omega

theorem announce_eq (s : FaceSystem) (kind : FaceEventKind) (key : FaceKey) :
    ∃ log, s.announce kind key = { s with log := log } := by
  unfold announce
  split
  · exact ⟨_, rfl⟩
  · exact ⟨s.log, rfl⟩

theorem announce_of_face? {kind : FaceEventKind} (h : s.face? key = some f) :
    s.announce kind key = { s with log := s.log.emit kind f.summary } := by
  rw [announce, h]
  rfl

/-- What comes of an attempt to put a face into the table. -/
inductive Binding (s : FaceSystem) (key : FaceKey) : Except Error (UInt64 × FaceSystem) → Prop
    where
  | unknown (hf : s.face? key = none) : Binding s key (.error (.faceNotFound 0))
  | occupied {f existing : Face} (hf : s.face? key = some f)
      (hfind : s.find? f.base.remote = some existing) :
      Binding s key (.error (.faceExists existing.id))
  | registered {f : Face} {id : UInt64} (hf : s.face? key = some f) (hid : f.base.id? = some id) :
      Binding s key (.error (.alreadyRegistered id))
  | full (hfree : freeId? s.nextId s.ids = none) : Binding s key (.error .queueFull)
  | fresh {f : Face} {id : UInt64} (hf : s.face? key = some f) (hid : f.base.id? = none)
      (hfree : freeId? s.nextId s.ids = some id) :
      Binding s key (.ok (id, { s.modifyFace key fun f => f.bound id with
        table := s.table ++ [(id, key)], nextId := id + 1 }))

theorem binding (s : FaceSystem) (key : FaceKey) (unique : Bool) :
    Binding s key (s.bind key unique) := by
  unfold bind
  split
  · exact .unknown ‹_›
  · rename_i f hf
    split
    · rename_i existing hfind
      refine .occupied hf ?_
      split at hfind
      · exact hfind
      · cases hfind
    · split
      · exact .registered hf ‹_›
      · exact .full ‹_›
      · exact .fresh hf ‹_› ‹_›

theorem add_eq_of_bind {s₁ : FaceSystem} (h : s.bind key unique = .ok (id, s₁)) :
    s.add key unique = .ok (id, (s₁.register id key).announce .created key) := by
  rw [add, h]
  rfl

theorem add_eq_error_iff {e : Error} :
    s.add key unique = .error e ↔ s.bind key unique = .error e := by
  cases hbind : s.bind key unique with
  | error e' =>
      rw [add, hbind]
      exact Iff.rfl
  | ok r =>
      rw [add_eq_of_bind hbind]
      simp

/-- All that a successful addition does. -/
theorem add_eq_ok (h : s.add key unique = .ok (id, s')) :
    ∃ f, s.face? key = some f ∧ f.base.id? = none ∧ freeId? s.nextId s.ids = some id
      ∧ s' = { s.modifyFace key fun f => f.bound id with
          table := s.table ++ [(id, key)]
          nextId := id + 1
          registry := s.registry.filter (·.1 != id) ++ [(id, key)]
          log := s.log.emit .created (f.bound id).summary } := by
  cases hbind : s.bind key unique with
  | error e => rw [add_eq_error_iff.mpr hbind] at h; cases h
  | ok r =>
      obtain ⟨id', s₁⟩ := r
      rw [add_eq_of_bind hbind] at h
      cases h
      have hbinding := s.binding key unique
      rw [hbind] at hbinding
      cases hbinding with
      | @fresh f _ hf hid hfree =>
          have hface : (s.modifyFace key fun f => f.bound id).face? key = some (f.bound id) := by
            rw [face?_modifyFace, hf]; rfl
          exact ⟨f, hf, hid, hfree, announce_of_face? hface⟩

theorem get?_of_add (h : s.add key unique = .ok (id, s')) (hf : s.face? key = some f) :
    s'.keyOf? id = some key ∧ s'.face? key = some (f.bound id) := by
  obtain ⟨g, hg, -, hfree, rfl⟩ := add_eq_ok h
  have hfresh : s.table.lookup id = none :=
    Keyed.lookup_of_not_mem_keys (freeId?_spec hfree).2
  constructor
  · exact List.lookup_append.trans (by rw [hfresh]; simp)
  · exact (face?_modifyFace s key _).trans (by rw [hf]; rfl)

theorem add_eq_faceExists (h : s.add key unique = .error (.faceExists id)) :
    ∃ remote g, s.find? remote = some g ∧ g.id = id := by
  have hbinding := s.binding key unique
  rw [add_eq_error_iff.mp h] at hbinding
  cases hbinding with
  | occupied hf hfind => exact ⟨_, _, hfind, rfl⟩

theorem remove_of_absent (h : s.keyOf? id = none) : (s.remove id).2 = s := by
  rw [remove, unbind?, h]
  rfl

/-- A system without an ID in its table and its registry. -/
def without (s : FaceSystem) (gone : Option UInt64) : FaceSystem :=
  { s with
    table := s.table.filter fun e => some e.1 != gone
    registry := s.table.filter fun e => some e.1 != gone }

theorem without_eq_self {gone : Option UInt64} (hreg : s.registry = s.table)
    (h : ∀ e ∈ s.table, some e.1 ≠ gone) : s.without gone = s := by
  have hfilter : (s.table.filter fun e => some e.1 != gone) = s.table :=
    List.filter_eq_self.mpr fun e he => bne_iff_ne.mpr (h e he)
  rw [without, hfilter]
  exact congrArg (fun registry => { s with registry }) hreg.symm

theorem without_none (hreg : s.registry = s.table) : s.without none = s :=
  without_eq_self hreg fun _ _ => Option.some_ne_none _

/-- What removing an ID leaves of a system whose registry is its table. -/
theorem remove_eq (hreg : s.registry = s.table) (id : UInt64) :
    ∃ log, (s.remove id).2 = { s with log := log }.without (some id) := by
  cases hkey : s.keyOf? id with
  | none =>
      have hkept : ∀ e ∈ s.table, some e.1 ≠ some id := by
        rintro e he ⟨⟩
        exact Keyed.not_mem_keys_of_lookup hkey (List.mem_map_of_mem he)
      exact ⟨s.log, (remove_of_absent hkey).trans (without_eq_self hreg hkept).symm⟩
  | some key =>
      obtain ⟨log, hlog⟩ := announce_eq
        ({ s with table := s.table.filter (·.1 != id) }.unregister id) .destroyed key
      refine ⟨log, ?_⟩
      rw [remove, unbind?, hkey]
      refine hlog.trans ?_
      rw [unregister, hreg]
      rfl

end FaceSystem

end NamedData
