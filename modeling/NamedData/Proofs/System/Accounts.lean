import NamedData.Proofs.System.Steps

/-!
# Accounts of IDs

The steps that callers take for one ID add up, in whatever order they are taken: it is in the table
from its addition to its removal, and in the registry if the last step about that has put it there.
-/

namespace NamedData.FaceSystem

variable {s s' s₀ : FaceSystem} {key k : FaceKey} {id : UInt64} {x : Step} {steps more : List Step}

/-! ## Traces -/

/-- A system with the steps that led to it, and their events. -/
structure Trace where
  system : FaceSystem
  steps : List Step
  events : List Announcement

namespace Trace

def take (t : Trace) (x : Step) : Trace where
  system := (t.system.perform x).1
  steps := t.steps ++ [x]
  events := t.events ++ t.system.emitted x

theorem system_take (t : Trace) (x : Step) : (t.take x).system = (t.system.perform x).1 := rfl

/-- A caller takes the first of its steps. -/
def advance (t : Trace) : List Step → Trace × List Step
  | [] => (t, [])
  | x :: rest => (t.take x, (t.system.perform x).2 ++ rest)

end Trace

/-! ## Numbers -/

theorem boundId?_bound {f : Face} (hf : s.face? key = some f) (id : UInt64) (k : FaceKey) :
    (s.modifyFace key fun f => f.bound id).boundId? k
      = if k = key then some id else s.boundId? k := by
  unfold boundId?
  split
  · rename_i hk
    rw [hk, face?_modifyFace, hf]
    rfl
  · rename_i hk
    rw [face?_modifyFace_of_ne hk]

/-- A step gives a face the free ID, or changes nothing about IDs that are given. -/
theorem Effect.naming (h : Effect s x s' more) :
    (∃ key unique id, x = .bind key unique ∧ s.boundId? key = none
        ∧ freeId? s.nextId s.ids = some id ∧ s'.nextId = id + 1 ∧ s'.ids = s.ids ++ [id]
        ∧ s'.registry = s.registry
        ∧ (∀ k, s'.boundId? k = if k = key then some id else s.boundId? k)
        ∧ more = [.register id key, .announce .created key])
      ∨ s'.nextId = s.nextId ∧ (∀ k, s'.boundId? k = s.boundId? k)
        ∧ ∀ y ∈ more, y.binds = false := by
  cases h with
  | @bound key unique f id hf hid hfree =>
      refine .inl ⟨key, unique, id, rfl, ?_, hfree, rfl, ?_, rfl, boundId?_bound hf id, rfl⟩
      · rw [boundId?, hf]
        exact hid
      · simp [ids]
  | registered => exact .inr ⟨rfl, fun _ => rfl, by simp⟩
  | unbound hkey => exact .inr ⟨rfl, fun _ => rfl, by simp [Step.binds]⟩
  | unregistered => exact .inr ⟨rfl, fun _ => rfl, by simp⟩
  | unmoved hs' hx hmore =>
      refine .inr ⟨hs'.nextId_eq, hs'.boundId?_eq, fun y hy => ?_⟩
      have hmarks := hmore y hy
      cases y with
      | bind => cases hmarks
      | _ => rfl

theorem Effect.boundId?_eq_some (h : Effect s x s' more) (hid : s.boundId? k = some id) :
    s'.boundId? k = some id := by
  rcases h.naming with ⟨key, -, id', -, hnone, -, -, -, -, hbound, -⟩ | ⟨-, hbound, -⟩
  · have hk : k ≠ key := by
      rintro rfl
      rw [hnone] at hid
      cases hid
    rw [hbound, if_neg hk, hid]
  · rw [hbound, hid]

def bindsIn (steps : Multiset Step) : Nat :=
  steps.countP fun x => x.binds

theorem bindsIn_cons_bind (key : FaceKey) (unique : Bool) (taken : Multiset Step) :
    bindsIn (.bind key unique ::ₘ taken) = bindsIn taken + 1 := by
  rw [bindsIn, bindsIn, Multiset.countP_cons_of_pos]
  rfl

theorem bindsIn_add_of_none (all : Multiset Step) (h : ∀ y ∈ more, y.binds = false) :
    bindsIn (all + more) = bindsIn all := by
  have hnone : bindsIn more = 0 := Multiset.countP_eq_zero.mpr fun y hy => by
    rw [h y hy]
    exact Bool.false_ne_true
  exact (Multiset.countP_add ..).trans (by rw [← bindsIn, ← bindsIn, hnone, Nat.add_zero])

/-- IDs are given in ascending order, to each face one. -/
structure Ascending (s₀ : FaceSystem) (n : Nat) (s : FaceSystem) (taken all : Multiset Step) :
    Prop where
  binds_le : bindsIn all ≤ n
  pos : s.nextId ≠ 0
  next_le : s.nextId.toNat ≤ s₀.nextId.toNat + bindsIn taken
  below : ∀ k id, s.boundId? k = some id → id < s.nextId
  owner : ∀ k k' id, s.boundId? k = some id → s.boundId? k' = some id → k = k'

variable {n : Nat} {taken all : Multiset Step}

theorem Ascending.boundId?_ne_next (h : Ascending s₀ n s taken all) (k : FaceKey) :
    s.boundId? k ≠ some s.nextId := fun hk => UInt64.lt_irrefl _ (h.below k _ hk)

theorem Ascending.freeId?_eq (h : Ascending s₀ n s taken all)
    (htable : ∀ e ∈ s.table, s.boundId? e.2 = some e.1) :
    freeId? s.nextId s.ids = some s.nextId := by
  refine freeId?_eq_next h.pos fun hmem => ?_
  obtain ⟨e, he, heq⟩ := List.mem_map.mp hmem
  exact h.boundId?_ne_next e.2 (heq ▸ htable e he)

theorem Ascending.take (h : Ascending s₀ n s taken all) (hroom : s₀.nextId.toNat + n < 2 ^ 64)
    (htable : ∀ e ∈ s.table, s.boundId? e.2 = some e.1) (heffect : Effect s x s' more)
    (htaken : x ::ₘ taken ≤ all) : Ascending s₀ n s' (x ::ₘ taken) (all + more) := by
  have hle := h.next_le
  have hbinds : bindsIn (x ::ₘ taken) ≤ n := (Multiset.countP_le_of_le _ htaken).trans h.binds_le
  rcases heffect.naming with
    ⟨key, unique, id, rfl, -, hfree, hnext, -, -, hbound, rfl⟩ | ⟨hnext, hbound, hmore⟩
  · obtain rfl : s.nextId = id := Option.some.inj ((h.freeId?_eq htable).symm.trans hfree)
    rw [bindsIn_cons_bind] at hbinds
    have htoNat : s'.nextId.toNat = s.nextId.toNat + 1 := by
      rw [hnext, UInt64.toNat_add, UInt64.toNat_one, Nat.mod_eq_of_lt (by omega)]
    have hlt : s.nextId < s'.nextId := UInt64.lt_iff_toNat_lt.mpr (by omega)
    have hfresh := h.boundId?_ne_next
    have hall : bindsIn (all + [Step.register s.nextId key, .announce .created key])
        = bindsIn all := bindsIn_add_of_none all (by simp [Step.binds])
    refine ⟨hall.trans_le h.binds_le, ?_, by rw [bindsIn_cons_bind]; omega, ?_, ?_⟩
    · intro hzero
      rw [hzero] at htoNat
      cases htoNat
    · intro k id hk
      rw [hbound] at hk
      split at hk
      · cases hk
        exact hlt
      · exact UInt64.lt_trans (h.below k id hk) hlt
    · intro k k' id hk hk'
      rw [hbound] at hk hk'
      split at hk <;> split at hk' <;> rename_i hkey hkey'
      · rw [hkey, hkey']
      · cases hk
        exact absurd hk' (hfresh k')
      · cases hk'
        exact absurd hk (hfresh k)
      · exact h.owner k k' id hk hk'
  · have hmono : bindsIn taken ≤ bindsIn (x ::ₘ taken) :=
      Multiset.countP_le_of_le _ (Multiset.le_cons_self taken x)
    refine ⟨(bindsIn_add_of_none all hmore).trans_le h.binds_le, ?_, ?_, ?_, ?_⟩
    · rw [hnext]
      exact h.pos
    · rw [hnext]
      omega
    · intro k id hk
      rw [hnext]
      exact h.below k id (hbound k ▸ hk)
    · intro k k' id hk hk'
      exact h.owner k k' id (hbound k ▸ hk) (hbound k' ▸ hk')

/-! ## Owners -/

/-- Every ID that is mentioned is that of a face. -/
structure Owned (s₀ s : FaceSystem) (all : Multiset Step) (events : List Announcement) : Prop where
  table : ∀ e ∈ s.table, s.boundId? e.2 = some e.1
  registry : ∀ e ∈ s.registry, s.boundId? e.2 = some e.1
  start : ∀ id ∈ s₀.ids, ∃ k, s.boundId? k = some id
  steps : ∀ x ∈ all, x.Owned s
  events : ∀ e ∈ events, passage e.1 → ∃ k, s.boundId? k = some e.2.faceId

theorem Step.Owned.after {z : Step} (h : z.Owned s) (heffect : Effect s x s' more) :
    z.Owned s' := by
  cases z with
  | register id key => exact heffect.boundId?_eq_some h
  | unregister id => exact h.imp fun _ hk => heffect.boundId?_eq_some hk
  | announce kind key => exact h.imp fun _ hid => heffect.boundId?_eq_some hid
  | _ => trivial

/-- Nothing is about an ID that no face has. -/
structure Unmentioned (s₀ s : FaceSystem) (all : Multiset Step) (events : List Announcement)
    (id : UInt64) : Prop where
  start : id ∉ s₀.ids
  table : id ∉ s.ids
  registry : id ∉ s.registry.map (·.1)
  register : ∀ k, .register id k ∉ all
  unregister : .unregister id ∉ all
  passages_eq : passages id events = []

theorem Owned.unmentioned {events : List Announcement} (h : Owned s₀ s all events)
    (hnone : ∀ k, s.boundId? k ≠ some id) : Unmentioned s₀ s all events id where
  start := fun hmem => not_exists.mpr hnone (h.start id hmem)
  table := fun hmem => by
    obtain ⟨e, he, rfl⟩ := List.mem_map.mp hmem
    exact hnone e.2 (h.table e he)
  registry := fun hmem => by
    obtain ⟨e, he, rfl⟩ := List.mem_map.mp hmem
    exact hnone e.2 (h.registry e he)
  register := fun k hmem => hnone k (h.steps _ hmem)
  unregister := fun hmem => not_exists.mpr hnone (h.steps _ hmem)
  passages_eq := List.eq_nil_iff_forall_not_mem.mpr fun kind hkind => by
    obtain ⟨hpassage, e, he, rfl, rfl⟩ := mem_passages.mp hkind
    exact not_exists.mpr hnone (h.events e he hpassage)

section Owned

variable {events : List Announcement} (h : Owned s₀ s all events) (heffect : Effect s x s' more)

include h heffect

theorem Owned.table_take : ∀ e ∈ s'.table, s'.boundId? e.2 = some e.1 := by
  intro e he
  have hold (hmem : e ∈ s.table) := heffect.boundId?_eq_some (h.table e hmem)
  cases heffect with
  | bound hf =>
      rcases List.mem_append.mp he with hmem | hnew
      · exact hold hmem
      · rw [List.mem_singleton.mp hnew]
        exact (boundId?_bound hf _ _).trans (if_pos rfl)
  | registered => exact hold he
  | unbound => exact hold (List.mem_filter.mp he).1
  | unregistered => exact hold he
  | unmoved hs' => exact hold (hs'.table_eq ▸ he)

theorem Owned.registry_take (hx : x ∈ all) : ∀ e ∈ s'.registry, s'.boundId? e.2 = some e.1 := by
  intro e he
  have hold (hmem : e ∈ s.registry) := heffect.boundId?_eq_some (h.registry e hmem)
  cases heffect with
  | bound => exact hold he
  | registered =>
      rcases List.mem_append.mp he with hmem | hnew
      · exact hold (List.mem_filter.mp hmem).1
      · rw [List.mem_singleton.mp hnew]
        exact h.steps _ hx
  | unbound => exact hold he
  | unregistered => exact hold (List.mem_filter.mp he).1
  | unmoved hs' => exact hold (hs'.registry_eq ▸ he)

theorem Owned.steps_take : ∀ y ∈ more, y.Owned s' := by
  intro y hy
  cases heffect with
  | @bound key _ _ id hf =>
      have hid := (boundId?_bound hf id key).trans (if_pos rfl)
      rcases List.mem_pair.mp hy with rfl | rfl
      · exact hid
      · exact ⟨id, hid⟩
  | @unbound id key hkey =>
      have hid := h.table _ (Keyed.mem_of_lookup hkey)
      rcases List.mem_pair.mp hy with rfl | rfl
      · exact ⟨key, hid⟩
      · exact ⟨id, hid⟩
  | unmoved _ _ hmore =>
      have hmarks := hmore y hy
      cases y <;> trivial
  | _ => cases hy

theorem Owned.take (hx : x ∈ all) : Owned s₀ s' (all + more) (events ++ s.emitted x) where
  table := h.table_take heffect
  registry := h.registry_take heffect hx
  start := fun id hid => (h.start id hid).imp fun _ => heffect.boundId?_eq_some
  steps := fun y hy => (Multiset.mem_add.mp hy).elim
    (fun hold => (h.steps y hold).after heffect) (h.steps_take heffect y)
  events := fun e he hpassage => by
    rcases List.mem_append.mp he with hold | hnew
    · exact (h.events e hold hpassage).imp fun _ => heffect.boundId?_eq_some
    · rcases emitted_cases (h.steps x hx) with ⟨-, k, e', -, hemitted, -, hk⟩ | ⟨-, hothers⟩
      · rw [hemitted, List.mem_singleton] at hnew
        exact ⟨k, heffect.boundId?_eq_some (hnew ▸ hk)⟩
      · rw [hothers e hnew] at hpassage
        cases hpassage

end Owned

/-! ## Accounts -/

/-- How the steps for one ID add up: it is in the table from its addition to its removal. -/
structure Balanced (s₀ s : FaceSystem) (all : Multiset Step) (id : UInt64) (key : FaceKey) :
    Prop where
  once : all.count (.register id key) + s₀.ids.count id ≤ 1
  balance : all.count (.register id key) + s₀.ids.count id
    = s.ids.count id + all.count (.unregister id)
  created : all.count (.announce .created key) = all.count (.register id key)
  destroyed : all.count (.announce .destroyed key) = all.count (.unregister id)

/-- The steps of the addition and the removal of an ID. -/
def stepsOf (id : UInt64) (key : FaceKey) : List Step :=
  [.register id key, .unregister id, .announce .created key, .announce .destroyed key]

theorem Balanced.congr {all' : Multiset Step} (h : Balanced s₀ s all id key)
    (hids : s'.ids.count id = s.ids.count id)
    (hcount : ∀ y ∈ stepsOf id key, all'.count y = all.count y) : Balanced s₀ s' all' id key := by
  simp only [stepsOf, List.mem_cons, List.not_mem_nil, or_false, forall_eq_or_imp, forall_eq]
    at hcount
  obtain ⟨hregister, hunregister, hcreated, hdestroyed⟩ := hcount
  refine ⟨?_, ?_, ?_, ?_⟩
  · rw [hregister]
    exact h.once
  · rw [hregister, hunregister, hids]
    exact h.balance
  · rw [hcreated, hregister]
    exact h.created
  · rw [hdestroyed, hunregister]
    exact h.destroyed

theorem Balanced.of_same (h : Balanced s₀ s all id key) (hids : s'.ids.count id = s.ids.count id)
    (hmore : ∀ y ∈ stepsOf id key, y ∉ more) : Balanced s₀ s' (all + more) id key :=
  h.congr hids fun y hy => by
    rw [Multiset.count_add, Multiset.coe_count, List.count_eq_zero.mpr (hmore y hy), Nat.add_zero]

theorem ids_unbind (s : FaceSystem) (id : UInt64) :
    ({ s with table := s.table.filter (·.1 != id) } : FaceSystem).ids = s.ids.filter (· != id) := by
  simp [ids, List.filter_map, Function.comp_def]

/-- The removal of an ID follows its addition, and takes it out of the table. -/
theorem Balanced.unbound (h : Balanced s₀ s all id key) (hmem : id ∈ s.ids)
    (hids : s'.ids = s.ids.filter (· != id)) :
    Balanced s₀ s' (all + [Step.unregister id, .announce .destroyed key]) id key := by
  obtain ⟨honce, hbalance, hcreated, hdestroyed⟩ := h
  have hin : 0 < s.ids.count id := List.count_pos_iff.mpr hmem
  have hgone : s'.ids.count id = 0 := by
    rw [hids, List.count_eq_zero]
    simp
  refine ⟨?_, ?_, ?_, ?_⟩ <;> simp [hgone] <;> omega

/-- A face that had no ID is added under one that no face had. -/
theorem balanced_of_bound {events : List Announcement}
    (hfresh : Unmentioned s₀ s all events id) (hkey : ∀ kind, .announce kind key ∉ all)
    (hids : s'.ids = s.ids ++ [id]) :
    Balanced s₀ s' (all + [Step.register id key, .announce .created key]) id key := by
  have hstart : s₀.ids.count id = 0 := List.count_eq_zero.mpr hfresh.start
  have htable : s.ids.count id = 0 := List.count_eq_zero.mpr hfresh.table
  have hregister : all.count (.register id key) = 0 :=
    Multiset.count_eq_zero.mpr (hfresh.register key)
  have hunregister : all.count (.unregister id) = 0 := Multiset.count_eq_zero.mpr hfresh.unregister
  have hannounce (kind : FaceEventKind) : all.count (.announce kind key) = 0 :=
    Multiset.count_eq_zero.mpr (hkey kind)
  refine ⟨?_, ?_, ?_, ?_⟩ <;> simp [hids, hstart, htable, hregister, hunregister, hannounce]

theorem Balanced.take {events : List Announcement} (h : Balanced s₀ s all id key)
    (hnumbers : Ascending s₀ n s taken all) (howned : Owned s₀ s all events)
    (hid : s.boundId? key = some id) (heffect : Effect s x s' more) :
    Balanced s₀ s' (all + more) id key := by
  cases heffect with
  | @bound key' _ f id' hf hid' hfree =>
      have hkey : key ≠ key' := by
        rintro rfl
        rw [boundId?, hf] at hid
        cases hid.symm.trans hid'
      have hne : id ≠ id' := by
        rw [← Option.some.inj ((hnumbers.freeId?_eq howned.table).symm.trans hfree)]
        rintro rfl
        exact hnumbers.boundId?_ne_next key hid
      refine h.of_same ?_ ?_
      · simp [ids, hne.symm]
      · simp [stepsOf, hkey, hne]
  | registered => exact h.of_same rfl (by simp [stepsOf])
  | @unbound id' key' hkey =>
      have hmem := Keyed.mem_of_lookup hkey
      have hid' := howned.table _ hmem
      by_cases hsame : id = id'
      · subst hsame
        obtain rfl : key' = key := hnumbers.owner _ _ _ hid' hid
        exact h.unbound (List.mem_map_of_mem hmem) (s.ids_unbind id)
      · have hne : key ≠ key' := by
          rintro rfl
          exact hsame (Option.some.inj (hid.symm.trans hid'))
        refine h.of_same ?_ ?_
        · rw [ids_unbind, List.count_filter (by simpa using hsame)]
        · simp [stepsOf, hsame, hne]
  | unregistered => exact h.of_same rfl (by simp [stepsOf])
  | unmoved hs' _ hmore =>
      refine h.of_same (by rw [ids, hs'.table_eq]; rfl) fun y hy hmem => ?_
      have hmarks := hmore y hmem
      simp [stepsOf] at hy
      rcases hy with rfl | rfl | rfl | rfl <;> cases hmarks

/-! ## The registry -/

theorem pair_sublist_concat_iff {α : Type} {a b x : α} {l : List α} :
    [a, b].Sublist (l ++ [x]) ↔ [a, b].Sublist l ∨ a ∈ l ∧ x = b := by
  constructor
  · intro h
    have hreverse : [b, a].Sublist (x :: l.reverse) := by simpa using List.reverse_sublist.mpr h
    rcases List.sublist_cons_iff.mp hreverse with hrest | ⟨r, heq, hr⟩
    · exact .inl (List.reverse_sublist.mp (by simpa using hrest))
    · cases heq
      exact .inr ⟨by simpa using hr, rfl⟩
  · rintro (h | ⟨h, rfl⟩)
    · exact h.trans (List.sublist_append_left l [x])
    · exact (List.singleton_sublist.mpr h).append (.refl [x])

/-- An ID is in the registry if and only if it was registered, and not unregistered since. -/
def Registered (s₀ s : FaceSystem) (steps : List Step) (id : UInt64) (key : FaceKey) : Prop :=
  id ∈ s.registry.map (·.1) ↔ steps.count (.register id key) + s₀.ids.count id = 1
    ∧ (.unregister id ∈ steps → [.unregister id, .register id key].Sublist steps)

theorem Registered.of_same (h : Registered s₀ s steps id key)
    (hregistry : id ∈ s'.registry.map (·.1) ↔ id ∈ s.registry.map (·.1))
    (hregister : x ≠ .register id key) (hunregister : x ≠ .unregister id) :
    Registered s₀ s' (steps ++ [x]) id key := by
  unfold Registered
  rw [hregistry, show _ ↔ _ from h, pair_sublist_concat_iff, List.mem_append, List.mem_singleton,
    List.count_append, List.count_singleton]
  simp [hregister, hunregister.symm]

theorem Registered.take {events : List Announcement} (h : Registered s₀ s steps id key)
    (hbalanced : Balanced s₀ s all id key) (hnumbers : Ascending s₀ n s taken all)
    (howned : Owned s₀ s all events) (hid : s.boundId? key = some id) (heffect : Effect s x s' more)
    (htaken : x ::ₘ (steps : Multiset Step) ≤ all) :
    Registered s₀ s' (steps ++ [x]) id key := by
  have hx : x ∈ all := Multiset.mem_of_le htaken (Multiset.mem_cons_self x _)
  have hcount (y : Step) : (x :: steps).count y ≤ all.count y := by
    have hle := Multiset.count_le_of_le y htaken
    rwa [Multiset.cons_coe, Multiset.coe_count] at hle
  obtain ⟨honce, hbalance, -, -⟩ := hbalanced
  cases heffect with
  | bound => exact h.of_same Iff.rfl (by simp) (by simp)
  | @registered id' key' =>
      by_cases hsame : id = id'
      · subst hsame
        obtain rfl : key' = key := hnumbers.owner _ _ _ (howned.steps _ hx) hid
        have hle := hcount (.register id key')
        rw [List.count_cons_self] at hle
        have hin : id ∈ (s.register id key').registry.map (·.1) := by simp [register]
        refine iff_of_true hin ⟨?_, fun hmem => pair_sublist_concat_iff.mpr (.inr ⟨?_, rfl⟩)⟩
        · rw [List.count_append, List.count_singleton_self]
          omega
        · simpa using hmem
      · refine h.of_same ?_ (by simp [Ne.symm hsame]) (by simp)
        simp [register, hsame]
  | unbound => exact h.of_same Iff.rfl (by simp) (by simp)
  | @unregistered id' =>
      by_cases hsame : id = id'
      · subst hsame
        have hle := hcount (.unregister id)
        rw [List.count_cons_self] at hle
        have hfirst : .unregister id ∉ steps := fun hmem => by
          have := List.count_pos_iff.mpr hmem
          omega
        refine iff_of_false (by simp [unregister]) ?_
        rintro ⟨-, hovertaken⟩
        rcases pair_sublist_concat_iff.mp (hovertaken (by simp)) with hsub | ⟨-, heq⟩
        · exact hfirst (hsub.subset List.mem_cons_self)
        · cases heq
      · refine h.of_same ?_ (by simp) (by simp [Ne.symm hsame])
        simp [unregister, hsame]
  | unmoved hs' hx' => exact h.of_same (by rw [hs'.registry_eq]) (hx' id key).1 (hx' id key).2

/-! ## Accounts -/

/-- What the steps for an ID have made of the table, the registry and the events. -/
structure Account (s₀ : FaceSystem) (t : Trace) (all : Multiset Step) (id : UInt64)
    (key : FaceKey) : Prop where
  balanced : Balanced s₀ t.system all id key
  registered : Registered s₀ t.system t.steps id key
  passages_eq : passages id t.events = t.steps.filterMap (Step.passage? key)

/-- What holds while callers add and remove faces, with all steps that were taken or are still to be
taken. -/
structure Tallied (s₀ : FaceSystem) (n : Nat) (t : Trace) (all : Multiset Step) : Prop where
  taken_le : (t.steps : Multiset Step) ≤ all
  numbers : Ascending s₀ n t.system t.steps all
  owned : Owned s₀ t.system all t.events
  account : ∀ k id, t.system.boundId? k = some id → Account s₀ t all id k

variable {t : Trace}

theorem Tallied.mem_all (h : Tallied s₀ n t all) (hx : x ∈ t.steps) : x ∈ all :=
  Multiset.mem_of_le h.taken_le hx

/-- Nothing has happened yet about an ID that is given to a face. -/
theorem Tallied.account_of_bound (h : Tallied s₀ n t all) {unique : Bool}
    (hkey : t.system.boundId? key = none) (hids : s'.ids = t.system.ids ++ [t.system.nextId])
    (hregistry : s'.registry = t.system.registry) :
    Account s₀ ⟨s', t.steps ++ [.bind key unique], t.events ++ []⟩
      (all + [Step.register t.system.nextId key, .announce .created key]) t.system.nextId key := by
  have hfresh := h.owned.unmentioned h.numbers.boundId?_ne_next
  have hannounce (kind : FaceEventKind) : .announce kind key ∉ all := fun hmem => by
    obtain ⟨id, hid⟩ := h.owned.steps _ hmem
    cases hkey.symm.trans hid
  refine ⟨balanced_of_bound hfresh hannounce hids, iff_of_false ?_ fun hcount => ?_, ?_⟩
  · rw [hregistry]
    exact hfresh.registry
  · have hregister : .register t.system.nextId key ∉ t.steps := fun hmem =>
      hfresh.register key (h.mem_all hmem)
    simp [List.count_eq_zero.mpr hregister, List.count_eq_zero.mpr hfresh.start] at hcount
  · have hsteps : t.steps.filterMap (Step.passage? key) = [] := by
      refine List.filterMap_eq_nil_iff.mpr fun y hy => ?_
      cases y with
      | announce kind k =>
          refine if_neg fun hk => hannounce kind ?_
          rw [← hk.1]
          exact h.mem_all hy
      | _ => rfl
    rw [List.append_nil, hfresh.passages_eq, List.filterMap_append, hsteps]
    rfl

theorem Tallied.take (h : Tallied s₀ n t all) (hroom : s₀.nextId.toNat + n < 2 ^ 64)
    (htaken : x ::ₘ (t.steps : Multiset Step) ≤ all) :
    Tallied s₀ n (t.take x) (all + (t.system.perform x).2) := by
  have hx : x ∈ all := Multiset.mem_of_le htaken (Multiset.mem_cons_self x _)
  have hsteps : ((t.take x).steps : Multiset Step) = x ::ₘ (t.steps : Multiset Step) :=
    Multiset.coe_eq_coe.mpr (List.perm_append_singleton x t.steps)
  have heffect := t.system.effect x
  refine ⟨?_, ?_, ?_, fun k id hid => ?_⟩
  · rw [hsteps]
    exact htaken.trans (Multiset.le_add_right ..)
  · rw [hsteps]
    exact h.numbers.take hroom h.owned.table heffect htaken
  · exact h.owned.take heffect hx
  · have hkept (hold : t.system.boundId? k = some id) :
        Account s₀ (t.take x) (all + (t.system.perform x).2) id k := by
      obtain ⟨hbalanced, hregistered, hpassages⟩ := h.account k id hold
      refine ⟨hbalanced.take h.numbers h.owned hold heffect,
        hregistered.take hbalanced h.numbers h.owned hold heffect htaken, ?_⟩
      have howner (k' : FaceKey) (hk' : t.system.boundId? k' = some id) : k' = k :=
        h.numbers.owner k' k id hk' hold
      rw [Trace.take, passages_append, hpassages,
        passages_emitted howner hold (h.owned.steps x hx), List.filterMap_append]
      cases hpassage : x.passage? k <;> simp [hpassage]
    rcases heffect.naming with
      ⟨key, unique, id', rfl, hkey, hfree, -, hids, hregistry, hbound, hmore⟩ | ⟨-, hbound, -⟩
    · rw [Trace.system_take, hbound k] at hid
      split at hid
      · rename_i hk
        cases hid
        subst hk
        obtain rfl : t.system.nextId = id :=
          Option.some.inj ((h.numbers.freeId?_eq h.owned.table).symm.trans hfree)
        rw [hmore]
        exact h.account_of_bound hkey hids hregistry
      · exact hkept hid
    · exact hkept (hbound k ▸ hid)

end NamedData.FaceSystem
