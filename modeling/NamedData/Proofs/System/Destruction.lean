import NamedData.Proofs.System.Events
import NamedData.Proofs.System.Operations

/-!
# Taking faces down for good

A face is removed when it leaves the state `up`. A face that had left it before it was added is in
the table all the same, and taking it down for good does not remove it any more.
-/

namespace NamedData

open FaceState

theorem FaceState.remove_mem_consequences_iff (current target : FaceState) :
    .remove ∈ current.consequences target ↔ current = .up ∧ target ≠ .up := by
  cases current <;> cases target <;> decide

theorem Face.state_move (f : Face) (mover : Mover) (target : FaceState) :
    (f.move mover target).base.state = if target = .up then f.base.state else target := by
  rcases f.move_cases mover target with
    ⟨hsame | hup, hmove, -⟩ | ⟨-, htarget, hmove, -⟩ | ⟨-, htarget, hmove, -⟩
  · rw [hmove, base_asked, hsame, ite_self]
  · rw [hmove, base_asked, if_pos hup]
  · rw [hmove, base_close, if_neg htarget]
    rfl
  · rw [hmove, if_neg htarget]
    rfl

namespace FaceSystem

variable {s s' : FaceSystem} {given : List Addition} {key k : FaceKey} {id : UInt64} {f f' : Face}
  {e : UInt64 × FaceKey}

def Up (s : FaceSystem) (key : FaceKey) : Prop :=
  ∃ f, s.face? key = some f ∧ f.base.state = .up

theorem up_iff_of_face? (hf : s.face? key = some f) : s.Up key ↔ f.base.state = .up := by
  constructor
  · rintro ⟨g, hg, hup⟩
    cases hf.symm.trans hg
    exact hup
  · exact fun hup => ⟨f, hf, hup⟩

theorem up_iff_standing? : s.Up key ↔ (s.standing? key).map (·.2) = some .up := by
  rw [standing?, Option.map_map, Option.map_eq_some_iff]
  rfl

theorem Quiet.up_iff (h : Quiet s s') : s'.Up key ↔ s.Up key := by
  rw [up_iff_standing?, up_iff_standing?, h.standing?_eq]

/-! ## One face -/

theorem leaving?_adminDown_iff (he : s.boundId? e.2 = some e.1) :
    s.leaving? e.2 .adminDown = some id ↔ e.1 = id ∧ s.Up e.2 := by
  obtain ⟨f, hf, hid⟩ := Option.bind_eq_some_iff.mp he
  rw [up_iff_of_face? hf, leaving?, hf, Option.bind_some, goneBy, hid]
  by_cases hup : f.base.state = .up <;> simp [remove_mem_consequences_iff, hup]

theorem Consistent.taken_down (h : s.Consistent) (key : FaceKey) :
    (s.changeState key .adminDown).Consistent :=
  h.after (.move .caller key .adminDown)

theorem Consistent.mem_table_taken_down (h : s.Consistent) (he : s.boundId? e.2 = some e.1)
    (entry : UInt64 × FaceKey) :
    entry ∈ (s.changeState e.2 .adminDown).table
      ↔ entry ∈ s.table ∧ (e.1 = entry.1 → ¬ s.Up e.2) := by
  refine (h.mem_table_act (a := .move .caller e.2 .adminDown) rfl entry).trans
    (and_congr_right fun _ => ?_)
  rw [gone?, ne_eq, leaving?_adminDown_iff he, not_and]

theorem Consistent.up_taken_down_iff (h : s.Consistent) (key k : FaceKey) :
    (s.changeState key .adminDown).Up k ↔ s.Up k ∧ k ≠ key := by
  obtain ⟨log, hlog⟩ := move_eq h.registry_eq .caller key .adminDown
  have hface : (s.changeState key .adminDown).face? k
      = (s.modifyFace key fun f => f.move .caller .adminDown).face? k := by
    rw [← move_caller, hlog]
    rfl
  rw [Up, hface]
  by_cases hk : k = key
  · subst hk
    rw [face?_modifyFace]
    constructor
    · rintro ⟨g, hg, hup⟩
      obtain ⟨f, -, rfl⟩ := Option.map_eq_some_iff.mp hg
      rw [Face.state_move] at hup
      cases hup
    · rintro ⟨-, hne⟩
      exact absurd rfl hne
  · rw [face?_modifyFace_of_ne hk]
    exact ⟨fun hup => ⟨hup, hk⟩, And.left⟩

/-- Destroying a face of the table removes it exactly if it is up. -/
theorem Consistent.destroyed_iff (h : s.Consistent) (hkey : s.keyOf? id = some key) :
    ((s.changeState key .adminDown).keyOf? id = none
        ∧ (s.changeState key .adminDown).registry.lookup id = none)
      ↔ s.Up key := by
  have he : (id, key) ∈ s.table := Keyed.mem_of_lookup hkey
  have hmem := h.mem_table_taken_down (e := (id, key)) (h.bound _ he).2
  rw [(h.taken_down key).registry_eq, keyOf?, and_self]
  constructor
  · intro hgone
    by_contra hdown
    exact Keyed.not_mem_keys_of_lookup hgone
      (List.mem_map_of_mem ((hmem (id, key)).mpr ⟨he, fun _ => hdown⟩))
  · refine fun hup => Keyed.lookup_of_not_mem_keys fun hkept => ?_
    obtain ⟨entry, hentry, heq⟩ := List.mem_map.mp hkept
    exact ((hmem entry).mp hentry).2 heq.symm hup

/-! ## All faces -/

/-- What is left of the table when some faces are taken down for good: the entries of the others
and of those that are not up. -/
theorem Consistent.mem_table_all_taken_down (h : s.Consistent) (es : List (UInt64 × FaceKey))
    (hes : ∀ e ∈ es, s.boundId? e.2 = some e.1) (entry : UInt64 × FaceKey) :
    entry ∈ (es.foldl (fun s e => s.changeState e.2 .adminDown) s).table
      ↔ entry ∈ s.table ∧ ∀ e ∈ es, e.1 = entry.1 → ¬ s.Up e.2 := by
  induction es generalizing s with
  | nil => simp
  | cons e rest ih =>
      have he := hes e List.mem_cons_self
      have hbound (k : FaceKey) : (s.changeState e.2 .adminDown).boundId? k = s.boundId? k :=
        boundId?_act h.registry_eq (a := .move .caller e.2 .adminDown) rfl k
      have hrest : ∀ e' ∈ rest, (s.changeState e.2 .adminDown).boundId? e'.2 = some e'.1 :=
        fun e' he' => (hbound e'.2).trans (hes e' (List.mem_cons_of_mem e he'))
      rw [List.foldl_cons, ih (h.taken_down e.2) hrest, h.mem_table_taken_down he,
        List.forall_mem_cons, and_assoc]
      refine and_congr_right fun _ => and_congr_right fun hfirst => forall₂_congr fun e' he' => ?_
      -- A face that stands in the list twice has the same ID both times.
      rw [h.up_taken_down_iff]
      refine imp_congr_right fun heq => ?_
      rw [not_and, not_not]
      constructor
      · intro hother hup
        have hkey : e'.2 = e.2 := hother hup
        have hid := hes e' (List.mem_cons_of_mem e he')
        rw [hkey, he] at hid
        exact hfirst ((Option.some.inj hid).trans heq) (hkey ▸ hup)
      · exact fun hdown hup => absurd hup hdown

theorem Consistent.closeAll_empty_iff (h : s.Consistent) :
    (s.closeAll.table = [] ∧ s.closeAll.registry = []) ↔ ∀ e ∈ s.table, s.Up e.2 := by
  have hafter : s.closeAll.Consistent := by
    have hacts : s.closeAll = (s.acts .closeAll).foldl act s := apply_eq s .closeAll
    rw [hacts]
    exact h.afterAll _
  have hmem (entry : UInt64 × FaceKey) : entry ∈ s.closeAll.table
      ↔ entry ∈ s.table ∧ ∀ e ∈ s.table, e.1 = entry.1 → ¬ s.Up e.2 := by
    rw [closeAll, List.foldl_map]
    exact h.mem_table_all_taken_down s.table (fun e he => (h.bound e he).2) entry
  rw [hafter.registry_eq, and_self, List.eq_nil_iff_forall_not_mem]
  constructor
  · intro hempty e he
    by_contra hdown
    refine hempty e ((hmem e).mpr ⟨he, fun e' he' heq => ?_⟩)
    have hsame : e'.2 = e.2 := by
      have hlookup := Keyed.lookup_of_mem h.distinct he'
      rw [heq, Keyed.lookup_of_mem h.distinct he] at hlookup
      exact (Option.some.inj hlookup).symm
    exact hsame ▸ hdown
  · intro hup entry hentry
    obtain ⟨hin, hnone⟩ := (hmem entry).mp hentry
    exact hnone entry hin rfl (hup entry hin)

/-! ## The state in which a face was added -/

theorem Evolves.up_iff {a : Act} {cs : List StateConsequence} (h : Evolves k a f f' cs)
    (hstay : .remove ∉ cs) : f'.base.state = .up ↔ f.base.state = .up := by
  cases h with
  | same => exact Iff.rfl
  | bound id => exact Iff.rfl
  | started => rw [Face.base_start]
  | moved =>
      rw [remove_mem_consequences_iff, not_and, not_not] at hstay
      rw [Face.state_move]
      split
      · exact Iff.rfl
      · rename_i htarget
        exact ⟨fun h => absurd h htarget, fun h => absurd (hstay h) htarget⟩

/-- An entry that is kept is not the one that its face takes along. -/
theorem Consistent.remove_not_mem_followed (h : s.Consistent) {a : Act}
    (hnone : s.added a = []) (hid : s.boundId? key = some id)
    (hkept : (id, key) ∈ (s.act a).table) : .remove ∉ followed key s a := by
  intro hremove
  obtain ⟨f, hf, hbase⟩ := Option.bind_eq_some_iff.mp hid
  have hgone := ((h.mem_table_act hnone _).mp hkept).2
  cases a with
  | move mover k target =>
      rw [followed] at hremove
      split at hremove
      · rename_i hk
        subst hk
        rw [hf] at hremove
        exact hgone ((leaving?_of_mem hf hremove).trans hbase)
      · cases hremove
  | _ => cases hremove

/-- A face in the table is up if and only if it was up when it was added. -/
structure Traced (given : List Addition) (s : FaceSystem) : Prop where
  recorded : Recorded given s
  up_iff : ∀ x ∈ given, (x.id, x.key) ∈ s.table → (s.Up x.key ↔ x.state = .up)

theorem create_traced (config : Config) : Traced [] (create config) where
  recorded := create_recorded config
  up_iff := fun x hx => by cases hx

theorem Recorded.quiet (h : Recorded given s) (hs' : Quiet s s') : Recorded given s' where
  consistent := h.consistent.quiet hs'
  bound_iff := fun k id => by rw [hs'.boundId?_eq, h.bound_iff]
  keys_nodup := h.keys_nodup
  numbered := fun hcount => by rw [hs'.nextId_eq]; exact h.numbered hcount

theorem Traced.quiet (h : Traced given s) (hs' : Quiet s s') : Traced given s' where
  recorded := h.recorded.quiet hs'
  up_iff := fun x hx hmem => by
    rw [hs'.up_iff]
    exact h.up_iff x hx (hs'.table_eq ▸ hmem)

/-- An act leaves a face that stays in the table up, or not up. -/
theorem Traced.up_act_iff (h : Traced given s) {a : Act} {x : Addition} (hx : x ∈ given)
    (hkept : (x.id, x.key) ∈ (s.act a).table) :
    (x.id, x.key) ∈ s.table ∧ ((s.act a).Up x.key ↔ s.Up x.key) := by
  have hid : s.boundId? x.key = some x.id := (h.recorded.bound_iff x.key x.id).mpr ⟨x.state, hx⟩
  obtain ⟨f, hf, -⟩ := Option.bind_eq_some_iff.mp hid
  obtain ⟨f', hf', hevolves⟩ := evolves_act h.recorded.consistent.registry_eq hf a
  have hup (hstay : .remove ∉ followed x.key s a) : (s.act a).Up x.key ↔ s.Up x.key := by
    rw [up_iff_of_face? hf', up_iff_of_face? hf, hevolves.up_iff hstay]
  rcases added_cases s a with hnone | ⟨y, hadd⟩
  · refine ⟨((h.recorded.consistent.mem_table_act hnone _).mp hkept).1, hup ?_⟩
    exact h.recorded.consistent.remove_not_mem_followed hnone hid hkept
  · obtain ⟨g, -, -, -, -, hact⟩ := act_of_added hadd
    have htable : (s.act a).table = s.table ++ [(y.id, y.key)] := by rw [hact]
    rw [htable, List.mem_append, List.mem_singleton, Prod.mk.injEq] at hkept
    refine ⟨hkept.resolve_right fun hsame => ?_, hup ?_⟩
    · exact h.recorded.key_not_mem hadd (hsame.2 ▸ List.mem_map_of_mem hx)
    · cases a with
      | add k unique => simp [followed]
      | _ => cases hadd

theorem Traced.after (h : Traced given s) (a : Act) : Traced (given ++ s.added a) (s.act a) where
  recorded := h.recorded.after a
  up_iff := fun x hx hkept => by
    rcases List.mem_append.mp hx with hold | hnew
    · obtain ⟨hmem, hup⟩ := h.up_act_iff hold hkept
      exact hup.trans (h.up_iff x hold hmem)
    · obtain ⟨y, hadd⟩ := (added_cases s a).resolve_left (List.ne_nil_of_mem hnew)
      rw [hadd, List.mem_singleton] at hnew
      subst hnew
      obtain ⟨f, hf, -, hstate, -, hact⟩ := act_of_added hadd
      have hface : (s.act a).face? x.key = some (f.bound x.id) := by
        rw [hact]
        exact (face?_modifyFace s x.key _).trans (by rw [hf]; rfl)
      rw [up_iff_of_face? hface, hstate]
      exact Iff.rfl

/-! ## Runs -/

theorem traced_of_operations (config : Config) (os : List Operation) :
    Traced (along operate admitted (create config) os) (os.foldl operate (create config)) :=
  operations_induction (P := Traced) Traced.after Traced.quiet (create_traced config) os

/-- Whatever has happened, a face that is destroyed is gone if and only if it was up when it was
added, and closing all faces leaves none of them if and only if all of them were. -/
theorem destroyed_iff_added_up (config : Config) (os : List Operation) :
    let given := along operate admitted (create config) os
    let s := os.foldl operate (create config)
    (∀ id s', s.destroy id = .ok s' → ∃ x ∈ given, x.id = id ∧ s.keyOf? id = some x.key
        ∧ ((s'.keyOf? id = none ∧ s'.registry.lookup id = none) ↔ x.state = .up))
      ∧ ((s.closeAll.table = [] ∧ s.closeAll.registry = [])
        ↔ ∀ x ∈ given, s.keyOf? x.id = some x.key → x.state = .up) := by
  intro given s
  have h : Traced given s := traced_of_operations config os
  have hs := h.recorded.consistent
  have hgiven {id : UInt64} {key : FaceKey} (he : (id, key) ∈ s.table) :
      ∃ x ∈ given, x.id = id ∧ x.key = key := by
    obtain ⟨state, hx⟩ := (h.recorded.bound_iff key id).mp (hs.bound _ he).2
    exact ⟨_, hx, rfl, rfl⟩
  constructor
  · intro id s' hdestroy
    rw [destroy] at hdestroy
    cases hkey : s.keyOf? id with
    | none => rw [hkey] at hdestroy; cases hdestroy
    | some key =>
        rw [hkey] at hdestroy
        cases hdestroy
        have he := Keyed.mem_of_lookup hkey
        obtain ⟨x, hx, rfl, rfl⟩ := hgiven he
        exact ⟨x, hx, rfl, rfl, (hs.destroyed_iff hkey).trans (h.up_iff x hx he)⟩
  · rw [hs.closeAll_empty_iff]
    constructor
    · intro hup x hx hkey
      have he := Keyed.mem_of_lookup hkey
      exact (h.up_iff x hx he).mp (hup _ he)
    · rintro hup ⟨id, key⟩ he
      obtain ⟨x, hx, rfl, rfl⟩ := hgiven he
      exact (h.up_iff x hx he).mpr (hup x hx (Keyed.lookup_of_mem hs.distinct he))

/-- A face that is taken down before it is added. -/
def downBeforeAdded : List Operation :=
  [.call (.make ⟨.null, Face.new_null⟩), .call (.changeState 0 .down), .call (.addFace 0)]

/-- The face is still there when it was destroyed, and when all faces were closed. -/
theorem destroyed_face_stays :
    let s := downBeforeAdded.foldl operate (create {})
    (∃ s', s.destroy 1 = .ok s' ∧ (s'.get? 1).isSome ∧ (s'.registered? 1).isSome)
      ∧ s.closeAll.ids = [1] ∧ (s.closeAll.registered? 1).isSome :=
  ⟨⟨_, rfl, by decide +kernel, by decide +kernel⟩, by decide +kernel, by decide +kernel⟩

end FaceSystem

end NamedData
