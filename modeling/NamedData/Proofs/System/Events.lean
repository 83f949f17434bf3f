import NamedData.Proofs.System.Leaving

/-!
# The events of a face

What is announced about an ID, from the addition of its face to the removal. An ID that is given to
one face only is announced as created, perhaps as down and as destroyed, each at most once.
-/

namespace NamedData.FaceSystem

open FaceState

variable {s : FaceSystem} {given : List Addition} {key k : FaceKey} {f : Face} {id : UInt64}
  {a : Act} {mover : Mover} {target : FaceState}

/-! ## Which events there are -/

theorem announce_up_not_mem_consequences (current target : FaceState) :
    StateConsequence.announce .up ∉ current.consequences target := by
  cases current <;> cases target <;> decide

theorem kind_ne_up_of_mem_announced {e : Announcement} (he : e ∈ s.announced a) : e.1 ≠ .up := by
  cases a with
  | make f => cases he
  | add key unique =>
      rw [announced] at he
      split at he
      · rw [List.mem_singleton.mp he]
        simp
      · cases he
  | start key => cases he
  | remove id =>
      obtain ⟨f, -, rfl⟩ := List.mem_map.mp he
      simp
  | move mover key target =>
      rw [announced] at he
      cases hf : s.face? key with
      | none => rw [hf] at he; cases he
      | some f =>
          rw [hf] at he
          obtain ⟨s', c, hc, hec⟩ := exists_of_mem_along he
          cases c with
          | announce state =>
              obtain ⟨g, -, rfl⟩ := List.mem_map.mp hec
              have hstate : state ≠ .up := by
                rintro rfl
                exact announce_up_not_mem_consequences _ _ hc
              simp [hstate]
          | remove =>
              obtain ⟨g, -, rfl⟩ := List.mem_map.mp hec
              simp
          | _ => cases hec

/-! ## Which faces events are about -/

theorem boundId?_asked (s : FaceSystem) (mover : Mover) (key : FaceKey) (target : FaceState)
    (k : FaceKey) :
    (s.modifyFace key fun f => f.asked mover target).boundId? k = s.boundId? k :=
  boundId?_modifyFace fun f => by rw [Face.base_asked]

theorem Consistent.asked (h : s.Consistent) (mover : Mover) (key : FaceKey)
    (target : FaceState) : (s.modifyFace key fun f => f.asked mover target).Consistent :=
  h.of_sublist h.registry_eq (List.Sublist.refl _) (boundId?_asked s mover key target)

theorem Consistent.carryOut (h : s.Consistent) (key : FaceKey) (c : StateConsequence) :
    (carryOut key s c).Consistent ∧ (∀ k, (carryOut key s c).boundId? k = s.boundId? k)
      ∧ (carryOut key s c).ids ⊆ s.ids := by
  obtain ⟨log, hlog⟩ := carryOut_eq h.registry_eq key c
  have hsub : (FaceSystem.carryOut key s c).table.Sublist s.table := by
    rw [hlog]
    exact List.filter_sublist
  have hbound (k : FaceKey) : (FaceSystem.carryOut key s c).boundId? k = s.boundId? k := by
    rw [hlog]
    exact boundId?_modifyFace fun f => f.id?_onFace c
  exact ⟨h.of_sublist (by rw [hlog]; rfl) hsub hbound, hbound, (hsub.map _).subset⟩

theorem Consistent.id_of_get? (h : s.Consistent) (hf : s.get? id = some f) :
    f.id = id ∧ id ∈ s.ids := by
  have hid : id ∈ s.ids := by
    obtain ⟨key, hkey, -⟩ := Option.bind_eq_some_iff.mp hf
    exact List.mem_map_of_mem (f := (·.1)) (Keyed.mem_of_lookup hkey)
  obtain ⟨-, g, hg, hgid⟩ := h.get?_of_mem hid
  cases hf.symm.trans hg
  exact ⟨hgid, hid⟩

theorem Consistent.announcedBy (h : s.Consistent) (c : StateConsequence) :
    ∀ e ∈ announcedBy key s c, s.boundId? key = some e.2.faceId ∧ e.2.faceId ∈ s.ids := by
  have habout : ∀ f ∈ (s.boundId? key).bind s.get?,
      s.boundId? key = some f.id ∧ f.id ∈ s.ids := by
    intro f hf
    obtain ⟨id, hid, hget⟩ := Option.bind_eq_some_iff.mp hf
    obtain ⟨rfl, hmem⟩ := h.id_of_get? hget
    exact ⟨hid, hmem⟩
  intro e he
  cases c with
  | announce state =>
      obtain ⟨f, hf, rfl⟩ := List.mem_map.mp he
      exact habout f (Option.mem_toList.mp hf)
  | remove =>
      obtain ⟨f, hf, rfl⟩ := List.mem_map.mp he
      exact habout f (Option.mem_toList.mp hf)
  | _ => cases he

theorem Consistent.along_announcedBy (h : s.Consistent) (cs : List StateConsequence) :
    ∀ e ∈ along (FaceSystem.carryOut key) (FaceSystem.announcedBy key) s cs,
      s.boundId? key = some e.2.faceId ∧ e.2.faceId ∈ s.ids := by
  induction cs generalizing s with
  | nil => simp [along]
  | cons c rest ih =>
      intro e he
      rcases List.mem_append.mp he with hfirst | hrest
      · exact h.announcedBy c e hfirst
      · obtain ⟨hnext, hbound, hids⟩ := h.carryOut key c
        obtain ⟨hid, hmem⟩ := ih hnext e hrest
        exact ⟨(hbound key).symm.trans hid, hids hmem⟩

/-- The events of a change of state are about the ID of the face, and the table has it. -/
theorem Consistent.announced_move (h : s.Consistent) :
    ∀ e ∈ s.announced (.move mover key target),
      s.boundId? key = some e.2.faceId ∧ e.2.faceId ∈ s.ids := by
  rw [announced]
  cases hf : s.face? key with
  | none => simp
  | some f =>
      intro e he
      rw [← boundId?_asked s mover key target key]
      exact (h.asked mover key target).along_announcedBy _ e he

theorem announced_add_eq_nil {unique : Bool} (h : s.added (.add key unique) = []) :
    s.announced (.add key unique) = [] := by
  obtain ⟨e, he⟩ := error_of_added_eq_nil h
  rw [announced, he]
  cases s.face? key <;> rfl

theorem announced_move_self (hf : s.face? key = some f) :
    s.announced (.move mover key f.base.state) = [] := by
  rw [announced, hf, Option.elim_some, consequences_self]
  rfl

/-- The events of an act that adds no face are about IDs that the table has. -/
theorem Consistent.faceId_mem_ids (h : s.Consistent) (hnone : s.added a = []) :
    ∀ e ∈ s.announced a, e.2.faceId ∈ s.ids := by
  cases a with
  | make f => simp [announced]
  | add key unique =>
      simp [announced_add_eq_nil hnone]
  | start key => simp [announced]
  | remove id =>
      intro e he
      obtain ⟨f, hf, rfl⟩ := List.mem_map.mp he
      obtain ⟨rfl, hmem⟩ := h.id_of_get? (Option.mem_toList.mp hf)
      exact hmem
  | move mover key target => exact fun e he => (h.announced_move e he).2

/-! ## Events about one ID -/

theorem about_append (id : UInt64) (before after : List Announcement) :
    about id (before ++ after) = about id before ++ about id after := by
  simp [about]

theorem about_eq_nil {announcements : List Announcement}
    (h : ∀ e ∈ announcements, e.2.faceId ≠ id) : about id announcements = [] := by
  rw [about, List.filter_eq_nil_iff.mpr fun e he => by simpa using h e he]
  rfl

/-- The kind of event that a consequence brings for a face in the table. -/
def kind? : StateConsequence → Option FaceEventKind
  | .announce state => some (if state = .up then .up else .down)
  | .remove => some .destroyed
  | .enter _ | .stop | .close => none

theorem Consistent.about_announcedBy (h : s.Consistent) (hid : s.boundId? key = some id)
    (hmem : id ∈ s.ids) (c : StateConsequence) :
    about id (FaceSystem.announcedBy key s c) = (kind? c).toList := by
  obtain ⟨-, f, hf, rfl⟩ := h.get?_of_mem hmem
  cases c <;> simp [FaceSystem.announcedBy, about, kind?, hid, hf, Face.summary]

/-- While the table has a face, all that follows from a change of its state is announced. -/
theorem Consistent.about_along (h : s.Consistent) (hid : s.boundId? key = some id)
    (hmem : id ∈ s.ids) (cs : List StateConsequence) (hcs : .remove ∉ cs)
    (last : StateConsequence) :
    about id (along (FaceSystem.carryOut key) (FaceSystem.announcedBy key) s (cs ++ [last]))
      = (cs ++ [last]).filterMap kind? := by
  induction cs generalizing s with
  | nil =>
      rw [List.nil_append, along, along, List.append_nil, h.about_announcedBy hid hmem]
      cases hkind : kind? last <;> simp [hkind]
  | cons c rest ih =>
      -- Only a removal takes the face out of the table, so the rest still finds it there.
      obtain ⟨hnext, hbound, -⟩ := h.carryOut key c
      have htable : (FaceSystem.carryOut key s c).table = s.table := by
        obtain ⟨log, hlog⟩ := carryOut_eq h.registry_eq key c
        have hkept : goneBy [c] (s.boundId? key) = none :=
          if_neg fun hc => hcs (List.mem_cons.mpr (.inl (List.mem_singleton.mp hc)))
        rw [hlog, hkept, reworked_none h.registry_eq]
        rfl
      have hmem' : id ∈ (FaceSystem.carryOut key s c).ids := by
        rw [ids, htable]
        exact hmem
      rw [List.cons_append, along, about_append, h.about_announcedBy hid hmem,
        ih hnext ((hbound key).trans hid) hmem' fun hrest => hcs (List.mem_cons_of_mem c hrest)]
      cases hkind : kind? c <;> simp [hkind]

/-- The events of a face in the table that leaves `up`. -/
theorem Consistent.about_move_leave (h : s.Consistent) (hf : s.face? key = some f)
    (hid : f.base.id? = some id) (hmem : id ∈ s.ids) (hup : f.base.state = .up)
    (htarget : target ≠ .up) :
    about id (s.announced (.move mover key target)) = [.down, .destroyed] := by
  have hasked := h.asked mover key target
  have hcs : f.base.state.consequences target
      = [.enter target, .announce target, .stop, .close] ++ [.remove] := by
    rw [hup]
    exact consequences_up htarget
  have hid' : (s.modifyFace key fun f => f.asked mover target).boundId? key = some id := by
    rw [boundId?_asked, boundId?, hf]
    exact hid
  rw [announced, hf, Option.elim_some, hcs,
    hasked.about_along hid' hmem [.enter target, .announce target, .stop, .close] (by simp) .remove]
  cases target with
  | up => exact absurd rfl htarget
  | down => rfl
  | adminDown => rfl

/-! ## The life of an ID -/

/-- How far the only face that ever gets an ID has come, and the events about the ID until then. -/
inductive Stage (s : FaceSystem) (id : UInt64) (key : FaceKey) : List FaceEventKind → Prop where
  | waiting (hid : s.boundId? key ≠ some id) : Stage s id key []
  | present (hid : s.boundId? key = some id) (hmem : id ∈ s.ids)
      (hup : ∃ f, s.face? key = some f ∧ f.base.state = .up) : Stage s id key [.created]
  | gone {events : List FaceEventKind} (hid : s.boundId? key = some id) (hmem : id ∉ s.ids)
      (hevents : events = [.created, .destroyed] ∨ events = [.created, .down, .destroyed]) :
      Stage s id key events

/-- An entry is gone after an act that takes its ID out of the table, and otherwise as it was. -/
theorem Consistent.mem_table_act (h : s.Consistent) (hnone : s.added a = [])
    (e : UInt64 × FaceKey) : e ∈ (s.act a).table ↔ e ∈ s.table ∧ s.gone? a ≠ some e.1 := by
  obtain ⟨faces, watches, log, hact⟩ := act_of_not_added h.registry_eq hnone
  have htable : (s.act a).table = s.table.filter fun e => some e.1 != s.gone? a := by
    rw [hact]
    rfl
  rw [htable, List.mem_filter, bne_iff_ne, ne_comm]

theorem Consistent.mem_ids_act (h : s.Consistent) (hnone : s.added a = []) :
    id ∈ (s.act a).ids ↔ id ∈ s.ids ∧ s.gone? a ≠ some id := by
  simp only [ids, List.mem_map, h.mem_table_act hnone]
  constructor
  · rintro ⟨e, ⟨he, hkept⟩, rfl⟩
    exact ⟨⟨e, he, rfl⟩, hkept⟩
  · rintro ⟨⟨e, he, rfl⟩, hkept⟩
    exact ⟨e, ⟨he, hkept⟩, rfl⟩

theorem Stage.after_addition {events : List FaceEventKind} {x : Addition}
    (h : s.Stage id key events) (hadd : s.added a = [x])
    (honly : x.id = id → x = ⟨id, key, .up⟩) :
    (s.act a).Stage id key (events ++ about id (s.announced a)) := by
  obtain ⟨f, hf, -, hstate, -, hact⟩ := act_of_added hadd
  have hbound := boundId?_of_added hadd
  have hunbound := boundId?_eq_none_of_added hadd
  have hids : (s.act a).ids = s.ids ++ [x.id] := by
    rw [hact]
    simp [ids]
  have hface : (s.act a).face? = (s.modifyFace x.key fun f => f.bound x.id).face? := by
    rw [hact]
    rfl
  rw [announced_of_added hadd hf]
  by_cases hx : x.id = id
  · obtain rfl := honly hx
    cases h with
    | waiting hid =>
        have hup : f.base.state = .up := hstate.symm
        rw [List.nil_append, show about id [(.created, (f.bound id).summary)] = [.created] by
          simp [about, Face.summary, Face.id, FaceBase.id, Face.bound]]
        refine .present (by simp [hbound]) (by simp [hids]) ⟨f.bound id, ?_, hup⟩
        rw [hface, face?_modifyFace, hf]
        rfl
    | present hid => rw [hunbound] at hid; cases hid
    | gone hid => rw [hunbound] at hid; cases hid
  · rw [about_eq_nil (by simpa [Face.summary, Face.id, FaceBase.id, Face.bound] using hx),
      List.append_nil]
    -- Only a face without an ID is added, so it is not the one that has this ID.
    have hother (hid : s.boundId? key = some id) : key ≠ x.key := by
      rintro rfl
      rw [hunbound] at hid
      cases hid
    cases h with
    | waiting hid =>
        refine .waiting ?_
        rw [hbound]
        split
        · simpa using hx
        · exact hid
    | present hid hmem hup =>
        refine .present (by rw [hbound, if_neg (hother hid), hid]) (by simp [hids, hmem]) ?_
        rwa [hface, face?_modifyFace_of_ne (hother hid)]
    | gone hid hmem hevents =>
        exact .gone (by rw [hbound, if_neg (hother hid), hid])
          (by simp [hids, hmem, Ne.symm hx]) hevents

/-- What an act leaves of a face in the table that it neither moves out of `up` nor removes. -/
theorem Stage.after_idle (hs : s.Consistent) (hsole : ∀ k, s.boundId? k = some id → k = key)
    (hnone : s.added a = []) (hid : s.boundId? key = some id) (hmem : id ∈ s.ids)
    (hf : s.face? key = some f) (hup : f.base.state = .up)
    (hmove : ∀ mover target, a = .move mover key target → target = .up)
    (hremove : a ≠ .remove id) :
    (s.act a).Stage id key ([.created] ++ about id (s.announced a)) := by
  have hfollowed : followed key s a = [] := by
    cases a with
    | move mover k target =>
        by_cases hk : k = key
        · subst hk
          rw [followed, if_pos rfl, hf, Option.elim_some, hup, hmove mover target rfl]
          rfl
        · exact if_neg hk
    | _ => rfl
  have hgone : s.gone? a ≠ some id := by
    intro hgone
    cases a with
    | remove i => cases hgone; exact hremove rfl
    | move mover k target =>
        obtain ⟨g, hg, hgid, hleave⟩ := leaving?_eq_some hgone
        obtain rfl := hsole k (by rw [boundId?, hg]; exact hgid)
        cases hf.symm.trans hg
        rw [hup, hmove mover target rfl] at hleave
        cases hleave
    | _ => cases hgone
  have habout : about id (s.announced a) = [] := by
    refine about_eq_nil fun e he heq => ?_
    cases a with
    | add k unique => rw [announced_add_eq_nil hnone] at he; cases he
    | remove i =>
        obtain ⟨g, hg, rfl⟩ := List.mem_map.mp he
        obtain ⟨rfl, -⟩ := hs.id_of_get? (Option.mem_toList.mp hg)
        exact hremove (congrArg Act.remove heq)
    | move mover k target =>
        have howner := (hs.announced_move e he).1
        rw [heq] at howner
        obtain rfl := hsole k howner
        rw [hmove mover target rfl, ← hup, announced_move_self hf] at he
        cases he
    | _ => cases he
  obtain ⟨f', hf', hevolves⟩ := evolves_act hs.registry_eq hf a
  have hcourse := hevolves.course
  rw [hfollowed, hup] at hcourse
  rw [habout, List.append_nil]
  exact .present ((boundId?_act hs.registry_eq hnone key).trans hid)
    ((hs.mem_ids_act hnone).mpr ⟨hmem, hgone⟩) ⟨f', hf', hcourse.eq_up⟩

theorem Stage.after_present (hs : s.Consistent) (hsole : ∀ k, s.boundId? k = some id → k = key)
    (hnone : s.added a = []) (hid : s.boundId? key = some id) (hmem : id ∈ s.ids)
    (hf : s.face? key = some f) (hup : f.base.state = .up) :
    (s.act a).Stage id key ([.created] ++ about id (s.announced a)) := by
  have hid' : (s.act a).boundId? key = some id :=
    (boundId?_act hs.registry_eq hnone key).trans hid
  have hbase : f.base.id? = some id := by
    rw [boundId?, hf] at hid
    exact hid
  by_cases hmove : ∃ mover target, target ≠ .up ∧ a = .move mover key target
  · obtain ⟨mover, target, htarget, rfl⟩ := hmove
    refine .gone hid' ?_ (.inr ?_)
    · rw [hs.mem_ids_act hnone]
      refine fun h => h.2 ((leaving?_of_mem hf ?_).trans hbase)
      rw [hup, consequences_up htarget]
      simp [leave]
    · rw [hs.about_move_leave hf hbase hmem hup htarget]
      rfl
  · by_cases hremove : a = .remove id
    · subst hremove
      refine .gone hid' ?_ (.inl ?_)
      · rw [hs.mem_ids_act hnone]
        exact fun h => h.2 rfl
      · obtain ⟨-, g, hg, rfl⟩ := hs.get?_of_mem hmem
        simp [announced, about, hg, Face.summary]
    · refine Stage.after_idle hs hsole hnone hid hmem hf hup (fun mover target ha => ?_) hremove
      exact Classical.not_not.mp fun htarget => hmove ⟨mover, target, htarget, ha⟩

theorem Stage.after {events : List FaceEventKind} (h : s.Stage id key events) (hs : s.Consistent)
    (hsole : ∀ k, s.boundId? k = some id → k = key)
    (honly : ∀ x ∈ s.added a, x.id = id → x = ⟨id, key, .up⟩) :
    (s.act a).Stage id key (events ++ about id (s.announced a)) := by
  rcases added_cases s a with hnone | ⟨x, hadd⟩
  · have hbound := boundId?_act hs.registry_eq hnone key
    have hsilent (hmem : id ∉ s.ids) : about id (s.announced a) = [] :=
      about_eq_nil fun e he heq => hmem (heq ▸ hs.faceId_mem_ids hnone e he)
    cases h with
    | waiting hid =>
        have hmem : id ∉ s.ids := by
          intro hmem
          obtain ⟨e, he, rfl⟩ := List.mem_map.mp hmem
          have howner := (hs.bound e he).2
          exact hid (hsole _ howner ▸ howner)
        rw [hsilent hmem]
        exact .waiting (hbound.symm ▸ hid)
    | present hid hmem hup =>
        obtain ⟨f, hf, hup⟩ := hup
        exact Stage.after_present hs hsole hnone hid hmem hf hup
    | gone hid hmem hevents =>
        rw [hsilent hmem, List.append_nil]
        exact .gone (hbound.trans hid) (fun h => hmem ((hs.mem_ids_act hnone).mp h).1) hevents
  · exact h.after_addition hadd (honly x (by simp [hadd]))

/-! ## Runs -/

theorem stage_of_acts (config : Config) (as : List Act)
    (honly : ∀ x ∈ along act added (create config) as, x.id = id → x = ⟨id, key, .up⟩) :
    (as.foldl act (create config)).Stage id key
      (about id (along act announced (create config) as)) := by
  -- From the end of the run: whose ID it is follows from the additions before the last act.
  induction as using List.reverseRecOn with
  | nil => exact .waiting (by simp [boundId?, face?, create])
  | append_singleton as a ih =>
      have hrecorded := (create_recorded config).afterAll as
      rw [along_concat] at honly
      rw [along_concat, about_append, List.foldl_append]
      refine (ih fun x hx => honly x (List.mem_append_left _ hx)).after hrecorded.consistent
        (fun k hk => ?_) fun x hx => honly x (List.mem_append_right _ hx)
      obtain ⟨state, hmem⟩ := (hrecorded.bound_iff k id).mp hk
      exact congrArg Addition.key (honly _ (List.mem_append_left _ hmem) rfl)

theorem Stage.prefix_of_two {events : List FaceEventKind} (h : s.Stage id key events) :
    events <+: [.created, .destroyed] ∨ events <+: [.created, .down, .destroyed] := by
  cases h with
  | waiting => exact .inl (List.nil_prefix)
  | present => exact .inl ⟨[.destroyed], rfl⟩
  | gone _ _ hevents =>
      rcases hevents with rfl | rfl
      · exact .inl (List.prefix_refl _)
      · exact .inr (List.prefix_refl _)

theorem Stage.not_mem_of_down {events : List FaceEventKind} (h : s.Stage id key events)
    (hid : s.boundId? key = some id) (hf : s.face? key = some f) (hdown : f.base.state ≠ .up) :
    id ∉ s.ids := by
  cases h with
  | waiting hwaiting => exact absurd hid hwaiting
  | present _ _ hup =>
      obtain ⟨g, hg, hup⟩ := hup
      cases hf.symm.trans hg
      exact absurd hup hdown
  | gone _ hmem => exact hmem

/-- A face that was `up` when it was added leaves `up` once, in a call that stops it, closes its
medium and removes it in this order. A change to the state that it is in then changes nothing, and
any other only the state; a caller marks the service besides, if the medium went down without one.
If the ID of the face is given to no other face, which `Recorded.ids_ascending` ensures for fewer
than `2 ^ 64 - 1` additions, at most three events are about the ID, and none of them comes twice. -/
theorem run_leaves_up_once (config : Config) (calls : List Call)
    (hadded : ⟨id, key, .up⟩ ∈ (create config).additions calls) :
    let s := (create config).run calls
    let announcements := (create config).announcements calls
    let consequences := (create config).consequencesFor key calls
    s.log = (EventLog.empty config.eventCapacity).record announcements
      ∧ (∀ e ∈ announcements, e.1 ≠ .up)
      ∧ ∃ f, s.face? key = some f
        ∧ (f.base.stop.isStopped = true ↔ f.base.state ≠ .up)
        ∧ Course .up f.base.state consequences
        ∧ consequences.count .close = (if f.base.state = .up then 0 else 1)
        ∧ (∀ c, ∃ f', (s.apply c).face? key = some f'
          ∧ Course f.base.state f'.base.state (s.consequencesFor key [c]))
        ∧ s.transition key f.base.state = s
        ∧ s.changeState key f.base.state
          = (s.modifyFace key fun f' => f'.requestState f.base.state)
        ∧ ((∀ target, .transition key target ∉ calls) → s.changeState key f.base.state = s)
        ∧ ((∀ x ∈ (create config).additions calls, x.id = id → x.key = key) →
          (f.base.state ≠ .up → id ∉ s.ids ∧ ∀ target, target ≠ .up →
            s.transition key target = (s.modifyFace key fun f => f.enter target)
              ∧ s.changeState key target
                = (s.modifyFace key fun f => (f.requestState target).enter target)
              ∧ ((∀ target, .transition key target ∉ calls) →
                s.changeState key target = s.modifyFace key fun f => f.enter target))
          ∧ (about id announcements <+: [.created, .destroyed]
            ∨ about id announcements <+: [.created, .down, .destroyed])) := by
  intro s announcements consequences
  have hrecorded : Recorded ((create config).additions calls) s := run_recorded config calls
  have hsteady : s.Steady := by
    rw [show s = _ from run_eq (create config) calls]
    exact (create_steady config).afterAll (create_consistent config) _
  have hid : s.boundId? key = some id := (hrecorded.bound_iff key id).mpr ⟨.up, hadded⟩
  obtain ⟨f, hf, hbase⟩ := Option.bind_eq_some_iff.mp hid
  have hcourse : Course .up f.base.state consequences :=
    course_of_absent (create_consistent config) rfl _ (by rw [← run_eq]; exact hf)
  have hmarked (hunmoved : ∀ target, .transition key target ∉ calls) : s.MarkedAt key := by
    rw [show s = _ from run_eq (create config) calls]
    exact (create_markedAt config key).afterAll (create_consistent config)
      fun target hmem => hunmoved target (transition_mem_of_history hmem)
  refine ⟨log_run (create config) calls, fun e he => ?_, f, hf, hsteady key f hf, hcourse,
    hcourse.count_close, fun c => ?_, ?_, move_self hf .caller,
    fun hunmoved => (hmarked hunmoved).changeState_self hf, fun hsole => ?_⟩
  · obtain ⟨s', a, -, ha⟩ := exists_of_mem_along he
    exact kind_ne_up_of_mem_announced ha
  · rw [apply_eq, consequencesFor, history_singleton]
    exact course_of_face? hrecorded.consistent hf _
  · rw [← move_medium, move_self hf]
    exact modifyFace_id s key
  · have honly : ∀ x ∈ (create config).additions calls, x.id = id → x = ⟨id, key, .up⟩ :=
      fun x hx hxid => List.inj_on_of_nodup_map hrecorded.keys_nodup hx hadded (hsole x hx hxid)
    have hstage : s.Stage id key (about id announcements) := by
      rw [show s = _ from run_eq (create config) calls]
      exact stage_of_acts config _ honly
    refine ⟨fun hdown => ?_, hstage.prefix_of_two⟩
    have hmem : id ∉ s.ids := hstage.not_mem_of_down hid hf hdown
    have hout : s.Outside key := by
      rw [Outside, hid, Option.bind_some]
      exact Keyed.lookup_of_not_mem_keys hmem
    have hmove (mover : Mover) {target : FaceState} (htarget : target ≠ .up) :
        s.move mover key target
          = s.modifyFace key fun f => (f.asked mover target).enter target :=
      (hout.move_eq mover target).trans
        (modifyFace_congr hf (Face.move_of_down hdown htarget mover))
    refine ⟨hmem, fun target htarget => ⟨?_, hmove .caller htarget, fun hunmoved => ?_⟩⟩
    · rw [← move_medium]
      exact hmove .medium htarget
    · rw [← move_caller, hmove .caller htarget]
      refine modifyFace_congr hf ?_
      rw [Face.asked, Face.requestState_of_ended (hmarked hunmoved f hf hdown)]

/-- A face that is taken down twice, in different ways, and another whose medium goes down. -/
def takenDownTwice : List Call :=
  [.make ⟨.null, Face.new_null⟩, .addFace 0, .make ⟨.null, Face.new_null⟩, .addFace 1,
    .transition 1 .down, .changeState 0 .down, .destroy 1, .changeState 0 .adminDown,
    .changeState 0 .up]

theorem run_leaves_up_once_when_taken_down_twice :
    (⟨1, 0, .up⟩ : Addition) ∈ (create {}).additions takenDownTwice
      ∧ (∀ x ∈ (create {}).additions takenDownTwice, x.id = 1 → x.key = 0)
      ∧ (∀ target, Call.transition 0 target ∉ takenDownTwice)
      ∧ ∃ f, ((create {}).run takenDownTwice).face? 0 = some f ∧ f.base.state ≠ .up
        ∧ ((create {}).consequencesFor 0 takenDownTwice).count .close
          = (if f.base.state = .up then 0 else 1)
        ∧ ((create {}).run takenDownTwice).changeState 0 f.base.state
          = (create {}).run takenDownTwice
        ∧ ((create {}).run takenDownTwice).changeState 0 .down
          = ((create {}).run takenDownTwice).modifyFace 0 (fun f => f.enter .down)
        ∧ (about 1 ((create {}).announcements takenDownTwice) <+: [.created, .destroyed]
          ∨ about 1 ((create {}).announcements takenDownTwice)
            <+: [.created, .down, .destroyed]) := by
  have hadded : (⟨1, 0, .up⟩ : Addition) ∈ (create {}).additions takenDownTwice := by
    decide +kernel
  have hsole : ∀ x ∈ (create {}).additions takenDownTwice, x.id = 1 → x.key = 0 := by
    decide +kernel
  have hunmoved : ∀ target, Call.transition 0 target ∉ takenDownTwice := by
    simp [takenDownTwice]
  obtain ⟨-, -, f, hf, -, -, hclose, -, -, -, hself, hevents⟩ :=
    run_leaves_up_once {} takenDownTwice hadded
  have hdown : f.base.state ≠ .up := by
    have hstate : (((create {}).run takenDownTwice).face? 0).map (·.base.state)
        = some .adminDown := by
      decide +kernel
    rw [hf] at hstate
    simp [Option.some.inj hstate]
  have hlater := ((hevents hsole).1 hdown).2 .down (by decide)
  exact ⟨hadded, hsole, hunmoved, f, hf, hdown, hclose, hself hunmoved, hlater.2.2 hunmoved,
    (hevents hsole).2⟩

end NamedData.FaceSystem
