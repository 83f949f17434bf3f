import NamedData.Proofs.System.Faces

/-!
# The search for a free ID

The search goes from the counter to the next number, around the end, until it stands at one that a
face can have. Unless every number but zero is taken it ends, at the first such number, and the
counter then stands behind it.
-/

namespace NamedData.FaceSystem

variable {taken : List UInt64} {next id id' other : UInt64} {n m : Nat}

/-- Whether a face can be given a number. -/
def Free (taken : List UInt64) (id : UInt64) : Prop :=
  id ≠ 0 ∧ id ∉ taken

instance : DecidablePred (Free taken) :=
  fun id => inferInstanceAs (Decidable (id ≠ 0 ∧ id ∉ taken))

/-- A search that begins at a number, with the steps it takes and the number at which it ends. -/
inductive Search (taken : List UInt64) : UInt64 → Nat → UInt64 → Prop where
  | stop {id : UInt64} (free : Free taken id) : Search taken id 0 id
  | step {next id : UInt64} {n : Nat} (busy : ¬ Free taken next)
      (rest : Search taken (next + 1) n id) : Search taken next (n + 1) id

/-! ## Distances around the end -/

/-- A step brings every other number nearer by one, also the step from the largest to zero. -/
theorem toNat_sub_eq_succ (h : id ≠ next) :
    (id - next).toNat = (id - (next + 1)).toNat + 1 := by
  have hne : id.toNat ≠ next.toNat := fun heq => h (UInt64.toNat_inj.mp heq)
  have hid := id.toNat_lt
  have hnext := next.toNat_lt
  simp only [UInt64.toNat_sub, UInt64.toNat_add, UInt64.toNat_one]
  omega

theorem Free.ne (h : Free taken id) (hbusy : ¬ Free taken next) : id ≠ next :=
  fun heq => hbusy (heq ▸ h)

/-! ## What a search finds -/

theorem Search.free (h : Search taken next n id) : Free taken id := by
  induction h with
  | stop free => exact free
  | step busy rest ih => exact ih

theorem Search.distance_eq (h : Search taken next n id) : (id - next).toNat = n := by
  induction h with
  | stop free => simp
  | step busy rest ih => rw [toNat_sub_eq_succ (rest.free.ne busy), ih]

/-- No number that can be given is passed over. -/
theorem Search.le_distance (h : Search taken next n id) (hother : Free taken other) :
    n ≤ (other - next).toNat := by
  induction h with
  | stop free => exact Nat.zero_le _
  | step busy rest ih =>
      rw [toNat_sub_eq_succ (hother.ne busy)]
      exact Nat.succ_le_succ ih

theorem Search.first (h : Search taken next n id) (hother : Free taken other) :
    id - next ≤ other - next := by
  rw [UInt64.le_iff_toNat_le, h.distance_eq]
  exact h.le_distance hother

theorem Search.unique (h : Search taken next n id) (h' : Search taken next m id') : id = id' :=
  (UInt64.sub_left_inj next).mp (UInt64.le_antisymm (h.first h'.free) (h'.first h.free))

/-- The distance to a number that can be given falls with every step, so the search ends. -/
theorem exists_search (hfree : Free taken other) (next : UInt64) :
    ∃ n id, Search taken next n id := by
  induction hdistance : (other - next).toNat generalizing next with
  | zero =>
      have hother : other = next := by
        by_contra hne
        rw [toNat_sub_eq_succ hne] at hdistance
        cases hdistance
      exact ⟨0, next, .stop (hother ▸ hfree)⟩
  | succ d ih =>
      by_cases hnext : Free taken next
      · exact ⟨0, next, .stop hnext⟩
      · rw [toNat_sub_eq_succ (hfree.ne hnext)] at hdistance
        obtain ⟨n, id, hsearch⟩ := ih (next + 1) (Nat.succ.inj hdistance)
        exact ⟨n + 1, id, .step hnext hsearch⟩

/-! ## The search as it is carried out -/

theorem search_of_busy (hbusy : ∀ j < n, ¬ Free taken (next + UInt64.ofNat j))
    (hfree : Free taken (next + UInt64.ofNat n)) :
    Search taken next n (next + UInt64.ofNat n) := by
  have hzero (id : UInt64) : id + UInt64.ofNat 0 = id := UInt64.add_zero id
  induction n generalizing next with
  | zero =>
      rw [hzero] at hfree ⊢
      exact .stop hfree
  | succ n ih =>
      have hshift (j : Nat) : next + UInt64.ofNat (j + 1) = next + 1 + UInt64.ofNat j := by
        rw [UInt64.ofNat_add, UInt64.add_comm (UInt64.ofNat j), ← UInt64.add_assoc]
        rfl
      rw [hshift] at hfree ⊢
      refine .step ?_ (ih (fun j hj => ?_) hfree)
      · have hfirst := hbusy 0 (Nat.succ_pos n)
        rwa [hzero] at hfirst
      · rw [← hshift]
        exact hbusy (j + 1) (Nat.succ_lt_succ hj)

theorem search_of_freeId? (h : freeId? next taken = some id) : ∃ n, Search taken next n id := by
  rw [freeId?, List.find?_map] at h
  obtain ⟨n, hn, rfl⟩ := Option.map_eq_some_iff.mp h
  obtain ⟨hfree, -, hbusy⟩ := List.find?_range_eq_some.mp hn
  refine ⟨n, search_of_busy (fun j hj => ?_) ?_⟩
  · have hj := hbusy j hj
    simp only [Function.comp_apply, Bool.not_eq_true', Bool.and_eq_false_iff, bne_eq_false_iff_eq,
      Bool.not_eq_false', List.contains_iff_mem] at hj
    rintro ⟨hzero, hfresh⟩
    exact hj.elim hzero hfresh
  · simpa [Free] using hfree

/-- So many numbers are tried that one that can be given is among them. -/
theorem freeId?_ne_none (hfree : Free taken other) (next : UInt64) :
    freeId? next taken ≠ none := by
  intro hnone
  have hlength := le_length_of_freeId?_eq_none hnone
  have hdistance := (other - next).toNat_lt
  have hother : next + UInt64.ofNat (other - next).toNat = other := by
    rw [UInt64.ofNat_toNat, UInt64.add_comm, UInt64.sub_add_cancel]
  have htried : other ∈ (List.range (taken.length + 2)).map fun i => next + UInt64.ofNat i :=
    List.mem_map.mpr ⟨_, List.mem_range.mpr (by omega), hother⟩
  have hbusy := List.find?_eq_none.mp hnone other htried
  simp [hfree.1, hfree.2] at hbusy

theorem Search.freeId?_eq (h : Search taken next n id) : freeId? next taken = some id := by
  obtain ⟨id', hid⟩ := Option.ne_none_iff_exists'.mp (freeId?_ne_none h.free next)
  obtain ⟨m, hm⟩ := search_of_freeId? hid
  rw [hid, h.unique hm]

/-! ## Adding a face -/

theorem add_eq_ok_of_free {s : FaceSystem} {key : FaceKey} {f : Face} (hf : s.face? key = some f)
    (hid : f.base.id? = none) (hfree : freeId? s.nextId s.ids = some id) :
    ∃ s', s.add key false = .ok (id, s') := by
  have hbind : ∃ s₁, s.bind key false = .ok (id, s₁) := by
    simp only [bind, hf, hid, hfree, Bool.false_eq_true, if_false]
    exact ⟨_, rfl⟩
  obtain ⟨s₁, hbind⟩ := hbind
  exact ⟨_, add_eq_of_bind hbind⟩

/-- Unless every number but zero is in the table, the search from the counter ends, wherever the
counter stands. It ends at a number that is neither zero nor in the table, and at the first of these
from the counter on, around the end. A face that has no ID can be added under it, no face is added
under another, and the counter then stands behind it, at zero behind the largest number. -/
theorem search_ends_at_first_free (s : FaceSystem) (hroom : ¬ ∀ id, id ≠ 0 → id ∈ s.ids) :
    (∃ n id, Search s.ids s.nextId n id)
      ∧ ∀ n id, Search s.ids s.nextId n id →
        id ≠ 0 ∧ id ∉ s.ids
          ∧ (∀ other, other ≠ 0 → other ∉ s.ids → id - s.nextId ≤ other - s.nextId)
          ∧ (∀ key f, s.face? key = some f → f.base.id? = none →
            ∃ s', s.add key false = .ok (id, s'))
          ∧ ∀ key unique id' s', s.add key unique = .ok (id', s') →
            id' = id ∧ s'.nextId.toNat = (id.toNat + 1) % 2 ^ 64 := by
  constructor
  · obtain ⟨other, hother⟩ := not_forall.mp hroom
    exact exists_search (Classical.not_imp.mp hother) s.nextId
  · intro n id h
    refine ⟨h.free.1, h.free.2, fun other hzero hfresh => h.first ⟨hzero, hfresh⟩, ?_, ?_⟩
    · intro key f hf hid
      exact add_eq_ok_of_free hf hid h.freeId?_eq
    · intro key unique id' s' hadd
      obtain ⟨f, -, -, hfree, rfl⟩ := add_eq_ok hadd
      rw [h.freeId?_eq] at hfree
      cases hfree
      exact ⟨rfl, UInt64.toNat_add id 1⟩

/-- The largest number and the least that can be given are in the table. -/
theorem search_ends_at_first_free_behind_largest :
    let last : UInt64 := 0xFFFFFFFFFFFFFFFF
    let s : FaceSystem := { create {} with
      faces := [Face.null.bound last, Face.null.bound 1, .null]
      table := [(last, 0), (1, 1)]
      nextId := last }
    (¬ ∀ id, id ≠ 0 → id ∈ s.ids) ∧ Search s.ids s.nextId 3 2
      ∧ (∀ other, other ≠ 0 → other ∉ s.ids → 2 - s.nextId ≤ other - s.nextId)
      ∧ ∃ s', s.add 2 false = .ok (2, s') ∧ s'.nextId.toNat = 3 := by
  intro last s
  have hroom : ¬ ∀ id, id ≠ 0 → id ∈ s.ids := fun h => absurd (h 2 (by decide)) (by decide)
  have hsearch : Search s.ids s.nextId 3 (s.nextId + 1 + 1 + 1) := by
    refine .step ?_ (.step ?_ (.step ?_ (.stop ?_))) <;> decide
  have hend : s.nextId + 1 + 1 + 1 = 2 := by decide
  rw [hend] at hsearch
  obtain ⟨-, hfound⟩ := search_ends_at_first_free s hroom
  obtain ⟨-, -, hfirst, hadds, hcounter⟩ := hfound 3 2 hsearch
  obtain ⟨s', hadd⟩ := hadds 2 .null rfl rfl
  exact ⟨hroom, hsearch, hfirst, s', hadd, (hcounter 2 false 2 s' hadd).2⟩

end NamedData.FaceSystem
