import NamedData.Proofs.Reassembly.Bounds

/-!
# Groups do not interfere

As long as no group has to make room for another, the fragments of one base meet with the results
they would have if no others were inserted. Fragments of other bases may let the group of a base
expire early, but never so early that a fragment of the base could notice.
-/

namespace NamedData.Reassembly

variable {s a : Reassembly} {f : Fragment} {base : UInt64} {now : Instant}

/-! ## One base alone -/

/-- What a group answers to a fragment of its count, and what is left of it. -/
def join (g : FragmentGroup) (f : Fragment) :
    Except Error (Option Reassembled) × Option FragmentGroup :=
  if g.contains f.index then (.ok none, some g)
  else if maxPacketSize < (g.add f).totalLength then
    (.error (.packetTooLarge (g.add f).totalLength maxPacketSize), none)
  else if (g.add f).isComplete then (.ok (some (g.add f).result), none)
  else (.ok none, some (g.add f))

/-- What a base with this group, or with none, answers to a fragment. -/
def respond (found : Option FragmentGroup) (f : Fragment) (now : Instant) :
    Except Error (Option Reassembled) × Option FragmentGroup :=
  match found with
  | some g =>
    if g.count = f.count then join g f
    else (.error (.invalidFragment (.countMismatch f.base)), none)
  | none => join (.start f.count now) f

theorem respond_of_agrees (agrees : (s.target f now).count = f.count) :
    respond ((s.evictExpired now).group? f.base) f now = join (s.target f now) f := by
  unfold target at agrees ⊢
  unfold respond
  cases hg : (s.evictExpired now).group? f.base with
  | none => rfl
  | some g =>
      rw [hg] at agrees
      exact if_pos agrees

/-- A store treats each base as if it were the only one. -/
theorem Valid.accept_eq_respond (h : s.Valid) (f : Fragment) (now : Instant) :
    ((s.accept f now).1, (s.accept f now).2.group? f.base)
      = respond ((s.evictExpired now).group? f.base) f now := by
  have hroom := (h.roomFor f now).distinct
  have houtcome := accept_outcome s f now
  generalize s.accept f now = r at houtcome ⊢
  cases houtcome with
  | mismatch found differs =>
      rw [found, group?_erase (h.evictExpired now).distinct]
      simp [respond, differs]
  | duplicate found agrees old =>
      rw [found]
      simp [respond, join, agrees, old]
  | tooLarge agrees new large =>
      rw [respond_of_agrees agrees, group?_erase hroom]
      simp [join, new, large]
  | complete agrees new fits full =>
      rw [respond_of_agrees agrees, group?_erase hroom]
      simp [join, new, Nat.not_lt.mpr fits, full]
  | kept agrees new fits partly =>
      rw [respond_of_agrees agrees, group?_put]
      simp [join, new, Nat.not_lt.mpr fits, partly]

/-! ## Other bases -/

/-- An insert needs a new group while the store has as many as it may. -/
def Crowded (s : Reassembly) (p : LpPacket) (now : Instant) : Prop :=
  ∃ f, Fragment.ofPacket p = .ok f ∧ (s.evictExpired now).group? f.base = none
    ∧ s.maxGroups ≤ (s.evictExpired now).size

theorem roomFor_of_not_crowded {p : LpPacket} (hp : Fragment.ofPacket p = .ok f)
    (h : ¬ s.Crowded p now) : s.roomFor f now = s.evictExpired now := by
  unfold roomFor
  split
  · rfl
  · rename_i hg
    exact if_neg fun hfull => h ⟨f, hp, hg, hfull⟩

/-- A fragment does nothing to the group of another base but let it expire or make room. -/
theorem Valid.group?_accept_of_ne (h : s.Valid) (hne : base ≠ f.base) :
    (s.accept f now).2.group? base = (s.roomFor f now).group? base := by
  have hd := (h.roomFor f now).distinct
  have hstay {g : FragmentGroup} (found : (s.evictExpired now).group? f.base = some g) :
      s.roomFor f now = s.evictExpired now := by simp [Reassembly.roomFor, found]
  have houtcome := accept_outcome s f now
  generalize s.accept f now = r at houtcome ⊢
  cases houtcome with
  | mismatch found differs =>
      rw [← hstay found, group?_erase hd, if_neg hne]
  | duplicate found agrees old => rw [hstay found]
  | tooLarge agrees new large => rw [group?_erase hd, if_neg hne]
  | complete agrees new fits full => rw [group?_erase hd, if_neg hne]
  | kept agrees new fits partly => rw [group?_put, if_neg hne]

theorem ttl_accept : (s.accept f now).2.ttl = s.ttl := by
  have houtcome := accept_outcome s f now
  generalize s.accept f now = r at houtcome ⊢
  cases houtcome <;> simp

/-! ## Two stores that look alike to a base -/

/-- From `since` on, a base finds the same group in both stores. -/
structure Alike (base : UInt64) (since : Instant) (s a : Reassembly) : Prop where
  left : s.Valid
  right : a.Valid
  ttl_eq : s.ttl = a.ttl
  found_eq : ∀ now, since ≤ now →
    (s.evictExpired now).group? base = (a.evictExpired now).group? base

theorem evictExpired_mono (h : s.Valid) {later : Instant} (hle : now ≤ later) :
    ((s.evictExpired now).evictExpired later).group? base = (s.evictExpired later).group? base := by
  rw [group?_evictExpired (h.evictExpired now).distinct, group?_evictExpired h.distinct,
    group?_evictExpired h.distinct, ttl_evictExpired, Option.filter_filter]
  congr 1
  funext g
  have : later - g.created < s.ttl.nanos → now - g.created < s.ttl.nanos :=
    Nat.lt_of_le_of_lt (Nat.sub_le_sub_right hle g.created)
  simpa using this

theorem group?_evictExpired_congr (hs : s.Valid) (ha : a.Valid) (httl : s.ttl = a.ttl)
    (h : s.group? base = a.group? base) (now : Instant) :
    (s.evictExpired now).group? base = (a.evictExpired now).group? base := by
  rw [group?_evictExpired hs.distinct, group?_evictExpired ha.distinct, h, httl]

/-- A fragment of another base goes unnoticed. -/
theorem Alike.accept_left {since : Instant} (h : Alike base since s a) (hf : f.Placed)
    (hne : base ≠ f.base) (hle : since ≤ now) (hroom : s.roomFor f now = s.evictExpired now) :
    Alike base now (s.accept f now).2 a where
  left := h.left.accept hf now
  right := h.right
  ttl_eq := ttl_accept.trans h.ttl_eq
  found_eq := by
    intro later hlater
    have hsame : (s.accept f now).2.group? base = (s.evictExpired now).group? base :=
      hroom ▸ h.left.group?_accept_of_ne hne
    calc ((s.accept f now).2.evictExpired later).group? base
        = ((s.evictExpired now).evictExpired later).group? base :=
          group?_evictExpired_congr (h.left.accept hf now) (h.left.evictExpired now) ttl_accept
            hsame later
      _ = (s.evictExpired later).group? base := evictExpired_mono h.left hlater
      _ = (a.evictExpired later).group? base := h.found_eq later (Nat.le_trans hle hlater)

theorem Alike.accept {since : Instant} (h : Alike f.base since s a) (hf : f.Placed)
    (hle : since ≤ now) :
    (s.accept f now).1 = (a.accept f now).1
      ∧ Alike f.base now (s.accept f now).2 (a.accept f now).2 := by
  have hs := h.left.accept_eq_respond f now
  rw [h.found_eq now hle, ← h.right.accept_eq_respond f now] at hs
  obtain ⟨hresult, hgroup⟩ := Prod.mk.inj hs
  have httl : (s.accept f now).2.ttl = (a.accept f now).2.ttl := by
    rw [ttl_accept, ttl_accept, h.ttl_eq]
  have hl := h.left.accept hf now
  have hr := h.right.accept hf now
  exact ⟨hresult, hl, hr, httl, fun later _ => group?_evictExpired_congr hl hr httl hgroup later⟩

/-! ## Runs of inserts -/

/-- The results of inserting link packets one after the other, each at its time. -/
def insertAll (s : Reassembly) :
    List (LpPacket × Instant) → List (Except Error (Option Reassembled))
  | [] => []
  | (p, now) :: rest => (s.insert p now).1 :: (s.insert p now).2.insertAll rest

/-- No insert of a run finds the store full when it needs a new group. -/
def NeverCrowded (s : Reassembly) : List (LpPacket × Instant) → Prop
  | [] => True
  | (p, now) :: rest => ¬ s.Crowded p now ∧ (s.insert p now).2.NeverCrowded rest

/-- The results that the inserts of one base have among all results. -/
def resultsOf (base : UInt64) (s : Reassembly) (inserts : List (LpPacket × Instant)) :
    List (Except Error (Option Reassembled)) :=
  ((inserts.zip (s.insertAll inserts)).filter fun e => e.1.1.base? = some base).map (·.2)

theorem resultsOf_cons (base : UInt64) (s : Reassembly) (p : LpPacket) (now : Instant)
    (rest : List (LpPacket × Instant)) :
    resultsOf base s ((p, now) :: rest)
      = if p.base? = some base then (s.insert p now).1 :: resultsOf base (s.insert p now).2 rest
        else resultsOf base (s.insert p now).2 rest := by
  unfold resultsOf
  rw [insertAll, List.zip_cons_cons, List.filter_cons]
  by_cases h : p.base? = some base <;> simp [h]

theorem Alike.resultsOf_eq {since : Instant} {inserts : List (LpPacket × Instant)}
    (h : Alike base since s a) (horder : inserts.Pairwise fun x y => x.2 ≤ y.2)
    (hsince : ∀ e ∈ inserts, since ≤ e.2) (hroom : s.NeverCrowded inserts) :
    resultsOf base s inserts = a.insertAll (inserts.filter fun e => e.1.base? = some base) := by
  induction inserts generalizing s a since with
  | nil => rfl
  | cons e rest ih =>
      obtain ⟨p, now⟩ := e
      obtain ⟨hfirst, hrest⟩ := List.pairwise_cons.mp horder
      obtain ⟨hcrowd, hroom⟩ := hroom
      have hnow := hsince _ List.mem_cons_self
      rw [resultsOf_cons, List.filter_cons]
      cases hp : Fragment.ofPacket p with
      | error err =>
          -- A malformed packet is refused by any store, and changes none.
          have hlater : ∀ e ∈ rest, since ≤ e.2 := fun e he =>
            hsince e (List.mem_cons_of_mem _ he)
          rw [insert_of_error hp] at hroom ⊢
          by_cases hbase : p.base? = some base
          · rw [if_pos hbase, if_pos (by simpa using hbase), insertAll, insert_of_error hp,
              ih h hrest hlater hroom]
          · rw [if_neg hbase, if_neg (by simpa using hbase), ih h hrest hlater hroom]
      | ok f =>
          obtain ⟨htaken, hf⟩ := Fragment.ofPacket_spec hp
          rw [insert_of_ok hp] at hroom ⊢
          by_cases hbase : p.base? = some base
          · obtain rfl : f.base = base := Option.some.inj (htaken.base_eq.symm.trans hbase)
            obtain ⟨hresult, halike⟩ := h.accept hf hnow
            rw [if_pos hbase, if_pos (by simpa using hbase), insertAll, insert_of_ok hp, hresult,
              ih halike hrest hfirst hroom]
          · have hne : base ≠ f.base := fun heq => hbase (heq ▸ htaken.base_eq)
            have halike := h.accept_left hf hne hnow (roomFor_of_not_crowded hp hcrowd)
            rw [if_neg hbase, if_neg (by simpa using hbase), ih halike hrest hfirst hroom]

/-- While no group has to make room, each base gets the results it would get alone. -/
theorem results_independent (ttl : Duration) (maxGroups alone : Nat)
    (choices choicesAlone : List Nat) (base : UInt64) (inserts : List (LpPacket × Instant))
    (horder : inserts.Pairwise fun x y => x.2 ≤ y.2)
    (hroom : ((empty ttl maxGroups).choosing choices).NeverCrowded inserts) :
    resultsOf base ((empty ttl maxGroups).choosing choices) inserts
      = ((empty ttl alone).choosing choicesAlone).insertAll
        (inserts.filter fun e => e.1.base? = some base) := by
  have halike : Alike base 0 ((empty ttl maxGroups).choosing choices)
      ((empty ttl alone).choosing choicesAlone) :=
    ⟨empty_valid ttl maxGroups choices, empty_valid ttl alone choicesAlone, rfl, fun _ _ => rfl⟩
  exact halike.resultsOf_eq horder (fun e _ => Nat.zero_le e.2) hroom

/-- One half of a packet of two bytes. -/
def half (sequence index : UInt64) (byte : UInt8) : LpPacket :=
  { sequence := some sequence, fragIndex := some index, fragCount := some 2,
    fragment := some [byte] }

/-- The group of base 5 expires when a fragment of base 20 comes, and base 5 starts anew as it
would alone. -/
theorem results_independent_of_expiry :
    let inserts := [(half 5 0 1, 0), (half 20 0 2, 12), (half 6 1 3, 13), (half 21 1 4, 13),
      (half 5 0 5, 14)]
    inserts.Pairwise (fun x y => x.2 ≤ y.2) ∧ (empty (.saturating 10) 3).NeverCrowded inserts
      ∧ resultsOf 5 (empty (.saturating 10) 3) inserts
        = (empty (.saturating 10) 1).insertAll
          [(half 5 0 1, 0), (half 6 1 3, 13), (half 5 0 5, 14)] := by
  intro inserts
  have horder : inserts.Pairwise fun x y => x.2 ≤ y.2 := by decide
  have hroom : (empty (.saturating 10) 3).NeverCrowded inserts := by
    refine ⟨?_, ?_, ?_, ?_, ?_, trivial⟩ <;> rintro ⟨f, -, -, hfull⟩ <;> revert hfull <;> decide
  exact ⟨horder, hroom, results_independent (.saturating 10) 3 1 [] [] 5 inserts horder hroom⟩

end NamedData.Reassembly
