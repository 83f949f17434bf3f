import NamedData.Proofs.Reassembly.Isolation

/-!
# Gathering a series

However often and in whatever order the fragments of a packet come, the packet is complete when the
last missing one comes, and not before.
-/

namespace NamedData

namespace Fragment

/-- The link packet that a fragment is taken from. -/
def packet (f : Fragment) : LpPacket :=
  { f.header with fragment := some f.payload }

/-- What a group keeps of a fragment. -/
def entry (f : Fragment) : UInt64 × Bytes :=
  (f.index, f.payload)

end Fragment

/-- The fragments of one packet, in the order of their indices. -/
structure Series (base : UInt64) (fs : List Fragment) : Prop where
  several : 2 ≤ fs.length
  accepted : ∀ f ∈ fs, Fragment.ofPacket f.packet = .ok f
  base_eq : ∀ f ∈ fs, f.base = base
  count_eq : ∀ f ∈ fs, f.count.toNat = fs.length
  indices : fs.map (·.index.toNat) = List.range fs.length
  total_le : (fs.map (·.payload.length)).sum ≤ maxPacketSize

/-- All that was sent has come with `last`, which had not come before. Anything may have come more
than once, but nothing later than the limit after the first. -/
structure CompleteArrival {α : Type} (sent : List α) (limit : Duration)
    (early : List (α × Instant)) (last : α × Instant) : Prop where
  only : ∀ a ∈ early ++ [last], a.1 ∈ sent
  all : ∀ x ∈ sent, x ∈ (early ++ [last]).map (·.1)
  last_new : last.1 ∉ early.map (·.1)
  timely : ∀ first ∈ early.head?, ∀ a ∈ early ++ [last], a.2 - first.2 < limit.nanos

theorem exists_picks {α β : Type} {wire : α → β} {sent : List α} {arrivals : List (β × Instant)}
    (h : ∀ a ∈ arrivals, a.1 ∈ sent.map wire) :
    ∃ picks : List (α × Instant), arrivals = picks.map (fun a => (wire a.1, a.2))
      ∧ ∀ a ∈ picks, a.1 ∈ sent := by
  induction arrivals with
  | nil => exact ⟨[], rfl, fun a ha => absurd ha List.not_mem_nil⟩
  | cons a rest ih =>
      obtain ⟨x, hx, hwire⟩ := List.mem_map.mp (h a List.mem_cons_self)
      obtain ⟨picks, rfl, hpicks⟩ := ih fun b hb => h b (List.mem_cons_of_mem a hb)
      exact ⟨(x, a.2) :: picks, by simp [hwire], List.forall_mem_cons.mpr ⟨hx, hpicks⟩⟩

/-- What arrives in a wire form arrives, if the wire form tells things apart. -/
theorem CompleteArrival.of_map {α β : Type} {wire : α → β} {sent : List α} {limit : Duration}
    {early : List (β × Instant)} {last : β × Instant}
    (hinj : ∀ x ∈ sent, ∀ y ∈ sent, wire x = wire y → x = y)
    (h : CompleteArrival (sent.map wire) limit early last) :
    ∃ early' last', early = early'.map (fun a => (wire a.1, a.2)) ∧ last = (wire last'.1, last'.2)
      ∧ CompleteArrival sent limit early' last' := by
  obtain ⟨early', rfl, hearly⟩ :=
    exists_picks fun a ha => h.only a (List.mem_append_left _ ha)
  obtain ⟨x, hx, hwire⟩ :=
    List.mem_map.mp (h.only last (List.mem_append_right _ (List.mem_singleton_self last)))
  have hlast : last = (wire x, last.2) := Prod.ext hwire.symm rfl
  have honly : ∀ a ∈ early' ++ [(x, last.2)], a.1 ∈ sent := by
    intro a ha
    rcases List.mem_append.mp ha with ha | ha
    · exact hearly a ha
    · rwa [List.mem_singleton.mp ha]
  have harrivals : early'.map (fun a => (wire a.1, a.2)) ++ [last]
      = (early' ++ [(x, last.2)]).map (fun a => (wire a.1, a.2)) := by
    rw [List.map_append, List.map_singleton, ← hlast]
  refine ⟨early', (x, last.2), rfl, hlast, honly, fun y hy => ?_, fun hmem => ?_, ?_⟩
  · obtain ⟨b, hb, heq⟩ := List.mem_map.mp (h.all _ (List.mem_map_of_mem hy))
    rw [harrivals] at hb
    obtain ⟨a, ha, rfl⟩ := List.mem_map.mp hb
    exact List.mem_map.mpr ⟨a, ha, hinj _ (honly a ha) y hy heq⟩
  · obtain ⟨a, ha, heq⟩ := List.mem_map.mp hmem
    refine h.last_new (List.mem_map.mpr ⟨_, List.mem_map_of_mem ha, ?_⟩)
    rw [hlast]
    exact congrArg wire heq
  · intro first hfirst a ha
    have hfirst := Option.mem_map_of_mem (fun a => (wire a.1, a.2)) hfirst
    have ha := List.mem_map_of_mem (f := fun a => (wire a.1, a.2)) ha
    exact h.timely _ (List.head?_map ▸ hfirst) _ (harrivals ▸ ha)

namespace Series

variable {base : UInt64} {fs : List Fragment} {f f' : Fragment}

theorem placed (hs : Series base fs) (hf : f ∈ fs) : f.Placed :=
  Fragment.placed_of_ofPacket (hs.accepted f hf)

theorem nodup_indices (hs : Series base fs) : (fs.map (·.index.toNat)).Nodup := by
  rw [hs.indices]
  exact List.nodup_range

theorem nodup (hs : Series base fs) : fs.Nodup :=
  hs.nodup_indices.of_map _

theorem eq_of_index (hs : Series base fs) (hf : f ∈ fs) (hf' : f' ∈ fs)
    (h : f.index = f'.index) : f = f' :=
  List.inj_on_of_nodup_map hs.nodup_indices hf hf' (congrArg UInt64.toNat h)

theorem increasing (hs : Series base fs) :
    (fs.map Fragment.entry).Pairwise fun a b => a.1 < b.1 := by
  have hlt : (fs.map (·.index.toNat)).Pairwise (· < ·) := by
    rw [hs.indices]
    exact List.pairwise_lt_range
  rw [List.pairwise_map] at hlt ⊢
  exact hlt.imp fun h => UInt64.lt_iff_toNat_lt.mpr h

end Series

/-! ## What a group has gathered -/

theorem nodup_of_increasing {fragments : List (UInt64 × Bytes)}
    (h : fragments.Pairwise fun a b => a.1 < b.1) : fragments.Nodup := by
  refine h.imp ?_
  rintro a b hlt rfl
  exact UInt64.lt_irrefl a.1 hlt

namespace FragmentGroup

/-- A group holds these fragments of a series and no others. -/
structure Gathered (g : FragmentGroup) (fs seen : List Fragment) : Prop where
  consistent : g.Consistent
  count_eq : g.count.toNat = fs.length
  seen_sub : seen ⊆ fs
  mem_iff : ∀ e, e ∈ g.fragments ↔ e ∈ seen.map Fragment.entry
  head_eq : ∀ f ∈ seen, f.index = 0 → g.head = some f.header

variable {base : UInt64} {fs seen : List Fragment} {f : Fragment} {g : FragmentGroup}
  {now : Instant}

theorem start_gathered (hs : Series base fs) (hf : f ∈ fs) :
    (start f.count now).Gathered fs [] where
  consistent := start_consistent f.count now
  count_eq := hs.count_eq f hf
  seen_sub := List.nil_subset fs
  mem_iff := by simp [start]
  head_eq := by simp

theorem Gathered.contains_iff (h : g.Gathered fs seen) (hs : Series base fs) (hf : f ∈ fs) :
    g.contains f.index = true ↔ f ∈ seen := by
  simp only [contains, List.any_eq_true, beq_iff_eq]
  constructor
  · rintro ⟨e, he, hindex⟩
    obtain ⟨f', hf', rfl⟩ := List.mem_map.mp ((h.mem_iff e).mp he)
    exact hs.eq_of_index (h.seen_sub hf') hf hindex ▸ hf'
  · intro hseen
    exact ⟨f.entry, (h.mem_iff _).mpr (List.mem_map_of_mem hseen), rfl⟩

theorem Gathered.not_contains (h : g.Gathered fs seen) (hs : Series base fs) (hf : f ∈ fs)
    (hnew : f ∉ seen) : g.contains f.index = false := by
  rw [Bool.eq_false_iff]
  exact fun hc => hnew ((h.contains_iff hs hf).mp hc)

theorem Gathered.again (h : g.Gathered fs seen) (hseen : f ∈ seen) :
    g.Gathered fs (f :: seen) where
  consistent := h.consistent
  count_eq := h.count_eq
  seen_sub := List.cons_subset.mpr ⟨h.seen_sub hseen, h.seen_sub⟩
  mem_iff := by
    intro e
    rw [h.mem_iff, List.map_cons, List.mem_cons]
    exact ⟨Or.inr, fun he => he.elim (fun heq => heq ▸ List.mem_map_of_mem hseen) id⟩
  head_eq := by
    intro f' hf'
    rcases List.mem_cons.mp hf' with rfl | hf'
    · exact h.head_eq f' hseen
    · exact h.head_eq f' hf'

theorem Gathered.add (h : g.Gathered fs seen) (hs : Series base fs) (hf : f ∈ fs)
    (hnew : f ∉ seen) : (g.add f).Gathered fs (f :: seen) where
  consistent := by
    have hcount : g.count = f.count :=
      UInt64.toNat_inj.mp (h.count_eq.trans (hs.count_eq f hf).symm)
    exact h.consistent.add (hs.placed hf) hcount (h.not_contains hs hf hnew)
  count_eq := h.count_eq
  seen_sub := List.cons_subset.mpr ⟨hf, h.seen_sub⟩
  mem_iff := by
    intro e
    rw [mem_add, h.mem_iff, List.map_cons, List.mem_cons]
    rfl
  head_eq := by
    intro f' hf' h0
    by_cases hfirst : f.index = 0
    · have hsame : f' = f :=
        hs.eq_of_index (List.cons_subset.mpr ⟨hf, h.seen_sub⟩ hf') hf (h0.trans hfirst.symm)
      simp only [FragmentGroup.add, hfirst, ↓reduceIte, hsame]
    · rcases List.mem_cons.mp hf' with rfl | hf'
      · exact absurd h0 hfirst
      · simp only [FragmentGroup.add, hfirst, ↓reduceIte, h.head_eq f' hf' h0]

theorem Gathered.subperm (h : g.Gathered fs seen) :
    g.fragments.Subperm (fs.map Fragment.entry) := by
  refine List.subperm_of_subset (nodup_of_increasing h.consistent.increasing) fun e he => ?_
  exact (List.map_subset Fragment.entry h.seen_sub) ((h.mem_iff e).mp he)

theorem Gathered.total_le (h : g.Gathered fs seen) (hs : Series base fs) :
    g.totalLength ≤ maxPacketSize := by
  obtain ⟨part, hperm, hsub⟩ := h.subperm
  calc g.totalLength
      = (part.map (·.2.length)).sum := by
        rw [h.consistent.total_eq]
        exact ((hperm.map _).sum_eq).symm
    _ ≤ ((fs.map Fragment.entry).map (·.2.length)).sum :=
        (hsub.map _).sum_le_sum fun _ _ => Nat.zero_le _
    _ = (fs.map (·.payload.length)).sum := by
        rw [List.map_map]
        rfl
    _ ≤ maxPacketSize := hs.total_le

theorem Gathered.fragments_eq (h : g.Gathered fs seen) (hs : Series base fs) (hall : fs ⊆ seen) :
    g.fragments = fs.map Fragment.entry := by
  have hback : (fs.map Fragment.entry).Subperm g.fragments :=
    List.subperm_of_subset (nodup_of_increasing hs.increasing) fun e he =>
      (h.mem_iff e).mpr (List.map_subset Fragment.entry hall he)
  exact (h.subperm.antisymm hback).eq_of_pairwise
    (fun _ _ _ _ hab hba => absurd hab (UInt64.lt_asymm hba)) h.consistent.increasing hs.increasing

theorem Gathered.isComplete_iff (h : g.Gathered fs seen) (hs : Series base fs) :
    g.isComplete = true ↔ fs ⊆ seen := by
  constructor
  · intro hfull f hf
    have hindex : f.index.toNat ∈ g.fragments.map (·.1.toNat) := by
      rw [h.consistent.indices_eq_range hfull, h.count_eq, ← hs.indices]
      exact List.mem_map_of_mem hf
    obtain ⟨e, he, heq⟩ := List.mem_map.mp hindex
    obtain ⟨f', hf', rfl⟩ := List.mem_map.mp ((h.mem_iff e).mp he)
    exact hs.eq_of_index (h.seen_sub hf') hf (UInt64.toNat_inj.mp heq) ▸ hf'
  · intro hall
    simp [isComplete, h.count_eq, h.fragments_eq hs hall]

theorem Gathered.result_eq {first : Fragment} (h : g.Gathered fs seen) (hs : Series base fs)
    (hall : fs ⊆ seen) (hfirst : first ∈ fs) (h0 : first.index = 0) :
    g.result = ⟨first.header, fs.flatMap (·.payload)⟩ := by
  have hhead := h.head_eq first (hall hfirst) h0
  have hpayload : g.payload = fs.flatMap (·.payload) := by
    rw [payload, h.fragments_eq hs hall, List.flatMap_map]
    rfl
  simp [result, hhead, hpayload]

end FragmentGroup

/-! ## One fragment more -/

namespace Reassembly

variable {base : UInt64} {fs seen : List Fragment} {f first : Fragment} {g : FragmentGroup}
  {s : Reassembly} {now since : Instant}

/-- While a fragment is missing, a group goes on gathering, also when one comes again. -/
theorem join_early (h : g.Gathered fs seen) (hs : Series base fs) (hf : f ∈ fs)
    (hmissing : ¬ fs ⊆ f :: seen) :
    ∃ g', join g f = (.ok none, some g') ∧ g'.Gathered fs (f :: seen) ∧ g'.created = g.created := by
  by_cases hseen : f ∈ seen
  · have hold := (h.contains_iff hs hf).mpr hseen
    exact ⟨g, by simp [join, hold], h.again hseen, rfl⟩
  · have hadd := h.add hs hf hseen
    have hnew := h.not_contains hs hf hseen
    have hpartly : (g.add f).isComplete = false := by
      rw [Bool.eq_false_iff]
      exact fun hc => hmissing ((hadd.isComplete_iff hs).mp hc)
    exact ⟨g.add f, by simp [join, hnew, Nat.not_lt.mpr (hadd.total_le hs), hpartly], hadd, rfl⟩

theorem join_last (h : g.Gathered fs seen) (hs : Series base fs) (hf : f ∈ fs) (hnew : f ∉ seen)
    (hall : fs ⊆ f :: seen) (hfirst : first ∈ fs) (h0 : first.index = 0) :
    (join g f).1 = .ok (some ⟨first.header, fs.flatMap (·.payload)⟩) := by
  have hadd := h.add hs hf hnew
  have hnot := h.not_contains hs hf hnew
  have hfull := (hadd.isComplete_iff hs).mpr hall
  simp [join, hnot, Nat.not_lt.mpr (hadd.total_le hs), hfull, hadd.result_eq hs hall hfirst h0]

theorem Valid.insert_eq_join (hv : s.Valid) (hs : Series base fs) (hf : f ∈ fs)
    (hg : (s.target f now).Gathered fs seen) :
    ((s.insert f.packet now).1, (s.insert f.packet now).2.group? base)
      = join (s.target f now) f := by
  have agrees : (s.target f now).count = f.count :=
    UInt64.toNat_inj.mp (hg.count_eq.trans (hs.count_eq f hf).symm)
  rw [insert_of_ok (hs.accepted f hf), ← hs.base_eq f hf, hv.accept_eq_respond f now,
    respond_of_agrees agrees]

/-! ## The whole series -/

/-- A store is gathering a series, of which it has seen these fragments. -/
structure Gathering (base : UInt64) (fs seen : List Fragment) (since : Instant)
    (s : Reassembly) : Prop where
  valid : s.Valid
  found : ∃ g, s.group? base = some g ∧ g.Gathered fs seen ∧ g.created = since

theorem Gathering.target_gathered (h : Gathering base fs seen since s) (hs : Series base fs)
    (hf : f ∈ fs) (hage : now - since < s.ttl.nanos) :
    (s.target f now).Gathered fs seen ∧ (s.target f now).created = since := by
  obtain ⟨g, hg, hgathered, hsince⟩ := h.found
  have hkept : (s.evictExpired now).group? f.base = some g := by
    rw [group?_evictExpired h.valid.distinct, hs.base_eq f hf, hg]
    simp [hsince, hage]
  have htarget : s.target f now = g := by simp [target, hkept]
  rw [htarget]
  exact ⟨hgathered, hsince⟩

theorem Valid.insert_early (hv : s.Valid) (hs : Series base fs) (hf : f ∈ fs)
    (hg : (s.target f now).Gathered fs seen) (hmissing : ¬ fs ⊆ f :: seen) :
    (s.insert f.packet now).1 = .ok none
      ∧ Gathering base fs (f :: seen) (s.target f now).created (s.insert f.packet now).2 := by
  obtain ⟨g, hjoin, hgathered, hcreated⟩ := join_early hg hs hf hmissing
  have hinsert := hv.insert_eq_join hs hf hg
  rw [hjoin] at hinsert
  obtain ⟨hresult, hfound⟩ := Prod.mk.inj hinsert
  exact ⟨hresult, hv.apply (.insert f.packet now), g, hfound, hgathered, hcreated⟩

theorem Valid.insert_last (hv : s.Valid) (hs : Series base fs) (hf : f ∈ fs)
    (hg : (s.target f now).Gathered fs seen) (hnew : f ∉ seen) (hall : fs ⊆ f :: seen)
    (hfirst : first ∈ fs) (h0 : first.index = 0) :
    (s.insert f.packet now).1 = .ok (some ⟨first.header, fs.flatMap (·.payload)⟩) := by
  rw [← join_last hg hs hf hnew hall hfirst h0, ← hv.insert_eq_join hs hf hg]

theorem ttl_insert (s : Reassembly) (p : LpPacket) (now : Instant) :
    (s.insert p now).2.ttl = s.ttl := by
  cases hp : Fragment.ofPacket p with
  | error e => rw [insert_of_error hp]
  | ok f => rw [insert_of_ok hp, ttl_accept]

theorem insertAll_early {a : Fragment × Instant} {rest : List (Fragment × Instant)} {n : Nat}
    {answers : List (Except Error (Option Reassembled))}
    (hnone : (s.insert a.1.packet a.2).1 = .ok none)
    (hrest : (s.insert a.1.packet a.2).2.insertAll (rest.map fun a => (a.1.packet, a.2))
      = List.replicate n (.ok none) ++ answers) :
    s.insertAll ((a :: rest).map fun a => (a.1.packet, a.2))
      = List.replicate (n + 1) (.ok none) ++ answers := by
  rw [List.map_cons, insertAll, hnone, hrest, List.replicate_succ, List.cons_append]

/-- A store that is gathering a series answers nothing until the last missing fragment comes. -/
theorem Gathering.insertAll_eq {early : List (Fragment × Instant)} {last : Fragment × Instant}
    (h : Gathering base fs seen since s) (hs : Series base fs)
    (honly : ∀ a ∈ early ++ [last], a.1 ∈ fs) (hnew : last.1 ∉ seen)
    (hlast : last.1 ∉ early.map (·.1)) (hall : ∀ f ∈ fs, f ∈ seen ∨ f ∈ (early ++ [last]).map (·.1))
    (hage : ∀ a ∈ early ++ [last], a.2 - since < s.ttl.nanos)
    (hfirst : first ∈ fs) (h0 : first.index = 0) :
    s.insertAll ((early ++ [last]).map fun a => (a.1.packet, a.2))
      = List.replicate early.length (.ok none)
        ++ [.ok (some ⟨first.header, fs.flatMap (·.payload)⟩)] := by
  -- While others come the last fragment is missing, so every step keeps the group.
  induction early generalizing s seen with
  | nil =>
      have hf := honly last List.mem_cons_self
      obtain ⟨hg, -⟩ := h.target_gathered hs hf (hage last List.mem_cons_self)
      have hrest : fs ⊆ last.1 :: seen := by
        intro f hf
        rcases hall f hf with hseen | hcame
        · exact List.mem_cons_of_mem _ hseen
        · exact List.mem_cons.mpr (Or.inl (List.mem_singleton.mp hcame))
      exact congrArg (· :: []) (h.valid.insert_last hs hf hg hnew hrest hfirst h0)
  | cons a rest ih =>
      have hf := honly a List.mem_cons_self
      have hlastmem := honly last (List.mem_append_right _ (List.mem_singleton_self last))
      have hunseen : last.1 ∉ a.1 :: seen :=
        List.not_mem_cons_of_ne_of_not_mem (List.ne_of_not_mem_cons hlast) hnew
      have hmissing : ¬ fs ⊆ a.1 :: seen := fun hsub => hunseen (hsub hlastmem)
      obtain ⟨hg, hsince⟩ := h.target_gathered hs hf (hage a List.mem_cons_self)
      obtain ⟨hresult, hnext⟩ := h.valid.insert_early hs hf hg hmissing
      rw [hsince] at hnext
      have hrest := ih hnext (fun b hb => honly b (List.mem_cons_of_mem a hb))
        hunseen (List.not_mem_of_not_mem_cons hlast) ?_ fun b hb => ?_
      · exact insertAll_early hresult hrest
      · intro f hf
        rcases hall f hf with hseen | hcame
        · exact Or.inl (List.mem_cons_of_mem _ hseen)
        · rcases List.mem_cons.mp hcame with rfl | hcame
          · exact Or.inl List.mem_cons_self
          · exact Or.inr hcame
      · rw [ttl_insert]
        exact hage b (List.mem_cons_of_mem a hb)

/-- However the fragments of a packet come, the packet is complete with the last missing one. -/
theorem insertAll_of_completeArrival {early : List (Fragment × Instant)}
    {last : Fragment × Instant} {ttl : Duration} (hs : Series base fs)
    (h : CompleteArrival fs ttl early last) (maxGroups : Nat) (choices : List Nat)
    (hfirst : first ∈ fs) (h0 : first.index = 0) :
    ((empty ttl maxGroups).choosing choices).insertAll
        ((early ++ [last]).map fun a => (a.1.packet, a.2))
      = List.replicate early.length (.ok none)
        ++ [.ok (some ⟨first.header, fs.flatMap (·.payload)⟩)] := by
  have hv := empty_valid ttl maxGroups choices
  have hlastmem := h.only last (List.mem_append_right _ (List.mem_singleton_self last))
  cases early with
  | nil =>
      -- One arrival cannot be all of a series.
      have hsub : fs ⊆ [last.1] := h.all
      have hle := (List.subperm_of_subset hs.nodup hsub).length_le
      exact absurd (Nat.le_trans hs.several hle) (Nat.not_succ_le_self 1)
  | cons a rest =>
      have hf := h.only a List.mem_cons_self
      have hlast : last.1 ∉ a.1 :: rest.map (·.1) := h.last_new
      have hnew : last.1 ∉ [a.1] :=
        List.not_mem_cons_of_ne_of_not_mem (List.ne_of_not_mem_cons hlast) List.not_mem_nil
      have hg : (((empty ttl maxGroups).choosing choices).target a.1 a.2).Gathered fs [] :=
        FragmentGroup.start_gathered hs hf
      obtain ⟨hresult, hnext⟩ := hv.insert_early hs hf hg fun hsub => hnew (hsub hlastmem)
      have hrest := hnext.insertAll_eq hs (fun b hb => h.only b (List.mem_cons_of_mem a hb)) hnew
        (List.not_mem_of_not_mem_cons hlast) ?_ (fun b hb => ?_) hfirst h0
      · exact insertAll_early hresult hrest
      · intro f hf
        rcases List.mem_cons.mp (h.all f hf) with rfl | hcame
        · exact Or.inl List.mem_cons_self
        · exact Or.inr hcame
      · rw [ttl_insert]
        exact h.timely a rfl b (List.mem_cons_of_mem a hb)

end Reassembly

end NamedData
