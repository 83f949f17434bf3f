import NamedData.Proofs.Reassembly.Isolation

/-!
# Making room

A fragment that begins a group while the store is full takes the place of an oldest group, whether
or not it is kept then; if several are equally old, it may be any of them. No other insert does
anything to a group of another base but let it expire.
-/

namespace NamedData.Reassembly

variable {s : Reassembly} {p : LpPacket} {f : Fragment} {base : UInt64} {now : Instant}

/-- The group of a base, unless it has expired. -/
def unexpired? (s : Reassembly) (now : Instant) (base : UInt64) : Option FragmentGroup :=
  (s.group? base).filter fun g => now - g.created < s.ttl.nanos

theorem Valid.group?_unexpired (h : s.Valid) (now : Instant) (base : UInt64) :
    (s.evictExpired now).group? base = s.unexpired? now base :=
  group?_evictExpired h.distinct

/-! ## The oldest group -/

theorem Valid.evictOldest_eq (h : s.Valid) (hpos : 0 < s.size) :
    ∃ base g, s.group? base = some g
      ∧ s.evictOldest = (s.erase base).choosing s.choices.tail
      ∧ ∀ b g', s.group? b = some g' → g.created ≤ g'.created := by
  rcases s.evictOldest_cases with ⟨hnone, -⟩ | ⟨base, hbase, hevict⟩
  · simp [size, hnone] at hpos
  · obtain ⟨g, hg, hle⟩ := mem_oldest.mp hbase
    exact ⟨base, g, Keyed.lookup_of_mem h.distinct hg, hevict,
      fun b g' hg' => hle (b, g') (Keyed.mem_of_lookup hg')⟩

theorem exists_choice_evictOldest (s : Reassembly) (hbase : base ∈ oldest s.groups) :
    ∃ choice, (s.choosing [choice]).evictOldest = (s.erase base).choosing [] := by
  obtain ⟨choice, hlt, hat⟩ := List.getElem_of_mem hbase
  refine ⟨choice, ?_⟩
  rw [evictOldest]
  dsimp only [choosing, List.headD_cons]
  rw [Nat.mod_eq_of_lt hlt, List.getElem?_eq_getElem hlt, hat]
  rfl

/-! ## Inserts into a full store -/

/-- In a full store, the place of a new group is that of an oldest one. -/
theorem Valid.roomFor_of_crowded (h : s.Valid)
    (hnew : (s.evictExpired now).group? f.base = none)
    (hfull : s.maxGroups ≤ (s.evictExpired now).size) :
    ∃ oldest g, s.unexpired? now oldest = some g
      ∧ (∀ b, (s.roomFor f now).group? b = ((s.evictExpired now).erase oldest).group? b)
      ∧ ∀ b g', s.unexpired? now b = some g' → g.created ≤ g'.created := by
  have hunexpired := h.evictExpired now
  obtain ⟨oldest, g, hg, hevict, hle⟩ :=
    hunexpired.evictOldest_eq (Nat.lt_of_lt_of_le h.room hfull)
  have hroom : s.roomFor f now = (s.evictExpired now).evictOldest := by
    rw [Reassembly.roomFor, hnew]
    exact if_pos hfull
  refine ⟨oldest, g, h.group?_unexpired now oldest ▸ hg, fun b => ?_, ?_⟩
  · rw [hroom, hevict]
    rfl
  · exact fun b g' hg' => hle b g' (h.group?_unexpired now b ▸ hg')

/-- A fragment of a new group is refused if it alone is larger than a packet, and only then. -/
theorem accept_new_eq_error_iff (hnew : (s.evictExpired now).group? f.base = none) :
    (∃ e, (s.accept f now).1 = .error e) ↔ maxPacketSize < f.payload.length := by
  have htarget : s.target f now = .start f.count now := by simp [target, hnew]
  have htotal : ((s.target f now).add f).totalLength = f.payload.length := by
    simp [htarget, FragmentGroup.start, FragmentGroup.add]
  have houtcome := accept_outcome s f now
  generalize s.accept f now = r at houtcome ⊢
  cases houtcome with
  | mismatch found differs => simp [hnew] at found
  | duplicate found agrees old => simp [hnew] at found
  | tooLarge agrees new large => exact iff_of_true ⟨_, rfl⟩ (htotal ▸ large)
  | complete agrees new fits full => exact iff_of_false (by simp) (Nat.not_lt.mpr (htotal ▸ fits))
  | kept agrees new fits partly => exact iff_of_false (by simp) (Nat.not_lt.mpr (htotal ▸ fits))

theorem Valid.accept_crowded (h : s.Valid) (hnew : (s.evictExpired now).group? f.base = none)
    (hfull : s.maxGroups ≤ (s.evictExpired now).size) :
    ∃ oldest g, oldest ≠ f.base ∧ s.unexpired? now oldest = some g
      ∧ (∀ b g', s.unexpired? now b = some g' → g.created ≤ g'.created)
      ∧ ∀ b, b ≠ f.base → (s.accept f now).2.group? b
        = if b = oldest then none else s.unexpired? now b := by
  obtain ⟨oldest, g, hg, hroom, hle⟩ := h.roomFor_of_crowded hnew hfull
  refine ⟨oldest, g, ?_, hg, hle, fun b hb => ?_⟩
  · rintro rfl
    rw [h.group?_unexpired, hg] at hnew
    cases hnew
  · rw [h.group?_accept_of_ne hb, hroom, group?_erase (h.evictExpired now).distinct,
      h.group?_unexpired]

/-- Each of the oldest groups may be the one whose place is taken. -/
theorem Valid.exists_choice (h : s.Valid) (hp : Fragment.ofPacket p = .ok f)
    (hcrowded : s.Crowded p now) {g : FragmentGroup} (hg : s.unexpired? now base = some g)
    (hle : ∀ b g', s.unexpired? now b = some g' → g.created ≤ g'.created) :
    ∃ choice, ((s.choosing [choice]).insert p now).2.group? base = none := by
  obtain ⟨f', hp', hnew, hfull⟩ := hcrowded
  obtain rfl : f' = f := Except.ok.inj (hp'.symm.trans hp)
  have hunexpired := h.evictExpired now
  have hfound : (s.evictExpired now).group? base = some g := (h.group?_unexpired now base).trans hg
  have hoff : base ≠ f'.base := by
    rintro rfl
    cases hnew.symm.trans hfound
  have hbase : base ∈ oldest (s.evictExpired now).groups := by
    refine mem_oldest.mpr ⟨g, Keyed.mem_of_lookup hfound, fun e he => hle e.1 e.2 ?_⟩
    rw [← h.group?_unexpired]
    exact Keyed.lookup_of_mem hunexpired.distinct he
  obtain ⟨choice, hevict⟩ := exists_choice_evictOldest _ hbase
  refine ⟨choice, ?_⟩
  -- But for its choices, the store is the same.
  have hs : (s.choosing [choice]).Valid := h.of_sublist (List.Sublist.refl _) rfl
  have hroom : (s.choosing [choice]).roomFor f' now
      = ((s.evictExpired now).erase base).choosing [] := by
    rw [← hevict, Reassembly.roomFor]
    have hnone : ((s.choosing [choice]).evictExpired now).group? f'.base = none := hnew
    rw [hnone]
    exact if_pos hfull
  rw [insert_of_ok hp, hs.group?_accept_of_ne hoff, hroom]
  exact (group?_erase hunexpired.distinct).trans (if_pos rfl)

/-- A link packet that cannot be placed changes nothing. Any other leaves the unexpired groups of
other bases as they were, unless it begins a group while the store is full of such groups: then
exactly one of them goes, which may be any of the oldest. The link packet is accepted then, or it is
refused because it alone is larger than a packet. -/
theorem group_goes_only_when_crowded (ttl : Duration) (maxGroups : Nat) (choices : List Nat)
    (calls : List Call) (p : LpPacket) (now : Instant) :
    let s := ((empty ttl maxGroups).choosing choices).run calls
    let result := (s.insert p now).1
    let after := (s.insert p now).2
    (∀ e, Fragment.ofPacket p = .error e → result = .error e ∧ after = s)
      ∧ ∀ f, Fragment.ofPacket p = .ok f →
        (¬ s.Crowded p now → ∀ b, b ≠ f.base → after.group? b = s.unexpired? now b)
        ∧ (s.Crowded p now →
          s.unexpired? now f.base = none ∧ (s.evictExpired now).size = max maxGroups 1
            ∧ (∃ oldest g, oldest ≠ f.base ∧ s.unexpired? now oldest = some g
              ∧ (∀ b g', s.unexpired? now b = some g' → g.created ≤ g'.created)
              ∧ ∀ b, b ≠ f.base → after.group? b = if b = oldest then none else s.unexpired? now b)
            ∧ (∀ oldest g, s.unexpired? now oldest = some g →
              (∀ b g', s.unexpired? now b = some g' → g.created ≤ g'.created) →
                ∃ choice, ((s.choosing [choice]).insert p now).2.group? oldest = none)
            ∧ ((∃ e, result = .error e) ↔ maxPacketSize < f.payload.length)) := by
  intro s result after
  have hs : s.Valid := (empty_valid ttl maxGroups choices).run calls
  have hmax : s.maxGroups = max maxGroups 1 := maxGroups_run _ calls
  refine ⟨fun e hp => ?_, fun f hp => ⟨fun hroomy b hb => ?_, ?_⟩⟩
  · have hinsert : s.insert p now = (.error e, s) := insert_of_error hp
    exact ⟨congrArg Prod.fst hinsert, congrArg Prod.snd hinsert⟩
  · have hinsert : after = (s.accept f now).2 := congrArg Prod.snd (insert_of_ok hp)
    rw [hinsert, hs.group?_accept_of_ne hb, roomFor_of_not_crowded hp hroomy, hs.group?_unexpired]
  · intro hcrowded
    have hany : ∀ oldest g, s.unexpired? now oldest = some g →
        (∀ b g', s.unexpired? now b = some g' → g.created ≤ g'.created) →
        ∃ choice, ((s.choosing [choice]).insert p now).2.group? oldest = none :=
      fun _ _ hg hle => hs.exists_choice hp hcrowded hg hle
    obtain ⟨f', hp', hnew, hfull⟩ := hcrowded
    obtain rfl : f' = f := Except.ok.inj (hp'.symm.trans hp)
    have hinsert : s.insert p now = s.accept f' now := insert_of_ok hp
    have hsize := (hs.evictExpired now).size_le
    rw [maxGroups_evictExpired] at hsize
    refine ⟨hs.group?_unexpired now f'.base ▸ hnew, ?_, ?_, hany, ?_⟩
    · exact hmax ▸ Nat.le_antisymm hsize hfull
    · have hcrowded := hs.accept_crowded hnew hfull
      rwa [← hinsert] at hcrowded
    · have hrefused := accept_new_eq_error_iff hnew
      rwa [← hinsert] at hrefused

/-- A fragment that is refused because of its size takes the place of the only group. -/
theorem refused_fragment_takes_place :
    let s := (empty (.saturating 10) 1).run [.insert (half 5 0 1) 0]
    let p : LpPacket := { half 20 0 0 with fragment := some (List.replicate 8801 0) }
    s.unexpired? 1 5 = some ⟨2, some { half 5 0 1 with fragment := none }, [(0, [1])], 1, 0⟩
      ∧ (s.insert p 1).1 = .error (.packetTooLarge 8801 8800)
      ∧ (s.insert p 1).2.group? 5 = none := by
  decide +kernel

end NamedData.Reassembly
