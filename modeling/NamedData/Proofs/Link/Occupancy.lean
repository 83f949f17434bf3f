import NamedData.Proofs.Link.Turns

/-!
# What a face counts as queued

After all turns of the callers and of the sending task, the counter of a face is the sum of the
bytes of the parcels that wait in its queue and of those that somebody has in hand. Whoever takes
bytes back finds them counted, and a parcel is marked for an occupancy that it is part of.
-/

namespace NamedData

/-- The bytes of some parcels. -/
def Parcel.bytes (ps : List Parcel) : Nat :=
  (ps.map (·.raw.length)).sum

namespace Parcel

@[simp] theorem bytes_cons (p : Parcel) (ps : List Parcel) :
    bytes (p :: ps) = p.raw.length + bytes ps := rfl

@[simp] theorem bytes_append (ps qs : List Parcel) : bytes (ps ++ qs) = bytes ps + bytes qs := by
  simp [bytes]

theorem length_le_bytes {p : Parcel} {ps : List Parcel} (h : p ∈ ps) : p.raw.length ≤ bytes ps :=
  List.le_sum_of_mem (List.mem_map_of_mem h)

end Parcel

open Parcel (bytes)

/-! ## The counter of a service -/

namespace LinkService

variable {l : LinkService} {p : Parcel} {rest : List Parcel} {n : Nat}

/-- The service counts what waits in its queue, and `n` bytes elsewhere. -/
def Counts (l : LinkService) (n : Nat) : Prop :=
  l.queuedBytes = UInt64.ofNat (bytes l.queue.items + n)

theorem Counts.count (h : l.Counts n) : (l.count p).Counts (n + p.raw.length) := by
  simp only [Counts, LinkService.count, rawLength] at h ⊢
  rw [h, ← UInt64.ofNat_add, Nat.add_assoc]

theorem Counts.uncount (h : l.Counts (n + p.raw.length)) : (l.uncount p).Counts n := by
  simp only [Counts, LinkService.uncount, rawLength] at h ⊢
  rw [h, ← Nat.add_assoc, UInt64.ofNat_add, UInt64.add_sub_cancel]

theorem Counts.enqueue (h : l.Counts (n + p.raw.length)) :
    Counts { l with queue := l.queue.withItems (l.queue.items ++ [p]) } n := by
  have hbytes : bytes (l.queue.items ++ [p]) = bytes l.queue.items + p.raw.length :=
    Parcel.bytes_append l.queue.items [p]
  simp only [Counts, Channel.items_withItems, hbytes] at h ⊢
  rw [h]
  congr 1
  omega

theorem Counts.take (h : l.Counts n) (hitems : l.queue.items = p :: rest) :
    Counts { l with queue := l.queue.withItems rest } (n + p.raw.length) := by
  simp only [Counts, Channel.items_withItems, hitems, Parcel.bytes_cons] at h ⊢
  rw [h]
  congr 1
  omega

theorem Counts.dropReceiver (h : l.Counts n) :
    Counts { l with queue := l.queue.dropReceiver } (n + bytes l.queue.items) := by
  have hnone : bytes l.queue.dropReceiver.items + (n + bytes l.queue.items)
      = bytes l.queue.items + n := by
    rw [Nat.add_comm n]
    exact Nat.zero_add _
  rw [Counts, hnone]
  exact h

end LinkService

namespace Face

def waiting (f : Face) : List Parcel :=
  match f.service with
  | .discard => []
  | .link l => l.queue.items

def countedBytes (f : Face) : UInt64 :=
  match f.service with
  | .discard => 0
  | .link l => l.queuedBytes

def Counts (f : Face) (n : Nat) : Prop :=
  ∃ l, f.service = .link l ∧ l.Counts n

theorem Counts.countedBytes_eq {f : Face} {n : Nat} (h : f.Counts n) :
    f.countedBytes = UInt64.ofNat (bytes f.waiting + n) := by
  obtain ⟨l, hlink, h⟩ := h
  simp only [countedBytes, waiting, hlink]
  exact h

theorem Counts.queueSize_eq {f : Face} {n : Nat} (h : f.Counts n) :
    f.queueSize = f.countedBytes + f.medium.queued := by
  obtain ⟨l, hlink, -⟩ := h
  simp only [queueSize, countedBytes, hlink]

end Face

/-! ## Each step keeps the balance -/

theorem Producer.counts_step {f : Face} {q : Producer} {n : Nat}
    (h : f.Counts (n + bytes q.held)) :
    (q.step f).1.Counts (n + bytes (q.step f).2.held) := by
  obtain ⟨l, hlink, h⟩ := h
  generalize hr : q.step f = r
  have hstep : Step f l q r := hr ▸ steps hlink q
  cases hstep with
  | done => exact ⟨l, hlink, h⟩
  | count p => exact ⟨l.count p, rfl, h.count⟩
  | enqueue p => exact ⟨_, rfl, h.enqueue⟩
  | refuse => exact ⟨l, hlink, h⟩
  | uncount p => exact ⟨l.uncount p, rfl, h.uncount⟩

theorem Outlet.Stage.counts_advance {o : Outlet} {n : Nat} (hstage : o.Stage)
    (h : o.face.Counts (n + bytes o.held)) (now : Instant) :
    (o.advance now).face.Counts (n + bytes (o.advance now).held) := by
  obtain ⟨face, round, lost⟩ := o
  obtain ⟨l, hlink, h⟩ := h
  generalize hnext : Outlet.advance ⟨face, round, lost⟩ now = next
  have hstep : Step ⟨face, round, lost⟩ l next := hnext ▸ steps hlink now
  cases hstep with
  | stay => exact ⟨l, hlink, h⟩
  | quit hrunning hround =>
      cases hround
      cases hstage.lost_eq_nil fun hended => by cases hrunning.symm.trans hended
      exact ⟨_, Face.endSender_link hlink, h.dropReceiver⟩
  | @take p rest _ hround _ hitems =>
      cases hround
      refine ⟨_, rfl, ?_⟩
      have htaken := h.take hitems
      rwa [Nat.add_assoc, Nat.add_comm (bytes _)] at htaken
  | measure hround =>
      cases hround
      exact ⟨l, hlink, h⟩
  | @uncount p occupancy hround =>
      cases hround
      refine ⟨l.uncount p, rfl, LinkService.Counts.uncount ?_⟩
      rwa [Nat.add_assoc, Nat.add_comm (bytes _)]
  | @send p occupancy now hround =>
      cases hround
      obtain ⟨l', medium, counters, outBytes, expiration, hface, -, hqueue, hcounted⟩ :=
        face.sendUncounted_eq l p occupancy now
      rw [hface]
      refine ⟨l', rfl, ?_⟩
      rw [LinkService.Counts, hqueue, hcounted]
      exact h

namespace Traffic

variable {ι : Type} [Fintype ι] {w : Traffic ι}

/-- The bytes that wait, and those that somebody has in hand. -/
def total (w : Traffic ι) : Nat :=
  bytes w.shared.face.waiting + (bytes w.shared.held + ∑ i, bytes (w.parties i).held)

/-- The counter is the total. -/
def Balanced (w : Traffic ι) : Prop :=
  w.shared.Stage ∧ w.shared.face.Counts (bytes w.shared.held + ∑ i, bytes (w.parties i).held)

/-- The total, and what waits below the face, fit in the numbers that count them. -/
def Fits (w : Traffic ι) : Prop :=
  w.total + w.shared.face.medium.queued.toNat < UInt64.size

theorem balanced_opened (base : FaceBase) (medium : Medium) (options : LinkOptions)
    (config : Config) (parcels : ι → List Parcel) :
    (opened base medium options config parcels).Balanced := by
  refine ⟨stage_opened base medium options config parcels, .create options config.queueSize, rfl,
    ?_⟩
  simp [opened, Outlet.held, Round.held, Producer.held, LinkService.Counts, LinkService.create,
    Channel.empty, bytes]

theorem Balanced.countedBytes_eq (h : w.Balanced) :
    w.shared.face.countedBytes = UInt64.ofNat w.total :=
  h.2.countedBytes_eq

theorem Balanced.toNat_countedBytes (h : w.Balanced) (hfits : w.Fits) :
    w.shared.face.countedBytes.toNat = w.total := by
  unfold Fits at hfits
  rw [h.countedBytes_eq, UInt64.toNat_ofNat_of_lt' (by omega)]

theorem Balanced.toNat_queueSize (h : w.Balanced) (hfits : w.Fits) :
    w.shared.face.queueSize.toNat = w.total + w.shared.face.medium.queued.toNat := by
  rw [h.2.queueSize_eq, UInt64.toNat_add, h.toNat_countedBytes hfits, Nat.mod_eq_of_lt hfits]

theorem length_le_total_of_call {i : ι} {p : Parcel} (h : p ∈ (w.parties i).held) :
    p.raw.length ≤ w.total := by
  have hown := Parcel.length_le_bytes h
  have hall := Finset.single_le_sum (fun j _ => Nat.zero_le (bytes (w.parties j).held))
    (Finset.mem_univ i)
  unfold total
  omega

theorem length_le_total_of_round {p : Parcel} (h : p ∈ w.shared.round.held) :
    p.raw.length ≤ w.total := by
  have hown := Parcel.length_le_bytes (List.mem_append_left w.shared.lost h)
  unfold total Outlet.held
  omega

variable [DecidableEq ι]

theorem Balanced.call (h : w.Balanced) (i : ι) : (w.take (.call i)).Balanced := by
  obtain ⟨hstage, h⟩ := h
  refine ⟨stage_take hstage (.call i), ?_⟩
  -- All but the caller whose turn it is hold the same as before.
  have hsum : ∑ j, bytes ((w.turn Outlet.call i).parties j).held + bytes (w.parties i).held
      = ∑ j, bytes (w.parties j).held + bytes ((w.parties i).step w.shared.face).2.held :=
    Joint.sum_turn (fun q => bytes q.held) w i
  obtain ⟨rest, hrest⟩ := Nat.exists_eq_add_of_le
    (Finset.single_le_sum (fun j _ => Nat.zero_le (bytes (w.parties j).held)) (Finset.mem_univ i))
  have hbefore : bytes w.shared.held + ∑ j, bytes (w.parties j).held
      = bytes w.shared.held + rest + bytes (w.parties i).held := by omega
  have hafter : bytes w.shared.held + ∑ j, bytes ((w.turn Outlet.call i).parties j).held
      = bytes w.shared.held + rest + bytes ((w.parties i).step w.shared.face).2.held := by omega
  rw [hbefore] at h
  have hnext := Producer.counts_step h
  rw [← hafter] at hnext
  exact hnext

theorem Balanced.take (h : w.Balanced) (t : Turn ι) : (w.take t).Balanced := by
  cases t with
  | call i => exact h.call i
  | round now =>
      obtain ⟨hstage, h⟩ := h
      rw [Nat.add_comm] at h
      have hnext := hstage.counts_advance h now
      rw [Nat.add_comm] at hnext
      exact ⟨stage_take hstage (.round now), hnext⟩
  | start =>
      obtain ⟨hstage, l, hlink, h⟩ := h
      refine ⟨stage_take hstage .start, l, ?_, h⟩
      simp only [Traffic.take]
      rw [Face.start_link hlink]
      split <;> exact hlink
  | move mover target =>
      obtain ⟨hstage, l, hlink, h⟩ := h
      refine ⟨stage_take hstage (.move mover target), l, ?_, h⟩
      obtain ⟨base, medium, lifecycle, hmove, -⟩ := Face.move_link hlink mover target
      simp only [Traffic.take, hmove]
      exact hlink

theorem Balanced.after (h : w.Balanced) (turns : List (Turn ι)) : (w.after turns).Balanced :=
  after_induction (fun _ t hw => hw.take t) h turns

/-! ## The occupancy of a round -/

/-- The occupancy that a parcel is marked for includes the parcel. -/
def Inclusive (w : Traffic ι) : Prop :=
  ∀ p occupancy, w.shared.round.marking? = some (p, occupancy) → p.raw.length ≤ occupancy.toNat

theorem Inclusive.take (h : w.Inclusive) (hw : w.Balanced) (hfits : w.Fits) (t : Turn ι) :
    (w.take t).Inclusive := by
  cases t with
  | call i => exact h
  | start => exact h
  | move mover target => exact h
  | round now =>
      obtain ⟨l, hlink, -⟩ := hw.2
      generalize hnext : w.shared.advance now = next
      have hstep : Outlet.Step w.shared l next := hnext ▸ Outlet.steps hlink now
      intro p occupancy hp
      simp only [Traffic.take, hnext] at hp
      cases hstep with
      | stay => exact h p occupancy hp
      | quit => exact h p occupancy hp
      | take => cases hp
      | @measure q hround =>
          cases hp
          rw [hw.toNat_queueSize hfits]
          have hle := length_le_total_of_round (w := w) (p := p) (by simp [hround, Round.held])
          omega
      | uncount hround =>
          cases hp
          exact h p occupancy (by simp [hround, Round.marking?])
      | send => cases hp

def FitsAlong (w : Traffic ι) (turns : List (Turn ι)) : Prop :=
  ∀ before, before <+: turns → (w.after before).Fits

theorem Inclusive.after (h : w.Inclusive) (hw : w.Balanced) (turns : List (Turn ι))
    (hfits : w.FitsAlong turns) : (w.after turns).Inclusive := by
  induction turns using List.reverseRecOn with
  | nil => exact h
  | append_singleton turns t ih =>
      have hbefore : w.FitsAlong turns := fun before hpre =>
        hfits before (hpre.trans (List.prefix_append turns [t]))
      rw [Traffic.after, List.foldl_concat]
      exact (ih hbefore).take (hw.after turns) (hfits turns (List.prefix_append turns [t])) t

end Traffic

/-! ## All turns -/

/-- After all turns of the callers and the sending task, with starts and changes of state in
between, the counter is the sum of the bytes of the parcels that wait, of those that were counted
and are not in the queue yet or any more, and of those that the sending task left behind when it
ended. While the sums fit in 64 bits, nothing is taken back that is not counted, and the occupancy
that a parcel is marked for is at least its own length. -/
theorem countedBytes_is_total {ι : Type} [DecidableEq ι] [Fintype ι] (base : FaceBase)
    (medium : Medium) (options : LinkOptions) (config : Config) (parcels : ι → List Parcel)
    (turns : List (Turn ι)) :
    let start := Traffic.opened base medium options config parcels
    let w := start.after turns
    let counter := w.shared.face.countedBytes
    let total := bytes w.shared.face.waiting + ∑ i, bytes (w.parties i).held
      + bytes w.shared.round.held + bytes w.shared.lost
    counter = UInt64.ofNat total
      ∧ (w.shared.face.sender ≠ .ended → w.shared.lost = []
        ∧ (w.shared.face.waiting = [] → (∀ i, (w.parties i).held = []) → w.shared.round.held = [] →
          counter = 0))
      ∧ (start.FitsAlong turns →
        counter.toNat = total
          ∧ (∀ i, ∀ p ∈ (w.parties i).held, p.raw.length ≤ counter.toNat)
          ∧ (∀ p ∈ w.shared.round.held, p.raw.length ≤ counter.toNat)
          ∧ ∀ p occupancy, w.shared.round.marking? = some (p, occupancy) →
            p.raw.length ≤ occupancy.toNat) := by
  intro start w counter total
  have hstart : start.Balanced := Traffic.balanced_opened base medium options config parcels
  have hw : w.Balanced := hstart.after turns
  have htotal : w.total = total := by
    simp only [Traffic.total, Outlet.held, Parcel.bytes_append, total]
    omega
  have hcounter : counter = UInt64.ofNat total := htotal ▸ hw.countedBytes_eq
  refine ⟨hcounter, fun hsender => ?_, fun hfits => ?_⟩
  · have hlost := hw.1.lost_eq_nil hsender
    refine ⟨hlost, fun hwaiting hcalls hround => ?_⟩
    rw [hcounter]
    simp [total, hlost, hwaiting, hround, hcalls, bytes]
  · have hexact : counter.toNat = w.total := hw.toNat_countedBytes (hfits turns List.prefix_rfl)
    have hopened : start.Inclusive := fun p occupancy h => by cases h
    refine ⟨hexact.trans htotal, fun i p hp => ?_, fun p hp => ?_,
      hopened.after hstart turns hfits⟩
    · rw [hexact]
      exact Traffic.length_le_total_of_call hp
    · rw [hexact]
      exact Traffic.length_le_total_of_round hp

/-- Two callers send three bytes and two to a queue with one place. The first parcel is measured
while the second, which was refused, is still counted; in the end nothing is. -/
theorem countedBytes_is_total_of_two :
    let small (raw : Bytes) : Parcel := { raw, packet := .interest { name := ⟨[]⟩ } }
    let start := Traffic.opened Face.componentBase .null {} { queueSize := 1 } fun i : Fin 2 =>
      if i = 0 then [small [1, 2, 3]] else [small [4, 5]]
    let turns : List (Turn (Fin 2)) :=
      [.start, .call 0, .call 1, .call 0, .call 1, .round 0, .round 0]
    let w := start.after turns
    let last := start.after (turns ++ [.call 1, .round 0, .round 0])
    start.FitsAlong turns
      ∧ w.shared.face.countedBytes.toNat = 5
      ∧ (w.parties 1).held = [small [4, 5]] ∧ 2 ≤ w.shared.face.countedBytes.toNat
      ∧ w.shared.round.marking? = some (small [1, 2, 3], 5) ∧ 3 ≤ (5 : UInt64).toNat
      ∧ last.shared.face.sender ≠ .ended ∧ last.shared.lost = []
      ∧ last.shared.face.countedBytes = 0 := by
  intro small start turns w last
  have hfits : start.FitsAlong turns := by
    have hall : ∀ before ∈ turns.inits,
        (start.after before).total + (start.after before).shared.face.medium.queued.toNat
          < UInt64.size := by decide +kernel
    exact fun before hbefore => hall before ((List.mem_inits before turns).mpr hbefore)
  have hheld : (w.parties 1).held = [small [4, 5]] := by cbv
  have hmarking : w.shared.round.marking? = some (small [1, 2, 3], 5) := by cbv
  have hrunning : last.shared.face.sender ≠ .ended := by decide +kernel
  obtain ⟨-, -, hwhole⟩ := countedBytes_is_total Face.componentBase .null {} { queueSize := 1 }
    (fun i : Fin 2 => if i = 0 then [small [1, 2, 3]] else [small [4, 5]]) turns
  obtain ⟨htotal, hcalls, -, hoccupancy⟩ := hwhole hfits
  obtain ⟨-, hserving, -⟩ := countedBytes_is_total Face.componentBase .null {} { queueSize := 1 }
    (fun i : Fin 2 => if i = 0 then [small [1, 2, 3]] else [small [4, 5]])
    (turns ++ [.call 1, .round 0, .round 0])
  obtain ⟨hlost, hnone⟩ := hserving hrunning
  have hwaiting : last.shared.face.waiting = [] := by cbv
  have hidle : ∀ i, (last.parties i).held = [] := by decide +kernel
  have hround : last.shared.round.held = [] := by cbv
  refine ⟨hfits, htotal.trans (by decide +kernel), hheld, hcalls 1 (small [4, 5]) ?_, hmarking,
    hoccupancy _ _ hmarking, hrunning, hlost, hnone hwaiting hidle hround⟩
  rw [hheld]
  exact List.mem_singleton_self _

end NamedData
