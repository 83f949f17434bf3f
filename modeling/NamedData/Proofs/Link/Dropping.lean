import NamedData.Proofs.Link.Marking
import NamedData.Proofs.Link.Numbering

/-!
# Parcels that cannot be sent

A parcel is dropped if its header leaves it too little room. The mark of a congested service is part
of the header and is chosen first, so it may be what leaves too little room; and a mark that was
chosen counts as made, even if the parcel is dropped.
-/

namespace NamedData

open Fragmentation

/-! ## What can be cut -/

theorem Fragmentation.exists_packets_iff (r : Request) (next : UInt64) :
    (∃ ps, packets r.payload r.header r.mtu r.fragmentation next = .ok ps)
      ↔ overhead r.header r.fragmentation < r.mtu ∧ (r.fragmentation = true
        ∨ overhead r.header r.fragmentation + r.payload.length ≤ r.mtu) := by
  rw [packets_eq, Request.room]
  obtain ⟨payload, header, mtu, fragmentation⟩ := r
  dsimp only
  split
  · simp only [reduceCtorEq, exists_false, false_iff]
    omega
  · split
    · simp only [Except.ok.injEq, exists_eq', true_iff]
      omega
    · cases fragmentation with
      | false =>
          simp only [Bool.not_false, ↓reduceIte, reduceCtorEq, exists_false, false_iff,
            Bool.false_eq_true, false_or]
          omega
      | true =>
          simp only [Bool.not_true, Bool.false_eq_true, ↓reduceIte, Except.ok.injEq, exists_eq',
            true_iff, true_or, and_true]
          omega

namespace LinkService

variable {l : LinkService} {p : Parcel} {mtu : Nat} {occupancy : UInt64} {now : Instant}

/-- The service marks a parcel that has no mark. -/
def Marks (l : LinkService) (p : Parcel) (occupancy : UInt64) (now : Instant) : Prop :=
  p.congestionMark = none ∧ l.options.congestionMarking = true
    ∧ l.marker.marks occupancy l.options.congestionThreshold l.options.congestionInterval now

instance : Decidable (l.Marks p occupancy now) :=
  inferInstanceAs (Decidable (_ ∧ _ ∧ _))

def markerAfter (l : LinkService) (p : Parcel) (occupancy : UInt64) (now : Instant) :
    CongestionMarker :=
  if l.Marks p occupancy now then ⟨some now⟩ else l.marker

theorem markOf_eq :
    l.markOf p occupancy now = if l.Marks p occupancy now then some 1 else p.congestionMark := by
  cases hmark : p.congestionMark <;> simp [markOf, Marks, hmark]

theorem chooseMark_eq :
    l.chooseMark p occupancy now = (l.markOf p occupancy now, l.markerAfter p occupancy now) := by
  refine Prod.ext chooseMark_fst ?_
  unfold chooseMark
  cases hmark : p.congestionMark with
  | some mark => simp [markerAfter, Marks, hmark]
  | none =>
      by_cases hon : l.options.congestionMarking = true
      · simp only [markerAfter, Marks, hmark, hon, ↓reduceIte, CongestionMarker.consult, true_and]
        split <;> rfl
      · simp [markerAfter, Marks, hon]

/-- A parcel with some mark can be cut for a transmission unit. -/
def Fits (options : LinkOptions) (p : Parcel) (mtu : Nat) (mark : Option UInt64) : Prop :=
  overhead (header options p mark) options.fragmentation < mtu
    ∧ (options.fragmentation = true
      ∨ overhead (header options p mark) options.fragmentation + p.raw.length ≤ mtu)

theorem exists_frames_iff : (∃ frames, (l.frames p mtu occupancy now).1 = .ok frames)
    ↔ Fits l.options p mtu (l.markOf p occupancy now) := by
  refine Iff.trans ?_ (exists_packets_iff
    ⟨p.raw, header l.options p (l.markOf p occupancy now), mtu, l.options.fragmentation⟩
    l.nextSequence)
  unfold LinkService.frames Fragmentation.frames
  rw [chooseMark_eq]
  dsimp only
  cases packets p.raw (header l.options p (l.markOf p occupancy now)) mtu l.options.fragmentation
    l.nextSequence with
  | error e => simp [bind, Except.bind]
  | ok r => simp [bind, Except.bind, pure, Except.pure]

theorem frames_snd_of_error {e : Error} (h : (l.frames p mtu occupancy now).1 = .error e) :
    (l.frames p mtu occupancy now).2 = { l with marker := l.markerAfter p occupancy now } := by
  unfold LinkService.frames at h ⊢
  rw [chooseMark_eq] at h ⊢
  dsimp only at h ⊢
  split at h
  · rfl
  · cases h

end LinkService

namespace Face

variable {f : Face} {l : LinkService} {p : Parcel} {now : Instant}

theorem sendOne_of_error {e : Error} (hup : f.base.state = .up)
    (h : ((l.uncount p).frames p f.base.mtu (l.queuedBytes + f.medium.queued) now).1 = .error e) :
    f.sendOne l p now = { f with
      service := .link { l.uncount p with
        marker := l.markerAfter p (l.queuedBytes + f.medium.queued) now } } := by
  have hleft := LinkService.frames_snd_of_error h
  unfold sendOne sendUncounted
  rw [if_neg (by simp [hup])]
  generalize (l.uncount p).frames p f.base.mtu (l.queuedBytes + f.medium.queued) now = r at h hleft
  obtain ⟨result, left⟩ := r
  cases h
  cases hleft
  rfl

/-- What a parcel that cannot be sent leaves behind: its bytes are no longer counted, and if it was
to be marked, its mark counts as made. So it leaves no trace exactly if its service does not mark
it, or made its last mark at the same time; otherwise the next congested parcel is marked only if
the interval has passed since the one that was dropped. -/
theorem dropped_parcel_leaves_only_mark (f : Face) (l : LinkService) (p : Parcel) (now : Instant)
    (e : Error) (hup : f.base.state = .up)
    (hfail : ((l.uncount p).frames p f.base.mtu (l.queuedBytes + f.medium.queued) now).1
      = .error e) :
    let occupancy := l.queuedBytes + f.medium.queued
    let left := { l.uncount p with marker := l.markerAfter p occupancy now }
    f.sendOne l p now = { f with service := .link left }
      ∧ (left = l.uncount p ↔ ¬ l.Marks p occupancy now ∨ l.marker.lastMark = some now)
      ∧ (l.Marks p occupancy now → ∀ q occupancy' now', left.Marks q occupancy' now'
        ↔ q.congestionMark = none ∧ l.options.congestionThreshold < occupancy'
          ∧ l.options.congestionInterval.nanos ≤ now' - now) := by
  intro occupancy left
  refine ⟨sendOne_of_error hup hfail, ?_, fun hmarks q occupancy' now' => ?_⟩
  · have hsame : left = l.uncount p ↔ l.markerAfter p occupancy now = l.marker :=
      ⟨congrArg LinkService.marker, fun h => by simp only [left, h]; rfl⟩
    rw [hsame, LinkService.markerAfter]
    split
    · rename_i hmarks
      rw [CongestionMarker.mk.injEq]
      simp [hmarks, eq_comm]
    · rename_i hmarks
      simp [hmarks]
  · have hmarker : left.marker = ⟨some now⟩ := if_pos hmarks
    have hoptions : left.options = l.options := rfl
    rw [LinkService.Marks, CongestionMarker.marks_iff, hmarker, hoptions]
    simp [hmarks.2.1]

/-- Nothing is left of a parcel that is too large while the queue is short. -/
theorem dropped_parcel_leaves_nothing_when_calm :
    let p := Parcel.ofPacket (.interest { name := ⟨[.generic (List.replicate 92 97)]⟩ })
    let l := (LinkService.create { fragmentation := false } 1).count p
    let f := withLink { componentBase with mtu := 100 } (.outbox [] 0) l.options {}
    f.base.state = .up
      ∧ ((l.uncount p).frames p f.base.mtu (l.queuedBytes + f.medium.queued) 0).1
        = .error (.packetTooLarge 98 92)
      ∧ f.sendOne l p 0 = { f with service := .link (l.uncount p) } := by
  intro p l f
  have hfail : ((l.uncount p).frames p f.base.mtu (l.queuedBytes + f.medium.queued) 0).1
      = .error (.packetTooLarge 98 92) := by cbv
  obtain ⟨hsend, htrace, -⟩ := dropped_parcel_leaves_only_mark f l p 0 _ rfl hfail
  have hcalm : ¬ l.Marks p (l.queuedBytes + f.medium.queued) 0 := by decide +kernel
  rw [htrace.mpr (.inl hcalm)] at hsend
  exact ⟨rfl, hfail, hsend⟩

/-- A congested parcel that is too large takes the mark of the next one. -/
theorem dropped_parcel_takes_mark_of_next :
    let large := Parcel.ofPacket (.interest { name := ⟨[.generic (List.replicate 92 97)]⟩ })
    let small := Parcel.ofPacket (.interest { name := ⟨[.generic [97]]⟩ })
    let options : LinkOptions :=
      { fragmentation := false, congestionThreshold := 0, congestionInterval := .ofSecs 60 }
    let l := (LinkService.create options 1).count large
    let f := withLink { componentBase with mtu := 100 } (.outbox [] 0) options {}
    f.base.state = .up
      ∧ (∃ e, ((l.uncount large).frames large f.base.mtu (l.queuedBytes + f.medium.queued) 0).1
        = .error e)
      ∧ ∃ left, f.sendOne l large 0 = { f with service := .link left }
        ∧ l.marker.lastMark = none ∧ left.marker.lastMark = some 0
        ∧ (l.uncount large).markOf small 7 1 = some 1 ∧ left.markOf small 7 1 = none := by
  intro large small options l f
  have hfail : ((l.uncount large).frames large f.base.mtu (l.queuedBytes + f.medium.queued) 0).1
      = .error (.packetTooLarge 98 80) := by cbv
  refine ⟨rfl, ⟨_, hfail⟩, _, sendOne_of_error rfl hfail, rfl, ?_, ?_, ?_⟩ <;> decide +kernel

end Face

/-! ## What is sent and what is dropped -/

theorem PacketCounters.countOut_ne (c : PacketCounters) (p : Packet) : c.countOut p ≠ c := by
  have hone : (1 : UInt64) ≠ 0 := by decide
  unfold countOut
  split
  · exact fun h => hone (add_eq_left.mp (congrArg outInterests h))
  · exact fun h => hone (add_eq_left.mp (congrArg outData h))

namespace Face

variable {f : Face} {l : LinkService} {p : Parcel} {now : Instant}

/-- All bytes of a parcel go to the medium, in frames that come in the order of their numbers, and
the parcel is counted as sent. -/
def SendsWhole (f : Face) (l : LinkService) (p : Parcel) (now : Instant) : Prop :=
  ∃ packets l', InOrder l.nextSequence p.raw packets
    ∧ f.sendOne l p now = (packets.map LpPacket.encode).foldl (fun f frame => f.transmit frame now)
        { f with service := .link l', counters := f.counters.countOut p.packet }

/-- Nothing goes to the medium, and the parcel is not counted as sent. -/
def Drops (f : Face) (l : LinkService) (p : Parcel) (now : Instant) : Prop :=
  ∃ l', f.sendOne l p now = { f with service := .link l' }

theorem Drops.not_sendsWhole (h : f.Drops l p now) : ¬ f.SendsWhole l p now := by
  rintro ⟨packets, l', -, hsends⟩
  obtain ⟨left, hdrops⟩ := h
  obtain ⟨medium, outBytes, expiration, hfold⟩ := foldl_transmit_eq
    { f with service := .link l', counters := f.counters.countOut p.packet }
    (packets.map LpPacket.encode) now
  have hsame := congrArg Face.counters (hdrops.symm.trans (hsends.trans hfold))
  exact f.counters.countOut_ne p.packet hsame.symm

theorem sendsWhole_of_fits (hup : f.base.state = .up) (hmtu : f.base.mtu ≤ 0xFFFF)
    (hfits : LinkService.Fits l.options p f.base.mtu
      (l.markOf p (l.queuedBytes + f.medium.queued) now)) : f.SendsWhole l p now := by
  obtain ⟨frames, hframes⟩ := (LinkService.exists_frames_iff (l := l.uncount p)).mpr hfits
  obtain ⟨packets, next, rfl, hcut⟩ := LinkService.cut_of_frames hframes
  exact ⟨packets, _, hcut.inOrder (LinkService.header_plain _ _ _),
    sendOne_of_frames hup hmtu (Prod.ext hframes rfl)⟩

theorem drops_of_not_fits (hup : f.base.state = .up)
    (hfits : ¬ LinkService.Fits l.options p f.base.mtu
      (l.markOf p (l.queuedBytes + f.medium.queued) now)) : f.Drops l p now := by
  cases hframes : ((l.uncount p).frames p f.base.mtu (l.queuedBytes + f.medium.queued) now).1 with
  | error e => exact ⟨_, sendOne_of_error hup hframes⟩
  | ok frames => exact absurd (LinkService.exists_frames_iff.mp ⟨frames, hframes⟩) hfits

/-- The mark that a parcel is sent with decides whether it is sent. -/
theorem sendsWhole_iff (hup : f.base.state = .up) (hmtu : f.base.mtu ≤ 0xFFFF) :
    f.SendsWhole l p now ↔ LinkService.Fits l.options p f.base.mtu
      (l.markOf p (l.queuedBytes + f.medium.queued) now) := by
  refine ⟨fun hsends => ?_, sendsWhole_of_fits hup hmtu⟩
  by_contra hfits
  exact (drops_of_not_fits hup hfits).not_sendsWhole hsends

theorem drops_iff (hup : f.base.state = .up) (hmtu : f.base.mtu ≤ 0xFFFF) :
    f.Drops l p now ↔ ¬ f.SendsWhole l p now := by
  refine ⟨Drops.not_sendsWhole, fun hnot => drops_of_not_fits hup ?_⟩
  rwa [← sendsWhole_iff hup hmtu]

end Face

/-! ## What the load decides -/

namespace LinkService

/-- The header with all fields that a service can give to a parcel. -/
def fullHeader (p : Parcel) : LpPacket :=
  { pitToken := p.pitToken
    congestionMark := some 0
    incomingFaceId := some 0
    cachePolicy := some .noCache }

/-- A parcel that its service may mark and that has room in one frame, but not with the bytes that
are set aside for a mark. -/
structure NearLimit (options : LinkOptions) (p : Parcel) (mtu : Nat) : Prop where
  alone : options.fragmentation = false
  marking : options.congestionMarking = true
  unmarked : p.congestionMark = none
  reachable : options.congestionThreshold < 0xFFFFFFFFFFFFFFFF
  fits : overhead (header options p none) false + p.raw.length ≤ mtu
  full : mtu < overhead (header options p none) false + congestionMarkOverhead + p.raw.length

variable {options : LinkOptions} {p : Parcel} {mtu : Nat}

theorem overhead_header_le_fullHeader (options : LinkOptions) (p : Parcel) (mark : Option UInt64) :
    overhead (header options p mark) options.fragmentation
      ≤ overhead (fullHeader p) options.fragmentation := by
  have hmost (field : Bool) (n : Nat) : (if field then n else 0) ≤ n := by cases field <;> simp
  have hmark := hmost mark.isSome congestionMarkOverhead
  have hincoming := hmost (header options p mark).incomingFaceId.isSome incomingFaceIdOverhead
  have hpolicy := hmost (header options p mark).cachePolicy.isSome cachePolicyOverhead
  exact Nat.add_le_add (Nat.add_le_add (Nat.add_le_add_left hmark _) hincoming) hpolicy

theorem overhead_marked (options : LinkOptions) (p : Parcel) (mark : UInt64) :
    overhead (header options p (some mark)) false
      = overhead (header options p none) false + congestionMarkOverhead := by
  have hsum (first second third : Nat) : first + congestionMarkOverhead + second + third
      = first + 0 + second + third + congestionMarkOverhead := by omega
  exact hsum _ _ _

theorem fits_iff_of_room (hroom : overhead (fullHeader p) options.fragmentation < mtu)
    (mark : Option UInt64) : Fits options p mtu mark ↔ options.fragmentation = true
      ∨ overhead (header options p mark) options.fragmentation + p.raw.length ≤ mtu :=
  and_iff_right (Nat.lt_of_le_of_lt (overhead_header_le_fullHeader options p mark) hroom)

theorem NearLimit.fits_iff (h : NearLimit options p mtu)
    (hroom : overhead (fullHeader p) options.fragmentation < mtu) (mark : Option UInt64) :
    Fits options p mtu mark ↔ mark = none := by
  have hfits := h.fits
  have hfull := h.full
  rw [fits_iff_of_room hroom, h.alone]
  cases mark with
  | none => simp [hfits]
  | some mark =>
      rw [overhead_marked]
      simp only [Bool.false_eq_true, false_or, reduceCtorEq, iff_false]
      omega

/-- Away from the limit it makes no difference whether a service marks a parcel. -/
theorem fits_markOf_iff {l : LinkService} {occupancy : UInt64} {now : Instant}
    (hroom : overhead (fullHeader p) l.options.fragmentation < mtu)
    (h : ¬ NearLimit l.options p mtu) :
    Fits l.options p mtu (l.markOf p occupancy now)
      ↔ Fits l.options p mtu p.congestionMark := by
  rw [markOf_eq]
  split
  · rename_i hmarks
    obtain ⟨hunmarked, hmarking, hmark⟩ := hmarks
    rw [fits_iff_of_room hroom, fits_iff_of_room hroom, hunmarked]
    cases halone : l.options.fragmentation with
    | true => simp
    | false =>
        simp only [Bool.false_eq_true, false_or, overhead_marked]
        refine ⟨fun hle => by omega, fun hfits => Nat.le_of_not_lt fun hfull => h ?_⟩
        -- No occupancy exceeds the largest threshold, so a threshold that was exceeded is smaller.
        have hreachable : l.options.congestionThreshold < 0xFFFFFFFFFFFFFFFF := by
          have hover := (CongestionMarker.marks_iff.mp hmark).1
          have hmost := occupancy.toNat_lt
          have hlargest : (0xFFFFFFFFFFFFFFFF : UInt64).toNat = 2 ^ 64 - 1 := by decide
          rw [UInt64.lt_iff_toNat_lt] at hover ⊢
          omega
        exact ⟨halone, hmarking, hunmarked, hreachable, hfits, hfull⟩
  · rfl

end LinkService

/-- A parcel is to be sent at some time on a face that is up, under some load. -/
structure Situation (options : LinkOptions) (mtu : Nat) where
  face : Face
  service : LinkService
  now : Instant
  up : face.base.state = .up
  mtu_eq : face.base.mtu = mtu
  options_eq : service.options = options

namespace Situation

open LinkService (Fits NearLimit fullHeader)

variable {options : LinkOptions} {p : Parcel} {mtu : Nat}

/-- The bytes that are queued in the service and below it. -/
def occupancy (s : Situation options mtu) : UInt64 :=
  s.service.queuedBytes + s.face.medium.queued

def Marks (s : Situation options mtu) (p : Parcel) : Prop :=
  s.service.Marks p s.occupancy s.now

def Sends (s : Situation options mtu) (p : Parcel) : Prop :=
  s.face.SendsWhole s.service p s.now

def Drops (s : Situation options mtu) (p : Parcel) : Prop :=
  s.face.Drops s.service p s.now

/-- No mark was made so far, and so many bytes are queued. -/
def fresh (options : LinkOptions) (mtu : Nat) (queued : UInt64) : Situation options mtu where
  face := .withLink { Face.componentBase with mtu } (.outbox [] 0) options {}
  service := { LinkService.create options 1 with queuedBytes := queued }
  now := 0
  up := rfl
  mtu_eq := rfl
  options_eq := rfl

theorem sends_iff (s : Situation options mtu) (hmtu : mtu ≤ 0xFFFF) :
    s.Sends p ↔ Fits options p mtu (s.service.markOf p s.occupancy s.now) := by
  obtain ⟨f, l, now, hup, rfl, rfl⟩ := s
  exact Face.sendsWhole_iff hup hmtu

theorem drops_iff (s : Situation options mtu) (hmtu : mtu ≤ 0xFFFF) :
    s.Drops p ↔ ¬ s.Sends p := by
  obtain ⟨f, l, now, hup, rfl, rfl⟩ := s
  exact Face.drops_iff hup hmtu

theorem not_marks_fresh (options : LinkOptions) (mtu : Nat) :
    ¬ (fresh options mtu 0).Marks p := by
  rintro ⟨-, -, hmark⟩
  exact UInt64.not_lt_zero (CongestionMarker.marks_iff.mp hmark).1

theorem marks_fresh (h : NearLimit options p mtu) :
    (fresh options mtu 0xFFFFFFFFFFFFFFFF).Marks p :=
  ⟨h.unmarked, h.marking,
    CongestionMarker.marks_iff.mpr ⟨h.reachable, fun _ hlast => by cases hlast⟩⟩

theorem drops_iff_marks (s : Situation options mtu) (hmtu : mtu ≤ 0xFFFF)
    (hroom : overhead (fullHeader p) options.fragmentation < mtu)
    (h : NearLimit options p mtu) : s.Drops p ↔ s.Marks p := by
  rw [s.drops_iff hmtu, s.sends_iff hmtu, h.fits_iff hroom, LinkService.markOf_eq, h.unmarked]
  unfold Marks
  split <;> simp [*]

/-- A parcel is sent whole or dropped, and the load of the face decides which just if the parcel
comes so near to the limit of a frame that a mark has no room: then it is dropped just if it is
marked. -/
theorem marking_decides_only_near_limit (options : LinkOptions) (p : Parcel) (mtu : Nat)
    (hmtu : mtu ≤ 0xFFFF) (hroom : overhead (fullHeader p) options.fragmentation < mtu) :
    (∀ s : Situation options mtu, s.Drops p ↔ ¬ s.Sends p)
      ∧ ((∀ s t : Situation options mtu, s.Sends p ↔ t.Sends p) ↔ ¬ NearLimit options p mtu)
      ∧ (NearLimit options p mtu → ∀ s : Situation options mtu, s.Drops p ↔ s.Marks p) := by
  refine ⟨fun s => s.drops_iff hmtu, ⟨fun hsame hnear => ?_, fun hfar s t => ?_⟩,
    fun hnear s => s.drops_iff_marks hmtu hroom hnear⟩
  · -- Near the limit an empty queue and the longest one differ.
    have hcalm : (fresh options mtu 0).Sends p := by
      by_contra hdrops
      rw [← drops_iff _ hmtu, drops_iff_marks _ hmtu hroom hnear] at hdrops
      exact not_marks_fresh options mtu hdrops
    have hbusy := (drops_iff_marks _ hmtu hroom hnear).mpr (marks_fresh hnear)
    exact (drops_iff _ hmtu).mp hbusy ((hsame _ _).mp hcalm)
  · -- Elsewhere the mark that the parcel comes with decides, and that is the same under every load.
    have hdecided (s : Situation options mtu) :
        s.Sends p ↔ Fits options p mtu p.congestionMark := by
      rw [s.sends_iff hmtu]
      obtain ⟨f, l, now, -, -, rfl⟩ := s
      exact LinkService.fits_markOf_iff hroom hfar
    rw [hdecided s, hdecided t]

/-- A small parcel is sent under every load or under none. -/
theorem marking_decides_nothing_for_small :
    let options : LinkOptions := { fragmentation := false }
    let p := Parcel.ofPacket (.interest { name := ⟨[.generic [97]]⟩ })
    100 ≤ 0xFFFF ∧ overhead (fullHeader p) options.fragmentation < 100
      ∧ ∀ s t : Situation options 100, s.Sends p ↔ t.Sends p := by
  intro options p
  have hroom : overhead (fullHeader p) options.fragmentation < 100 := by decide
  have hfar : ¬ NearLimit options p 100 := fun h => absurd h.full (by decide)
  obtain ⟨-, hsame, -⟩ := marking_decides_only_near_limit options p 100 (by decide) hroom
  exact ⟨by decide, hroom, hsame.mpr hfar⟩

/-- A parcel of 88 bytes goes in one frame while the queue is short, and is dropped while it is
long. -/
theorem long_queue_drops_parcel :
    let options : LinkOptions := { fragmentation := false }
    let p := Parcel.ofPacket (.interest { name := ⟨[.generic (List.replicate 82 97)]⟩ })
    p.raw.length = 88 ∧ overhead (fullHeader p) options.fragmentation < 100
      ∧ (fresh options 100 88).Sends p ∧ (fresh options 100 70000).Drops p := by
  intro options p
  have hroom : overhead (fullHeader p) options.fragmentation < 100 := by decide
  have hnear : NearLimit options p 100 := ⟨rfl, rfl, rfl, by decide, by decide, by decide⟩
  refine ⟨by decide, hroom, ?_, ?_⟩
  · by_contra hdrops
    rw [← drops_iff _ (by decide), drops_iff_marks _ (by decide) hroom hnear] at hdrops
    exact absurd hdrops.2.2 (by decide)
  · rw [drops_iff_marks _ (by decide) hroom hnear]
    exact ⟨rfl, rfl, by decide⟩

end Situation

end NamedData
