import NamedData.Face.Basic
import NamedData.Proofs.Link.Fragments

/-!
# What a face sends

The frames of a parcel are those of its link packets, and all of them go to the medium.
-/

namespace NamedData

open Fragmentation

namespace LinkService

variable {l : LinkService} {p : Parcel} {mtu : Nat} {occupancy : UInt64} {now : Instant}

/-- The mark that a parcel is sent with. -/
def markOf (l : LinkService) (p : Parcel) (occupancy : UInt64) (now : Instant) : Option UInt64 :=
  p.congestionMark.or
    (if l.options.congestionMarking ∧ l.marker.marks occupancy l.options.congestionThreshold
        l.options.congestionInterval now then some 1 else none)

@[simp] theorem options_uncount : (l.uncount p).options = l.options := rfl

theorem chooseMark_fst : (l.chooseMark p occupancy now).1 = l.markOf p occupancy now := by
  unfold chooseMark markOf
  cases p.congestionMark with
  | some mark => rfl
  | none =>
      by_cases hon : l.options.congestionMarking = true
      · simp only [hon, ↓reduceIte, CongestionMarker.consult, true_and, Option.none_or]
        split <;> rfl
      · simp [hon]

theorem header_plain (options : LinkOptions) (p : Parcel) (mark : Option UInt64) :
    PlainHeader (header options p mark) :=
  ⟨⟨rfl, rfl, rfl, rfl⟩, rfl, rfl, rfl⟩

theorem cut_of_frames {frames : List Bytes} (h : (l.frames p mtu occupancy now).1 = .ok frames) :
    ∃ packets next, frames = packets.map LpPacket.encode
      ∧ Cut p.raw (header l.options p (l.markOf p occupancy now)) mtu l.options.fragmentation
        l.nextSequence (packets, next) := by
  unfold LinkService.frames at h
  rw [← chooseMark_fst]
  generalize l.chooseMark p occupancy now = chosen at h ⊢
  obtain ⟨mark, marker⟩ := chosen
  dsimp only at h ⊢
  cases hpackets : packets p.raw (header l.options p mark) mtu l.options.fragmentation
      l.nextSequence with
  | error e =>
      rw [Fragmentation.frames, hpackets] at h
      cases h
  | ok r =>
      rw [Fragmentation.frames, hpackets] at h
      obtain ⟨packets, next⟩ := r
      cases h
      exact ⟨packets, next, rfl, packets_cut hpackets⟩

theorem mtu_le_of_frames_eq_error {e : Error} (hon : l.options.fragmentation = true)
    (h : (l.frames p mtu occupancy now).1 = .error e) :
    mtu ≤ overhead (header l.options p (l.markOf p occupancy now)) true := by
  unfold LinkService.frames at h
  rw [← chooseMark_fst]
  generalize l.chooseMark p occupancy now = chosen at h ⊢
  obtain ⟨mark, marker⟩ := chosen
  dsimp only at h ⊢
  rw [hon] at h
  cases hpackets : packets p.raw (header l.options p mark) mtu true l.nextSequence with
  | error e' => exact mtu_le_of_packets_eq_error hpackets
  | ok r =>
      rw [Fragmentation.frames, hpackets] at h
      cases h

theorem kept_of_frames : (l.frames p mtu occupancy now).2.options = l.options
    ∧ (l.frames p mtu occupancy now).2.queue = l.queue
    ∧ (l.frames p mtu occupancy now).2.queuedBytes = l.queuedBytes := by
  unfold LinkService.frames
  dsimp only
  split <;> exact ⟨rfl, rfl, rfl⟩

theorem length_le_of_frames {frames : List Bytes} (hmtu : mtu ≤ 0xFFFF)
    (h : (l.frames p mtu occupancy now).1 = .ok frames) : ∀ frame ∈ frames, frame.length ≤ mtu := by
  obtain ⟨packets, next, rfl, hcut⟩ := cut_of_frames h
  intro frame hframe
  obtain ⟨q, hq, rfl⟩ := List.mem_map.mp hframe
  exact hcut.encode_le (header_plain _ _ _) hmtu q hq

end LinkService

namespace Medium

/-- The medium after it was given some frames, one after the other. -/
def transmitAll (m : Medium) (frames : List Bytes) (mtu : Nat) : Medium :=
  frames.foldl (fun m frame => (m.transmit frame mtu).2) m

theorem transmitAll_outbox (sent frames : List Bytes) (queued : UInt64) (mtu : Nat) :
    (outbox sent queued).transmitAll frames mtu = outbox (sent ++ frames) queued := by
  unfold transmitAll
  induction frames generalizing sent with
  | nil => rw [List.append_nil, List.foldl_nil]
  | cons frame rest ih =>
      rw [List.foldl_cons, transmit, ih, List.append_assoc, List.singleton_append]

end Medium

namespace Face

/-- All that a frame leaves behind it in a face. -/
theorem transmit_eq (f : Face) (frame : Bytes) (now : Instant) :
    ∃ medium outBytes expiration, f.transmit frame now
      = { f with medium := medium, base := { f.base with
          outBytes := outBytes, expiration := expiration } } := by
  simp only [transmit]
  split
  · unfold FaceBase.recordOut FaceBase.refresh
    split <;> exact ⟨_, _, _, rfl⟩
  · exact ⟨_, f.base.outBytes, f.base.expiration, rfl⟩

theorem foldl_transmit_eq (f : Face) (frames : List Bytes) (now : Instant) :
    ∃ medium outBytes expiration, frames.foldl (fun f frame => f.transmit frame now) f
      = { f with medium := medium, base := { f.base with
          outBytes := outBytes, expiration := expiration } } := by
  induction frames generalizing f with
  | nil => exact ⟨f.medium, f.base.outBytes, f.base.expiration, rfl⟩
  | cons frame rest ih =>
      obtain ⟨medium, outBytes, expiration, hframe⟩ := f.transmit_eq frame now
      obtain ⟨medium', outBytes', expiration', hrest⟩ := ih (f.transmit frame now)
      refine ⟨medium', outBytes', expiration', ?_⟩
      rw [List.foldl_cons, hrest, hframe]

/-- All that a parcel leaves behind it in a face, once it is no longer counted. -/
theorem sendUncounted_eq (f : Face) (l : LinkService) (p : Parcel) (occupancy : UInt64)
    (now : Instant) :
    ∃ l' medium counters outBytes expiration, f.sendUncounted l p occupancy now
        = { f with
            service := .link l', medium := medium, counters := counters
            base := { f.base with outBytes := outBytes, expiration := expiration } }
      ∧ l'.options = l.options ∧ l'.queue = l.queue ∧ l'.queuedBytes = l.queuedBytes := by
  have hkept := @LinkService.kept_of_frames l p f.base.mtu occupancy now
  unfold sendUncounted
  dsimp only
  split
  · exact ⟨l, f.medium, f.counters, f.base.outBytes, f.base.expiration, rfl, rfl, rfl, rfl⟩
  · split
    · rename_i l' hframes
      rw [hframes] at hkept
      exact ⟨l', f.medium, f.counters, f.base.outBytes, f.base.expiration, rfl, hkept⟩
    · rename_i frames l' hframes
      rw [hframes] at hkept
      obtain ⟨medium, outBytes, expiration, hfold⟩ := foldl_transmit_eq
        { f with service := .link l', counters := f.counters.countOut p.packet }
        (frames.takeWhile fun frame => frame.length ≤ f.base.mtu) now
      exact ⟨l', medium, f.counters.countOut p.packet, outBytes, expiration, hfold, hkept⟩

theorem sendOne_eq (f : Face) (l : LinkService) (p : Parcel) (now : Instant) :
    ∃ l' medium counters outBytes expiration, f.sendOne l p now
        = { f with
            service := .link l', medium := medium, counters := counters
            base := { f.base with outBytes := outBytes, expiration := expiration } }
      ∧ l'.options = l.options ∧ l'.queue = l.queue := by
  obtain ⟨l', medium, counters, outBytes, expiration, h, hoptions, hqueue, -⟩ :=
    f.sendUncounted_eq (l.uncount p) p (l.queuedBytes + f.medium.queued) now
  exact ⟨l', medium, counters, outBytes, expiration, h, hoptions, hqueue⟩

theorem mtu_transmit (f : Face) (frame : Bytes) (now : Instant) :
    (f.transmit frame now).base.mtu = f.base.mtu := by
  obtain ⟨medium, outBytes, expiration, h⟩ := f.transmit_eq frame now
  rw [h]

theorem medium_foldl_transmit (f : Face) (frames : List Bytes) (now : Instant) :
    (frames.foldl (fun f frame => f.transmit frame now) f).medium
      = f.medium.transmitAll frames f.base.mtu := by
  induction frames generalizing f with
  | nil => rfl
  | cons frame rest ih =>
      rw [List.foldl_cons, ih, mtu_transmit]
      rfl

/-- No frame of a parcel is kept back. -/
theorem sendOne_of_frames {f : Face} {l l' : LinkService} {p : Parcel} {now : Instant}
    {frames : List Bytes} (hup : f.base.state = .up) (hmtu : f.base.mtu ≤ 0xFFFF)
    (h : (l.uncount p).frames p f.base.mtu (l.queuedBytes + f.medium.queued) now
      = (.ok frames, l')) :
    f.sendOne l p now = frames.foldl (fun f frame => f.transmit frame now)
      { f with service := .link l', counters := f.counters.countOut p.packet } := by
  have hfit := LinkService.length_le_of_frames hmtu (congrArg Prod.fst h)
  have hall : frames.takeWhile (fun frame => decide (frame.length ≤ f.base.mtu)) = frames :=
    List.takeWhile_eq_self_iff.mpr fun frame hframe => decide_eq_true (hfit frame hframe)
  unfold sendOne sendUncounted
  simp only [hup, ne_eq, not_true_eq_false, ↓reduceIte, h, hall]

/-- All frames of a parcel go to the medium, in order. -/
theorem medium_sendOne {f : Face} {l : LinkService} {p : Parcel} {now : Instant}
    {frames : List Bytes} (hup : f.base.state = .up) (hmtu : f.base.mtu ≤ 0xFFFF)
    (h : ((l.uncount p).frames p f.base.mtu (l.queuedBytes + f.medium.queued) now).1
      = .ok frames) :
    (f.sendOne l p now).medium = f.medium.transmitAll frames f.base.mtu := by
  rw [sendOne_of_frames hup hmtu (Prod.ext h rfl)]
  exact medium_foldl_transmit _ frames now

theorem medium_sendOne_of_error {f : Face} {l : LinkService} {p : Parcel} {now : Instant}
    {e : Error}
    (h : ((l.uncount p).frames p f.base.mtu (l.queuedBytes + f.medium.queued) now).1 = .error e) :
    (f.sendOne l p now).medium = f.medium := by
  unfold sendOne sendUncounted
  dsimp only
  split
  · rfl
  · generalize (l.uncount p).frames p f.base.mtu (l.queuedBytes + f.medium.queued) now = r at h ⊢
    obtain ⟨result, l'⟩ := r
    dsimp only at h
    subst h
    rfl

end Face

end NamedData
