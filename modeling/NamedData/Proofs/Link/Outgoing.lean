import NamedData.Proofs.Link.Sending

/-!
# Whole groups

A packet that can be divided goes out whole: the link packets are numbered from the first to the
last in the order in which they are handed to the medium, and none is kept back.
-/

namespace NamedData

open Fragmentation

/-- The link packets of a payload in the order of their numbers: one without numbers, or several
that are numbered on from `next`. -/
inductive InOrder (next : UInt64) (payload : Bytes) : List LpPacket → Prop where
  | alone (q : LpPacket) (hsequence : q.sequence = none) (hindex : q.fragIndex = none)
      (hcount : q.fragCount = none) (hfragment : q.fragment = some payload) :
      InOrder next payload [q]
  | numbered (packets : List LpPacket) (several : 2 ≤ packets.length)
      (numbers : ∀ i q, packets[i]? = some q →
        q.sequence = some (next + UInt64.ofNat i) ∧ q.fragIndex = some (UInt64.ofNat i)
          ∧ q.fragCount = some (UInt64.ofNat packets.length))
      (together : (packets.map (·.fragment.getD [])).flatten = payload) :
      InOrder next payload packets

variable {header : LpPacket} {base next next' : UInt64} {cut : List Bytes} {payload : Bytes}
  {mtu : Nat} {fragmentation : Bool} {packets : List LpPacket}

namespace Fragmentation

@[simp] theorem length_divide : (divide header base cut).length = cut.length := by
  simp [divide]

theorem map_fragment_divide : (divide header base cut).map (·.fragment.getD []) = cut := by
  rw [divide, List.map_map]
  exact List.zipIdx_map_fst 0 cut

theorem numbers_of_getElem?_divide {i : Nat} {q : LpPacket}
    (h : (divide header base cut)[i]? = some q) :
    q.sequence = some (base + UInt64.ofNat i) ∧ q.fragIndex = some (UInt64.ofNat i)
      ∧ q.fragCount = some (UInt64.ofNat cut.length) := by
  rw [divide, List.getElem?_map] at h
  obtain ⟨⟨piece, index⟩, hpiece, rfl⟩ := Option.map_eq_some_iff.mp h
  rw [List.getElem?_zipIdx] at hpiece
  obtain ⟨piece', -, heq⟩ := Option.map_eq_some_iff.mp hpiece
  cases heq
  simp [packetAt]

theorem Cut.inOrder (hcut : Cut payload header mtu fragmentation next (packets, next'))
    (hplain : PlainHeader header) : InOrder next payload packets := by
  cases hcut with
  | whole fits => exact .alone _ hplain.sequence hplain.fragIndex hplain.fragCount rfl
  | divided room on positive large fits =>
      refine .numbered _ ?_ ?_ ?_
      · rw [length_divide]
        exact two_le_length_pieces positive large
      · intro i q hq
        rw [length_divide]
        exact numbers_of_getElem?_divide hq
      · rw [map_fragment_divide]
        exact flatten_pieces positive payload

end Fragmentation

namespace Face

/-- If the frames of a parcel can be made, all of them fit, and a face that is up hands all of them
to its medium, in the order of their numbers. -/
theorem sendOne_abandons_no_frame (f : Face) (l l' : LinkService) (p : Parcel) (now : Instant)
    (frames : List Bytes) (hmtu : f.base.mtu ≤ 0xFFFF)
    (hframes : (l.uncount p).frames p f.base.mtu (l.queuedBytes + f.medium.queued) now
      = (.ok frames, l')) :
    (∀ frame ∈ frames, frame.length ≤ f.base.mtu)
      ∧ (f.base.state = .up → f.sendOne l p now
          = frames.foldl (fun f frame => f.transmit frame now)
            { f with service := .link l', counters := f.counters.countOut p.packet }
        ∧ ∀ sent queued, f.medium = .outbox sent queued →
          (f.sendOne l p now).medium = .outbox (sent ++ frames) queued)
      ∧ ∃ packets, frames = packets.map LpPacket.encode
        ∧ InOrder l.nextSequence p.raw packets := by
  have hresult := congrArg Prod.fst hframes
  obtain ⟨packets, next, hpackets, hcut⟩ := LinkService.cut_of_frames hresult
  have hplain := LinkService.header_plain (l.uncount p).options p
    ((l.uncount p).markOf p (l.queuedBytes + f.medium.queued) now)
  refine ⟨LinkService.length_le_of_frames hmtu hresult, ?_, packets, hpackets, ?_⟩
  · intro hup
    refine ⟨sendOne_of_frames hup hmtu hframes, fun sent queued hmedium => ?_⟩
    rw [medium_sendOne hup hmtu hresult, hmedium]
    exact Medium.transmitAll_outbox sent frames queued f.base.mtu
  · exact hcut.inOrder hplain

/-- Three frames whose numbers run past the largest, in a transmission unit of 62 bytes. -/
theorem sendOne_abandons_none_of_three :
    let p : Parcel :=
      { Parcel.ofPacket (.interest { name := ⟨[.generic [97]]⟩ }) with
        cachePolicy := some .noCache }
    let l : LinkService :=
      { LinkService.create { localCachePolicy := true } 1 with
        queuedBytes := 70000, nextSequence := 0xFFFFFFFFFFFFFFFF }
    let l' := ((l.uncount p).frames p 62 (l.queuedBytes + 0) 0).2
    let sender := withLink { componentBase with mtu := 62 } (.outbox [] 0) l.options {}
    let frames := [
      LpPacket.encode
        { sequence := some 0xFFFFFFFFFFFFFFFF, fragIndex := some 0, fragCount := some 3,
          cachePolicy := some .noCache, congestionMark := some 1, fragment := some [5, 5, 7] },
      LpPacket.encode
        { sequence := some 0, fragIndex := some 1, fragCount := some 3,
          fragment := some [3, 8, 1] },
      LpPacket.encode
        { sequence := some 1, fragIndex := some 2, fragCount := some 3, fragment := some [97] }]
    (l.uncount p).frames p 62 (l.queuedBytes + 0) 0 = (.ok frames, l')
      ∧ (∀ frame ∈ frames, frame.length ≤ 62)
      ∧ sender.sendOne l p 0 = frames.foldl (fun f frame => f.transmit frame 0)
        { sender with service := .link l', counters := sender.counters.countOut p.packet }
      ∧ (sender.sendOne l p 0).medium = .outbox frames 0 := by
  intro p l l' sender frames
  have hresult : ((l.uncount p).frames p 62 (l.queuedBytes + 0) 0).1 = .ok frames := by cbv
  have hframes : (l.uncount p).frames p 62 (l.queuedBytes + 0) 0 = (.ok frames, l') :=
    Prod.ext hresult rfl
  obtain ⟨hfit, hall, -⟩ :=
    sendOne_abandons_no_frame sender l l' p 0 frames (by decide) hframes
  obtain ⟨hsent, hmedium⟩ := hall rfl
  exact ⟨hframes, hfit, hsent, hmedium [] 0 rfl⟩

end Face

end NamedData
