import NamedData.Proofs.Link.Division
import NamedData.Proofs.Link.Receiving
import NamedData.Proofs.Link.Sending
import NamedData.Proofs.Packet.WireForm

/-!
# From face to face

What one face sends another hands on unchanged, in whatever order the frames come, and a system with
that face dispatches it.
-/

namespace NamedData

open Tlv Fragmentation

/-! ## Parcels -/

namespace Parcel

/-- A parcel was made of a packet or of a wire form; its link fields may have been set since. -/
def Genuine (p : Parcel) : Prop :=
  p.raw = p.packet.encode ∨ Packet.decode p.raw = .ok p.packet

theorem Genuine.decodes {p : Parcel} (h : p.Genuine) (hsize : p.raw.length ≤ maxPacketSize) :
    ∃ packet, Packet.decode p.raw = .ok packet := by
  rcases h with hraw | hdecode
  · have hle : p.packet.encode.length ≤ maxSize := by
      rw [← hraw]
      exact Nat.le_trans hsize (by decide)
    exact ⟨p.packet.onWire, hraw ▸ p.packet.decode_encode hle⟩
  · exact ⟨p.packet, hdecode⟩

/-- The parcel that a receiver makes of a sent one: the packet as it reads it, the link fields that
were sent, and the receiver's own face. -/
def asReceived (p : Parcel) (sender receiver : LinkOptions) (packet : Packet)
    (mark : Option UInt64) (faceId : UInt64) : Parcel where
  raw := p.raw
  packet := packet
  pitToken := p.pitToken
  congestionMark := mark
  incomingFaceId := some faceId
  cachePolicy :=
    if sender.localCachePolicy && receiver.localCachePolicy then p.cachePolicy else none

end Parcel

/-! ## Fragments -/

namespace Fragment

/-- The frame of a fragment. -/
def wire (f : Fragment) : Bytes :=
  f.packet.encode

/-- A fragment that is one of several, and that is read back from its frame. -/
structure Legible (f : Fragment) : Prop where
  accepted : ofPacket f.packet = .ok f
  several : f.count ≠ 1
  small : f.wire.length ≤ maxSize

theorem Legible.eq_of_wire {a b : Fragment} (ha : a.Legible) (hb : b.Legible)
    (h : a.wire = b.wire) : a = b := by
  have hpacket : a.packet = b.packet := by
    have hdecode := congrArg LpPacket.decode h
    rw [wire, wire, a.packet.decode_encode ha.small, b.packet.decode_encode hb.small] at hdecode
    exact Except.ok.inj hdecode
  have hsame := congrArg ofPacket hpacket
  rw [ha.accepted, hb.accepted] at hsame
  exact Except.ok.inj hsame

theorem Legible.of_series {base : UInt64} {fs : List Fragment} {f : Fragment}
    (hs : Series base fs) (hf : f ∈ fs) (hsmall : f.wire.length ≤ maxSize) : f.Legible where
  accepted := hs.accepted f hf
  several := by
    intro hone
    have hcount := hs.count_eq f hf
    rw [hone] at hcount
    exact absurd (hcount ▸ hs.several) (by decide)
  small := hsmall

end Fragment

/-! ## Receiving link packets -/

namespace LinkService

variable {l : LinkService} {now : Instant}

/-- Numbers that place a fragment do not matter once the bytes are together. -/
theorem parcel?_header {p : Parcel} {packet : Packet} (hdecode : Packet.decode p.raw = .ok packet)
    (sender receiver : LinkOptions) (mark sequence index count : Option UInt64) (faceId : UInt64) :
    parcel? receiver faceId
        ⟨{ header sender p mark with
            sequence := sequence, fragIndex := index, fragCount := count, fragment := none }, p.raw⟩
      = some (p.asReceived sender receiver packet mark faceId) := by
  simp only [parcel?, header, Option.isSome_none, Bool.false_eq_true, ↓reduceIte, Parcel.ofWire,
    hdecode, Parcel.asReceived]
  cases sender.localCachePolicy <;> cases receiver.localCachePolicy <;> simp

theorem unwrap_encode {q : LpPacket} (h : q.encode.length ≤ maxSize) :
    l.unwrap q.encode now = l.unwrapLink q now :=
  unwrap_of_decode (q.decode_encode h)

theorem unwrapLink_whole (header : LpPacket) (hindex : header.fragIndex = none)
    (hcount : header.fragCount = none) (payload : Bytes) :
    l.unwrapLink { header with fragment := some payload } now
      = (some ⟨{ header with fragment := none }, payload⟩, l) := by
  simp [unwrapLink, LpPacket.isIdle, LpPacket.hasFragmentation, hindex, hcount]

theorem unwrapLink_fragment {f : Fragment} (hf : Fragment.ofPacket f.packet = .ok f)
    (hcount : f.count ≠ 1) (hon : l.options.reassembly = true) :
    l.unwrapLink f.packet now
      = ((l.reassembly.insert f.packet now).1.toOption.join,
        { l with reassembly := (l.reassembly.insert f.packet now).2 }) := by
  have hpacket : f.packet.fragCount.getD 1 ≠ 1 := by
    rwa [(Fragment.takenFrom_of_ofPacket hf).count_eq]
  have hidle : f.packet.isIdle = false := rfl
  simp only [unwrapLink, hidle, hon, Bool.not_true, Bool.and_false, Bool.or_self,
    Bool.false_eq_true, ↓reduceIte, if_neg hpacket]

end LinkService

/-! ## Deliveries -/

namespace Face

variable {f : Face} {l : LinkService}

theorem receive_link (hl : f.service = .link l) (frame : Bytes) (now : Instant) :
    (f.receive frame now).1 = (l.receive f.id frame now).1
      ∧ (f.receive frame now).2.service = .link (l.receive f.id frame now).2
      ∧ (f.receive frame now).2.id = f.id := by
  rw [receive_eq hl]
  exact ⟨rfl, rfl, rfl⟩

/-- A face brings to the dispatcher what its store completes. -/
theorem deliveries_fragments {arrivals : List (Fragment × Instant)} (hl : f.service = .link l)
    (hon : l.options.reassembly = true) (h : ∀ a ∈ arrivals, a.1.Legible) :
    f.deliveries (arrivals.map fun a => (a.1.wire, a.2))
      = (l.reassembly.insertAll (arrivals.map fun a => (a.1.packet, a.2))).map
          fun r => r.toOption.join.bind (LinkService.parcel? l.options f.id) := by
  induction arrivals generalizing f l with
  | nil => rfl
  | cons a rest ih =>
      have ha := h a List.mem_cons_self
      have hunwrap : l.unwrap a.1.wire a.2
          = ((l.reassembly.insert a.1.packet a.2).1.toOption.join,
            { l with reassembly := (l.reassembly.insert a.1.packet a.2).2 }) := by
        rw [Fragment.wire, LinkService.unwrap_encode ha.small,
          LinkService.unwrapLink_fragment ha.accepted ha.several hon]
      obtain ⟨hresult, hservice, hid⟩ := receive_link hl a.1.wire a.2
      simp only [LinkService.receive, hunwrap] at hresult hservice
      have hrest := ih hservice hon fun b hb => h b (List.mem_cons_of_mem a hb)
      rw [hid] at hrest
      simp only [List.map_cons, deliveries, Reassembly.insertAll, hresult, hrest]

theorem deliveries_whole {header : LpPacket} {payload : Bytes} {limit : Duration}
    {early : List (Bytes × Instant)} {last : Bytes × Instant} (hl : f.service = .link l)
    (hindex : header.fragIndex = none) (hcount : header.fragCount = none)
    (hsmall : ({ header with fragment := some payload } : LpPacket).encode.length ≤ maxSize)
    (harrival : CompleteArrival [({ header with fragment := some payload } : LpPacket).encode] limit
      early last) :
    f.deliveries (early ++ [last])
      = List.replicate early.length none
        ++ [LinkService.parcel? l.options f.id ⟨{ header with fragment := none }, payload⟩] := by
  have hlast := List.mem_singleton.mp
    (harrival.only last (List.mem_append_right _ (List.mem_singleton_self last)))
  -- What came before the last would be the same frame.
  have hnone : early = [] := by
    refine List.eq_nil_iff_forall_not_mem.mpr fun a ha => harrival.last_new ?_
    rw [hlast, ← List.mem_singleton.mp (harrival.only a (List.mem_append_left _ ha))]
    exact List.mem_map_of_mem ha
  obtain ⟨hresult, -⟩ := receive_link hl last.1 last.2
  rw [hlast] at hresult
  simp only [LinkService.receive, LinkService.unwrap_encode hsmall,
    LinkService.unwrapLink_whole header hindex hcount, Option.bind_some] at hresult
  subst hnone
  simp only [List.nil_append, deliveries, hlast, hresult, List.length_nil, List.replicate_zero]

theorem deliveries_series {base : UInt64} {fs : List Fragment} {first : Fragment}
    {choices : List Nat} {early : List (Bytes × Instant)} {last : Bytes × Instant}
    (hs : Series base fs) (hsmall : ∀ f ∈ fs, f.wire.length ≤ maxSize) (hfirst : first ∈ fs)
    (h0 : first.index = 0) (hl : f.service = .link l) (hon : l.options.reassembly = true)
    (hfresh : l.reassembly = (Reassembly.empty l.options.reassemblyTimeout
      l.options.reassemblyMaxGroups).choosing choices)
    (harrival : CompleteArrival (fs.map Fragment.wire) l.options.reassemblyTimeout early last) :
    f.deliveries (early ++ [last])
      = List.replicate early.length none
        ++ [LinkService.parcel? l.options f.id ⟨first.header, fs.flatMap (·.payload)⟩] := by
  have hlegible : ∀ f ∈ fs, f.Legible := fun f hf => .of_series hs hf (hsmall f hf)
  obtain ⟨early, last, rfl, rfl, hfragments⟩ :=
    harrival.of_map fun a ha b hb => (hlegible a ha).eq_of_wire (hlegible b hb)
  have hinsert := Reassembly.insertAll_of_completeArrival hs hfragments
    l.options.reassemblyMaxGroups choices hfirst h0
  have hdeliveries := deliveries_fragments hl hon fun a ha => hlegible a.1 (hfragments.only a ha)
  rw [hfresh, hinsert, List.map_append, List.map_append, List.map_singleton, List.map_replicate,
    List.map_singleton] at hdeliveries
  rw [List.length_map]
  exact hdeliveries

/-- However a payload was cut, it is handed on when the last missing frame comes. -/
theorem deliveries_of_cut {payload : Bytes} {header : LpPacket} {mtu : Nat} {fragmentation : Bool}
    {next next' : UInt64} {packets : List LpPacket} {choices : List Nat}
    {early : List (Bytes × Instant)} {last : Bytes × Instant}
    (hcut : Cut payload header mtu fragmentation next (packets, next'))
    (hplain : PlainHeader header) (hmtu : mtu ≤ 0xFFFF) (hsize : payload.length ≤ maxPacketSize)
    (hl : f.service = .link l) (hon : l.options.reassembly = true)
    (hfresh : l.reassembly = (Reassembly.empty l.options.reassemblyTimeout
      l.options.reassemblyMaxGroups).choosing choices)
    (harrival : CompleteArrival (packets.map LpPacket.encode) l.options.reassemblyTimeout
      early last) :
    ∃ sequence index count : Option UInt64, f.deliveries (early ++ [last])
      = List.replicate early.length none
        ++ [LinkService.parcel? l.options f.id
          ⟨{ header with
              sequence := sequence, fragIndex := index, fragCount := count, fragment := none },
            payload⟩] := by
  have hsmall : ∀ q ∈ packets, q.encode.length ≤ maxSize := fun q hq =>
    Nat.le_trans (hcut.encode_le hplain hmtu q hq) (Nat.le_trans hmtu (by decide))
  cases hcut with
  | whole fits =>
      exact ⟨header.sequence, header.fragIndex, header.fragCount, deliveries_whole hl
        hplain.fragIndex hplain.fragCount (hsmall _ (List.mem_singleton_self _)) harrival⟩
  | divided room on positive large fits =>
      have hseveral := two_le_length_pieces positive large
      have hfew := Nat.le_trans (length_pieces_le room payload) hsize
      have hflatten := flatten_pieces positive payload
      generalize pieces room payload = cut at *
      have hs := series_fragments header next hseveral hfew (hflatten ▸ hsize)
      rw [← map_packet_fragments] at hsmall harrival
      rw [List.map_map] at harrival
      cases cut with
      | nil => exact absurd hseveral (by decide)
      | cons piece rest =>
          have hdeliveries := deliveries_series hs
            (fun f hf => hsmall _ (List.mem_map_of_mem hf)) fragmentAt_zero_mem rfl hl hon hfresh
            harrival
          rw [flatMap_payload_fragments, hflatten] at hdeliveries
          exact ⟨_, _, _, hdeliveries⟩

end Face

/-- A system whose face hands on one parcel in the end dispatches it then, and nothing before. -/
theorem FaceSystem.dispatcher_of_deliveries {s : FaceSystem} {key : FaceKey} {f : Face} {p : Parcel}
    {early : List (Bytes × Instant)} {last : Bytes × Instant} (hf : s.face? key = some f)
    (h : f.deliveries (early ++ [last]) = List.replicate early.length none ++ [some p]) :
    (s.receiveTimed key early).dispatcher = s.dispatcher
      ∧ (s.receiveTimed key (early ++ [last])).dispatcher
        = s.dispatcher.dispatch p f.base.scope := by
  have hearly : f.deliveries early = List.replicate early.length none := by
    rw [Face.deliveries_append] at h
    exact (List.append_inj h (by simp)).1
  rw [receiveTimed_eq hf, receiveTimed_eq hf, h, hearly, List.reduceOption_append,
    List.reduceOption_replicate_none]
  exact ⟨rfl, rfl⟩

namespace Face

/-- What a face sends for a parcel, a fresh face hands on as the same parcel: once, when the last
missing frame comes, and whatever the order of the frames and the repeats before. A system with this
face dispatches the parcel then, and nothing before. -/
theorem deliveries_of_sendOne (sender : Face) (l : LinkService) (p : Parcel) (now : Instant)
    (frames : List Bytes) (base : FaceBase) (medium : Medium) (options : LinkOptions)
    (config : Config) (early : List (Bytes × Instant)) (last : Bytes × Instant)
    (hp : p.Genuine) (hsize : p.raw.length ≤ maxPacketSize) (hup : sender.base.state = .up)
    (hmtu : sender.base.mtu ≤ 0xFFFF)
    (hframes : ((l.uncount p).frames p sender.base.mtu
      (l.queuedBytes + sender.medium.queued) now).1 = .ok frames)
    (hon : options.reassembly = true)
    (harrival : CompleteArrival frames options.reassemblyTimeout early last) :
    (sender.sendOne l p now).medium = sender.medium.transmitAll frames sender.base.mtu
      ∧ ∃ packet received, Packet.decode p.raw = .ok packet
        ∧ received = p.asReceived l.options options packet
            (l.markOf p (l.queuedBytes + sender.medium.queued) now) base.id
        ∧ (withLink base medium options config).deliveries (early ++ [last])
          = List.replicate early.length none ++ [some received]
        ∧ ∀ (s : FaceSystem) (key : FaceKey),
          s.face? key = some (withLink base medium options config) →
            (s.receiveTimed key early).dispatcher = s.dispatcher
            ∧ (s.receiveTimed key (early ++ [last])).dispatcher
              = s.dispatcher.dispatch received base.scope := by
  refine ⟨medium_sendOne hup hmtu hframes, ?_⟩
  obtain ⟨packet, hdecode⟩ := hp.decodes hsize
  obtain ⟨packets, next, rfl, hcut⟩ := LinkService.cut_of_frames hframes
  have hplain := LinkService.header_plain l.options p
    (l.markOf p (l.queuedBytes + sender.medium.queued) now)
  obtain ⟨sequence, index, count, hdeliveries⟩ :=
    deliveries_of_cut (f := withLink base medium options config) hcut hplain hmtu hsize rfl hon rfl
      harrival
  have hparcel := LinkService.parcel?_header hdecode l.options options
    (l.markOf p (l.queuedBytes + sender.medium.queued) now) sequence index count base.id
  have hreceived := hdeliveries.trans
    (congrArg (fun r => List.replicate early.length none ++ [r]) hparcel)
  exact ⟨packet, _, hdecode, rfl, hreceived,
    fun s key hface => FaceSystem.dispatcher_of_deliveries hface hreceived⟩

/-- Three frames whose numbers run past the largest, out of order and with one of them twice, and
what a system with one face makes of them. -/
theorem deliveries_of_sendOne_past_largest :
    let p : Parcel :=
      { Parcel.ofPacket (.interest { name := ⟨[.generic [97]]⟩ }) with
        cachePolicy := some .noCache }
    let options : LinkOptions := { localCachePolicy := true }
    let l : LinkService :=
      { LinkService.create options 1 with
        queuedBytes := 70000, nextSequence := 0xFFFFFFFFFFFFFFFF }
    let sender := withLink { componentBase with mtu := 62 } (.outbox [] 0) options {}
    let a := LpPacket.encode
      { sequence := some 0xFFFFFFFFFFFFFFFF, fragIndex := some 0, fragCount := some 3,
        cachePolicy := some .noCache, congestionMark := some 1, fragment := some [5, 5, 7] }
    let b := LpPacket.encode
      { sequence := some 0, fragIndex := some 1, fragCount := some 3, fragment := some [3, 8, 1] }
    let c := LpPacket.encode
      { sequence := some 1, fragIndex := some 2, fragCount := some 3, fragment := some [97] }
    let s := ((FaceSystem.create .testing).adopt (withLink componentBase .null options {})).2
    CompleteArrival [a, b, c] options.reassemblyTimeout [(c, 0), (a, 5), (c, 6)] (b, 9)
      ∧ (sender.sendOne l p 0).medium = .outbox [a, b, c] 0
      ∧ ∃ packet, Packet.decode p.raw = .ok packet
        ∧ (withLink componentBase .null options {}).deliveries [(c, 0), (a, 5), (c, 6), (b, 9)]
          = [none, none, none, some (p.asReceived options options packet (some 1) 0)]
        ∧ (s.receiveTimed 0 [(c, 0), (a, 5), (c, 6)]).dispatcher = s.dispatcher
        ∧ (s.receiveTimed 0 [(c, 0), (a, 5), (c, 6), (b, 9)]).dispatcher
          = s.dispatcher.dispatch (p.asReceived options options packet (some 1) 0) .isLocal := by
  intro p options l sender a b c s
  have hframes : ((l.uncount p).frames p 62 (l.queuedBytes + 0) 0).1 = .ok [a, b, c] := by cbv
  have harrival : CompleteArrival [a, b, c] options.reassemblyTimeout
      [(c, 0), (a, 5), (c, 6)] (b, 9) := by
    refine ⟨by decide, by decide, by decide, ?_⟩
    rintro first ⟨⟩
    decide
  obtain ⟨hmedium, packet, received, hdecode, rfl, hdeliveries, hsystem⟩ :=
    deliveries_of_sendOne sender l p 0 [a, b, c] componentBase .null options {}
      [(c, 0), (a, 5), (c, 6)] (b, 9) (Or.inl rfl) (by decide) rfl (by decide) hframes rfl harrival
  exact ⟨harrival, hmedium.trans (Medium.transmitAll_outbox [] [a, b, c] 0 62), packet, hdecode,
    hdeliveries, hsystem s 0 rfl⟩

end Face

end NamedData
