import NamedData.Proofs.Channel
import NamedData.Proofs.Link.Sending

/-!
# What a component takes for packets

A component takes what is in a frame for a packet. A frame has no more bytes than a packet, so a
packet for which it leaves no room comes in several portions.
-/

namespace NamedData

open Tlv Fragmentation

theorem Fragmentation.pieces_of_length_le {size : Nat} {bs : Bytes} (hne : bs ≠ [])
    (h : bs.length ≤ size) : pieces size bs = [bs] := by
  have hsize : size ≠ 0 := fun h0 => hne (List.length_eq_zero_iff.mp (by omega))
  rw [pieces, if_neg (not_or.mpr ⟨hne, hsize⟩), List.take_of_length_le h, List.drop_of_length_le h,
    pieces, if_pos (.inl rfl)]

theorem Fragmentation.ne_nil_of_mem_pieces {size : Nat} {bs piece : Bytes}
    (h : piece ∈ pieces size bs) : piece ≠ [] := by
  fun_induction pieces size bs with
  | case1 bs hempty => cases h
  | case2 bs hne ih =>
      rcases List.mem_cons.mp h with rfl | h
      · exact fun htake => hne ((List.take_eq_nil_iff.mp htake).symm.imp id id)
      · exact ih h

/-! ## Portions -/

namespace ComponentPacket

variable {p : Parcel} {mark : Option UInt64}

/-- A parcel as it is meant to come to a component. -/
def whole (p : Parcel) : ComponentPacket :=
  { wire := p.raw, pitToken := p.pitToken, incomingFaceId := p.incomingFaceId }

/-- The bytes of a packet for which a frame to a component has room. -/
def room (p : Parcel) (mark : Option UInt64) : Nat :=
  maxPacketSize - overhead (LinkService.header .internal p mark) true

/-- What a component takes for packets when a parcel is sent to it. -/
def portions (p : Parcel) (mark : Option UInt64) : List ComponentPacket :=
  match pieces (room p mark) p.raw with
  | [] => []
  | first :: rest => { whole p with wire := first } :: rest.map fun piece => { wire := piece }

theorem overhead_header_le (options : LinkOptions) (p : Parcel) (mark : Option UInt64) :
    overhead (LinkService.header options p mark) true
      ≤ overhead (LinkService.header options p (some 0)) true := by
  cases mark with
  | some mark => exact Nat.le_refl _
  | none =>
      refine Nat.add_le_add_right (Nat.add_le_add_right (Nat.add_le_add_left ?_ _) _) _
      exact Nat.zero_le _

theorem room_le (p : Parcel) (mark : Option UInt64) : room p mark ≤ 8762 := by
  have hoverhead : 38 ≤ overhead (LinkService.header .internal p mark) true := by
    unfold overhead
    simp only [baseOverhead, sequenceOverhead, ↓reduceIte]
    omega
  rw [room, maxPacketSize]
  omega

theorem length_portions (p : Parcel) (mark : Option UInt64) :
    (portions p mark).length = (pieces (room p mark) p.raw).length := by
  unfold portions
  split <;> simp [*]

theorem length_wire_le {q : ComponentPacket} (h : q ∈ portions p mark) :
    q.wire.length ≤ room p mark := by
  have hle (piece : Bytes) (h : piece ∈ pieces (room p mark) p.raw) :
      piece.length ≤ room p mark := length_le_of_mem_pieces h
  unfold portions at h
  split at h
  · cases h
  · rename_i first rest hpieces
    rw [hpieces] at hle
    rcases List.mem_cons.mp h with rfl | h
    · exact hle first List.mem_cons_self
    · obtain ⟨piece, hpiece, rfl⟩ := List.mem_map.mp h
      exact hle piece (List.mem_cons_of_mem _ hpiece)

/-- A parcel comes whole if and only if it has room in one frame. -/
theorem portions_eq_whole_iff : portions p mark = [whole p] ↔ p.raw ≠ []
    ∧ p.raw.length + overhead (LinkService.header .internal p mark) true ≤ maxPacketSize := by
  constructor
  · intro h
    have hmem : whole p ∈ portions p mark := h ▸ List.mem_singleton_self _
    have hlength : p.raw.length ≤ room p mark := length_wire_le hmem
    have hne : p.raw ≠ [] := by
      intro hempty
      rw [portions, hempty, pieces, if_pos (.inl rfl)] at h
      cases h
    have hpos := List.length_pos_iff.mpr hne
    unfold room at hlength
    exact ⟨hne, by omega⟩
  · rintro ⟨hne, hfits⟩
    have hlength : p.raw.length ≤ room p mark := by
      unfold room
      omega
    rw [portions, pieces_of_length_le hne hlength]
    rfl

/-! ## The frames of a parcel -/

theorem ofFrame?_encode {q : LpPacket} {wire : Bytes} (h : q.encode.length ≤ maxSize)
    (hwire : q.fragment = some wire) :
    ofFrame? q.encode = if wire = [] then none
      else some { wire, pitToken := q.pitToken, incomingFaceId := q.incomingFaceId } := by
  obtain ⟨size, hpeek⟩ := LpPacket.peek?_encode h
  simp only [ofFrame?, hpeek, ↓reduceIte, q.decode_encode h, hwire, Option.getD_some]
  cases wire <;> rfl

/-- What a component takes from the link packet of the piece at `index`. -/
def portionAt (header : LpPacket) (index : Nat) (piece : Bytes) : ComponentPacket :=
  if index = 0 then
    { wire := piece, pitToken := header.pitToken, incomingFaceId := header.incomingFaceId }
  else { wire := piece }

theorem ofFrame?_packetAt {header : LpPacket} {base : UInt64} {count index : Nat} {piece : Bytes}
    (hsize : (packetAt header base count index piece).encode.length ≤ maxSize) (hne : piece ≠ []) :
    ofFrame? (packetAt header base count index piece).encode
      = some (portionAt header index piece) := by
  rw [ofFrame?_encode hsize rfl, if_neg hne, portionAt]
  by_cases h0 : index = 0 <;> simp [packetAt, h0]

theorem filterMap_divide {header : LpPacket} {base : UInt64} {cut : List Bytes}
    (hsize : ∀ q ∈ divide header base cut, q.encode.length ≤ maxSize)
    (hne : ∀ piece ∈ cut, piece ≠ []) :
    ((divide header base cut).map LpPacket.encode).filterMap ofFrame?
      = cut.zipIdx.map fun (piece, index) => portionAt header index piece := by
  unfold divide at hsize ⊢
  rw [List.map_map, List.filterMap_map, ← List.filterMap_eq_map]
  refine List.filterMap_congr fun entry hentry => ?_
  simp only [Function.comp_apply]
  exact ofFrame?_packetAt (hsize _ (List.mem_map_of_mem hentry))
    (hne entry.1 (List.fst_mem_of_mem_zipIdx hentry))

theorem map_portionAt (header : LpPacket) (first : Bytes) (rest : List Bytes) :
    ((first :: rest).zipIdx.map fun (piece, index) => portionAt header index piece)
      = { wire := first, pitToken := header.pitToken, incomingFaceId := header.incomingFaceId }
        :: rest.map fun piece => { wire := piece } := by
  rw [List.zipIdx_cons, List.map_cons]
  refine congrArg₂ List.cons rfl ?_
  have hrest : rest.map (fun piece => ({ wire := piece } : ComponentPacket))
      = (rest.zipIdx 1).map fun entry => { wire := entry.1 } := by
    rw [← Function.comp_def (fun piece => ({ wire := piece } : ComponentPacket)) Prod.fst,
      ← List.map_map, List.zipIdx_map_fst]
  rw [hrest]
  refine List.map_congr_left fun ⟨piece, index⟩ hpiece => ?_
  have hindex : 1 ≤ index := List.le_snd_of_mem_zipIdx hpiece
  exact if_neg (by omega)

theorem portions_of_cut {next : UInt64} {r : List LpPacket × UInt64}
    (hcut : Cut p.raw (LinkService.header .internal p mark) maxPacketSize true next r) :
    (r.1.map LpPacket.encode).filterMap ofFrame? = portions p mark := by
  have hsize : ∀ q ∈ r.1, q.encode.length ≤ maxSize := fun q hq =>
    Nat.le_trans (hcut.encode_le (LinkService.header_plain _ _ _) (by decide) q hq) (by decide)
  cases hcut with
  | whole fits =>
      rw [List.map_singleton, List.filterMap_cons,
        ofFrame?_encode (hsize _ (List.mem_singleton_self _)) rfl]
      by_cases hraw : p.raw = []
      · rw [if_pos hraw, portions, hraw, pieces, if_pos (.inl rfl)]
        rfl
      · rw [portions_eq_whole_iff.mpr ⟨hraw, by omega⟩, if_neg hraw]
        rfl
  | divided n on positive large fits =>
      have hroom : room p mark = n := by
        unfold room
        omega
      have hne : ∀ piece ∈ pieces n p.raw, piece ≠ [] := fun piece => ne_nil_of_mem_pieces
      unfold portions
      rw [hroom]
      cases hpieces : pieces n p.raw with
      | nil => rfl
      | cons first rest =>
          rw [hpieces] at hsize hne
          exact (filterMap_divide hsize hne).trans (map_portionAt _ first rest)

theorem length_le_of_cut {next : UInt64} {r : List LpPacket × UInt64}
    (hcut : Cut p.raw (LinkService.header .internal p mark) maxPacketSize true next r) :
    r.1.length ≤ max 1 (portions p mark).length := by
  cases hcut with
  | whole fits => exact Nat.le_max_left _ _
  | divided n on positive large fits =>
      have hroom : room p mark = n := by
        unfold room
        omega
      rw [length_portions, hroom, divide, List.length_map, List.length_zipIdx]
      exact Nat.le_max_right _ _

/-- A header that leaves no room leaves no portions. -/
theorem portions_eq_nil (h : room p mark = 0) : portions p mark = [] := by
  rw [portions, h, pieces, if_pos (.inr rfl)]

end ComponentPacket

/-! ## The channel to the component -/

namespace ComponentLink

variable {c : ComponentLink}

/-- The packets on their way to the component. -/
def packets (c : ComponentLink) : List ComponentPacket :=
  c.toComponent.items.filterMap ComponentPacket.ofFrame?

theorem firstPacket?_eq (frames : List Bytes) :
    (firstPacket? frames).1 = (frames.filterMap ComponentPacket.ofFrame?).head?
      ∧ (firstPacket? frames).2.filterMap ComponentPacket.ofFrame?
        = (frames.filterMap ComponentPacket.ofFrame?).tail := by
  induction frames with
  | nil => exact ⟨rfl, rfl⟩
  | cons frame rest ih =>
      rw [firstPacket?, List.filterMap_cons]
      split
      · rename_i hframe
        rw [hframe]
        exact ⟨rfl, rfl⟩
      · rename_i hframe
        rw [hframe]
        exact ih

theorem receivePacket_snd (c : ComponentLink) : c.receivePacket.2
    = { c with toComponent := c.toComponent.withItems (firstPacket? c.toComponent.items).2 } := by
  unfold receivePacket
  dsimp only
  split <;> rfl

theorem receivePacket_fst (hopen : c.toComponent.hasSender = true) : c.receivePacket.1
    = match c.packets with
      | [] => .pending
      | packet :: _ => .item packet := by
  unfold receivePacket
  dsimp only
  rw [(firstPacket?_eq c.toComponent.items).1, ← packets]
  cases c.packets with
  | nil => exact if_pos hopen
  | cons packet rest => rfl

theorem packets_receivePacket (c : ComponentLink) : c.receivePacket.2.packets = c.packets.tail := by
  rw [receivePacket_snd]
  exact (firstPacket?_eq c.toComponent.items).2

/-- The link with more frames on their way to the component. -/
def deliver (c : ComponentLink) (frames : List Bytes) : ComponentLink :=
  { c with toComponent := c.toComponent.withItems (c.toComponent.items ++ frames) }

theorem deliver_deliver (c : ComponentLink) (before after : List Bytes) :
    (c.deliver before).deliver after = c.deliver (before ++ after) := by
  simp [deliver, Channel.withItems]

theorem packets_deliver (c : ComponentLink) (frames : List Bytes) :
    (c.deliver frames).packets = c.packets ++ frames.filterMap ComponentPacket.ofFrame? :=
  List.filterMap_append

end ComponentLink

theorem Medium.transmitAll_component {c : ComponentLink} {frames : List Bytes} {mtu : Nat}
    (hreads : c.toComponent.hasReceiver = true)
    (hroom : c.toComponent.items.length + frames.length ≤ c.toComponent.capacity)
    (hfit : ∀ frame ∈ frames, frame.length ≤ mtu) :
    (component c).transmitAll frames mtu = component (c.deliver frames) := by
  induction frames generalizing c with
  | nil => rw [ComponentLink.deliver, List.append_nil]; rfl
  | cons frame rest ih =>
      obtain ⟨hframe, hrest⟩ := List.forall_mem_cons.mp hfit
      rw [List.length_cons] at hroom
      have hfirst : ((component c).transmit frame mtu).2 = component (c.deliver [frame]) := by
        simp only [transmit, if_neg (Nat.not_lt.mpr hframe),
          Channel.send_of_room hreads (by omega) frame]
        rfl
      rw [transmitAll, List.foldl_cons, hfirst, ← transmitAll,
        ih (c := c.deliver [frame]) hreads ?_ hrest, ComponentLink.deliver_deliver,
        List.singleton_append]
      simp only [ComponentLink.deliver, Channel.items_withItems, Channel.capacity_withItems,
        List.length_append, List.length_singleton]
      omega

/-! ## The send queue -/

namespace LinkService

variable {l : LinkService}

theorem send_of_room (hreads : l.queue.hasReceiver = true)
    (hroom : l.queue.items.length < l.queue.capacity) (p : Parcel) :
    l.send p = { l.count p with queue := l.queue.withItems (l.queue.items ++ [p]) } := by
  have hqueue : (l.count p).queue.send p = .ok (l.queue.withItems (l.queue.items ++ [p])) :=
    Channel.send_of_room hreads hroom p
  rw [send, enqueue?, hqueue]
  rfl

theorem dequeue?_of_nil (h : l.queue.items = []) : l.dequeue? = none := by
  unfold dequeue?
  rw [Channel.receive_of_nil h]
  cases l.queue.hasSender <;> rfl

theorem dequeue?_of_cons {p : Parcel} {rest : List Parcel} (h : l.queue.items = p :: rest) :
    l.dequeue? = some (p, { l with queue := l.queue.withItems rest }) := by
  unfold dequeue?
  rw [Channel.receive_of_cons h]

theorem dequeue?_eq_some {l' : LinkService} {p : Parcel} (h : l.dequeue? = some (p, l')) :
    ∃ rest, l.queue.items = p :: rest ∧ l' = { l with queue := l.queue.withItems rest } := by
  cases hitems : l.queue.items with
  | nil => simp [dequeue?_of_nil hitems] at h
  | cons q rest =>
      rw [dequeue?_of_cons hitems] at h
      cases h
      exact ⟨rest, rfl, rfl⟩

theorem enqueue?_eq_ok {l' : LinkService} {p : Parcel} (h : l.enqueue? p = .ok l') :
    l.queue.HasRoom ∧ l' = { l with queue := l.queue.withItems (l.queue.items ++ [p]) } := by
  unfold enqueue? at h
  cases hsend : l.queue.send p with
  | error e => simp [hsend, bind, Except.bind] at h
  | ok queue =>
      obtain ⟨hroom, rfl⟩ := Channel.send_eq_ok hsend
      rw [hsend] at h
      cases h
      exact ⟨hroom, rfl⟩

end LinkService

end NamedData
