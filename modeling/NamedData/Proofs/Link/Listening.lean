import NamedData.Proofs.Link.Component
import NamedData.Proofs.Link.Overhead
import NamedData.Proofs.Link.Transfer

/-!
# Faces that listen to components

A component wraps its packets in link packets, which wait for the receiving task of its face. What a
link packet adds to a packet is bounded, and the face makes of it the packet that was wrapped, with
the token and the next hop that the component chose.
-/

namespace NamedData

open Tlv

/-! ## Link packets of components -/

namespace ComponentLink

variable {wire : Bytes} {token : Option Bytes} {hop : Option UInt64}

/-- The bytes that a PIT token and a next hop take in a link packet. -/
def headerBytes (token : Option Bytes) (hop : Option UInt64) : Nat :=
  (token.elim 0 fun t => 2 + t.length) + hop.elim 0 fun id => 4 + Nni.size id

theorem headerBytes_le (htoken : ∀ t ∈ token, t.length ≤ 32) : headerBytes token hop ≤ 46 := by
  have hfirst : (token.elim 0 fun t => 2 + t.length) ≤ 34 := by
    cases token with
    | none => exact Nat.zero_le _
    | some t =>
        have ht := htoken t rfl
        rw [Option.elim_some]
        omega
  have hsecond : (hop.elim 0 fun id => 4 + Nni.size id) ≤ 12 := by
    cases hop with
    | none => exact Nat.zero_le _
    | some id =>
        have hid := Nni.size_le id
        rw [Option.elim_some]
        omega
  exact Nat.add_le_add hfirst hsecond

theorem fieldBytes_eq (wire : Bytes) (htoken : ∀ t ∈ token, t.length ≤ 32)
    (hop : Option UInt64) :
    LpPacket.fieldBytes { pitToken := token, nextHopFaceId := hop, fragment := some wire }
      = headerBytes token hop := by
  have hfirst : (Block.encodeAll (token.toList.map LpPacket.Field.pitToken.block)).length
      = token.elim 0 fun t => 2 + t.length := by
    cases token with
    | none => rfl
    | some t =>
        have hsize : VarNumber.size (UInt64.ofNat t.length) = 1 := by
          have ht : (UInt64.ofNat t.length).toNat ≤ 32 := by
            rw [toNat_ofNat_of_le_maxSize ((htoken t rfl).trans (by decide))]
            exact htoken t rfl
          have hle := VarNumber.size_mono (w := 32) (UInt64.le_iff_toNat_le.mpr ht)
          exact Nat.le_antisymm hle (VarNumber.size_pos _)
        have htype : VarNumber.size LpPacket.Field.pitToken.type = 1 := by decide
        rw [Block.length_encodeAll_some, Block.size, blockSize, LpPacket.Field.block_type,
          LpPacket.Field.block_value, hsize, htype, Option.elim_some]
  have hsecond : (Block.encodeAll (hop.toList.map LpPacket.Field.nextHopFaceId.number)).length
      = hop.elim 0 fun id => 4 + Nni.size id := by
    cases hop with
    | none => rfl
    | some id =>
        have htype : VarNumber.size LpPacket.Field.nextHopFaceId.type = 3 := by decide
        rw [Block.length_encodeAll_some, LpPacket.Field.number, Block.size_ofNumber, htype,
          Option.elim_some]
  have hblocks : LpPacket.toBlocks { pitToken := token, nextHopFaceId := hop }
      = token.toList.map LpPacket.Field.pitToken.block
        ++ hop.toList.map LpPacket.Field.nextHopFaceId.number := by
    simp [LpPacket.toBlocks]
  rw [LpPacket.fieldBytes, hblocks, Block.length_encodeAll_append, hfirst, hsecond, headerBytes]

/-- Two headers of four bytes each stand around a packet that comes near the limit. -/
theorem length_wrap_le_iff (htoken : ∀ t ∈ token, t.length ≤ 32) :
    (wrap wire token hop).length ≤ maxPacketSize
      ↔ wire.length + headerBytes token hop + 8 ≤ maxPacketSize := by
  have hfields := fieldBytes_eq wire htoken hop
  have hfew : headerBytes token hop ≤ 46 := headerBytes_le htoken
  constructor
  · intro hfits
    by_contra hlarge
    have hlength : 8754 < wire.length + 8 := by
      rw [maxPacketSize] at hlarge
      omega
    refine Nat.not_lt.mpr hfits (LpPacket.lt_length_encode rfl (by decide) ?_)
    rw [hfields]
    by_cases hshort : wire.length ≤ maxPacketSize
    · have hthree : 3 ≤ VarNumber.size (UInt64.ofNat wire.length) :=
        Fragmentation.size_le_size_ofNat (v := 0xFD) (show 253 ≤ wire.length by omega)
          (hshort.trans (by decide))
      omega
    · omega
  · intro hfits
    refine LpPacket.length_encode_le_of_fieldBytes rfl ?_ (by decide)
    rw [hfields, Fragmentation.baseOverhead]
    omega

end ComponentLink

open ComponentLink (wrap)

/-- What a component sends as it is meant to come to the dispatcher. -/
def Parcel.submitted (wire : Bytes) (packet : Packet) (token : Option Bytes) (hop : Option UInt64)
    (faceId : UInt64) : Parcel :=
  { raw := wire, packet, pitToken := token, nextHopFaceId := hop, incomingFaceId := some faceId }

namespace LinkService

theorem receive_wrap {l : LinkService} {wire : Bytes} {packet : Packet}
    {token : Option Bytes} {hop : Option UInt64}
    (hforwards : l.options.consumerControlledForwarding = true)
    (hdecode : Packet.decode wire = .ok packet) (hsize : (wrap wire token hop).length ≤ maxSize)
    (faceId : UInt64) (now : Instant) :
    l.receive faceId (wrap wire token hop) now
      = (some (.submitted wire packet token hop faceId), l) := by
  have hwhole : l.unwrap (wrap wire token hop) now
      = (some ⟨{ pitToken := token, nextHopFaceId := hop }, wire⟩, l) :=
    (unwrap_encode hsize).trans
      (unwrapLink_whole { pitToken := token, nextHopFaceId := hop } rfl rfl wire)
  have hparcel : parcel? l.options faceId ⟨{ pitToken := token, nextHopFaceId := hop }, wire⟩
      = some (.submitted wire packet token hop faceId) := by
    simp [parcel?, Parcel.ofWire, hdecode, hforwards, Parcel.submitted]
  rw [receive_eq, hwhole, Option.bind_some, hparcel]

@[simp] theorem options_send (l : LinkService) (p : Parcel) : (l.send p).options = l.options := by
  unfold send
  dsimp only
  split
  · rename_i hqueued
    rw [(enqueue?_eq_ok hqueued).2]
    rfl
  · rfl

end LinkService

/-! ## Faces that listen -/

/-- What a component sends is not touched by what it is sent. -/
theorem Medium.transmitAll_keeps (c : ComponentLink) (frames : List Bytes) (mtu : Nat) :
    ∃ toComponent, (component c).transmitAll frames mtu = component { c with toComponent } := by
  induction frames generalizing c with
  | nil => exact ⟨c.toComponent, rfl⟩
  | cons frame rest ih =>
      have hfirst : ∃ toComponent,
          ((component c).transmit frame mtu).2 = component { c with toComponent } := by
        simp only [transmit]
        split
        · exact ⟨c.toComponent, rfl⟩
        · split
          · exact ⟨_, rfl⟩
          · exact ⟨c.toComponent, rfl⟩
      obtain ⟨toComponent, hfirst⟩ := hfirst
      rw [transmitAll, List.foldl_cons, hfirst]
      exact ih { c with toComponent }

namespace Face

variable {f : Face} {l : LinkService} {c : ComponentLink} {id : UInt64}

/-- The component sends in this way. -/
def submit (f : Face) (send : ComponentLink → Except Error ComponentLink) : Except Error Face :=
  match f.medium with
  | .component c => (send c).map fun c => { f with medium := .component c }
  | _ => .error .connectionClosed

/-- The component goes away. -/
def abandon (f : Face) : Face :=
  match f.medium with
  | .component c => { f with medium := .component c.dropHandle }
  | _ => f

/-- The frames that the receiving task finds. -/
def found (f : Face) : List Bytes :=
  match f.receiver, f.medium with
  | .running, .component c => if f.base.stop.isStopped then [] else c.fromComponent.items
  | _, _ => []

/-- A face whose receiving task has taken all that waits, and ends if the component is gone. -/
def emptied (f : Face) : Face :=
  match f.receiver, f.medium with
  | .running, .component c =>
    if c.fromComponent.hasSender then
      { f with medium := .component { c with fromComponent := c.fromComponent.withItems [] } }
    else
      { f with
        medium := .component { c with fromComponent := c.fromComponent.dropReceiver }
        receiver := .ended }
  | _, _ => f

theorem sendOne_keeps (hmedium : f.medium = .component c) (l : LinkService) (p : Parcel)
    (now : Instant) :
    ∃ toComponent, (f.sendOne l p now).medium = .component { c with toComponent } := by
  unfold sendOne sendUncounted
  dsimp only
  split
  · exact ⟨c.toComponent, hmedium⟩
  · split
    · exact ⟨c.toComponent, hmedium⟩
    · rw [medium_foldl_transmit]
      dsimp only
      rw [hmedium]
      exact Medium.transmitAll_keeps c _ _

/-- A face to a component, as it is registered, that is up, whatever has gone through it. -/
structure Listens (f : Face) (id : UInt64) (l : LinkService) (c : ComponentLink) : Prop where
  service_eq : f.service = .link l
  medium_eq : f.medium = .component c
  id_eq : f.id = id
  scope_eq : f.base.scope = .isLocal
  state_eq : f.base.state = .up
  stop_eq : f.base.stop.isStopped = false
  forwards : l.options.consumerControlledForwarding = true
  /-- The task runs, or it has ended behind a component that is gone. -/
  task : f.receiver = .running ∧ c.fromComponent.hasReceiver = true
    ∨ f.receiver = .ended ∧ c.fromComponent.hasReceiver = false ∧ c.fromComponent.items = []

theorem Listens.relink (h : f.Listens id l c) {l' : LinkService}
    (hforwards : l'.options.consumerControlledForwarding = true) (counters : PacketCounters) :
    ({ f with service := .link l', counters } : Face).Listens id l' c :=
  ⟨rfl, h.medium_eq, h.id_eq, h.scope_eq, h.state_eq, h.stop_eq, hforwards, h.task⟩

theorem Listens.rewire (h : f.Listens id l c) {c' : ComponentLink} {receiver : TaskState}
    (htask : receiver = .running ∧ c'.fromComponent.hasReceiver = true
      ∨ receiver = .ended ∧ c'.fromComponent.hasReceiver = false ∧ c'.fromComponent.items = []) :
    ({ f with medium := .component c', receiver } : Face).Listens id l c' :=
  ⟨h.service_eq, rfl, h.id_eq, h.scope_eq, h.state_eq, h.stop_eq, h.forwards, htask⟩

theorem Listens.recordIn (h : f.Listens id l c) (n : Nat) (now : Instant) :
    (f.recordIn n now).Listens id l c := by
  unfold Face.recordIn FaceBase.recordIn FaceBase.refresh
  split <;> exact ⟨h.service_eq, h.medium_eq, h.id_eq, h.scope_eq, h.state_eq, h.stop_eq,
    h.forwards, h.task⟩

theorem Listens.receive (h : f.Listens id l c) (frame : Bytes) (now : Instant) :
    ∃ l', (f.receive frame now).2.Listens id l' c := by
  rw [Face.receive_eq h.service_eq]
  refine ⟨_, h.relink ?_ _⟩
  rw [LinkService.receive_eq, LinkService.options_unwrap]
  exact h.forwards

theorem Listens.exchange (h : f.Listens id l c) (e : Exchange) :
    ∃ l' toComponent, (f.exchange e).Listens id l' { c with toComponent } := by
  cases e with
  | send p =>
      refine ⟨l.send p, c.toComponent, ?_⟩
      rw [Face.exchange, Face.send, h.service_eq]
      exact h.relink (by rw [LinkService.options_send]; exact h.forwards) f.counters
  | forward now =>
      cases hnext : l.dequeue? with
      | none =>
          refine ⟨l, c.toComponent, ?_⟩
          have hsame : f.exchange (.forward now) = f := by
            simp [Face.exchange, sendNext?, link?, h.service_eq, hnext]
          rw [hsame]
          exact h
      | some r =>
          obtain ⟨p, l₁⟩ := r
          have hsent : f.exchange (.forward now) = f.sendOne l₁ p now := by
            simp [Face.exchange, sendNext?, link?, h.service_eq, hnext]
          obtain ⟨rest, -, rfl⟩ := LinkService.dequeue?_eq_some hnext
          obtain ⟨l', medium, counters, outBytes, expiration, heq, hoptions, -⟩ :=
            f.sendOne_eq { l with queue := l.queue.withItems rest } p now
          obtain ⟨toComponent, hmedium⟩ :=
            sendOne_keeps h.medium_eq { l with queue := l.queue.withItems rest } p now
          rw [heq] at hmedium
          refine ⟨l', toComponent, ?_⟩
          rw [hsent, heq]
          exact ⟨rfl, hmedium, h.id_eq, h.scope_eq, h.state_eq, h.stop_eq,
            hoptions ▸ h.forwards, h.task⟩
  | receive =>
      refine ⟨l, c.receivePacket.2.toComponent, ?_⟩
      rw [Face.exchange, h.medium_eq]
      dsimp only
      rw [c.receivePacket_snd]
      exact h.rewire h.task

theorem Listens.found_eq (h : f.Listens id l c) : f.found = c.fromComponent.items := by
  rcases h.task with ⟨hrunning, -⟩ | ⟨hended, -, hnone⟩
  · simp [found, hrunning, h.medium_eq, h.stop_eq]
  · simp [found, hended, hnone]

theorem Listens.emptied (h : f.Listens id l c) :
    ∃ c', f.emptied.Listens id l c' ∧ c'.fromComponent.items = [] := by
  rcases h.task with ⟨hrunning, hreads⟩ | ⟨hended, hgone, hnone⟩
  · unfold Face.emptied
    rw [hrunning, h.medium_eq]
    dsimp only
    split
    · exact ⟨_, h.rewire (.inl ⟨rfl, hreads⟩), rfl⟩
    · exact ⟨_, h.rewire (.inr ⟨rfl, rfl, rfl⟩), rfl⟩
  · have hsame : f.emptied = f := by simp [Face.emptied, hended]
    rw [hsame]
    exact ⟨c, h, hnone⟩

/-- A frame that could be sent waits behind all others. -/
theorem Listens.submit (h : f.Listens id l c) {send : ComponentLink → Except Error ComponentLink}
    {frame : Bytes} (hsend : ∀ c, send c = c.sendFrame frame) :
    (∃ g c', f.submit send = .ok g ∧ g.Listens id l c'
        ∧ c'.fromComponent.items = c.fromComponent.items ++ [frame])
      ∨ ∃ e, f.submit send = .error e := by
  unfold Face.submit
  rw [h.medium_eq]
  dsimp only
  rw [hsend, ComponentLink.sendFrame]
  cases hroom : c.fromComponent.send frame with
  | error e => exact .inr ⟨e, rfl⟩
  | ok channel =>
      obtain ⟨⟨hreads, -⟩, rfl⟩ := Channel.send_eq_ok hroom
      have hrunning : f.receiver = .running := by
        rcases h.task with ⟨hrunning, -⟩ | ⟨-, hgone, -⟩
        · exact hrunning
        · rw [hgone] at hreads
          cases hreads
      exact .inl ⟨_, _, rfl, h.rewire (.inl ⟨hrunning, hreads⟩), rfl⟩

theorem Listens.abandon (h : f.Listens id l c) :
    ∃ c', f.abandon.Listens id l c' ∧ c'.fromComponent.items = c.fromComponent.items := by
  unfold Face.abandon
  rw [h.medium_eq]
  exact ⟨c.dropHandle, h.rewire h.task, rfl⟩

theorem Listens.setOptions (h : f.Listens id l c) {options : LinkOptions}
    (hforwards : options.consumerControlledForwarding = true) :
    ((f.setOptions? options).getD f).Listens id (l.setOptions options) c := by
  unfold setOptions? link?
  rw [h.service_eq]
  exact h.relink hforwards f.counters

theorem Listens.evictExpired (h : f.Listens id l c) (now : Instant) :
    ∃ l', (f.evictExpired now).Listens id l' c := by
  refine ⟨{ l with reassembly := l.reassembly.evictExpired now }, ?_⟩
  unfold Face.evictExpired
  rw [h.service_eq]
  exact h.relink (by exact h.forwards) f.counters

end Face

end NamedData
