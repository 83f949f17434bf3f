import NamedData.Proofs.Link.Portions
import NamedData.Proofs.Packet.WireForm
import NamedData.Proofs.System.Calls

/-!
# What a component receives

The forwarder sends parcels to a component, and the component asks for packets. While neither queue
is full, it gets the portions of all parcels, in the order in which they were sent.
-/

namespace NamedData

open Tlv Fragmentation

/-! ## Exchanges -/

/-- What the forwarder and a component do with the face between them. -/
inductive Exchange where
  | send (p : Parcel)
  /-- The sending task takes the next parcel, if one waits. -/
  | forward (now : Instant)
  /-- The component asks for a packet. -/
  | receive

def Exchange.sent : Exchange → List Parcel
  | .send p => [p]
  | _ => []

namespace Face

def exchange (f : Face) : Exchange → Face
  | .send p => f.send p
  | .forward now => (f.sendNext? now).getD f
  | .receive =>
    match f.medium with
    | .component c => { f with medium := .component c.receivePacket.2 }
    | _ => f

/-- The parcel that the sending task takes, and the mark that it is sent with. -/
def taken (f : Face) : Exchange → List (Parcel × Option UInt64)
  | .forward now => (f.link?.bind LinkService.dequeue?).toList.map fun (p, l) =>
    (p, l.markOf p (l.queuedBytes + f.medium.queued) now)
  | _ => []

/-- The packet that the component gets. -/
def received (f : Face) : Exchange → List ComponentPacket
  | .receive =>
    match f.medium with
    | .component c =>
      match c.receivePacket.1 with
      | .item packet => [packet]
      | _ => []
    | _ => []
  | _ => []

/-- The queues have room for what is done next. -/
def HasRoom (f : Face) : Exchange → Prop
  | .send _ => ∀ l ∈ f.link?, l.queue.items.length < l.queue.capacity
  | .forward now => ∀ c, f.medium = .component c → ∀ t ∈ f.taken (.forward now),
    c.toComponent.items.length + max 1 (ComponentPacket.portions t.1 t.2).length
      ≤ c.toComponent.capacity
  | .receive => True

def NeverFull (f : Face) : List Exchange → Prop
  | [] => True
  | e :: rest => f.HasRoom e ∧ (f.exchange e).NeverFull rest

theorem NeverFull.then_receive {f : Face} {es : List Exchange} (h : f.NeverFull es) (n : Nat) :
    f.NeverFull (es ++ List.replicate n .receive) := by
  induction es generalizing f with
  | nil =>
      rw [List.nil_append]
      induction n generalizing f with
      | zero => trivial
      | succ n ih => exact ⟨trivial, ih trivial⟩
  | cons e rest ih => exact ⟨h.1, ih h.2⟩

/-- A running face to a component, as it is registered, whatever has gone through it. -/
structure Serves (f : Face) (l : LinkService) (c : ComponentLink) : Prop where
  service_eq : f.service = .link l
  medium_eq : f.medium = .component c
  state_eq : f.base.state = .up
  stop_eq : f.base.stop.isStopped = false
  sender_eq : f.sender = .running
  mtu_eq : f.base.mtu = maxPacketSize
  options_eq : l.options = .internal
  queue_reads : l.queue.hasReceiver = true
  component_reads : c.toComponent.hasReceiver = true
  component_waits : c.toComponent.hasSender = true

variable {f : Face} {l : LinkService} {c : ComponentLink}

theorem Serves.link?_eq (h : f.Serves l c) : f.link? = some l := by
  rw [link?, h.service_eq]

theorem Serves.after_send (h : f.Serves l c) {p : Parcel} (hroom : f.HasRoom (.send p)) :
    (f.exchange (.send p)).Serves
      { l.count p with queue := l.queue.withItems (l.queue.items ++ [p]) } c := by
  have hsend := LinkService.send_of_room h.queue_reads (hroom l h.link?_eq) p
  rw [exchange, send, h.service_eq]
  dsimp only
  rw [hsend]
  exact ⟨rfl, h.medium_eq, h.state_eq, h.stop_eq, h.sender_eq, h.mtu_eq, h.options_eq,
    h.queue_reads, h.component_reads, h.component_waits⟩

theorem Serves.after_receive (h : f.Serves l c) :
    (f.exchange .receive).Serves l c.receivePacket.2
      ∧ f.received .receive ++ c.receivePacket.2.packets = c.packets := by
  have hsnd := c.receivePacket_snd
  have hexchange : f.exchange .receive = { f with medium := .component c.receivePacket.2 } := by
    simp only [exchange, h.medium_eq]
  have hreceived : f.received .receive = c.packets.head?.toList := by
    simp only [received, h.medium_eq, ComponentLink.receivePacket_fst h.component_waits]
    cases c.packets <;> rfl
  refine ⟨?_, ?_⟩
  · rw [hexchange]
    exact ⟨h.service_eq, rfl, h.state_eq, h.stop_eq, h.sender_eq, h.mtu_eq, h.options_eq,
      h.queue_reads, by rw [hsnd]; exact h.component_reads, by rw [hsnd]; exact h.component_waits⟩
  · rw [hreceived, c.packets_receivePacket]
    cases c.packets <;> rfl

theorem taken_of_nil (h : f.Serves l c) (hqueue : l.queue.items = []) (now : Instant) :
    f.taken (.forward now) = [] ∧ f.exchange (.forward now) = f := by
  have hnext := LinkService.dequeue?_of_nil hqueue
  simp [taken, exchange, sendNext?, h.link?_eq, hnext]

theorem taken_of_cons (h : f.Serves l c) {p : Parcel} {rest : List Parcel}
    (hqueue : l.queue.items = p :: rest) (now : Instant) :
    f.taken (.forward now) = [(p, l.markOf p (l.queuedBytes + f.medium.queued) now)]
      ∧ f.exchange (.forward now)
        = f.sendOne { l with queue := l.queue.withItems rest } p now := by
  have hnext := LinkService.dequeue?_of_cons hqueue
  simp [taken, exchange, sendNext?, h.link?_eq, hnext]
  rfl

/-- The frames of a parcel go to the component, if its header leaves room for any. -/
theorem Serves.deliver_sendOne (h : f.Serves l c) (l' : LinkService)
    (hoptions : l'.options = .internal) (p : Parcel) (now : Instant)
    (hroom : c.toComponent.items.length + max 1 (ComponentPacket.portions p
      (l'.markOf p (l'.queuedBytes + f.medium.queued) now)).length ≤ c.toComponent.capacity) :
    ∃ frames, (f.sendOne l' p now).medium = .component (c.deliver frames)
      ∧ frames.filterMap ComponentPacket.ofFrame?
        = ComponentPacket.portions p (l'.markOf p (l'.queuedBytes + f.medium.queued) now) := by
  have hmtu : f.base.mtu ≤ 0xFFFF := by rw [h.mtu_eq]; decide
  cases hframes : ((l'.uncount p).frames p f.base.mtu
      (l'.queuedBytes + f.medium.queued) now).1 with
  | error e =>
      refine ⟨[], ?_, ?_⟩
      · rw [medium_sendOne_of_error hframes, h.medium_eq, ComponentLink.deliver, List.append_nil]
        rfl
      · have hon : (l'.uncount p).options.fragmentation = true := by
          rw [LinkService.options_uncount, hoptions]
          rfl
        have hsmall := LinkService.mtu_le_of_frames_eq_error hon hframes
        rw [LinkService.options_uncount, hoptions, h.mtu_eq] at hsmall
        exact (ComponentPacket.portions_eq_nil (Nat.sub_eq_zero_of_le hsmall)).symm
  | ok frames =>
      obtain ⟨packets, next, heq, hcut⟩ := LinkService.cut_of_frames hframes
      rw [LinkService.options_uncount, hoptions, h.mtu_eq] at hcut
      have hfew := ComponentPacket.length_le_of_cut hcut
      have hlength : frames.length ≤ max 1 (ComponentPacket.portions p
          (l'.markOf p (l'.queuedBytes + f.medium.queued) now)).length := by
        rw [heq, List.length_map]
        exact hfew
      refine ⟨frames, ?_, ?_⟩
      · rw [medium_sendOne h.state_eq hmtu hframes]
        rw [h.medium_eq] at hframes ⊢
        exact Medium.transmitAll_component h.component_reads (by omega)
          (LinkService.length_le_of_frames hmtu hframes)
      · rw [heq]
        exact ComponentPacket.portions_of_cut hcut

theorem Serves.after_forward (h : f.Serves l c) {now : Instant} (hroom : f.HasRoom (.forward now)) :
    ∃ l' c', (f.exchange (.forward now)).Serves l' c'
      ∧ l.queue.items = (f.taken (.forward now)).map (·.1) ++ l'.queue.items
      ∧ c'.packets = c.packets
        ++ (f.taken (.forward now)).flatMap fun t => ComponentPacket.portions t.1 t.2 := by
  cases hqueue : l.queue.items with
  | nil =>
      obtain ⟨htaken, hsame⟩ := taken_of_nil h hqueue now
      rw [htaken, hsame]
      exact ⟨l, c, h, by rw [hqueue]; rfl, by rw [List.flatMap_nil, List.append_nil]⟩
  | cons p rest =>
      obtain ⟨htaken, hexchange⟩ := taken_of_cons h hqueue now
      have hroom := hroom c h.medium_eq _ (by rw [htaken]; exact List.mem_singleton_self _)
      obtain ⟨frames, hmedium, hportions⟩ := h.deliver_sendOne
        { l with queue := l.queue.withItems rest } h.options_eq p now hroom
      obtain ⟨l', medium, counters, outBytes, expiration, heq, hoptions, hkept⟩ :=
        f.sendOne_eq { l with queue := l.queue.withItems rest } p now
      rw [heq] at hmedium
      rw [htaken, hexchange, heq]
      refine ⟨l', c.deliver frames, ?_, ?_, ?_⟩
      · exact ⟨rfl, hmedium, h.state_eq, h.stop_eq, h.sender_eq, h.mtu_eq,
          hoptions.trans h.options_eq, by rw [hkept]; exact h.queue_reads, h.component_reads,
          h.component_waits⟩
      · rw [hkept]
        rfl
      · rw [c.packets_deliver, hportions, List.flatMap_singleton]
        rfl

/-- What one step leaves in the two queues. -/
theorem Serves.after_exchange (h : f.Serves l c) {e : Exchange} (hroom : f.HasRoom e) :
    ∃ l' c', (f.exchange e).Serves l' c'
      ∧ l.queue.items ++ e.sent = (f.taken e).map (·.1) ++ l'.queue.items
      ∧ f.received e ++ c'.packets
        = c.packets ++ (f.taken e).flatMap fun t => ComponentPacket.portions t.1 t.2 := by
  cases e with
  | send p =>
      refine ⟨_, c, h.after_send hroom, rfl, ?_⟩
      exact (List.append_nil _).symm
  | forward now =>
      obtain ⟨l', c', hserves, hqueue, hpackets⟩ := h.after_forward hroom
      exact ⟨l', c', hserves, (List.append_nil _).trans hqueue, hpackets⟩
  | receive =>
      obtain ⟨hserves, hreceived⟩ := h.after_receive
      refine ⟨l, _, hserves, ?_, hreceived.trans (List.append_nil _).symm⟩
      exact List.append_nil _

theorem Serves.after_exchanges (h : f.Serves l c) {es : List Exchange} (hroom : f.NeverFull es) :
    ∃ l' c', (es.foldl exchange f).Serves l' c'
      ∧ l.queue.items ++ es.flatMap Exchange.sent
        = (along exchange taken f es).map (·.1) ++ l'.queue.items
      ∧ along exchange received f es ++ c'.packets = c.packets
        ++ (along exchange taken f es).flatMap fun t => ComponentPacket.portions t.1 t.2 := by
  induction es generalizing f l c with
  | nil => exact ⟨l, c, h, List.append_nil _, (List.append_nil _).symm⟩
  | cons e rest ih =>
      obtain ⟨hfirst, hrest⟩ := hroom
      obtain ⟨l₁, c₁, hserves, hqueue, hpackets⟩ := h.after_exchange hfirst
      obtain ⟨l', c', hserves', hqueue', hpackets'⟩ := ih hserves hrest
      refine ⟨l', c', hserves', ?_, ?_⟩
      · rw [List.flatMap_cons, along, ← List.append_assoc, hqueue, List.append_assoc, hqueue',
          List.map_append, List.append_assoc]
      · rw [along, along, List.append_assoc, hpackets', ← List.append_assoc, hpackets,
          List.append_assoc, List.flatMap_append]

end Face

/-! ## Registered faces -/

/-- A component's face is running and up, with empty queues. -/
theorem FaceSystem.registerComponent_serves {s s' : FaceSystem} {id : UInt64}
    (h : s.registerComponent = .ok (id, s')) :
    ∃ f, s'.get? id = some f
      ∧ f.Serves (.create .internal s.config.queueSize) (.create s.config.queueSize) := by
  have hf : (s.adopt (.component s.config.queueSize .internal s.config)).2.face? s.faces.length
      = some (.component s.config.queueSize .internal s.config) := by
    rw [face?_adopt, if_pos rfl]
  exact ⟨_, get?_of_addFace h hf, rfl, rfl, rfl, rfl, rfl, rfl, rfl, rfl, rfl, rfl⟩

namespace Face

/-- Over a running face whose queues never fill, a component gets what was sent in the order in
which it was sent: a parcel whole if and only if one frame has room for it with the mark that it is
sent with, and else what each of its frames holds. -/
theorem received_in_portions {f : Face} {l : LinkService} {c : ComponentLink} (h : f.Serves l c)
    (es : List Exchange) (hroom : f.NeverFull es) :
    let sent := es.flatMap Exchange.sent
    let taken := along exchange taken f es
    let received := along exchange received f es
    ∃ l' c', (es.foldl exchange f).Serves l' c'
      ∧ l.queue.items ++ sent = taken.map (·.1) ++ l'.queue.items
      ∧ received ++ c'.packets
        = c.packets ++ taken.flatMap (fun t => ComponentPacket.portions t.1 t.2)
      ∧ (c'.receivePacket.1 = match c'.packets with
        | [] => .pending
        | packet :: _ => .item packet)
      ∧ (∀ t ∈ taken, ComponentPacket.portions t.1 t.2 = [.whole t.1] ↔ t.1.raw ≠ []
        ∧ t.1.raw.length + overhead (LinkService.header .internal t.1 t.2) true ≤ maxPacketSize)
      ∧ ((∀ t ∈ taken, t.1.raw ≠ []
          ∧ t.1.raw.length + overhead (LinkService.header .internal t.1 t.2) true ≤ maxPacketSize) →
        received ++ c'.packets = c.packets ++ taken.map fun t => .whole t.1) := by
  intro sent taken received
  obtain ⟨l', c', hserves, hqueue, hpackets⟩ := h.after_exchanges hroom
  refine ⟨l', c', hserves, hqueue, hpackets,
    ComponentLink.receivePacket_fst hserves.component_waits,
    fun t _ => ComponentPacket.portions_eq_whole_iff, fun hfit => ?_⟩
  rw [hpackets, List.map_eq_flatMap]
  refine congrArg (c.packets ++ ·) (List.flatMap_congr fun t ht => ?_)
  exact ComponentPacket.portions_eq_whole_iff.mpr (hfit t ht)

/-- The first face that is registered in a new system. -/
def firstComponent : Face :=
  ((component 1024 .internal {}).bound 1).start

theorem registered_firstComponent : ∃ s', (FaceSystem.create {}).registerComponent = .ok (1, s')
    ∧ s'.get? 1 = some firstComponent :=
  ⟨_, rfl, rfl⟩

theorem firstComponent_serves :
    firstComponent.Serves (.create .internal 1024) (.create 1024) := by
  obtain ⟨s', hmade, hget⟩ := registered_firstComponent
  obtain ⟨f, hf, hserves⟩ := FaceSystem.registerComponent_serves hmade
  cases hget.symm.trans hf
  exact hserves

/-- A parcel of few portions does not fill the queues of a new face. -/
theorem firstComponent_neverFull {p : Parcel}
    (hfew : ∀ mark, (ComponentPacket.portions p mark).length ≤ 2) (now : Instant) :
    firstComponent.NeverFull [.send p, .forward now] := by
  have hsend : firstComponent.HasRoom (.send p) := by
    rintro l ⟨⟩
    decide
  refine ⟨hsend, ?_, trivial⟩
  have hserves := firstComponent_serves.after_send hsend
  intro c hc t ht
  have hlink : c = .create 1024 := Medium.component.inj (hc.symm.trans hserves.medium_eq)
  rw [(taken_of_cons hserves rfl now).1, List.mem_singleton] at ht
  have hp : t.1 = p := by rw [ht]
  have hportions := hfew t.2
  rw [hlink, hp]
  show 0 + max 1 (ComponentPacket.portions p t.2).length ≤ 1024
  omega

theorem received_in_portions_of_small_parcel :
    let p : Parcel :=
      { Parcel.ofPacket (.interest { name := ⟨[.generic [0x61]]⟩ }) with
        pitToken := some [1, 2], incomingFaceId := some 7 }
    let es : List Exchange := [.send p, .forward 0]
    (∃ s', (FaceSystem.create {}).registerComponent = .ok (1, s')
        ∧ s'.get? 1 = some firstComponent)
      ∧ firstComponent.NeverFull es
      ∧ ∃ c, (es.foldl exchange firstComponent).medium = .component c
        ∧ c.receivePacket.1 = .item (.whole p) := by
  intro p es
  have hwhole (mark : Option UInt64) : p.raw ≠ []
      ∧ p.raw.length + overhead (LinkService.header .internal p mark) true ≤ maxPacketSize := by
    have hfits : p.raw.length + overhead (LinkService.header .internal p (some 0)) true
        ≤ maxPacketSize := by decide +kernel
    have hoverhead := ComponentPacket.overhead_header_le .internal p mark
    exact ⟨by decide +kernel, by omega⟩
  have hroom : firstComponent.NeverFull es := firstComponent_neverFull (fun mark => by
    rw [ComponentPacket.portions_eq_whole_iff.mpr (hwhole mark)]; decide) 0
  obtain ⟨l', c', hserves, hqueue, -, hnext, -, hpackets⟩ :=
    received_in_portions firstComponent_serves es hroom
  have htaken : along exchange taken firstComponent es = [(p, none)] := by decide +kernel
  have hpackets : c'.packets = [.whole p] := by
    rw [htaken] at hpackets
    exact hpackets fun t ht => List.mem_singleton.mp ht ▸ hwhole none
  rw [hpackets] at hnext
  exact ⟨registered_firstComponent, hroom, c', hserves.medium_eq, hnext⟩

/-- A Data packet that is no larger than packets may be, but too large for one frame. -/
def largeData : Parcel :=
  .ofPacket (.data { name := ⟨[.generic [0x61]]⟩, content := List.replicate 8740 0 })

theorem length_largeData : largeData.raw.length = 8792 := by
  have hcontent : (Data.Field.content.block (List.replicate 8740 0)).size = 8744 := by
    rw [Block.size, Data.Field.block_value, List.length_replicate]
    decide
  have hblocks : (Block.encodeAll (Data.toBlocks
      { name := ⟨[.generic [0x61]]⟩, content := List.replicate 8740 0 })).length = 8788 := by
    rw [show Data.toBlocks { name := ⟨[.generic [0x61]]⟩, content := List.replicate 8740 0 }
        = [Name.toBlock ⟨[.generic [0x61]]⟩, Data.Field.content.block (List.replicate 8740 0),
          Data.Field.signatureInfo.block Data.placeholderInfo,
          Data.Field.signatureValue.block Data.placeholderValue] from rfl]
    simp only [Block.length_encodeAll_cons, Block.length_encodeAll_nil, hcontent]
    decide
  have hraw : largeData.raw.length = blockSize Data.blockType (Block.encodeAll (Data.toBlocks
      { name := ⟨[.generic [0x61]]⟩, content := List.replicate 8740 0 })).length :=
    Block.length_encode _
  rw [hraw, hblocks]
  decide

theorem largeData_few_portions (mark : Option UInt64) :
    (ComponentPacket.portions largeData mark).length ≤ 2 := by
  have hoverhead := ComponentPacket.overhead_header_le .internal largeData mark
  have hmost : overhead (LinkService.header .internal largeData (some 0)) true = 50 := by decide
  have hroom : 8750 ≤ ComponentPacket.room largeData mark := by
    rw [ComponentPacket.room, maxPacketSize]
    omega
  rw [ComponentPacket.length_portions, length_pieces (by omega), length_largeData]
  refine Nat.le_of_lt_succ (Nat.div_lt_of_lt_mul ?_)
  omega

/-- The packet is sent, but however often the component asks, it does not get it. -/
theorem largeData_is_not_received :
    (∃ s', (FaceSystem.create {}).registerComponent = .ok (1, s')
        ∧ s'.get? 1 = some firstComponent)
      ∧ largeData.raw.length ≤ maxPacketSize
      ∧ firstComponent.NeverFull [.send largeData, .forward 0]
      ∧ ∀ n, .whole largeData ∉ along exchange received firstComponent
        ([.send largeData, .forward 0] ++ List.replicate n .receive) := by
  have hroom := firstComponent_neverFull largeData_few_portions 0
  refine ⟨registered_firstComponent, by rw [length_largeData]; decide, hroom, fun n hmem => ?_⟩
  obtain ⟨l', c', -, hqueue, hpackets⟩ :=
    firstComponent_serves.after_exchanges (hroom.then_receive n)
  have hportions := List.mem_append_left c'.packets hmem
  rw [hpackets] at hportions
  obtain ⟨t, ht, hportion⟩ := List.mem_flatMap.mp hportions
  have hsent : t.1 = largeData := by
    have ht := List.mem_append_left l'.queue.items (List.mem_map_of_mem (f := Prod.fst) ht)
    rw [← hqueue] at ht
    simpa [LinkService.create, Channel.empty, Exchange.sent] using ht
  have hlength : largeData.raw.length ≤ ComponentPacket.room t.1 t.2 :=
    ComponentPacket.length_wire_le hportion
  have hroom := ComponentPacket.room_le t.1 t.2
  rw [length_largeData] at hlength
  omega

end Face

end NamedData
