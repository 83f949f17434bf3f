import NamedData.Proofs.Link.Listening
import NamedData.Proofs.System.Handovers

/-!
# What a component sends

The receiving task of a face reads what a component sends. The limit of a packet is put to the link
packet around it: one that it fits is handed to the dispatcher once and as it was sent, and a larger
one is dropped, though the component could send it.
-/

namespace NamedData

open ComponentLink (wrap headerBytes)

/-! ## The receiving task -/

/-- A frame that the receiving task of a face has read, and what the face handed over for it. -/
structure Reading where
  frame : Bytes
  handed : List Handover
deriving DecidableEq, Repr

/-- For a frame in which a component wrapped a packet, a face hands over this packet once and as it
was sent, unless the frame is too large. -/
def Reading.Answered (r : Reading) (key : FaceKey) (id : UInt64) : Prop :=
  ∀ wire token hop packet, Packet.decode wire = .ok packet → r.frame = wrap wire token hop →
    (r.frame.length ≤ maxPacketSize →
        r.handed = [⟨key, r.frame, .submitted wire packet token hop id⟩])
      ∧ (maxPacketSize < r.frame.length → r.handed = [])

namespace FaceSystem

variable {s : FaceSystem} {key : FaceKey} {id : UInt64} {waiting : List Bytes}

/-- One round of the receiving task of a face to a component. -/
def readFrame (key : FaceKey) (s : FaceSystem) (frame : Bytes) : FaceSystem :=
  if frame.length ≤ maxPacketSize then s.receiveCounted key frame else s

/-- What a face hands over in a round. -/
def reading (key : FaceKey) (s : FaceSystem) (frame : Bytes) : Reading where
  frame := frame
  handed :=
    if frame.length ≤ maxPacketSize then
      (s.modifyFace key fun f => f.recordIn frame.length s.clock.now).handedOver
        (.receive key frame)
    else []

theorem receiveFromComponent_eq (s : FaceSystem) (key : FaceKey) (frames : List Bytes) :
    s.receiveFromComponent key frames = frames.foldl (readFrame key) s := by
  rw [receiveFromComponent, receiveAll, List.foldl_filter]
  simp only [decide_eq_true_eq]
  rfl

/-- The face is to a component and up, and these frames wait for its receiving task. -/
def Hears (s : FaceSystem) (key : FaceKey) (id : UInt64) (waiting : List Bytes) : Prop :=
  ∃ f l c, s.face? key = some f ∧ f.Listens id l c ∧ c.fromComponent.items = waiting

theorem Hears.modifyFace (h : s.Hears key id waiting) {k : FaceKey} {g : Face → Face}
    (hg : k = key → ∀ f l c, f.Listens id l c →
      ∃ l' c', (g f).Listens id l' c' ∧ c'.fromComponent.items = c.fromComponent.items) :
    (s.modifyFace k g).Hears key id waiting := by
  obtain ⟨f, l, c, hf, hlistens, hwaiting⟩ := h
  by_cases hk : k = key
  · obtain ⟨l', c', hlistens', hitems⟩ := hg hk f l c hlistens
    subst hk
    exact ⟨g f, l', c', by rw [face?_modifyFace, hf]; rfl, hlistens', hitems.trans hwaiting⟩
  · exact ⟨f, l, c, by rw [face?_modifyFace_of_ne (Ne.symm hk), hf], hlistens, hwaiting⟩

theorem Hears.receive (h : s.Hears key id waiting) (k : FaceKey) (frame : Bytes) :
    (s.receive k frame).Hears key id waiting := by
  obtain ⟨f, l, c, hf, hlistens, hwaiting⟩ := h
  by_cases hk : key = k
  · subst hk
    obtain ⟨l', hlistens'⟩ := hlistens.receive frame s.clock.now
    exact ⟨_, l', c, face?_receive hf frame, hlistens', hwaiting⟩
  · exact ⟨f, l, c, (face?_receive_of_ne hk frame).trans hf, hlistens, hwaiting⟩

theorem Hears.recordIn (h : s.Hears key id waiting) (n : Nat) (now : Instant) :
    (s.modifyFace key fun f => f.recordIn n now).Hears key id waiting :=
  h.modifyFace fun _ _ l c hlistens => ⟨l, c, hlistens.recordIn n now, rfl⟩

theorem Hears.after_readFrame (h : s.Hears key id waiting) (frame : Bytes) :
    (readFrame key s frame).Hears key id waiting := by
  unfold readFrame
  split
  · exact (h.recordIn frame.length s.clock.now).receive key frame
  · exact h

theorem Hears.answered (h : s.Hears key id waiting) (frame : Bytes) :
    (reading key s frame).Answered key id := by
  intro wire token hop packet hdecode hframe
  replace hframe : frame = wrap wire token hop := hframe
  constructor
  · intro hfits
    replace hfits : frame.length ≤ maxPacketSize := hfits
    have hsize : frame.length ≤ maxSize := Nat.le_trans hfits (by decide)
    obtain ⟨f, l, c, hf, hlistens, -⟩ := h.recordIn frame.length s.clock.now
    have hreceive := LinkService.receive_wrap hlistens.forwards hdecode (hframe ▸ hsize) id
      s.clock.now
    rw [← hframe] at hreceive
    have hhanded : f.handover key frame s.clock.now
        = [⟨key, frame, .submitted wire packet token hop id⟩] := by
      rw [Face.handover, Face.receive_eq hlistens.service_eq, hlistens.id_eq, hreceive]
      rfl
    simp only [reading, if_pos hfits, handedOver, hf]
    exact hhanded
  · intro hlarge
    replace hlarge : maxPacketSize < frame.length := hlarge
    simp only [reading, if_neg (Nat.not_le.mpr hlarge)]

theorem Hears.dispatcher_readFrame (h : s.Hears key id waiting) (frame : Bytes) :
    (readFrame key s frame).dispatcher = (reading key s frame).handed.foldl
      (fun d a => d.dispatch a.parcel .isLocal) s.dispatcher := by
  obtain ⟨f, l, c, hf, hlistens, -⟩ := h.recordIn frame.length s.clock.now
  by_cases hfits : frame.length ≤ maxPacketSize
  · obtain ⟨-, hdispatcher, -⟩ := receive_handedOver hf frame
    rw [hlistens.scope_eq] at hdispatcher
    simp only [readFrame, reading, if_pos hfits]
    exact hdispatcher
  · simp only [readFrame, reading, if_neg hfits, List.foldl_nil]

/-- All that the receiving task reads when it runs. -/
def readings (s : FaceSystem) (key : FaceKey) : List Reading :=
  along (readFrame key) (fun s frame => [reading key s frame]) (s.modifyFace key Face.emptied)
    ((s.face? key).toList.flatMap Face.found)

/-- What the task does with all the frames that it found. -/
theorem Hears.foldl_readFrame (h : s.Hears key id waiting) (frames : List Bytes) :
    let readings := along (readFrame key) (fun s frame => [reading key s frame]) s frames
    (frames.foldl (readFrame key) s).Hears key id waiting
      ∧ readings.map (·.frame) = frames
      ∧ (∀ r ∈ readings, r.Answered key id)
      ∧ (frames.foldl (readFrame key) s).dispatcher = (readings.flatMap (·.handed)).foldl
        (fun d a => d.dispatch a.parcel .isLocal) s.dispatcher := by
  induction frames generalizing s with
  | nil =>
      refine ⟨h, rfl, fun r hr => ?_, rfl⟩
      cases hr
  | cons frame rest ih =>
      obtain ⟨hhears, hframes, hanswered, hdispatcher⟩ := ih (h.after_readFrame frame)
      refine ⟨hhears, congrArg (frame :: ·) hframes, fun r hr => ?_, ?_⟩
      · rcases List.mem_cons.mp hr with rfl | hr
        · exact h.answered frame
        · exact hanswered r hr
      · rw [List.foldl_cons, hdispatcher, h.dispatcher_readFrame frame, along,
          List.singleton_append, List.flatMap_cons, List.foldl_append]

theorem Hears.runReceiver_eq (h : s.Hears key id waiting) :
    s.runReceiver key = waiting.foldl (readFrame key) (s.modifyFace key Face.emptied)
      ∧ (s.face? key).toList.flatMap Face.found = waiting := by
  obtain ⟨f, l, c, hf, hlistens, rfl⟩ := h
  refine ⟨?_, by rw [hf]; simp [hlistens.found_eq]⟩
  rcases hlistens.task with ⟨hrunning, -⟩ | ⟨hended, -, hnone⟩
  · obtain ⟨toComponent, items, capacity, hasReceiver, hasSender⟩ := c
    unfold runReceiver
    rw [hf]
    simp only [hrunning, hlistens.medium_eq, hlistens.stop_eq, Channel.drain, Bool.false_or,
      Bool.false_eq_true, ↓reduceIte, receiveFromComponent_eq]
    refine congrArg (fun t => List.foldl (readFrame key) t items) (modifyFace_congr hf ?_)
    unfold Face.emptied
    rw [hrunning, hlistens.medium_eq]
    cases hasSender <;> rfl
  · have hsame : f.emptied = f := by simp [Face.emptied, hended]
    unfold runReceiver
    rw [hf, hnone, modifyFace_eq_self hf hsame]
    simp only [hended]
    rfl

/-- The receiving task empties the queue, and what it hands over is what the dispatcher gets. -/
theorem Hears.after_runReceiver (h : s.Hears key id waiting) :
    (s.runReceiver key).Hears key id []
      ∧ (s.readings key).map (·.frame) = waiting
      ∧ (∀ r ∈ s.readings key, r.Answered key id)
      ∧ (s.runReceiver key).dispatcher = ((s.readings key).flatMap (·.handed)).foldl
        (fun d a => d.dispatch a.parcel .isLocal) s.dispatcher := by
  obtain ⟨hrun, hfound⟩ := h.runReceiver_eq
  have hempty : (s.modifyFace key Face.emptied).Hears key id [] := by
    obtain ⟨f, l, c, hf, hlistens, -⟩ := h
    obtain ⟨c', hlistens', hnone⟩ := hlistens.emptied
    exact ⟨f.emptied, l, c', by rw [face?_modifyFace, hf]; rfl, hlistens', hnone⟩
  rw [hrun, readings, hfound]
  exact hempty.foldl_readFrame waiting

/-! ## Runs -/

/-- What goes on around the face of a component. -/
inductive Activity where
  /-- The component sends a link packet, or whatever else it takes for one. -/
  | sendFrame (frame : Bytes)
  | sendPacket (wire : Bytes) (token : Option Bytes) (hop : Option UInt64)
  /-- The component goes away. -/
  | abandon
  /-- The receiving task runs until it waits. -/
  | read
  /-- The forwarder sends to the component, or the component receives. -/
  | exchange (e : Exchange)
  | meet (i : Incident)

/-- The component may still choose the next hops of its packets. -/
def Activity.Keeps (key : FaceKey) : Activity → Prop
  | .meet (.setOptions k options) => k = key → options.consumerControlledForwarding = true
  | _ => True

def submit (s : FaceSystem) (key : FaceKey) (send : ComponentLink → Except Error ComponentLink) :
    FaceSystem :=
  s.modifyFace key fun f => (f.submit send).toOption.getD f

/-- Whether the component is told that it has sent. -/
def accepts (s : FaceSystem) (key : FaceKey) (send : ComponentLink → Except Error ComponentLink) :
    Bool :=
  (s.face? key).any fun f => (f.submit send).isOk

def proceed (key : FaceKey) (s : FaceSystem) : Activity → FaceSystem
  | .sendFrame frame => s.submit key fun c => c.sendFrame frame
  | .sendPacket wire token hop => s.submit key fun c => c.sendPacket wire token hop
  | .abandon => s.modifyFace key Face.abandon
  | .read => s.runReceiver key
  | .exchange e => s.modifyFace key fun f => f.exchange e
  | .meet i => s.meet i

/-- The frames that the component could send. -/
def accepted (key : FaceKey) (s : FaceSystem) : Activity → List Bytes
  | .sendFrame frame => if s.accepts key fun c => c.sendFrame frame then [frame] else []
  | .sendPacket wire token hop =>
    if s.accepts key fun c => c.sendPacket wire token hop then [wrap wire token hop] else []
  | _ => []

/-- The frames that the receiving task read. -/
def taken (key : FaceKey) (s : FaceSystem) : Activity → List Reading
  | .read => s.readings key
  | _ => []

theorem Hears.after_submit (h : s.Hears key id waiting)
    {send : ComponentLink → Except Error ComponentLink} {frame : Bytes}
    (hsend : ∀ c, send c = c.sendFrame frame) :
    (s.submit key send).Hears key id
      (waiting ++ if s.accepts key send then [frame] else []) := by
  obtain ⟨f, l, c, hf, hlistens, rfl⟩ := h
  rw [accepts, hf, Option.any_some]
  rcases hlistens.submit hsend with ⟨g, c', hok, hlistens', hitems⟩ | ⟨e, herror⟩
  · refine ⟨g, l, c', ?_, hlistens', ?_⟩
    · rw [submit, face?_modifyFace, hf, Option.map_some, hok]
      rfl
    · rw [hok, hitems]
      rfl
  · refine ⟨f, l, c, ?_, hlistens, ?_⟩
    · rw [submit, face?_modifyFace, hf, Option.map_some, herror]
      rfl
    · rw [herror]
      exact (List.append_nil _).symm

theorem Hears.after_meet (h : s.Hears key id waiting) {i : Incident}
    (hkeeps : (Activity.meet i).Keeps key) : (s.meet i).Hears key id waiting := by
  cases i with
  | receive k frame => exact h.receive k frame
  | setOptions k options =>
      exact h.modifyFace fun hk f l c hlistens => ⟨_, c, hlistens.setOptions (hkeeps hk), rfl⟩
  | evictExpired k =>
      refine h.modifyFace fun hk f l c hlistens => ?_
      obtain ⟨l', hlistens'⟩ := hlistens.evictExpired s.clock.now
      exact ⟨l', c, hlistens', rfl⟩
  | wait now => exact h
  | drain => exact h

/-- What the task read and what waits for it are what waited before and what was sent since. -/
theorem Hears.after (h : s.Hears key id waiting) {a : Activity} (hkeeps : a.Keeps key) :
    ∃ waiting', (proceed key s a).Hears key id waiting'
      ∧ waiting ++ accepted key s a = (taken key s a).map (·.frame) ++ waiting'
      ∧ ∀ r ∈ taken key s a, r.Answered key id := by
  have hquiet (haccepted : accepted key s a = []) (htaken : taken key s a = [])
      (hproceed : (proceed key s a).Hears key id waiting) :
      ∃ waiting', (proceed key s a).Hears key id waiting'
        ∧ waiting ++ accepted key s a = (taken key s a).map (·.frame) ++ waiting'
        ∧ ∀ r ∈ taken key s a, r.Answered key id := by
    rw [haccepted, htaken]
    exact ⟨waiting, hproceed, List.append_nil _, fun r hr => absurd hr List.not_mem_nil⟩
  cases a with
  | sendFrame frame =>
      exact ⟨_, h.after_submit fun c => rfl, rfl, fun r hr => absurd hr List.not_mem_nil⟩
  | sendPacket wire token hop =>
      exact ⟨_, h.after_submit fun c => rfl, rfl, fun r hr => absurd hr List.not_mem_nil⟩
  | abandon =>
      refine hquiet rfl rfl (h.modifyFace fun hk f l c hlistens => ?_)
      obtain ⟨c', hlistens', hitems⟩ := hlistens.abandon
      exact ⟨l, c', hlistens', hitems⟩
  | read =>
      obtain ⟨hhears, hframes, hanswered, -⟩ := h.after_runReceiver
      refine ⟨[], hhears, ?_, hanswered⟩
      show waiting ++ [] = (s.readings key).map (·.frame) ++ []
      rw [hframes]
  | exchange e =>
      refine hquiet rfl rfl (h.modifyFace fun hk f l c hlistens => ?_)
      obtain ⟨l', toComponent, hlistens'⟩ := hlistens.exchange e
      exact ⟨l', _, hlistens', rfl⟩
  | meet i => exact hquiet rfl rfl (h.after_meet hkeeps)

theorem Hears.after_all (h : s.Hears key id waiting) {as : List Activity}
    (hkeeps : ∀ a ∈ as, a.Keeps key) :
    ∃ waiting', (as.foldl (proceed key) s).Hears key id waiting'
      ∧ waiting ++ along (proceed key) (accepted key) s as
        = (along (proceed key) (taken key) s as).map (·.frame) ++ waiting'
      ∧ ∀ r ∈ along (proceed key) (taken key) s as, r.Answered key id := by
  induction as generalizing s waiting with
  | nil => exact ⟨waiting, h, List.append_nil _, fun r hr => absurd hr List.not_mem_nil⟩
  | cons a rest ih =>
      obtain ⟨hfirst, hrest⟩ := List.forall_mem_cons.mp hkeeps
      obtain ⟨waiting₁, hhears, hbalance, hanswered⟩ := h.after hfirst
      obtain ⟨waiting', hhears', hbalance', hanswered'⟩ := ih hhears hrest
      refine ⟨waiting', hhears', ?_, fun r hr => ?_⟩
      · rw [along, along, ← List.append_assoc, hbalance, List.append_assoc, hbalance',
          List.map_append, List.append_assoc]
      · rcases List.mem_append.mp hr with hr | hr
        · exact hanswered r hr
        · exact hanswered' r hr

/-- A component's face is up and listens, and nothing waits for it. -/
theorem registerComponent_hears {s' : FaceSystem} (h : s.registerComponent = .ok (id, s')) :
    ∃ key, s'.keyOf? id = some key ∧ s'.Hears key id [] := by
  have hf : (s.adopt (.component s.config.queueSize .internal s.config)).2.face? s.faces.length
      = some (.component s.config.queueSize .internal s.config) := by
    rw [face?_adopt, if_pos rfl]
  obtain ⟨key, hkey, hface⟩ := Option.bind_eq_some_iff.mp (get?_of_addFace h hf)
  exact ⟨key, hkey, _, .create .internal s.config.queueSize, .create s.config.queueSize, hface,
    ⟨rfl, rfl, rfl, rfl, rfl, rfl, rfl, .inl ⟨rfl, rfl⟩⟩, rfl⟩

/-- A new system in which a component is registered. -/
def firstRegistered : FaceSystem :=
  ((create {}).registerComponent.toOption.map (·.2)).getD (create {})

theorem registered_firstRegistered :
    (create {}).registerComponent = .ok (1, firstRegistered) ∧ firstRegistered.keyOf? 1 = some 0 :=
  ⟨rfl, rfl⟩

theorem firstRegistered_hears : firstRegistered.Hears 0 1 [] := by
  obtain ⟨hmade, hkey⟩ := registered_firstRegistered
  obtain ⟨key, hkey', hhears⟩ := registerComponent_hears hmade
  cases hkey.symm.trans hkey'
  exact hhears

theorem firstRegistered_accepts (wire : Bytes) (token : Option Bytes) (hop : Option UInt64) :
    firstRegistered.accepts 0 (fun c => c.sendPacket wire token hop) = true :=
  rfl

/-- Whatever goes on around the face of a component: once its receiving task has run, it has read
every frame that could be sent, each of them once and in order, and what it handed over for them is
all that it gave to the dispatcher. For a packet, whatever token and next hop came with it, this is
one parcel: the bytes that were sent, their token and their next hop, and the face's ID. It needs a
link packet that is no larger than packets may be. With a token of at most 32 bytes, every packet of
at most 8746 bytes has one, and none of more than 8792. For a larger one nothing is handed over. -/
theorem sent_packets_are_handed_over (h : s.Hears key id waiting) (as : List Activity)
    (hkeeps : ∀ a ∈ as, a.Keeps key) :
    let t := as.foldl (proceed key) s
    let readings := along (proceed key) (taken key) s as ++ t.readings key
    (t.runReceiver key).Hears key id []
      ∧ waiting ++ along (proceed key) (accepted key) s as = readings.map (·.frame)
      ∧ (t.runReceiver key).dispatcher = ((t.readings key).flatMap (·.handed)).foldl
        (fun d a => d.dispatch a.parcel .isLocal) t.dispatcher
      ∧ (∀ r ∈ readings, ∀ wire token hop packet, Packet.decode wire = .ok packet →
        r.frame = wrap wire token hop →
          (r.frame.length ≤ maxPacketSize → r.handed = [⟨key, r.frame,
            { raw := wire, packet, pitToken := token, nextHopFaceId := hop,
              incomingFaceId := some id }⟩])
          ∧ (maxPacketSize < r.frame.length → r.handed = []))
      ∧ ∀ wire token hop, (∀ t ∈ token, t.length ≤ 32) →
        ((wrap wire token hop).length ≤ maxPacketSize
          ↔ wire.length + headerBytes token hop + 8 ≤ maxPacketSize)
        ∧ headerBytes token hop ≤ 46 := by
  intro t readings
  obtain ⟨waiting', hhears, hbalance, hanswered⟩ := h.after_all hkeeps
  obtain ⟨hlast, hframes, hanswered', hdispatcher⟩ := hhears.after_runReceiver
  refine ⟨hlast, ?_, hdispatcher, fun r hr => ?_, fun wire token hop htoken => ?_⟩
  · rw [hbalance, List.map_append, hframes]
  · rcases List.mem_append.mp hr with hr | hr
    · exact hanswered r hr
    · exact hanswered' r hr
  · exact ⟨ComponentLink.length_wrap_le_iff htoken, ComponentLink.headerBytes_le htoken⟩

theorem sent_packets_are_handed_over_for_interest :
    let wire : Bytes := [5, 5, 7, 3, 8, 1, 97]
    let packet : Packet := .interest { name := ⟨[.generic [97]]⟩ }
    let token : Bytes := [0, 0, 1, 2, 3, 4]
    let frame := wrap wire (some token) (some 7)
    let t := firstRegistered.submit 0 fun c => c.sendPacket wire (some token) (some 7)
    (create {}).registerComponent = .ok (1, firstRegistered)
      ∧ firstRegistered.Hears 0 1 []
      ∧ firstRegistered.accepts 0 (fun c => c.sendPacket wire (some token) (some 7)) = true
      ∧ Packet.decode wire = .ok packet
      ∧ ∃ r, t.readings 0 = [r] ∧ r.handed = [⟨0, frame,
        { raw := wire, packet, pitToken := some token, nextHopFaceId := some 7,
          incomingFaceId := some 1 }⟩] := by
  intro wire packet token frame t
  have hdecode : Packet.decode wire = .ok packet := by decide +kernel
  obtain ⟨-, hframes, -, hhanded, -⟩ := sent_packets_are_handed_over firstRegistered_hears
    [.sendPacket wire (some token) (some 7)] fun a ha => by
      rw [List.mem_singleton.mp ha]
      trivial
  have hread : (t.readings 0).map (·.frame) = [frame] := hframes.symm
  obtain ⟨r, hr, hframe⟩ := List.map_eq_singleton_iff.mp hread
  have hsmall : frame.length ≤ maxPacketSize := by decide
  have hmem : r ∈ t.readings 0 := hr ▸ List.mem_singleton_self r
  refine ⟨registered_firstRegistered.1, firstRegistered_hears, firstRegistered_accepts _ _ _,
    hdecode, r, hr, ?_⟩
  rw [← hframe]
  exact (hhanded r hmem wire (some token) (some 7) packet hdecode hframe).1 (hframe ▸ hsmall)

/-- The packet that is too large for one frame to a component is no better off on the way from it:
the component is told that it was sent, and nothing comes of it. -/
theorem largeData_is_sent_and_dropped :
    let wire := Face.largeData.raw
    let t := firstRegistered.submit 0 fun c => c.sendPacket wire none (some 1)
    (create {}).registerComponent = .ok (1, firstRegistered)
      ∧ firstRegistered.Hears 0 1 []
      ∧ (∃ packet, Packet.decode wire = .ok packet) ∧ wire.length ≤ maxPacketSize
      ∧ firstRegistered.accepts 0 (fun c => c.sendPacket wire none (some 1)) = true
      ∧ (t.runReceiver 0).Hears 0 1 []
      ∧ (∃ r, t.readings 0 = [r] ∧ r.frame = wrap wire none (some 1) ∧ r.handed = [])
      ∧ (t.runReceiver 0).dispatcher = firstRegistered.dispatcher := by
  intro wire t
  have hlength : wire.length = 8792 := Face.length_largeData
  have hencode : wire = Face.largeData.packet.encode := rfl
  have hdecode : Packet.decode wire = .ok Face.largeData.packet.onWire := by
    rw [hencode]
    exact Packet.decode_encode _ (hencode ▸ hlength.trans_le (by decide))
  have hlarge : maxPacketSize < (wrap wire none (some 1)).length := by
    have hsome : headerBytes none (some 1) = 5 := by decide
    rw [← Nat.not_le, ComponentLink.length_wrap_le_iff (fun _ h => by cases h), hsome, hlength]
    decide
  have hsend : ∀ c : ComponentLink, c.sendPacket wire none (some 1)
      = c.sendFrame (wrap wire none (some 1)) := fun c => rfl
  have hsent : t.Hears 0 1 [wrap wire none (some 1)] := firstRegistered_hears.after_submit hsend
  obtain ⟨hhears, hframes, hanswered, hdispatcher⟩ := hsent.after_runReceiver
  obtain ⟨r, hr, hframe⟩ := List.map_eq_singleton_iff.mp hframes
  have hnone : r.handed = [] :=
    (hanswered r (hr ▸ List.mem_singleton_self r) wire none (some 1) _ hdecode hframe).2
      (hframe ▸ hlarge)
  refine ⟨registered_firstRegistered.1, firstRegistered_hears, ⟨_, hdecode⟩,
    hlength.trans_le (by decide), firstRegistered_accepts _ _ _, hhears, ⟨r, hr, hframe, hnone⟩, ?_⟩
  rw [hdispatcher, hr, List.flatMap_singleton, hnone]
  rfl

end FaceSystem

end NamedData
