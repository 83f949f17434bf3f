import NamedData.Proofs.Forwarding.Delivery
import NamedData.Proofs.Link.Receiving
import NamedData.Proofs.Reassembly.Sources
import NamedData.Proofs.System.Calls

/-!
# What faces hand to the dispatcher

Frames of any bytes come in by any faces, while options change and time passes. What waits for the
forwarding threads was handed over by a face, which read it from bytes that came to this face, and
the face has counted it.
-/

namespace NamedData

open Tlv

/-! ## Where bytes come from -/

/-- The bytes of a packet are a bare frame, the fragment of a link packet that is alone, or the
fragments of link packets that a face received, each of one series once and in order. -/
inductive Origin (received : List Bytes) (frame raw : Bytes) : Prop where
  | bare {type : UInt64} {size : Nat} (front : peek? frame = some (type, size))
      (isPacket : type = Interest.blockType ∨ type = Data.blockType) (same : raw = frame)
  | whole {p : LpPacket} (decoded : LpPacket.decode frame = .ok p)
      (count : p.fragCount.getD 1 = 1) (index : p.fragIndex.getD 0 = 0)
      (carried : p.fragment = some raw)
  | reassembled {base : UInt64} {parts : List LpPacket}
      (decoded : ∀ p ∈ parts, ∃ other ∈ received, LpPacket.decode other = .ok p)
      (placed : ∀ (i : Nat) (p : LpPacket), parts[i]? = some p → p.base? = some base
        ∧ (p.fragIndex.getD 0).toNat = i ∧ (p.fragCount.getD 1).toNat = parts.length
        ∧ p.fragment.isSome)
      (joined : raw = parts.flatMap fun p => p.fragment.getD [])
      (bounded : raw.length ≤ maxPacketSize)

theorem Origin.mono {received more : List Bytes} {frame raw : Bytes} (hsub : received ⊆ more)
    (h : Origin received frame raw) : Origin more frame raw := by
  cases h with
  | bare front isPacket same => exact .bare front isPacket same
  | whole decoded count index carried => exact .whole decoded count index carried
  | reassembled decoded placed joined bounded =>
      refine .reassembled (fun p hp => ?_) placed joined bounded
      obtain ⟨other, hother, h⟩ := decoded p hp
      exact ⟨other, hsub hother, h⟩

/-! ## Stores -/

namespace Reassembly

variable {s : Reassembly} {received more : List Bytes} {p : LpPacket} {frame : Bytes}
  {now : Instant} {done : Reassembled}

/-- Nothing but link packets from these frames was put into a store. -/
def FedBy (received : List Bytes) (s : Reassembly) : Prop :=
  ∃ ttl maxGroups choices calls, s = ((empty ttl maxGroups).choosing choices).run calls
    ∧ ∀ p now, .insert p now ∈ calls → ∃ frame ∈ received, LpPacket.decode frame = .ok p

theorem fedBy_empty (received : List Bytes) (ttl : Duration) (maxGroups : Nat)
    (choices : List Nat) : ((empty ttl maxGroups).choosing choices).FedBy received :=
  ⟨ttl, maxGroups, choices, [], rfl, by simp⟩

theorem FedBy.mono (hsub : received ⊆ more) (h : s.FedBy received) : s.FedBy more := by
  obtain ⟨ttl, maxGroups, choices, calls, hs, hcalls⟩ := h
  refine ⟨ttl, maxGroups, choices, calls, hs, fun p now hmem => ?_⟩
  obtain ⟨frame, hframe, hp⟩ := hcalls p now hmem
  exact ⟨frame, hsub hframe, hp⟩

theorem FedBy.apply (h : s.FedBy received) {c : Call}
    (hc : ∀ p now, c = .insert p now → ∃ frame ∈ received, LpPacket.decode frame = .ok p) :
    (s.apply c).FedBy received := by
  obtain ⟨ttl, maxGroups, choices, calls, rfl, hcalls⟩ := h
  refine ⟨ttl, maxGroups, choices, calls ++ [c], (run_concat _ _ _).symm, fun p now hmem => ?_⟩
  rcases List.mem_append.mp hmem with hold | hnew
  · exact hcalls p now hold
  · exact hc p now (List.mem_singleton.mp hnew).symm

theorem FedBy.evictExpired (h : s.FedBy received) (now : Instant) :
    (s.evictExpired now).FedBy received :=
  FedBy.apply (c := .evictExpired now) h fun _ _ hc => by cases hc

theorem FedBy.insert (h : s.FedBy received) (hframe : frame ∈ received)
    (hp : LpPacket.decode frame = .ok p) (now : Instant) :
    (s.insert p now).2.FedBy received :=
  FedBy.apply (c := .insert p now) h fun _ _ hc => by cases hc; exact ⟨frame, hframe, hp⟩

/-- What a store completes is joined from frames that it was fed by. -/
theorem FedBy.origin (h : s.FedBy received) (hframe : frame ∈ received)
    (hp : LpPacket.decode frame = .ok p) (hdone : (s.insert p now).1 = .ok (some done)) :
    Origin received frame done.payload := by
  obtain ⟨ttl, maxGroups, choices, calls, rfl, hcalls⟩ := h
  -- The insert is the last call of a run that begins with an empty store.
  have hcompletes :
      Completes ((empty ttl maxGroups).choosing choices) (calls ++ [.insert p now]) calls.length p
        done :=
    ⟨now, by simp, by simpa using hdone⟩
  obtain ⟨base, sources, parts, -, hmade, -⟩ :=
    madeFrom_of_completes (empty_valid ttl maxGroups choices) rfl hcompletes
  refine .reassembled (fun q hq => ?_) hmade.placed hmade.payload_eq hmade.size_le
  have hmem : some q ∈ sources.map (insertedAt (calls ++ [.insert p now])) :=
    hmade.inserted ▸ List.mem_map_of_mem hq
  obtain ⟨pos, -, hpos⟩ := List.mem_map.mp hmem
  unfold insertedAt at hpos
  split at hpos
  · rename_i q' t hcall
    cases hpos
    rcases List.mem_append.mp (List.mem_of_getElem? hcall) with hold | hnew
    · exact hcalls q t hold
    · cases List.mem_singleton.mp hnew
      exact ⟨frame, hframe, hp⟩
  · cases hpos

end Reassembly

/-! ## Single faces -/

/-- A parcel that a face handed to the dispatcher when a frame came in. -/
structure Handover where
  key : FaceKey
  frame : Bytes
  parcel : Parcel
deriving DecidableEq, Repr

/-- What is true of every parcel that a face hands over. -/
structure Handover.Authentic (h : Handover) (received : List Bytes) (faceId : UInt64) : Prop where
  frame_mem : h.frame ∈ received
  decoded : Packet.decode h.parcel.raw = .ok h.parcel.packet
  named : h.parcel.incomingFaceId = some faceId
  origin : Origin received h.frame h.parcel.raw

theorem Handover.Authentic.mono {h : Handover} {received more : List Bytes} {faceId : UInt64}
    (hsub : received ⊆ more) (ha : h.Authentic received faceId) : h.Authentic more faceId where
  frame_mem := hsub ha.frame_mem
  decoded := ha.decoded
  named := ha.named
  origin := ha.origin.mono hsub

namespace LinkService

variable {l : LinkService} {received : List Bytes} {frame : Bytes}

theorem unwrap_origin (hfed : l.reassembly.FedBy received) (hframe : frame ∈ received)
    (now : Instant) :
    (l.unwrap frame now).2.reassembly.FedBy received
      ∧ ∀ done, (l.unwrap frame now).1 = some done → Origin received frame done.payload := by
  have hunwrapped := l.unwrapped frame now
  generalize l.unwrap frame now = r at hunwrapped ⊢
  cases hunwrapped with
  | dropped => exact ⟨hfed, fun done hdone => by cases hdone⟩
  | bare front isPacket =>
      refine ⟨hfed, fun done hdone => ?_⟩
      cases hdone
      exact .bare front isPacket rfl
  | whole decoded count index carried =>
      refine ⟨hfed, fun done hdone => ?_⟩
      cases hdone
      exact .whole decoded count index carried
  | @inserted p decoded =>
      refine ⟨hfed.insert hframe decoded now, fun done hdone => ?_⟩
      cases hresult : (l.reassembly.insert p now).1 with
      | error e =>
          rw [hresult] at hdone
          cases hdone
      | ok completed =>
          rw [hresult] at hdone
          cases hdone
          exact hfed.origin hframe decoded hresult

theorem receive_authentic (hfed : l.reassembly.FedBy received) (hframe : frame ∈ received)
    (faceId : UInt64) (now : Instant) :
    (l.receive faceId frame now).2.reassembly.FedBy received
      ∧ ∀ (key : FaceKey) (p : Parcel), (l.receive faceId frame now).1 = some p →
        (Handover.mk key frame p).Authentic received faceId := by
  obtain ⟨hstore, horigin⟩ := unwrap_origin hfed hframe now
  rw [receive_eq]
  refine ⟨hstore, fun key p hp => ?_⟩
  obtain ⟨done, hdone, hp⟩ := Option.bind_eq_some_iff.mp hp
  obtain ⟨hraw, hdecode, hface⟩ := parcel?_eq_some hp
  exact ⟨hframe, hdecode, hface, hraw ▸ horigin done hdone⟩

end LinkService

theorem PacketCounters.countArrival_eq (c : PacketCounters) (p : Option Parcel) :
    (c.countArrival p).inInterests
        = c.inInterests + UInt64.ofNat (p.toList.countP fun p => p.packet.isInterest)
      ∧ (c.countArrival p).inData
        = c.inData + UInt64.ofNat (p.toList.countP fun p => !p.packet.isInterest) := by
  cases p with
  | none => simp [countArrival]
  | some p => cases hkind : p.packet.isInterest <;> simp [countArrival, countIn, hkind]

namespace Face

variable {f g : Face} {received more : List Bytes} {handed : List Handover}

/-- A face took in these frames, and has counted what it handed over. -/
structure Accounted (f : Face) (received : List Bytes) (handed : List Handover) : Prop where
  store : ∀ l, f.service = .link l → l.reassembly.FedBy received
  authentic : ∀ h ∈ handed, h.Authentic received f.id
  interests : f.counters.inInterests
    = UInt64.ofNat (handed.countP fun h => h.parcel.packet.isInterest)
  data : f.counters.inData = UInt64.ofNat (handed.countP fun h => !h.parcel.packet.isInterest)

theorem Accounted.mono (hsub : received ⊆ more) (h : f.Accounted received handed) :
    f.Accounted more handed where
  store := fun l hl => (h.store l hl).mono hsub
  authentic := fun a ha => (h.authentic a ha).mono hsub
  interests := h.interests
  data := h.data

/-- What a face hands over when a frame comes in. -/
def handover (f : Face) (key : FaceKey) (frame : Bytes) (now : Instant) : List Handover :=
  (f.receive frame now).1.toList.map fun p => ⟨key, frame, p⟩

theorem Accounted.receive (h : f.Accounted received handed) (key : FaceKey) (frame : Bytes)
    (now : Instant) :
    (f.receive frame now).2.Accounted (received ++ [frame])
      (handed ++ f.handover key frame now) := by
  have hsub : received ⊆ received ++ [frame] := List.subset_append_left _ _
  have hframe : frame ∈ received ++ [frame] := List.mem_append_right _ (List.mem_singleton_self _)
  unfold handover
  cases hservice : f.service with
  | discard =>
      rw [receive_of_discard hservice, Option.toList_none, List.map_nil, List.append_nil]
      exact h.mono hsub
  | link l =>
      obtain ⟨hstore, hauthentic⟩ :=
        LinkService.receive_authentic ((h.store l hservice).mono hsub) hframe f.id now
      rw [receive_eq hservice]
      generalize l.receive f.id frame now = r at hstore hauthentic ⊢
      obtain ⟨parcel, l'⟩ := r
      obtain ⟨hinterests, hdata⟩ := f.counters.countArrival_eq parcel
      exact
        { store := by
            intro m hm
            cases hm
            exact hstore
          authentic := by
            intro a ha
            rcases List.mem_append.mp ha with hold | hnew
            · exact (h.authentic a hold).mono hsub
            · obtain ⟨p, hp, rfl⟩ := List.mem_map.mp hnew
              exact hauthentic key p (Option.mem_toList.mp hp)
          interests := by
            rw [List.countP_append, List.countP_map, UInt64.ofNat_add, ← h.interests]
            exact hinterests
          data := by
            rw [List.countP_append, List.countP_map, UInt64.ofNat_add, ← h.data]
            exact hdata }

theorem Accounted.relink (h : f.Accounted received handed) {l : LinkService}
    (hfed : l.reassembly.FedBy received) :
    ({ f with service := .link l } : Face).Accounted received handed where
  store := by
    intro m hm
    cases hm
    exact hfed
  authentic := h.authentic
  interests := h.interests
  data := h.data

theorem Accounted.setOptions (h : f.Accounted received handed) (options : LinkOptions) :
    ((f.setOptions? options).getD f).Accounted received handed := by
  unfold setOptions? link?
  cases hservice : f.service with
  | discard => exact h
  | link l =>
      refine h.relink (l := l.setOptions options) ?_
      unfold LinkService.setOptions
      dsimp only
      split
      · exact h.store l hservice
      · exact Reassembly.fedBy_empty received _ _ _

theorem Accounted.evictExpired (h : f.Accounted received handed) (now : Instant) :
    (f.evictExpired now).Accounted received handed := by
  unfold Face.evictExpired
  split
  · exact h
  · rename_i l hservice
    exact h.relink ((h.store l hservice).evictExpired now)

end Face

/-! ## Runs -/

namespace FaceSystem

variable {s : FaceSystem} {key k : FaceKey} {f : Face}

/-- What happens while faces receive. -/
inductive Incident where
  | receive (key : FaceKey) (frame : Bytes)
  | setOptions (key : FaceKey) (options : LinkOptions)
  /-- A face gives up the fragments that are too old. -/
  | evictExpired (key : FaceKey)
  | wait (now : Instant)
  /-- The forwarding threads take all that waits. -/
  | drain

def meet (s : FaceSystem) : Incident → FaceSystem
  | .receive key frame => s.receive key frame
  | .setOptions key options => s.modifyFace key fun f => (f.setOptions? options).getD f
  | .evictExpired key => s.modifyFace key fun f => f.evictExpired s.clock.now
  | .wait now => { s with clock := { s.clock with now } }
  | .drain => { s with dispatcher := s.dispatcher.drain }

/-- What a face hands over in an incident. -/
def handedOver (s : FaceSystem) : Incident → List Handover
  | .receive key frame =>
    match s.face? key with
    | some f => f.handover key frame s.clock.now
    | none => []
  | _ => []

/-- The frames that came in by a face. -/
def receivedBy (key : FaceKey) (is : List Incident) : List Bytes :=
  is.flatMap fun
    | .receive k frame => if k = key then [frame] else []
    | _ => []

def handedBy (key : FaceKey) (log : List Handover) : List Handover :=
  log.filter fun h => h.key == key

/-- Faces took in what came in by them, and what waits for a thread is in the log. -/
structure Accounted (is : List Incident) (log : List Handover) (s : FaceSystem) : Prop where
  faces : ∀ key f, s.face? key = some f → f.Accounted (receivedBy key is) (handedBy key log)
  known : ∀ h ∈ log, (s.face? h.key).isSome
  queued : ∀ q ∈ s.dispatcher.threads, ∀ p ∈ q.waiting, ∃ h ∈ log, h.parcel = p

variable {is : List Incident} {log : List Handover}

theorem receivedBy_append (is is' : List Incident) :
    receivedBy key (is ++ is') = receivedBy key is ++ receivedBy key is' :=
  List.flatMap_append

theorem receivedBy_receive (key : FaceKey) (frame : Bytes) :
    receivedBy key [.receive key frame] = [frame] := by
  simp [receivedBy]

theorem receivedBy_receive_of_ne (hk : k ≠ key) (frame : Bytes) :
    receivedBy k [.receive key frame] = [] := by
  simp [receivedBy, hk.symm]

theorem handedBy_append (log log' : List Handover) :
    handedBy key (log ++ log') = handedBy key log ++ handedBy key log' :=
  List.filter_append _ _

theorem handedBy_handover (f : Face) (frame : Bytes) (now : Instant) :
    handedBy key (f.handover key frame now) = f.handover key frame now := by
  refine List.filter_eq_self.mpr fun h hh => ?_
  obtain ⟨p, -, rfl⟩ := List.mem_map.mp hh
  exact beq_self_eq_true key

theorem handedBy_handover_of_ne (hk : k ≠ key) (f : Face) (frame : Bytes) (now : Instant) :
    handedBy k (f.handover key frame now) = [] := by
  refine List.filter_eq_nil_iff.mpr fun h hh => ?_
  obtain ⟨p, -, rfl⟩ := List.mem_map.mp hh
  simpa using hk.symm

theorem face?_receive_of_ne (hk : k ≠ key) (frame : Bytes) :
    (s.receive key frame).face? k = s.face? k := by
  cases hf : s.face? key with
  | none => rw [receive, hf]
  | some f =>
      rw [receive_eq hf]
      exact List.getElem?_set_ne hk.symm

theorem Accounted.receive (h : Accounted is log s) (hf : s.face? key = some f) (frame : Bytes) :
    Accounted (is ++ [.receive key frame]) (log ++ f.handover key frame s.clock.now)
      (s.receive key frame) where
  faces := by
    intro k g hg
    by_cases hk : k = key
    · subst hk
      cases (face?_receive hf frame).symm.trans hg
      rw [receivedBy_append, receivedBy_receive, handedBy_append, handedBy_handover]
      exact (h.faces k f hf).receive k frame s.clock.now
    · rw [face?_receive_of_ne hk] at hg
      rw [receivedBy_append, receivedBy_receive_of_ne hk, List.append_nil, handedBy_append,
        handedBy_handover_of_ne hk, List.append_nil]
      exact h.faces k g hg
  known := by
    intro a ha
    by_cases hk : a.key = key
    · rw [hk, face?_receive hf frame]
      rfl
    · rw [face?_receive_of_ne hk]
      rcases List.mem_append.mp ha with hold | hnew
      · exact h.known a hold
      · obtain ⟨p, -, rfl⟩ := List.mem_map.mp hnew
        exact absurd rfl hk
  queued := by
    intro q hq p hp
    rw [receive_eq hf] at hq
    have hold : (∃ q' ∈ s.dispatcher.threads, p ∈ q'.waiting) →
        ∃ a ∈ log ++ f.handover key frame s.clock.now, a.parcel = p := by
      rintro ⟨q', hq', hp'⟩
      obtain ⟨a, ha, rfl⟩ := h.queued q' hq' p hp'
      exact ⟨a, List.mem_append_left _ ha, rfl⟩
    unfold Face.handover at hold ⊢
    cases hparcel : (f.receive frame s.clock.now).1 with
    | none =>
        rw [hparcel] at hq hold
        exact hold ⟨q, hq, hp⟩
    | some p' =>
        rw [hparcel] at hq hold
        rcases Dispatcher.mem_waiting_dispatch hq hp with rfl | hwaits
        · exact ⟨⟨key, frame, p⟩, List.mem_append_right _ (List.mem_singleton_self _), rfl⟩
        · exact hold hwaits

theorem Accounted.modifyFace {g : Face → Face}
    (hg : ∀ f received handed, f.Accounted received handed → (g f).Accounted received handed)
    (h : Accounted is log s) (key : FaceKey) : Accounted is log (s.modifyFace key g) where
  faces := by
    intro k f hf
    by_cases hk : k = key
    · subst hk
      rw [face?_modifyFace] at hf
      obtain ⟨f', hf', rfl⟩ := Option.map_eq_some_iff.mp hf
      exact hg f' _ _ (h.faces k f' hf')
    · rw [face?_modifyFace_of_ne hk] at hf
      exact h.faces k f hf
  known := by
    intro a ha
    have hknown := h.known a ha
    by_cases hk : a.key = key
    · rw [hk] at hknown ⊢
      rw [face?_modifyFace, Option.isSome_map]
      exact hknown
    · rwa [face?_modifyFace_of_ne hk]
  queued := h.queued

/-- An incident in which nothing comes in by a face of the system. -/
theorem Accounted.aside (h : Accounted is log s) (i : Incident)
    (hi : ∀ key f, s.face? key = some f → receivedBy key [i] = []) :
    Accounted (is ++ [i]) log s where
  faces := by
    intro key f hf
    have hsame : receivedBy key (is ++ [i]) = receivedBy key is := by
      rw [receivedBy_append, hi key f hf, List.append_nil]
    exact hsame ▸ h.faces key f hf
  known := h.known
  queued := h.queued

theorem Accounted.after (h : Accounted is log s) (i : Incident) :
    Accounted (is ++ [i]) (log ++ s.handedOver i) (s.meet i) := by
  have hquiet (hnone : s.handedOver i = []) (hi : ∀ key, receivedBy key [i] = [])
      (hmeet : Accounted is log (s.meet i)) :
      Accounted (is ++ [i]) (log ++ s.handedOver i) (s.meet i) := by
    rw [hnone, List.append_nil]
    exact hmeet.aside i fun key _ _ => hi key
  cases i with
  | receive key frame =>
      rw [meet, handedOver]
      cases hf : s.face? key with
      | none =>
          -- The frame is lost, and no face of the system has this number.
          rw [FaceSystem.receive, hf, List.append_nil]
          refine h.aside _ fun k f hk => ?_
          have hne : k ≠ key := by
            rintro rfl
            cases hf.symm.trans hk
          exact receivedBy_receive_of_ne hne frame
      | some f => exact h.receive hf frame
  | setOptions key options =>
      exact hquiet rfl (fun _ => rfl) (h.modifyFace (fun _ _ _ hf => hf.setOptions options) key)
  | evictExpired key =>
      exact hquiet rfl (fun _ => rfl)
        (h.modifyFace (fun _ _ _ hf => hf.evictExpired s.clock.now) key)
  | wait now => exact hquiet rfl (fun _ => rfl) ⟨h.faces, h.known, h.queued⟩
  | drain =>
      refine hquiet rfl (fun _ => rfl) ⟨h.faces, h.known, fun q hq p hp => ?_⟩
      obtain ⟨q', -, rfl⟩ := List.mem_map.mp hq
      cases hp

theorem Accounted.afterAll (h : Accounted is log s) (next : List Incident) :
    Accounted (is ++ next) (log ++ along meet handedOver s next) (next.foldl meet s) := by
  induction next generalizing is log s with
  | nil => simpa [along] using h
  | cons i rest ih =>
      have hrest := ih (h.after i)
      simpa [along] using hrest

/-- Faces that have received nothing, and threads for which nothing waits. -/
structure Unused (s : FaceSystem) : Prop where
  stores : ∀ key f l, s.face? key = some f → f.service = .link l →
    ∃ ttl maxGroups choices, l.reassembly = (Reassembly.empty ttl maxGroups).choosing choices
  counters : ∀ key f, s.face? key = some f →
    f.counters.inInterests = 0 ∧ f.counters.inData = 0
  queues : ∀ q ∈ s.dispatcher.threads, q.waiting = []

theorem Unused.accounted (h : s.Unused) : Accounted [] [] s where
  faces := fun key f hf =>
    { store := by
        intro l hl
        obtain ⟨ttl, maxGroups, choices, hstore⟩ := h.stores key f l hf hl
        exact hstore ▸ Reassembly.fedBy_empty _ ttl maxGroups choices
      authentic := fun a ha => by cases ha
      interests := (h.counters key f hf).1
      data := (h.counters key f hf).2 }
  known := fun a ha => by cases ha
  queued := by
    intro q hq p hp
    rw [h.queues q hq] at hp
    cases hp

theorem unused_create (config : Config) : (create config).Unused where
  stores := fun key f l hf => by cases hf
  counters := fun key f hf => by cases hf
  queues := by
    intro q hq
    cases List.eq_of_mem_replicate hq
    rfl

theorem Unused.adopt_withLink (h : s.Unused) (base : FaceBase) (medium : Medium)
    (options : LinkOptions) (config : Config) :
    (s.adopt (.withLink base medium options config)).2.Unused where
  stores := by
    intro key f l hf hl
    rw [face?_adopt] at hf
    split at hf
    · cases hf
      cases hl
      exact ⟨_, _, [], rfl⟩
    · exact h.stores key f l hf hl
  counters := by
    intro key f hf
    rw [face?_adopt] at hf
    split at hf
    · cases hf
      exact ⟨rfl, rfl⟩
    · exact h.counters key f hf
  queues := h.queues

/-- What a frame brings is handed over at most once, and nothing else reaches the threads or is
counted. -/
theorem receive_handedOver (hf : s.face? key = some f) (frame : Bytes) :
    (s.handedOver (.receive key frame)).length ≤ 1
      ∧ (s.receive key frame).dispatcher = (s.handedOver (.receive key frame)).foldl
        (fun d h => d.dispatch h.parcel f.base.scope) s.dispatcher
      ∧ (s.handedOver (.receive key frame) = [] → ∀ k,
        ((s.receive key frame).face? k).map (·.counters) = (s.face? k).map (·.counters)) := by
  have hhanded : s.handedOver (.receive key frame) = f.handover key frame s.clock.now := by
    rw [handedOver, hf]
  rw [hhanded, Face.handover]
  refine ⟨?_, ?_, fun hnone k => ?_⟩
  · rw [List.length_map]
    exact Option.length_toList_le
  · rw [receive_eq hf, List.foldl_map]
  · by_cases hk : k = key
    · subst hk
      rw [face?_receive hf, hf]
      refine congrArg some ?_
      cases hservice : f.service with
      | discard => rw [Face.receive_of_discard hservice]
      | link l =>
          rw [Face.receive_eq hservice] at hnone ⊢
          cases hparcel : (l.receive f.id frame s.clock.now).1 with
          | none => rfl
          | some p =>
              rw [hparcel] at hnone
              cases hnone
    · rw [face?_receive_of_ne hk]

/-- Whatever bytes come in, by whichever faces and under whatever options: all that waits for a
thread was handed over by a face, is read from the bytes that it has with it, names this face, and
these bytes are a bare frame, the fragment of a link packet that is alone, or joined fragments that
came in by the face. A face has counted what it handed over, by kind. A further frame hands over one
parcel at most; without one, neither the threads nor the counters change. -/
theorem queued_parcels_are_authentic (hs : s.Unused) (is : List Incident) :
    let t := is.foldl meet s
    let log := along meet handedOver s is
    (∀ q ∈ t.dispatcher.threads, ∀ p ∈ q.waiting, ∃ h ∈ log, h.parcel = p)
      ∧ (∀ h ∈ log, ∃ f, t.face? h.key = some f ∧ h.Authentic (receivedBy h.key is) f.id)
      ∧ (∀ key f, t.face? key = some f →
        let handed := handedBy key log
        f.counters.inInterests = UInt64.ofNat (handed.countP fun h => h.parcel.packet.isInterest)
          ∧ f.counters.inData = UInt64.ofNat (handed.countP fun h => !h.parcel.packet.isInterest)
          ∧ f.counters.inInterests + f.counters.inData = UInt64.ofNat handed.length)
      ∧ ∀ key frame f, t.face? key = some f →
        let handed := t.handedOver (.receive key frame)
        handed.length ≤ 1
          ∧ (t.receive key frame).dispatcher
            = handed.foldl (fun d h => d.dispatch h.parcel f.base.scope) t.dispatcher
          ∧ (handed = [] → (t.receive key frame).dispatcher = t.dispatcher
            ∧ ∀ k, ((t.receive key frame).face? k).map (·.counters)
              = (t.face? k).map (·.counters)) := by
  intro t log
  have haccounted : Accounted is log t := hs.accounted.afterAll is
  refine ⟨haccounted.queued, fun h hh => ?_, fun key f hf => ?_, fun key frame f hf => ?_⟩
  · obtain ⟨f, hf⟩ := Option.isSome_iff_exists.mp (haccounted.known h hh)
    have hmem : h ∈ handedBy h.key log := List.mem_filter.mpr ⟨hh, beq_self_eq_true h.key⟩
    exact ⟨f, hf, (haccounted.faces h.key f hf).authentic h hmem⟩
  · obtain ⟨-, -, hinterests, hdata⟩ := haccounted.faces key f hf
    refine ⟨hinterests, hdata, ?_⟩
    rw [hinterests, hdata, ← UInt64.ofNat_add]
    have hkinds := List.length_eq_countP_add_countP (l := handedBy key log)
      fun h : Handover => h.parcel.packet.isInterest
    simp only [Bool.not_eq_true, Bool.decide_eq_false] at hkinds
    rw [hkinds]
  · obtain ⟨hlength, hdispatcher, hcounters⟩ := receive_handedOver hf frame
    refine ⟨hlength, hdispatcher, fun hnone => ⟨?_, hcounters hnone⟩⟩
    rw [hdispatcher, hnone, List.foldl_nil]

/-- One face gets both fragments of an Interest, and the other one, whose options change meanwhile,
a stray fragment and then the same Interest bare. -/
theorem queued_parcels_are_authentic_from_two_faces :
    let s := (((create .testing).adopt (.component 4 {} .testing)).2.adopt
      (.component 4 {} .testing)).2
    let first : LpPacket :=
      { sequence := some 7, fragIndex := some 0, fragCount := some 2, fragment := some [5, 5, 7] }
    let last : LpPacket :=
      { sequence := some 8, fragIndex := some 1, fragCount := some 2,
        fragment := some [3, 8, 1, 97] }
    let is : List Incident :=
      [.receive 0 first.encode, .setOptions 1 { reassembly := false }, .receive 1 last.encode,
        .wait 9, .receive 0 last.encode, .receive 1 [5, 5, 7, 3, 8, 1, 97]]
    s.Unused ∧ ((is.foldl meet s).dispatcher.threads.flatMap (·.waiting)).length = 2
      ∧ (∀ q ∈ (is.foldl meet s).dispatcher.threads, ∀ p ∈ q.waiting,
        Packet.decode p.raw = .ok p.packet)
      ∧ ∀ key f, (is.foldl meet s).face? key = some f →
        f.counters.inInterests + f.counters.inData
          = UInt64.ofNat (handedBy key (along meet handedOver s is)).length := by
  intro s first last is
  have hunused : s.Unused :=
    ((unused_create .testing).adopt_withLink _ _ _ _).adopt_withLink _ _ _ _
  obtain ⟨hqueued, hlog, hcounted, -⟩ := queued_parcels_are_authentic hunused is
  refine ⟨hunused, by decide +kernel, fun q hq p hp => ?_,
    fun key f hf => (hcounted key f hf).2.2⟩
  obtain ⟨h, hh, rfl⟩ := hqueued q hq p hp
  obtain ⟨f, -, hauthentic⟩ := hlog h hh
  exact hauthentic.decoded

end FaceSystem

end NamedData
