import NamedData.Proofs.Link.Bare
import NamedData.Proofs.Link.Receiving
import NamedData.Proofs.Reassembly.Store

/-!
# Local fields

The next hop, the incoming face and the cache policy of a link packet are meant for neighbours that
are trusted. A face that is not told to honour them works the same without them: to leave the three
fields out of a frame and of all that is stored, and then to receive, is to receive and then to
leave them out.
-/

namespace NamedData

open Tlv

/-- Neighbours choose neither the next hop nor the cache policy of their packets. -/
structure LinkOptions.IgnoresLocalFields (options : LinkOptions) : Prop where
  noNextHop : options.consumerControlledForwarding = false
  noPolicy : options.localCachePolicy = false

/-! ## Without local fields -/

/-- A link packet without the three fields. -/
def LpPacket.stripped (p : LpPacket) : LpPacket :=
  { p with nextHopFaceId := none, incomingFaceId := none, cachePolicy := none }

def Fragment.stripped (f : Fragment) : Fragment :=
  { f with header := f.header.stripped }

def Reassembled.stripped (r : Reassembled) : Reassembled :=
  { r with head := r.head.stripped }

namespace FragmentGroup

variable {g : FragmentGroup} {f : Fragment}

/-- A group whose first fragment's header has lost the three fields. -/
def stripped (g : FragmentGroup) : FragmentGroup :=
  { g with head := g.head.map LpPacket.stripped }

theorem stripped_add : (g.add f).stripped = g.stripped.add f.stripped := by
  unfold add stripped Fragment.stripped
  dsimp only
  split <;> rfl

theorem result_stripped : g.stripped.result = g.result.stripped := by
  unfold result stripped Reassembled.stripped
  cases g.head <;> rfl

end FragmentGroup

theorem Fragment.ofPacket_stripped (p : LpPacket) :
    ofPacket p.stripped = (ofPacket p).map stripped := by
  unfold ofPacket LpPacket.stripped
  dsimp only
  cases p.sequence with
  | none => rfl
  | some sequence =>
      cases p.fragment with
      | none => rfl
      | some payload =>
          dsimp only
          split
          · rfl
          · split <;> rfl

/-! ## The store -/

namespace Reassembly

variable {s : Reassembly} {base : UInt64} {now : Instant}

/-- The three fields are lost, everything else stays. -/
def stripped (s : Reassembly) : Reassembly :=
  { s with groups := s.groups.map fun e => (e.1, e.2.stripped) }

theorem group?_stripped : s.stripped.group? base = (s.group? base).map FragmentGroup.stripped := by
  unfold group? stripped
  dsimp only
  induction s.groups with
  | nil => rfl
  | cons e rest ih =>
      rw [List.map_cons, List.lookup_cons, List.lookup_cons]
      cases base == e.1 with
      | true => rfl
      | false => exact ih

theorem stripped_erase : (s.erase base).stripped = s.stripped.erase base := by
  simp only [erase, stripped, List.filter_map]
  rfl

theorem stripped_evictExpired : (s.evictExpired now).stripped = s.stripped.evictExpired now := by
  simp only [evictExpired, stripped, List.filter_map]
  rfl

theorem stripped_put {g : FragmentGroup} :
    (s.put base g).stripped = s.stripped.put base g.stripped := by
  unfold put stripped
  dsimp only
  congr 1
  induction s.groups with
  | nil => rfl
  | cons e rest ih =>
      simp only [List.map_cons, putIn]
      split
      · rfl
      · rw [List.map_cons, ih]

theorem oldest_stripped (groups : List (UInt64 × FragmentGroup)) :
    oldest (groups.map fun e => (e.1, e.2.stripped)) = oldest groups := by
  unfold oldest
  rw [List.filter_map, List.map_map]
  simp only [Function.comp_def, List.all_map]
  rfl

theorem stripped_evictOldest : s.evictOldest.stripped = s.stripped.evictOldest := by
  have holdest : oldest s.stripped.groups = oldest s.groups := oldest_stripped s.groups
  have hchoices : s.stripped.choices = s.choices := rfl
  unfold evictOldest
  rw [holdest, hchoices]
  dsimp only
  split
  · rfl
  · rename_i base hbase
    exact congrArg (choosing · s.choices.tail) stripped_erase

theorem stripped_makeRoom : s.makeRoom.stripped = s.stripped.makeRoom := by
  have hsize : s.stripped.size = s.size := List.length_map _
  have hlimit : s.stripped.maxGroups = s.maxGroups := rfl
  unfold makeRoom
  rw [hsize, hlimit]
  split
  · exact stripped_evictOldest
  · rfl

/-- What is left of a result and a store without the three fields. -/
def strippedResult (r : Except Error (Option Reassembled) × Reassembly) :
    Except Error (Option Reassembled) × Reassembly :=
  (r.1.map (Option.map Reassembled.stripped), r.2.stripped)

theorem extend_stripped {g : FragmentGroup} {f : Fragment} :
    s.stripped.extend g.stripped f.stripped = strippedResult (s.extend g f) := by
  have hcontains : g.stripped.contains f.stripped.index = g.contains f.index := rfl
  have hlength : (g.add f).stripped.totalLength = (g.add f).totalLength := rfl
  have hcomplete : (g.add f).stripped.isComplete = (g.add f).isComplete := rfl
  have hbase : f.stripped.base = f.base := rfl
  unfold extend
  rw [hcontains]
  split
  · rfl
  · dsimp only
    rw [← FragmentGroup.stripped_add, hlength, hcomplete, hbase]
    split
    · rw [← stripped_erase]
      rfl
    · split
      · rw [← stripped_erase, FragmentGroup.result_stripped]
        rfl
      · rw [← stripped_put]
        rfl

theorem accept_stripped {f : Fragment} :
    s.stripped.accept f.stripped now = strippedResult (s.accept f now) := by
  have hbase : f.stripped.base = f.base := rfl
  have hcount : f.stripped.count = f.count := rfl
  unfold accept
  dsimp only
  rw [← stripped_evictExpired, hbase, hcount, group?_stripped]
  cases (s.evictExpired now).group? f.base with
  | none =>
      dsimp only [Option.map_none]
      rw [← stripped_makeRoom]
      exact extend_stripped (g := .start f.count now)
  | some g =>
      have hsame : g.stripped.count = g.count := rfl
      dsimp only [Option.map_some]
      rw [hsame]
      split
      · exact extend_stripped
      · rw [← stripped_erase]
        rfl

/-- A store sees nothing of the three fields. -/
theorem insert_stripped (s : Reassembly) (p : LpPacket) (now : Instant) :
    s.stripped.insert p.stripped now = strippedResult (s.insert p now) := by
  unfold insert
  rw [Fragment.ofPacket_stripped]
  cases Fragment.ofPacket p with
  | error e => rfl
  | ok f => exact accept_stripped

end Reassembly

/-! ## Frames -/

/-- Two frames that are the same, or that are link packets which differ in the three fields only, or
that begin like link packets and cannot be read as such. -/
inductive DifferLocally : Bytes → Bytes → Prop where
  | same (frame : Bytes) : DifferLocally frame frame
  | fields {a b : Bytes} {p q : LpPacket} (first : LpPacket.decode a = .ok p)
      (second : LpPacket.decode b = .ok q) (alike : p.stripped = q.stripped) : DifferLocally a b
  | refused {a b : Bytes} {e e' : Error} (firstType : firstType? a = some LpPacket.blockType)
      (first : LpPacket.decode a = .error e) (secondType : firstType? b = some LpPacket.blockType)
      (second : LpPacket.decode b = .error e') : DifferLocally a b

theorem DifferLocally.of_encode {p q : LpPacket} (hp : p.encode.length ≤ maxSize)
    (hq : q.encode.length ≤ maxSize) (h : p.stripped = q.stripped) :
    DifferLocally p.encode q.encode :=
  .fields (p.decode_encode hp) (q.decode_encode hq) h

namespace LpPacket

variable {p q : LpPacket} {b : Block} {blocks : List Block}

/-- The three fields. -/
def Field.isLocal : Field → Bool
  | nextHopFaceId | incomingFaceId | cachePolicy => true
  | _ => false

def isLocalBlock (b : Block) : Bool :=
  (Field.ofType? b.type).any Field.isLocal

/-- What a local field changes is lost again. -/
theorem stripped_of_absorb_local (hb : isLocalBlock b = true) (h : absorb p b = .ok q) :
    q.stripped = p.stripped := by
  unfold isLocalBlock at hb
  unfold absorb at h
  cases hf : Field.ofType? b.type with
  | none => rw [hf] at hb; cases hb
  | some f =>
      simp only [hf] at h
      rw [hf] at hb
      cases f with
      | nextHopFaceId | incomingFaceId =>
          obtain ⟨v, -, h⟩ := exists_of_bind_eq_ok h
          cases h
          rfl
      | cachePolicy =>
          obtain ⟨inner, -, h⟩ := exists_of_bind_eq_ok h
          obtain ⟨policy, -, h⟩ := exists_of_bind_eq_ok h
          cases h
          rfl
      | _ => cases hb

theorem absorb_stripped (hb : isLocalBlock b = false) (h : absorb p b = .ok q) :
    absorb p.stripped b = .ok q.stripped := by
  unfold isLocalBlock at hb
  unfold absorb at h ⊢
  cases hf : Field.ofType? b.type with
  | none =>
      simp only [hf] at h ⊢
      split at h
      · cases h
      · cases h
        rw [if_neg ‹_›]
  | some f =>
      simp only [hf] at h ⊢
      rw [hf] at hb
      cases f with
      | fragment | pitToken | nack | ack | txSequence | nonDiscovery | prefixAnnouncement =>
          cases h
          rfl
      | sequence | fragIndex | fragCount | congestionMark =>
          obtain ⟨v, hv, h⟩ := exists_of_bind_eq_ok h
          cases h
          rw [hv]
          rfl
      | nextHopFaceId | incomingFaceId | cachePolicy => cases hb

theorem foldlM_absorb_stripped (h : blocks.foldlM absorb p = .ok q) :
    (blocks.filter fun b => !isLocalBlock b).foldlM absorb p.stripped = .ok q.stripped := by
  induction blocks generalizing p with
  | nil => cases h; rfl
  | cons b rest ih =>
      rw [List.foldlM_cons] at h
      obtain ⟨r, hfirst, h⟩ := exists_of_bind_eq_ok h
      cases hb : isLocalBlock b with
      | true =>
          rw [List.filter_cons_of_neg (by simp [hb]), ← stripped_of_absorb_local hb hfirst]
          exact ih h
      | false =>
          rw [List.filter_cons_of_pos (by simp [hb]), List.foldlM_cons, absorb_stripped hb hfirst]
          exact ih h

/-- The blocks that a link packet consists of. -/
def fieldBlocks (wire : Bytes) : Except Error (List Block) := do
  (← Block.decodeExact wire blockType).children

theorem decode_eq_fieldBlocks (wire : Bytes) :
    decode wire = (fieldBlocks wire >>= fun blocks => blocks.foldlM absorb {}) := by
  unfold decode fieldBlocks
  cases Block.decodeExact wire blockType <;> rfl

/-- Link packets whose blocks are the same but for those of the three types differ locally. -/
theorem differLocally_of_blocks {a b : Bytes} {p q : LpPacket} {blocks blocks' : List Block}
    (first : decode a = .ok p) (firstBlocks : fieldBlocks a = .ok blocks)
    (second : decode b = .ok q) (secondBlocks : fieldBlocks b = .ok blocks')
    (same : blocks.filter (fun b => !isLocalBlock b) = blocks'.filter fun b => !isLocalBlock b) :
    DifferLocally a b := by
  have hp := first
  have hq := second
  rw [decode_eq_fieldBlocks, firstBlocks, ok_bind] at hp
  rw [decode_eq_fieldBlocks, secondBlocks, ok_bind] at hq
  have hstripped := foldlM_absorb_stripped hp
  rw [same, foldlM_absorb_stripped hq] at hstripped
  exact .fields first second (Except.ok.inj hstripped).symm

end LpPacket

namespace LinkService

variable {l l' : LinkService} {p q : LpPacket} {a b frame : Bytes} {faceId : UInt64} {now : Instant}

def stripped (l : LinkService) : LinkService :=
  { l with reassembly := l.reassembly.stripped }

/-- What is left of a completed packet and a service without the three fields. -/
def strippedResult (r : Option Reassembled × LinkService) : Option Reassembled × LinkService :=
  (r.1.map Reassembled.stripped, r.2.stripped)

theorem unwrapLink_stripped (l : LinkService) (p : LpPacket) (now : Instant) :
    l.stripped.unwrapLink p.stripped now = strippedResult (l.unwrapLink p now) := by
  have hidle : p.stripped.isIdle = p.isIdle := rfl
  have hfields : p.stripped.hasFragmentation = p.hasFragmentation := rfl
  have hoptions : l.stripped.options = l.options := rfl
  have hcount : p.stripped.fragCount = p.fragCount := rfl
  have hindex : p.stripped.fragIndex = p.fragIndex := rfl
  unfold unwrapLink
  rw [hidle, hfields, hoptions, hcount, hindex]
  split
  · rfl
  · split
    · split <;> rfl
    · have hstore : l.stripped.reassembly = l.reassembly.stripped := rfl
      rw [hstore, Reassembly.insert_stripped]
      obtain ⟨result, store⟩ := l.reassembly.insert p now
      cases result <;> rfl

theorem unwrapLink_alike (hl : l.stripped = l'.stripped) (hp : p.stripped = q.stripped) :
    strippedResult (l.unwrapLink p now) = strippedResult (l'.unwrapLink q now) := by
  rw [← unwrapLink_stripped, ← unwrapLink_stripped, hl, hp]

theorem unwrap_of_refused {e : Error} (htype : firstType? frame = some LpPacket.blockType)
    (h : LpPacket.decode frame = .error e) : l.unwrap frame now = (none, l) := by
  cases hpeek : peek? frame with
  | none => simp only [unwrap, hpeek]
  | some front =>
      obtain ⟨type, size⟩ := front
      cases (firstType?_of_peek? hpeek).symm.trans htype
      have hother :
          ¬ (LpPacket.blockType = Interest.blockType ∨ LpPacket.blockType = Data.blockType) := by
        decide
      simp only [unwrap, hpeek, if_neg hother, ↓reduceIte, h]

theorem unwrap_alike (hl : l.stripped = l'.stripped) (h : DifferLocally a b) (now : Instant) :
    strippedResult (l.unwrap a now) = strippedResult (l'.unwrap b now) := by
  cases h with
  | same =>
      -- Both services take the same way, which depends on the store for a fragment only.
      unfold unwrap
      cases peek? a with
      | none => exact congrArg (none, ·) hl
      | some front =>
          dsimp only
          split
          · exact congrArg (_, ·) hl
          · split
            · cases LpPacket.decode a with
              | error e => exact congrArg (none, ·) hl
              | ok p => exact unwrapLink_alike hl rfl
            · exact congrArg (none, ·) hl
  | fields first second alike =>
      rw [unwrap_of_decode first, unwrap_of_decode second]
      exact unwrapLink_alike hl alike
  | refused firstType first secondType second =>
      rw [unwrap_of_refused firstType first, unwrap_of_refused secondType second]
      exact congrArg (none, ·) hl

theorem parcel?_stripped {options : LinkOptions} (hoff : options.IgnoresLocalFields)
    (r : Reassembled) : parcel? options faceId r.stripped = parcel? options faceId r := by
  unfold parcel? Reassembled.stripped LpPacket.stripped
  simp only [hoff.noNextHop, hoff.noPolicy, Bool.false_eq_true, ↓reduceIte]

theorem receive_alike (hoff : l.options.IgnoresLocalFields) (hl : l.stripped = l'.stripped)
    (h : DifferLocally a b) (faceId : UInt64) (now : Instant) :
    (l.receive faceId a now).1 = (l'.receive faceId b now).1
      ∧ (l.receive faceId a now).2.stripped = (l'.receive faceId b now).2.stripped := by
  have hunwrap := unwrap_alike hl h now
  have hresult : (l.unwrap a now).1.map Reassembled.stripped
      = (l'.unwrap b now).1.map Reassembled.stripped := congrArg Prod.fst hunwrap
  have hoptions : l'.options = l.options := (congrArg LinkService.options hl).symm
  have hparcel (r : Option Reassembled) : r.bind (parcel? l.options faceId)
      = (r.map Reassembled.stripped).bind (parcel? l.options faceId) := by
    cases r with
    | none => rfl
    | some r => exact (parcel?_stripped hoff r).symm
  rw [receive_eq, receive_eq, hoptions, hparcel, hresult, ← hparcel]
  exact ⟨rfl, congrArg Prod.snd hunwrap⟩

theorem incomingFaceId_of_receive {parcel : Parcel}
    (h : (l.receive faceId frame now).1 = some parcel) : parcel.incomingFaceId = some faceId := by
  obtain ⟨r, -, h⟩ := Option.bind_eq_some_iff.mp h
  exact (parcel?_eq_some h).2.2

end LinkService

/-! ## Runs of a face -/

/-- Frames of the same times that differ locally. -/
def SameButLocalFields (arrivals others : List (Bytes × Instant)) : Prop :=
  List.Forall₂ (fun a b => a.2 = b.2 ∧ DifferLocally a.1 b.1) arrivals others

theorem SameButLocalFields.times_eq {arrivals others : List (Bytes × Instant)}
    (h : SameButLocalFields arrivals others) : arrivals.map (·.2) = others.map (·.2) := by
  induction h with
  | nil => rfl
  | cons hfirst hrest ih => exact congrArg₂ List.cons hfirst.1 ih

namespace Face

variable {f g : Face} {l : LinkService} {a b : Bytes} {now : Instant}

def stripped (f : Face) : Face :=
  match f.service with
  | .discard => f
  | .link l => { f with service := .link l.stripped }

theorem stripped_link (hl : f.service = .link l) :
    f.stripped = { f with service := .link l.stripped } := by
  rw [stripped, hl]

theorem link_of_alike (hl : f.service = .link l) (h : f.stripped = g.stripped) :
    ∃ m, g = { f with service := .link m } ∧ l.stripped = m.stripped := by
  rw [stripped_link hl] at h
  unfold stripped at h
  split at h
  · rename_i hdiscard
    rw [← h] at hdiscard
    cases hdiscard
  · rename_i m hm
    refine ⟨m, ?_, Service.link.inj (congrArg Face.service h)⟩
    have hservice := congrArg (fun f : Face => { f with service := .link m }) h
    dsimp only at hservice
    rw [hservice, ← hm]

theorem receive_alike (hl : f.service = .link l) (hoff : l.options.IgnoresLocalFields)
    (hfg : f.stripped = g.stripped) (h : DifferLocally a b) (now : Instant) :
    (f.receive a now).1 = (g.receive b now).1
      ∧ (f.receive a now).2.stripped = (g.receive b now).2.stripped := by
  obtain ⟨m, rfl, hlm⟩ := link_of_alike hl hfg
  obtain ⟨hparcel, hservice⟩ := LinkService.receive_alike hoff hlm h f.id now
  have hid : ({ f with service := .link m } : Face).id = f.id := rfl
  rw [receive_eq hl, receive_eq (l := m) rfl, hid, stripped_link rfl, stripped_link rfl, hservice,
    hparcel]
  exact ⟨rfl, rfl⟩

theorem options_receive (hl : f.service = .link l) (frame : Bytes) (now : Instant) :
    ∃ m, (f.receive frame now).2.service = .link m ∧ m.options = l.options := by
  rw [receive_eq hl]
  refine ⟨_, rfl, ?_⟩
  rw [LinkService.receive_eq, LinkService.options_unwrap]

theorem receiveAll_alike {arrivals others : List (Bytes × Instant)} (hl : f.service = .link l)
    (hoff : l.options.IgnoresLocalFields) (hfg : f.stripped = g.stripped)
    (h : SameButLocalFields arrivals others) :
    f.deliveries arrivals = g.deliveries others
      ∧ (f.receiveAll arrivals).stripped = (g.receiveAll others).stripped := by
  induction h generalizing f g l with
  | nil => exact ⟨rfl, hfg⟩
  | @cons first second rest rest' hfirst hrest ih =>
      obtain ⟨frame, now⟩ := first
      obtain ⟨frame', now'⟩ := second
      obtain ⟨rfl, hframes⟩ := hfirst
      obtain ⟨m, hm, hoptions⟩ := options_receive hl frame now
      obtain ⟨hparcel, hfaces⟩ := receive_alike hl hoff hfg hframes now
      obtain ⟨hparcels, hlast⟩ := ih hm (hoptions ▸ hoff) hfaces
      exact ⟨congrArg₂ List.cons hparcel hparcels, hlast⟩

theorem link_receiveAll (hl : f.service = .link l) (arrivals : List (Bytes × Instant)) :
    ∃ m, (f.receiveAll arrivals).service = .link m := by
  induction arrivals generalizing f l with
  | nil => exact ⟨l, hl⟩
  | cons first rest ih =>
      obtain ⟨m, hm, -⟩ := options_receive hl first.1 first.2
      exact ih hm

/-- Every parcel that a face hands on names this face. -/
theorem incomingFaceId_of_mem_deliveries {p : Parcel} {arrivals : List (Bytes × Instant)}
    (h : some p ∈ f.deliveries arrivals) : p.incomingFaceId = some f.id := by
  induction arrivals generalizing f with
  | nil => cases h
  | cons first rest ih =>
      obtain ⟨frame, now⟩ := first
      rcases List.mem_cons.mp h with hfirst | hrest
      · unfold receive at hfirst
        split at hfirst
        · cases hfirst
        · exact LinkService.incomingFaceId_of_receive hfirst.symm
      · have hid : (f.receive frame now).2.id = f.id :=
          congrArg FaceBase.id (base_receive f frame now)
        exact hid ▸ ih hrest

end Face

/-! ## Runs of a system -/

namespace FaceSystem

variable {s : FaceSystem} {key : FaceKey} {f : Face} {l : LinkService}

theorem modifyFace_set {faces : List Face} {dispatcher : Dispatcher} {clock : Clock}
    (hkey : key < faces.length) (f : Face) (g : Face → Face) :
    ({ s with faces := faces.set key f, dispatcher, clock } : FaceSystem).modifyFace key g
      = { s with faces := faces.set key (g f), dispatcher, clock } := by
  simp [modifyFace, List.modify_eq_set_getElem?, List.getElem?_set_self hkey]

/-- A neighbour has no influence through the local fields of its frames on a face that ignores
them: whatever they are, and whatever becomes of the frames, the forwarding threads get the same
parcels in the same order, the face counts the same and keeps the same fragments but for these
fields, and so does everything else stay the same. Every parcel names the face that it came in by,
even where local fields are honoured. -/
theorem local_fields_have_no_influence (hf : s.face? key = some f) (hl : f.service = .link l) :
    (l.options.IgnoresLocalFields → ∀ arrivals others, SameButLocalFields arrivals others →
        (s.receiveTimed key arrivals).dispatcher = (s.receiveTimed key others).dispatcher
        ∧ (∃ g g' m m', (s.receiveTimed key arrivals).face? key = some g ∧ g.service = .link m
          ∧ (s.receiveTimed key others).face? key = some g' ∧ g'.service = .link m'
          ∧ g.counters = g'.counters ∧ m.reassembly.stripped = m'.reassembly.stripped)
        ∧ (s.receiveTimed key arrivals).modifyFace key Face.stripped
          = (s.receiveTimed key others).modifyFace key Face.stripped)
      ∧ ∀ arrivals, (s.receiveTimed key arrivals).dispatcher
          = (f.deliveries arrivals).reduceOption.foldl
            (fun d p => d.dispatch p f.base.scope) s.dispatcher
        ∧ ∀ p ∈ (f.deliveries arrivals).reduceOption, p.incomingFaceId = some f.id := by
  refine ⟨fun hoff arrivals others h => ?_, fun arrivals => ⟨?_, fun p hp => ?_⟩⟩
  · obtain ⟨hparcels, hfaces⟩ := Face.receiveAll_alike hl hoff rfl h
    obtain ⟨m, hm⟩ := Face.link_receiveAll hl arrivals
    obtain ⟨m', hm'⟩ := Face.link_receiveAll hl others
    have hkept := hfaces
    rw [Face.stripped_link hm, Face.stripped_link hm'] at hkept
    have hcounters := congrArg Face.counters hkept
    have hlt := lt_length_of_face? hf
    rw [receiveTimed_eq hf, receiveTimed_eq hf, hparcels, h.times_eq]
    refine ⟨rfl, ⟨f.receiveAll arrivals, f.receiveAll others, m, m', List.getElem?_set_self hlt,
      hm, List.getElem?_set_self hlt, hm', hcounters, ?_⟩, ?_⟩
    · exact congrArg LinkService.reassembly (Service.link.inj (congrArg Face.service hkept))
    · simp only [modifyFace_set hlt, hfaces]
  · rw [receiveTimed_eq hf]
  · exact Face.incomingFaceId_of_mem_deliveries (List.reduceOption_mem_iff.mp hp)

/-- Two fragments of an Interest, the first of which has all three fields or none of them. -/
theorem local_fields_have_no_influence_on_fragments :
    let s := ((create .testing).adopt (.component 4 {} .testing)).2
    let first : LpPacket :=
      { sequence := some 7, fragIndex := some 0, fragCount := some 2, fragment := some [5, 5, 7] }
    let last : LpPacket :=
      { sequence := some 8, fragIndex := some 1, fragCount := some 2,
        fragment := some [3, 8, 1, 97] }
    let told : LpPacket :=
      { first with nextHopFaceId := some 9, incomingFaceId := some 3, cachePolicy := some .noCache }
    let arrivals := [(first.encode, 0), (last.encode, 5)]
    let others := [(told.encode, 0), (last.encode, 5)]
    s.face? 0 = some (.component 4 {} .testing) ∧ ({} : LinkOptions).IgnoresLocalFields
      ∧ SameButLocalFields arrivals others ∧ told.stripped ≠ told
      ∧ (s.receiveTimed 0 arrivals).dispatcher = (s.receiveTimed 0 others).dispatcher
      ∧ ((s.receiveTimed 0 others).face? 0).map (·.counters.inInterests) = some 1
      ∧ ∀ p ∈ ((Face.component 4 {} .testing).deliveries others).reduceOption,
        p.incomingFaceId = some 0 := by
  intro s first last told arrivals others
  have hface : s.face? 0 = some (.component 4 {} .testing) := rfl
  have hoff : ({} : LinkOptions).IgnoresLocalFields := ⟨rfl, rfl⟩
  have hsame : SameButLocalFields arrivals others :=
    .cons ⟨rfl, .of_encode (by decide) (by decide) rfl⟩ (.cons ⟨rfl, .same _⟩ .nil)
  obtain ⟨hruns, hparcels⟩ := local_fields_have_no_influence hface rfl
  obtain ⟨hdispatcher, -, -⟩ := hruns hoff arrivals others hsame
  exact ⟨hface, hoff, hsame, by decide, hdispatcher, by decide +kernel, (hparcels others).2⟩

end FaceSystem

end NamedData
