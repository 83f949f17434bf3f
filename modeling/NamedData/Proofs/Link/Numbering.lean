import NamedData.Proofs.Link.Outgoing
import NamedData.Proofs.Link.Portions
import NamedData.Proofs.Reassembly.Groups

/-!
# Numbers from one counter

Many payloads are cut one after the other, and all groups take their numbers from one counter. It
moves on by the packets of a group and by nothing else, so the numbers of all groups make up one
sequence without gaps, modulo 2⁶⁴.
-/

namespace NamedData

/-- The fields that a link packet has besides its place in a group and its bytes. -/
def LpPacket.otherFields (p : LpPacket) : LpPacket :=
  { p with sequence := none, fragIndex := none, fragCount := none, fragment := none }

namespace Fragmentation

/-- A payload to cut, and how. -/
structure Request where
  payload : Bytes
  header : LpPacket
  mtu : Nat
  fragmentation : Bool

namespace Request

/-- The bytes of a payload for which one link packet has room. -/
def room (r : Request) : Nat :=
  r.mtu - overhead r.header r.fragmentation

/-- The answer, and the counter after it. -/
def serve (r : Request) (next : UInt64) : Except Error (List Bytes) × UInt64 :=
  match frames r.payload r.header r.mtu r.fragmentation next with
  | .error e => (.error e, next)
  | .ok (fs, next') => (.ok fs, next')

/-- The answers to requests that come one after the other, and the counter after them. -/
def serveAll (next : UInt64) : List Request → List (Except Error (List Bytes)) × UInt64
  | [] => ([], next)
  | r :: rest =>
    let (answers, last) := serveAll (r.serve next).2 rest
    ((r.serve next).1 :: answers, last)

end Request

/-- A payload in several link packets: each has its place, a part of the payload that is not empty,
and all other fields of the header if it is the first. -/
structure Group (r : Request) (group : List LpPacket) : Prop where
  several : 2 ≤ group.length
  count : group.length = r.payload.length ⌈/⌉ r.room
  place : ∀ i q, group[i]? = some q →
    q.fragIndex = some (UInt64.ofNat i) ∧ q.fragCount = some (UInt64.ofNat group.length)
  others : ∀ i q, group[i]? = some q →
    q.otherFields = if i = 0 then r.header.otherFields else {}
  nonempty : ∀ q ∈ group, ∃ piece, piece ≠ [] ∧ q.fragment = some piece
  together : (group.map (·.fragment.getD [])).flatten = r.payload

/-- What becomes of a payload, by its length and the room that its header leaves. -/
inductive Answer (r : Request) : Except Error (List LpPacket) → Prop where
  | noRoom (none : r.room = 0) :
      Answer r (.error (.mtuTooSmall r.mtu (overhead r.header r.fragmentation)))
  | tooLarge (positive : 0 < r.room) (large : r.room < r.payload.length)
      (off : r.fragmentation = false) :
      Answer r (.error (.packetTooLarge r.payload.length r.room))
  | alone (positive : 0 < r.room) (fits : r.payload.length ≤ r.room) :
      Answer r (.ok [{ r.header with fragment := some r.payload }])
  | several {group : List LpPacket} (positive : 0 < r.room) (large : r.room < r.payload.length)
      (on : r.fragmentation = true) (parts : Group r group) : Answer r (.ok group)

/-- The link packets of an answer that take numbers, which are those of a group. -/
def grouped : Except Error (List LpPacket) → List LpPacket
  | .ok packets => if 2 ≤ packets.length then packets else []
  | .error _ => []

variable {r : Request} {next base : UInt64} {header : LpPacket} {group : List LpPacket}

/-! ## One request -/

theorem otherFields_packetAt (header : LpPacket) (base : UInt64) (count index : Nat)
    (piece : Bytes) :
    (packetAt header base count index piece).otherFields
      = if index = 0 then header.otherFields else {} := by
  by_cases h0 : index = 0 <;> simp [packetAt, LpPacket.otherFields, h0]

theorem exists_of_getElem?_divide {cut : List Bytes} {i : Nat} {q : LpPacket}
    (h : (divide header base cut)[i]? = some q) :
    ∃ piece ∈ cut, q = packetAt header base cut.length i piece := by
  simp only [divide, List.getElem?_map, List.getElem?_zipIdx, Option.map_eq_some_iff] at h
  obtain ⟨x, ⟨piece, hpiece, rfl⟩, rfl⟩ := h
  exact ⟨piece, List.mem_of_getElem? hpiece, by simp⟩

theorem group_divide (next : UInt64) (positive : 0 < r.room) (large : r.room < r.payload.length) :
    Group r (divide r.header next (pieces r.room r.payload)) where
  several := by
    rw [length_divide]
    exact two_le_length_pieces positive large
  count := by
    rw [length_divide, length_pieces positive, Nat.ceilDiv_eq_add_pred_div]
  place := by
    intro i q hq
    rw [length_divide]
    exact (numbers_of_getElem?_divide hq).2
  others := by
    intro i q hq
    obtain ⟨piece, -, rfl⟩ := exists_of_getElem?_divide hq
    exact otherFields_packetAt ..
  nonempty := by
    intro q hq
    obtain ⟨i, hi⟩ := List.mem_iff_getElem?.mp hq
    obtain ⟨piece, hpiece, rfl⟩ := exists_of_getElem?_divide hi
    exact ⟨piece, ne_nil_of_mem_pieces hpiece, rfl⟩
  together := by
    rw [map_fragment_divide]
    exact flatten_pieces positive r.payload

theorem map_sequence_divide (header : LpPacket) (base : UInt64) (cut : List Bytes) :
    (divide header base cut).map (·.sequence)
      = (List.range cut.length).map fun i => some (base + UInt64.ofNat i) := by
  rw [divide, List.map_map, List.range_eq_range', ← List.zipIdx_map_snd, List.map_map]
  exact List.map_congr_left fun x _ => by simp [packetAt]

theorem packets_eq (r : Request) (next : UInt64) :
    packets r.payload r.header r.mtu r.fragmentation next
      = if r.room = 0 then .error (.mtuTooSmall r.mtu (overhead r.header r.fragmentation))
        else if r.payload.length ≤ r.room then
          .ok ([{ r.header with fragment := some r.payload }], next)
        else if !r.fragmentation then .error (.packetTooLarge r.payload.length r.room)
        else .ok (divide r.header next (pieces r.room r.payload),
          next + UInt64.ofNat (pieces r.room r.payload).length) := by
  simp only [packets, Request.room, Nat.sub_eq_zero_iff_le]
  rfl

theorem serve_of_packets {ps : List LpPacket} {next' : UInt64}
    (h : packets r.payload r.header r.mtu r.fragmentation next = .ok (ps, next')) :
    r.serve next = (.ok (ps.map LpPacket.encode), next') := by
  rw [Request.serve, frames, h]
  rfl

theorem serve_of_error {e : Error}
    (h : packets r.payload r.header r.mtu r.fragmentation next = .error e) :
    r.serve next = (.error e, next) := by
  rw [Request.serve, frames, h]
  rfl

/-- Some link packets have consecutive numbers, and a counter moves on by as many. -/
structure NumberedOn (next : UInt64) (ps : List LpPacket) (last : UInt64) : Prop where
  numbers : ps.map (·.sequence)
    = (List.range ps.length).map fun i => some (next + UInt64.ofNat i)
  last_eq : last = next + UInt64.ofNat ps.length

theorem numberedOn_nil (next : UInt64) : NumberedOn next [] next :=
  ⟨rfl, by simp⟩

theorem NumberedOn.append {middle last : UInt64} {ps qs : List LpPacket}
    (h : NumberedOn next ps middle) (h' : NumberedOn middle qs last) :
    NumberedOn next (ps ++ qs) last := by
  obtain ⟨hnumbers, rfl⟩ := h
  refine ⟨?_, ?_⟩
  · rw [List.map_append, hnumbers, h'.numbers, List.length_append, List.range_add, List.map_append,
      List.map_map]
    simp [UInt64.add_assoc]
  · rw [h'.last_eq, List.length_append, UInt64.ofNat_add, UInt64.add_assoc]

theorem exists_answer (r : Request) (next : UInt64) :
    ∃ a last, Answer r a ∧ NumberedOn next (grouped a) last
      ∧ r.serve next = (a.map (List.map LpPacket.encode), last) := by
  have hpackets := packets_eq r next
  split at hpackets
  · rename_i hroom
    exact ⟨_, next, .noRoom hroom, numberedOn_nil next, serve_of_error hpackets⟩
  · rename_i hroom
    have hroom := Nat.pos_of_ne_zero hroom
    split at hpackets
    · rename_i hfits
      exact ⟨_, next, .alone hroom hfits, numberedOn_nil next, serve_of_packets hpackets⟩
    · rename_i hlarge
      have hlarge := Nat.not_le.mp hlarge
      split at hpackets
      · rename_i hoff
        exact ⟨_, next, .tooLarge hroom hlarge (by simpa using hoff), numberedOn_nil next,
          serve_of_error hpackets⟩
      · rename_i hon
        have hgroup := group_divide next hroom hlarge
        refine ⟨.ok _, _, .several hroom hlarge (by simpa using hon) hgroup, ?_,
          serve_of_packets hpackets⟩
        rw [grouped, if_pos hgroup.several]
        refine ⟨?_, ?_⟩
        · rw [length_divide]
          exact map_sequence_divide ..
        · rw [length_divide]

/-! ## Many requests -/

theorem exists_answers (requests : List Request) (next : UInt64) :
    ∃ answers last, List.Forall₂ Answer requests answers
      ∧ NumberedOn next (answers.flatMap grouped) last
      ∧ Request.serveAll next requests
        = (answers.map fun a => a.map (List.map LpPacket.encode), last) := by
  induction requests generalizing next with
  | nil => exact ⟨[], next, .nil, numberedOn_nil next, rfl⟩
  | cons r rest ih =>
      obtain ⟨a, middle, ha, hnumbers, hserve⟩ := exists_answer r next
      obtain ⟨answers, last, hanswers, hnumbers', hserveAll⟩ := ih middle
      refine ⟨a :: answers, last, .cons ha hanswers, hnumbers.append hnumbers', ?_⟩
      simp only [Request.serveAll, hserve, hserveAll, List.map_cons]

theorem exists_request {requests : List Request} {answers : List (Except Error (List LpPacket))}
    {a : Except Error (List LpPacket)} (h : List.Forall₂ Answer requests answers)
    (ha : a ∈ answers) : ∃ r, Answer r a := by
  induction h with
  | nil => cases ha
  | cons hfirst _ ih =>
      rcases List.mem_cons.mp ha with rfl | ha
      · exact ⟨_, hfirst⟩
      · exact ih ha

/-! ## Bases -/

/-- The number of the packet that some others stand in front of. -/
theorem NumberedOn.sequence_eq {last : UInt64} {before after : List LpPacket} {q : LpPacket}
    (h : NumberedOn next (before ++ q :: after) last) :
    q.sequence = some (next + UInt64.ofNat before.length) := by
  have hat := congrArg (·[before.length]?) h.numbers
  simpa using hat

/-- All packets of a group have as base the number of its first. -/
theorem Group.base?_eq {last : UInt64} {before after : List LpPacket} (hgroup : Group r group)
    (h : NumberedOn next (before ++ group ++ after) last) {q : LpPacket} (hq : q ∈ group) :
    q.base? = some (next + UInt64.ofNat before.length) := by
  obtain ⟨front, back, rfl⟩ := List.append_of_mem hq
  have hplace := (hgroup.place front.length q (by simp)).1
  have hsplit : NumberedOn next ((before ++ front) ++ q :: (back ++ after)) last := by
    simpa using h
  have hsequence := hsplit.sequence_eq
  rw [LpPacket.base?, hsequence, hplace, List.length_append, UInt64.ofNat_add, ← UInt64.add_assoc]
  simp

theorem Answer.parts (h : Answer r (.ok group)) (hseveral : 2 ≤ group.length) : Group r group := by
  cases h with
  | alone => simp at hseveral
  | several _ _ _ parts => exact parts

theorem Answer.exists_group {a : Except Error (List LpPacket)} (h : Answer r a)
    (positive : 0 < r.room) (large : r.room < r.payload.length) (on : r.fragmentation = true) :
    ∃ group, a = .ok group ∧ Group r group := by
  cases h with
  | noRoom none => omega
  | tooLarge _ _ off => cases on.symm.trans off
  | alone _ fits => omega
  | several _ _ _ parts => exact ⟨_, rfl, parts⟩

theorem Answer.grouped_of_off {a : Except Error (List LpPacket)} (h : Answer r a)
    (off : r.fragmentation = false) : grouped a = [] := by
  cases h with
  | noRoom => rfl
  | tooLarge => rfl
  | alone => rfl
  | several _ _ on => cases on.symm.trans off

theorem add_ofNat_inj {a b : Nat} (h : next + UInt64.ofNat a = next + UInt64.ofNat b) :
    a % 2 ^ 64 = b % 2 ^ 64 := by
  simpa [UInt64.ofNat_eq_iff_mod_eq_toNat] using h

/-- Requests share one counter. Each is refused without a number, or answered with one packet
without a number, or with a group. The packets of all groups are numbered from the counter's first
value on, in the order in which they come, and the counter ends behind them. No packet of a group
has the base of another group, unless `2 ^ 64` numbers or more lie between the first packets. -/
theorem groups_numbered_on (requests : List Request) (next : UInt64) :
    ∃ answers last, List.Forall₂ Answer requests answers
      ∧ Request.serveAll next requests
        = (answers.map fun a => a.map (List.map LpPacket.encode), last)
      ∧ NumberedOn next (answers.flatMap grouped) last
      ∧ (∀ packets, .ok packets ∈ answers → ∀ q ∈ packets, q.encode.length < 2 ^ 64 →
        LpPacket.decode q.encode = .ok q)
      ∧ ∀ before group between group' after,
        answers = before ++ .ok group :: (between ++ .ok group' :: after) →
        2 ≤ group.length → 2 ≤ group'.length →
        group.length + (between.flatMap grouped).length < 2 ^ 64 →
        ∀ q ∈ group, ∀ q' ∈ group', q.base? ≠ q'.base? := by
  obtain ⟨answers, last, hanswers, hnumbers, hserve⟩ := exists_answers requests next
  refine ⟨answers, last, hanswers, hserve, hnumbers,
    fun _ _ q _ hq => q.decode_encode (Nat.le_of_lt_succ hq), ?_⟩
  intro before group between group' after hsplit hseveral hseveral' hfew q hq q' hq' hsame
  obtain ⟨r, hr⟩ := exists_request hanswers (a := .ok group) (by simp [hsplit])
  obtain ⟨r', hr'⟩ := exists_request hanswers (a := .ok group') (by simp [hsplit])
  have hpackets : answers.flatMap grouped = before.flatMap grouped ++ group
      ++ (between.flatMap grouped ++ group' ++ after.flatMap grouped) := by
    simp [hsplit, grouped, hseveral, hseveral']
  have hfirst : NumberedOn next (before.flatMap grouped ++ group
      ++ (between.flatMap grouped ++ group' ++ after.flatMap grouped)) last := hpackets ▸ hnumbers
  have hsecond : NumberedOn next ((before.flatMap grouped ++ group ++ between.flatMap grouped)
      ++ group' ++ after.flatMap grouped) last := by simpa using hfirst
  have hbase := (hr.parts hseveral).base?_eq hfirst hq
  have hbase' := (hr'.parts hseveral').base?_eq hsecond hq'
  have hmod := add_ofNat_inj (Option.some.inj (hbase.symm.trans (hsame.trans hbase')))
  simp only [List.length_append] at hmod
  omega

/-- Two payloads go in three packets each; between them one is refused, and one goes as it is. -/
theorem groups_numbered_on_of_four :
    let request (length : Nat) (fragmentation : Bool) : Request :=
      ⟨List.replicate length 0, {}, 40, fragmentation⟩
    let requests := [request 5 true, request 33 false, request 32 false, request 6 true]
    ∃ (group group' : List LpPacket) (refused alone : Except Error (List Bytes)),
      Request.serveAll 0xFFFFFFFFFFFFFFFE requests
        = ([.ok (group.map LpPacket.encode), refused, alone, .ok (group'.map LpPacket.encode)], 4)
      ∧ group.length = 3 ∧ group'.length = 3
      ∧ (∀ q ∈ group, LpPacket.decode q.encode = .ok q)
      ∧ ∀ q ∈ group, ∀ q' ∈ group', q.base? ≠ q'.base? := by
  intro request requests
  have hshort : ∀ answer ∈ (Request.serveAll 0xFFFFFFFFFFFFFFFE requests).1,
      ∀ frame ∈ answer.toOption.getD [], frame.length < 2 ^ 64 := by decide +kernel
  have hlast : (Request.serveAll 0xFFFFFFFFFFFFFFFE requests).2 = 4 := by decide +kernel
  obtain ⟨answers, last, hanswers, hserve, -, hread, hbases⟩ :=
    groups_numbered_on requests 0xFFFFFFFFFFFFFFFE
  obtain ⟨a, _, ha, hrest, rfl⟩ := List.forall₂_cons_left_iff.mp hanswers
  rcases hrest with _ | ⟨hrefused, _ | ⟨halone, _ | ⟨ha', _ | _⟩⟩⟩
  obtain ⟨group, rfl, hgroup⟩ := ha.exists_group (by decide) (by decide) rfl
  obtain ⟨group', rfl, hgroup'⟩ := ha'.exists_group (by decide) (by decide) rfl
  have hthree : group.length = 3 := hgroup.count.trans (by decide)
  have hthree' : group'.length = 3 := hgroup'.count.trans (by decide)
  rw [hserve] at hshort hlast
  cases hlast
  refine ⟨group, group', _, _, hserve, hthree, hthree', fun q hq => ?_, ?_⟩
  · exact hread group List.mem_cons_self q hq (hshort (.ok (group.map LpPacket.encode))
      List.mem_cons_self _ (List.mem_map_of_mem hq))
  · refine hbases [] group [_, _] group' [] rfl (by omega) (by omega) ?_
    simp [hthree, hrefused.grouped_of_off rfl, halone.grouped_of_off rfl]

end Fragmentation

end NamedData
