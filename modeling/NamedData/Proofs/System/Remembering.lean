import NamedData.Proofs.System.Journal

/-!
# What the event log remembers

The log is the tail of the history of events. Its numbers are consecutive, so the place of an event
among those that are kept follows from its number, however many were forgotten before it.
-/

namespace NamedData.EventLog

/-- What is asked of a log. -/
inductive Request where
  | emit (kind : FaceEventKind) (face : FaceSummary)
  | get (id : UInt64)
  | last

inductive Reply where
  /-- The number that an event is recorded under. -/
  | number (id : UInt64)
  | event (e : Option FaceEvent)
  | last (id : Option UInt64)
deriving DecidableEq, Repr

/-- The reply to a request, and the log after it. -/
def serve (log : EventLog) : Request → Reply × EventLog
  | .emit kind face => (.number log.nextId, log.emit kind face)
  | .get id => (.event (log.get? id), log)
  | .last => (.last log.lastId?, log)

/-- The replies to requests that come one after the other, and the log after them. -/
def serveAll (log : EventLog) : List Request → List Reply × EventLog
  | [] => ([], log)
  | r :: rest =>
    let (replies, last) := (log.serve r).2.serveAll rest
    ((log.serve r).1 :: replies, last)

/-- The events that are recorded by some requests. -/
def history (requests : List Request) : List Announcement :=
  requests.filterMap fun
    | .emit kind face => some (kind, face)
    | _ => none

/-- The event of a number, if it is one of the last `capacity` events of a history. -/
def recent? (capacity : Nat) (events : List Announcement) (id : UInt64) : Option FaceEvent :=
  if max 1 (events.length + 1 - capacity) ≤ id.toNat ∧ id.toNat ≤ events.length then
    events[id.toNat - 1]?.map fun e => ⟨id, e.1, e.2⟩
  else none

/-- The reply that a history asks for. -/
def replyTo (capacity : Nat) (events : List Announcement) : Request → Reply
  | .emit _ _ => .number (UInt64.ofNat (events.length + 1))
  | .get id => .event (recent? capacity events id)
  | .last => .last (if events = [] then none else some (UInt64.ofNat events.length))

/-- The events of a history under their numbers. -/
def numbered (events : List Announcement) : List FaceEvent :=
  events.zipIdx.map fun (e, i) => ⟨UInt64.ofNat (i + 1), e.1, e.2⟩

/-- The log holds the last events of a history. -/
structure Remembers (log : EventLog) (events : List Announcement) : Prop where
  events_eq : log.events = (numbered events).drop (events.length - log.capacity)
  nextId_eq : log.nextId = UInt64.ofNat (events.length + 1)
  positive : 0 < log.capacity

variable {log : EventLog} {events : List Announcement} {id : UInt64}

/-! ## Numbered events -/

@[simp] theorem length_numbered (events : List Announcement) :
    (numbered events).length = events.length := by
  simp [numbered]

theorem getElem?_numbered (events : List Announcement) (i : Nat) :
    (numbered events)[i]? = events[i]?.map fun e => ⟨UInt64.ofNat (i + 1), e.1, e.2⟩ := by
  simp [numbered, List.getElem?_zipIdx, Function.comp_def]

theorem numbered_concat (events : List Announcement) (e : Announcement) :
    numbered (events ++ [e])
      = numbered events ++ [⟨UInt64.ofNat (events.length + 1), e.1, e.2⟩] := by
  simp [numbered, List.zipIdx_append]

/-! ## Recording -/

theorem remembers_empty (capacity : Nat) : Remembers (empty capacity) [] :=
  ⟨List.drop_nil.symm, rfl, Nat.lt_of_lt_of_le Nat.one_pos (Nat.le_max_right capacity 1)⟩

theorem Remembers.length_eq (h : Remembers log events) :
    log.events.length = events.length - (events.length - log.capacity) := by
  rw [h.events_eq, List.length_drop, length_numbered]

theorem Remembers.emit (h : Remembers log events) (kind : FaceEventKind) (face : FaceSummary) :
    Remembers (log.emit kind face) (events ++ [(kind, face)]) where
  events_eq := by
    have hpositive := h.positive
    have hlength := h.length_eq
    have hcapacity : (log.emit kind face).capacity = log.capacity := rfl
    -- The log is full exactly if something was forgotten before or is now.
    have hkept : (if log.capacity ≤ log.events.length then log.events.drop 1 else log.events)
        = (numbered events).drop (events.length + 1 - log.capacity) := by
      split
      · rw [h.events_eq, List.drop_drop]
        congr 1
        omega
      · rw [h.events_eq]
        congr 1
        omega
    rw [numbered_concat, List.length_append, List.length_singleton, hcapacity,
      List.drop_append_of_le_length (by rw [length_numbered]; omega), ← hkept, ← h.nextId_eq]
    rfl
  nextId_eq := by
    rw [EventLog.emit, h.nextId_eq, List.length_append, List.length_singleton,
      UInt64.ofNat_add (events.length + 1) 1]
    rfl
  positive := h.positive

/-! ## Looking up -/

theorem Remembers.first_id (h : Remembers log events) {first : FaceEvent} {rest : List FaceEvent}
    (hevents : log.events = first :: rest) :
    first.id = UInt64.ofNat (events.length - log.capacity + 1) := by
  have hfirst : log.events[0]? = some first := by rw [hevents, List.getElem?_cons_zero]
  rw [h.events_eq, List.getElem?_drop, getElem?_numbered] at hfirst
  obtain ⟨e, -, rfl⟩ := Option.map_eq_some_iff.mp hfirst
  rfl

theorem Remembers.lastId?_eq (h : Remembers log events) :
    log.lastId? = if events = [] then none else some (UInt64.ofNat events.length) := by
  have hpositive := h.positive
  rw [lastId?, h.events_eq, List.getLast?_drop, length_numbered]
  rcases List.eq_nil_or_concat events with rfl | ⟨front, e, rfl⟩
  · rfl
  · rw [List.concat_eq_append, numbered_concat, List.getLast?_concat, List.length_append,
      List.length_singleton, if_neg (by omega), if_neg (by simp)]
    rfl

/-- The first number that is kept tells the place of every other. -/
theorem Remembers.get?_eq (h : Remembers log events) (hfew : events.length < 2 ^ 64)
    (id : UInt64) : log.get? id = recent? log.capacity events id := by
  have hpositive := h.positive
  have hlength := h.length_eq
  unfold EventLog.get? recent?
  cases hevents : log.events with
  | nil =>
      rw [hevents, List.length_nil] at hlength
      rw [if_neg (by omega)]
  | cons first rest =>
      rw [hevents, List.length_cons] at hlength
      have hfirst : first.id.toNat = events.length - log.capacity + 1 := by
        rw [h.first_id hevents]
        exact UInt64.toNat_ofNat_of_lt' (show _ < 2 ^ 64 by omega)
      simp only [UInt64.lt_iff_toNat_lt, hfirst]
      split
      · rename_i hforgotten
        rw [if_neg (by omega)]
      · rename_i hkept
        have hle : first.id ≤ id := UInt64.le_iff_toNat_le.mpr (by omega)
        have hplace : events.length - log.capacity + (id - first.id).toNat = id.toNat - 1 := by
          rw [UInt64.toNat_sub_of_le id first.id hle, hfirst]
          omega
        rw [← hevents, h.events_eq, List.getElem?_drop, getElem?_numbered, hplace,
          Nat.sub_add_cancel (by omega), UInt64.ofNat_toNat]
        split
        · rfl
        · rename_i hcoming
          rw [List.getElem?_eq_none (by omega)]
          rfl

/-! ## Many requests -/

theorem history_cons (r : Request) (rest : List Request) :
    history (r :: rest) = history [r] ++ history rest := by
  rw [history, history, history, ← List.filterMap_append]
  rfl

/-- Only an event changes the log. -/
theorem serve_snd (log : EventLog) (r : Request) : (log.serve r).2 = log.record (history [r]) := by
  cases r <;> rfl

theorem Remembers.record (h : Remembers log events) (later : List Announcement) :
    Remembers (log.record later) (events ++ later) := by
  induction later generalizing log events with
  | nil =>
      rw [List.append_nil]
      exact h
  | cons e rest ih =>
      have hrest := ih (h.emit e.1 e.2)
      rwa [List.append_assoc] at hrest

theorem capacity_record (log : EventLog) (events : List Announcement) :
    (log.record events).capacity = log.capacity := by
  unfold record
  induction events generalizing log with
  | nil => rfl
  | cons e rest ih => exact ih (log.emit e.1 e.2)

theorem Remembers.serve_fst (h : Remembers log events) (hfew : events.length < 2 ^ 64)
    (r : Request) : (log.serve r).1 = replyTo log.capacity events r := by
  cases r with
  | emit kind face => exact congrArg Reply.number h.nextId_eq
  | get id => exact congrArg Reply.event (h.get?_eq hfew id)
  | last => exact congrArg Reply.last h.lastId?_eq

theorem serveAll_snd (log : EventLog) (requests : List Request) :
    (log.serveAll requests).2 = log.record (history requests) := by
  induction requests generalizing log with
  | nil => rfl
  | cons r rest ih =>
      rw [serveAll, history_cons, record, List.foldl_append]
      dsimp only
      rw [ih, serve_snd]
      rfl

theorem Remembers.serveAll_fst (h : Remembers log events) {requests : List Request}
    (hfew : (events ++ history requests).length < 2 ^ 64) {i : Nat} {r : Request}
    (hr : requests[i]? = some r) :
    (log.serveAll requests).1[i]?
      = some (replyTo log.capacity (events ++ history (requests.take i)) r) := by
  induction requests generalizing log events i with
  | nil => cases hr
  | cons first rest ih =>
      rw [history_cons, ← List.append_assoc] at hfew
      cases i with
      | zero =>
          obtain rfl := Option.some.inj hr
          have hlength : events.length < 2 ^ 64 := by
            simp only [List.length_append] at hfew
            omega
          simpa [serveAll, history] using h.serve_fst hlength first
      | succ i =>
          have hrest : Remembers (log.serve first).2 (events ++ history [first]) := by
            rw [serve_snd]
            exact h.record _
          have hcapacity : (log.serve first).2.capacity = log.capacity := by
            rw [serve_snd, capacity_record]
          rw [serveAll, List.take_succ_cons, history_cons, ← List.append_assoc, ← hcapacity]
          exact ih hrest hfew hr

/-- The replies of a log to any requests that record fewer than `2 ^ 64` events. The events are
numbered from 1 on; an event is found by its number while it is among the last `capacity` of those
that were recorded before, and nothing is found by any other number; the last number is that of the
last event. What is looked up in between changes nothing. -/
theorem log_is_tail_of_history (capacity : Nat) (requests : List Request)
    (hfew : (history requests).length < 2 ^ 64) :
    (∀ i r, requests[i]? = some r → ((empty capacity).serveAll requests).1[i]?
        = some (replyTo (max capacity 1) (history (requests.take i)) r))
      ∧ ((empty capacity).serveAll requests).2 = (empty capacity).record (history requests) :=
  ⟨fun _ _ hr => (remembers_empty capacity).serveAll_fst hfew hr, serveAll_snd _ requests⟩

/-- Of five events a log of three has forgotten two, one of which was found before. -/
theorem log_is_tail_of_five :
    let face := Face.null.summary
    let requests := [.emit .created face, .emit .up face, .emit .down face, .get 2,
      .emit .created face, .emit .destroyed face, .get 2, .get 3, .get 6, .last]
    let replies := ((empty 3).serveAll requests).1
    (history requests).length < 2 ^ 64
      ∧ replies[3]? = some (Reply.event (some ⟨2, .up, face⟩))
      ∧ replies[5]? = some (Reply.number 5)
      ∧ replies[6]? = some (Reply.event none)
      ∧ replies[7]? = some (Reply.event (some ⟨3, .down, face⟩))
      ∧ replies[8]? = some (Reply.event none)
      ∧ replies[9]? = some (Reply.last (some 5)) := by
  intro face requests replies
  have hfew : (history requests).length < 2 ^ 64 := by decide
  obtain ⟨hreplies, -⟩ := log_is_tail_of_history 3 requests hfew
  exact ⟨hfew, hreplies 3 _ rfl, hreplies 5 _ rfl, hreplies 6 _ rfl, hreplies 7 _ rfl,
    hreplies 8 _ rfl, hreplies 9 _ rfl⟩

end NamedData.EventLog
