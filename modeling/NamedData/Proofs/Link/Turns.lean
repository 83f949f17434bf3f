import NamedData.Proofs.Interleaving
import NamedData.Proofs.Link.Portions
import NamedData.Proofs.Link.Sending
import NamedData.Proofs.System.Leaving

/-!
# Callers and the sending task take turns

Callers send parcels while the sending task takes them from the queue, both in several steps. A call
counts the bytes, offers the parcel to the queue, and takes the bytes back if it is refused. A round
takes a parcel, looks at the occupancy, takes the bytes back, and sends. In between the face may be
started, and moved to a state by a caller or by its medium.
-/

namespace NamedData

/-- A caller that sends parcels, and how far its call has come. -/
inductive Producer where
  | between (rest : List Parcel)
  /-- The bytes are counted, and the parcel goes to the queue next. -/
  | counted (p : Parcel) (rest : List Parcel)
  /-- The queue refused the parcel, and its bytes are still counted. -/
  | refused (p : Parcel) (rest : List Parcel)

/-- How far the sending task has come with its round. -/
inductive Round where
  | waiting
  | taken (p : Parcel)
  /-- The occupancy is known, and the bytes are still counted. -/
  | measured (p : Parcel) (occupancy : UInt64)
  | uncounted (p : Parcel) (occupancy : UInt64)

/-- A face between two steps of its sending task. -/
structure Outlet where
  face : Face
  round : Round := .waiting
  /-- What waited when the sending task ended. -/
  lost : List Parcel := []

inductive Turn (ι : Type) where
  | call (i : ι)
  | round (now : Instant)
  | start
  | move (mover : Mover) (target : FaceState)

namespace Producer

/-- The parcel whose bytes are counted, but which is not in the queue. -/
def held : Producer → List Parcel
  | between _ => []
  | counted p _ | refused p _ => [p]

/-- The next step of a call of `Face.send`. -/
def step (f : Face) (q : Producer) : Face × Producer :=
  match f.service, q with
  | .link l, between (p :: rest) => ({ f with service := .link (l.count p) }, counted p rest)
  | .link l, counted p rest =>
    match l.enqueue? p with
    | .ok l => ({ f with service := .link l }, between rest)
    | .error _ => (f, refused p rest)
  | .link l, refused p rest => ({ f with service := .link (l.uncount p) }, between rest)
  | .discard, between (p :: rest) => (f.send p, between rest)
  | _, q => (f, q)

end Producer

namespace Round

/-- The parcel whose bytes are counted, but which is no longer in the queue. -/
def held : Round → List Parcel
  | taken p | measured p _ => [p]
  | _ => []

/-- The parcel under way, and the occupancy that its congestion mark depends on. -/
def marking? : Round → Option (Parcel × UInt64)
  | measured p occupancy | uncounted p occupancy => some (p, occupancy)
  | _ => none

end Round

namespace Outlet

/-- The next step of the sending task, if it runs. -/
def advance (o : Outlet) (now : Instant) : Outlet :=
  match o.face.service, o.round with
  | .link l, .waiting =>
    if o.face.sender ≠ .running then o
    else if o.face.base.stop.isStopped then
      { o with face := o.face.endSender, lost := l.queue.items }
    else
      match l.dequeue? with
      | none => o
      | some (p, l) => { o with face := { o.face with service := .link l }, round := .taken p }
  | .link _, .taken p => { o with round := .measured p o.face.queueSize }
  | .link l, .measured p occupancy =>
    { o with face := { o.face with service := .link (l.uncount p) }
             round := .uncounted p occupancy }
  | .link l, .uncounted p occupancy =>
    { o with face := o.face.sendUncounted l p occupancy now, round := .waiting }
  | .discard, _ => o

def call (o : Outlet) (q : Producer) : Outlet × Producer :=
  ({ o with face := (q.step o.face).1 }, (q.step o.face).2)

/-- The parcels that are counted, but not in the queue. -/
def held (o : Outlet) : List Parcel :=
  o.round.held ++ o.lost

end Outlet

/-- Some callers, and the face that they share. -/
abbrev Traffic (ι : Type) := Joint ι Outlet Producer

namespace Traffic

variable {ι : Type} [DecidableEq ι]

/-- The face as it is made, with callers that have some parcels to send. -/
def opened (base : FaceBase) (medium : Medium) (options : LinkOptions) (config : Config)
    (parcels : ι → List Parcel) : Traffic ι where
  shared := { face := .withLink base medium options config }
  parties := fun i => .between (parcels i)

def take (w : Traffic ι) : Turn ι → Traffic ι
  | .call i => w.turn Outlet.call i
  | .round now => { w with shared := w.shared.advance now }
  | .start => { w with shared := { w.shared with face := w.shared.face.start } }
  | .move mover target =>
    { w with shared := { w.shared with face := w.shared.face.move mover target } }

def after (w : Traffic ι) (turns : List (Turn ι)) : Traffic ι :=
  turns.foldl take w

end Traffic

/-! ## Without interruption -/

/-- The steps of a call make up `Face.send`. -/
theorem Producer.exists_steps_eq_send (f : Face) (p : Parcel) (rest : List Parcel) :
    ∃ n, (fun x : Face × Producer => x.2.step x.1)^[n] (f, between (p :: rest))
      = (f.send p, between rest) := by
  obtain ⟨base, medium, service, lifecycle, counters, sender, receiver⟩ := f
  cases service with
  | discard => exact ⟨1, rfl⟩
  | link l =>
      cases h : (l.count p).enqueue? p with
      | ok l' => exact ⟨2, by simp [step, Face.send, LinkService.send, h]⟩
      | error e => exact ⟨3, by simp [step, Face.send, LinkService.send, h]⟩

namespace Outlet

variable {o : Outlet} {l : LinkService} {now : Instant}

theorem advance_of_stopped (hlink : o.face.service = .link l) (hround : o.round = .waiting)
    (hrunning : o.face.sender = .running) (hstop : o.face.base.stop.isStopped = true) :
    o.advance now = { o with face := o.face.endSender, lost := l.queue.items } := by
  simp [advance, hlink, hround, hrunning, hstop]

/-- The steps of a round make up `Face.sendNext?`. -/
theorem advance_four (hlink : o.face.service = .link l) (hround : o.round = .waiting)
    (hrunning : o.face.sender = .running) (hstop : o.face.base.stop.isStopped = false) :
    (fun o : Outlet => o.advance now)^[4] o
      = { o with face := (o.face.sendNext? now).getD o.face } := by
  obtain ⟨⟨base, medium, service, lifecycle, counters, sender, receiver⟩, round, lost⟩ := o
  cases hlink
  cases hround
  cases hrunning
  dsimp only at hstop
  cases hnext : l.dequeue? with
  | none => simp [advance, hstop, hnext, Face.sendNext?, Face.link?]
  | some next =>
      obtain ⟨p, l'⟩ := next
      simp [advance, hstop, hnext, Face.sendNext?, Face.link?, Face.sendOne, Face.queueSize]
      rfl

theorem kept_of_sendNext? {f g : Face} (h : f.sendNext? now = some g) :
    g.sender = f.sender ∧ g.base.stop = f.base.stop ∧ ∃ l, g.service = .link l := by
  obtain ⟨l, -, h⟩ := Option.bind_eq_some_iff.mp h
  obtain ⟨⟨p, l'⟩, -, h⟩ := Option.bind_eq_some_iff.mp h
  cases h
  obtain ⟨l'', medium, counters, outBytes, expiration, h, -⟩ := f.sendOne_eq l' p now
  rw [h]
  exact ⟨rfl, rfl, l'', rfl⟩

theorem advance_rounds (rounds : Nat) (hlink : o.face.service = .link l)
    (hround : o.round = .waiting) (hrunning : o.face.sender = .running)
    (hstop : o.face.base.stop.isStopped = false) :
    (fun o : Outlet => o.advance now)^[rounds * 4] o
      = { o with face := o.face.sendRounds now rounds } := by
  induction rounds generalizing o l with
  | zero => rfl
  | succ rounds ih =>
      rw [Nat.succ_mul, Function.iterate_add_apply, advance_four hlink hround hrunning hstop,
        Face.sendRounds]
      cases hnext : o.face.sendNext? now with
      | none =>
          have hstay : o.face.sendRounds now rounds = o.face := by
            cases rounds <;> simp [Face.sendRounds, hnext]
          simpa [hstay] using ih hlink hround hrunning hstop
      | some g =>
          obtain ⟨hsender, hstopped, l', hlink'⟩ := kept_of_sendNext? hnext
          exact ih hlink' hround (hsender.trans hrunning) (hstopped ▸ hstop)

/-- The steps of the sending task make up `Face.runSender`. -/
theorem exists_advances_eq_runSender (o : Outlet) (hround : o.round = .waiting) (now : Instant) :
    ∃ n, ((fun o : Outlet => o.advance now)^[n] o).face = o.face.runSender now := by
  unfold Face.runSender Face.link?
  split
  · rename_i l hrunning hlink
    cases hservice : o.face.service with
    | discard => simp [hservice] at hlink
    | link l' =>
        simp only [hservice, Option.some.injEq] at hlink
        subst hlink
        by_cases hstop : o.face.base.stop.isStopped = true
        · refine ⟨1, ?_⟩
          rw [if_pos hstop]
          exact congrArg Outlet.face (advance_of_stopped hservice hround hrunning hstop)
        · refine ⟨l'.queue.items.length * 4, ?_⟩
          rw [if_neg hstop]
          exact congrArg Outlet.face
            (advance_rounds _ hservice hround hrunning (by simpa using hstop))
  · exact ⟨0, rfl⟩

end Outlet

/-! ## Single steps -/

namespace Face

variable {f : Face} {l : LinkService}

theorem start_link (h : f.service = .link l) : f.start = if f.lifecycle = .created then
    { f with lifecycle := .running, sender := .running, receiver := .running } else f := by
  simp only [start, h]

theorem endSender_link (h : f.service = .link l) :
    f.endSender.service = .link { l with queue := l.queue.dropReceiver } := by
  simp only [endSender, h]

theorem asked_link (h : f.service = .link l) (mover : Mover) (target : FaceState) :
    ∃ lifecycle, f.asked mover target = { f with lifecycle := lifecycle }
      ∧ (lifecycle = f.lifecycle ∨ f.lifecycle = .created ∧ lifecycle = .quit
        ∨ f.lifecycle = .running ∧ lifecycle = .quitting) := by
  obtain ⟨base, medium, service, lifecycle, counters, sender, receiver⟩ := f
  cases h
  cases mover with
  | medium => exact ⟨lifecycle, rfl, .inl rfl⟩
  | caller =>
      unfold asked requestState
      dsimp only
      split
      · exact ⟨lifecycle, rfl, .inl rfl⟩
      · cases lifecycle with
        | created => exact ⟨.quit, rfl, .inr (.inl ⟨rfl, rfl⟩)⟩
        | running => exact ⟨.quitting, rfl, .inr (.inr ⟨rfl, rfl⟩)⟩
        | quitting => exact ⟨.quitting, rfl, .inl rfl⟩
        | quit => exact ⟨.quit, rfl, .inl rfl⟩

theorem close_eq (f : Face) :
    ∃ medium, f.close = { f with medium := medium } ∧ medium.queued = f.medium.queued := by
  unfold close
  split
  · refine ⟨f.medium.close, rfl, ?_⟩
    cases f.medium <;> rfl
  · exact ⟨f.medium, rfl, rfl⟩

theorem move_link (h : f.service = .link l) (mover : Mover) (target : FaceState) :
    ∃ base medium lifecycle,
      f.move mover target = { f with base := base, medium := medium, lifecycle := lifecycle }
        ∧ medium.queued = f.medium.queued
        ∧ (lifecycle = f.lifecycle ∨ f.lifecycle = .created ∧ lifecycle = .quit
          ∨ f.lifecycle = .running ∧ lifecycle = .quitting) := by
  obtain ⟨lifecycle, hasked, hlife⟩ := asked_link h mover target
  rcases f.move_cases mover target with ⟨-, hmove, -⟩ | ⟨-, -, hmove, -⟩ | ⟨-, -, hmove, -⟩
  · rw [hmove, hasked]
    exact ⟨f.base, f.medium, lifecycle, rfl, rfl, hlife⟩
  · obtain ⟨medium, hclose, hqueued⟩ :=
      close_eq (signalStop (enter { f with lifecycle := lifecycle } target))
    rw [hmove, hasked]
    exact ⟨_, medium, lifecycle, hclose, hqueued, hlife⟩
  · rw [hmove, hasked]
    exact ⟨{ f.base with state := target }, f.medium, lifecycle, rfl, rfl, hlife⟩

end Face

/-- All that a step of a call does to a face with a link service. -/
inductive Producer.Step (f : Face) (l : LinkService) : Producer → Face × Producer → Prop where
  | done : Step f l (between []) (f, between [])
  | count (p : Parcel) (rest : List Parcel) :
      Step f l (between (p :: rest)) ({ f with service := .link (l.count p) }, counted p rest)
  | enqueue (p : Parcel) (rest : List Parcel) (hroom : l.queue.HasRoom) :
      Step f l (counted p rest)
        ({ f with service := .link { l with queue := l.queue.withItems (l.queue.items ++ [p]) } },
          between rest)
  | refuse (p : Parcel) (rest : List Parcel) (hroom : ¬ l.queue.HasRoom) :
      Step f l (counted p rest) (f, refused p rest)
  | uncount (p : Parcel) (rest : List Parcel) :
      Step f l (refused p rest) ({ f with service := .link (l.uncount p) }, between rest)

theorem Producer.steps {f : Face} {l : LinkService} (hlink : f.service = .link l) (q : Producer) :
    Step f l q (q.step f) := by
  unfold step
  rw [hlink]
  cases q with
  | between rest =>
      cases rest with
      | nil => exact .done
      | cons p rest => exact .count p rest
  | counted p rest =>
      cases hqueue : l.enqueue? p with
      | error e =>
          have hroom : ¬ l.queue.HasRoom := fun hroom => by
            rw [LinkService.enqueue?, Channel.send_of_room hroom.1 hroom.2] at hqueue
            cases hqueue
          simpa [hqueue] using Step.refuse p rest hroom
      | ok l' =>
          obtain ⟨hroom, rfl⟩ := LinkService.enqueue?_eq_ok hqueue
          simpa [hqueue] using Step.enqueue p rest hroom
  | refused p rest => exact .uncount p rest

/-- A call changes no more of a face than its service, and puts nothing into a queue that is not
read. -/
theorem Producer.Step.kept {f : Face} {l : LinkService} {q : Producer} {r : Face × Producer}
    (h : Step f l q r) (hlink : f.service = .link l) :
    ∃ l', r.1 = { f with service := .link l' } ∧ l'.queue.hasReceiver = l.queue.hasReceiver
      ∧ l'.queue.capacity = l.queue.capacity
      ∧ (l.queue.hasReceiver = false → l'.queue.items = l.queue.items) := by
  have hsame : f = { f with service := .link l } := by rw [← hlink]
  cases h with
  | done => exact ⟨l, hsame, rfl, rfl, fun _ => rfl⟩
  | count p => exact ⟨l.count p, rfl, rfl, rfl, fun _ => rfl⟩
  | enqueue p _ hroom =>
      refine ⟨_, rfl, rfl, rfl, fun hclosed => ?_⟩
      rw [hroom.1] at hclosed
      cases hclosed
  | refuse => exact ⟨l, hsame, rfl, rfl, fun _ => rfl⟩
  | uncount p => exact ⟨l.uncount p, rfl, rfl, rfl, fun _ => rfl⟩

namespace Outlet

/-- All that a step of the sending task does to a face with a link service. -/
inductive Step (o : Outlet) (l : LinkService) : Outlet → Prop where
  | stay : Step o l o
  | quit (hrunning : o.face.sender = .running) (hround : o.round = .waiting)
      (hstop : o.face.base.stop.isStopped = true) :
      Step o l { o with face := o.face.endSender, lost := l.queue.items }
  | take {p : Parcel} {rest : List Parcel} (hrunning : o.face.sender = .running)
      (hround : o.round = .waiting) (hstop : o.face.base.stop.isStopped = false)
      (hitems : l.queue.items = p :: rest) :
      Step o l { o with
        face := { o.face with service := .link { l with queue := l.queue.withItems rest } }
        round := .taken p }
  | measure {p : Parcel} (hround : o.round = .taken p) :
      Step o l { o with round := .measured p o.face.queueSize }
  | uncount {p : Parcel} {occupancy : UInt64} (hround : o.round = .measured p occupancy) :
      Step o l { o with
        face := { o.face with service := .link (l.uncount p) }
        round := .uncounted p occupancy }
  | send {p : Parcel} {occupancy : UInt64} (now : Instant)
      (hround : o.round = .uncounted p occupancy) :
      Step o l { o with face := o.face.sendUncounted l p occupancy now, round := .waiting }

theorem steps {o : Outlet} {l : LinkService} (hlink : o.face.service = .link l) (now : Instant) :
    Step o l (o.advance now) := by
  obtain ⟨⟨base, medium, service, lifecycle, counters, sender, receiver⟩, round, lost⟩ := o
  cases hlink
  cases round with
  | waiting =>
      unfold advance
      dsimp only
      by_cases hrunning : sender = .running
      · subst hrunning
        simp only [ne_eq, not_true_eq_false, ↓reduceIte]
        split
        · rename_i hstop
          exact .quit rfl rfl hstop
        · rename_i hstop
          split
          · exact .stay
          · rename_i p l' hnext
            obtain ⟨rest, hitems, rfl⟩ := LinkService.dequeue?_eq_some hnext
            exact .take rfl rfl (by simpa using hstop) hitems
      · simp only [hrunning, ne_eq, not_false_eq_true, ↓reduceIte]
        exact .stay
  | taken p => exact .measure rfl
  | measured p occupancy => exact .uncount rfl
  | uncounted p occupancy => exact .send now rfl

/-! ## The life of the sending task -/

/-- How the sending task, the life of the service and the queue go together. -/
inductive Stage (o : Outlet) : Prop where
  | unstarted {l : LinkService} (hlink : o.face.service = .link l) (hsender : o.face.sender = .idle)
      (hlife : o.face.lifecycle = .created ∨ o.face.lifecycle = .quit) (hround : o.round = .waiting)
      (hlost : o.lost = []) (hreads : l.queue.hasReceiver = true) (hroom : 0 < l.queue.capacity)
  | serving {l : LinkService} (hlink : o.face.service = .link l)
      (hsender : o.face.sender = .running)
      (hlife : o.face.lifecycle = .running ∨ o.face.lifecycle = .quitting) (hlost : o.lost = [])
  | ended {l : LinkService} (hlink : o.face.service = .link l) (hsender : o.face.sender = .ended)
      (hlife : o.face.lifecycle = .quit) (hround : o.round = .waiting)
      (hitems : l.queue.items = []) (hclosed : l.queue.hasReceiver = false)

namespace Stage

variable {o : Outlet}

theorem call (h : o.Stage) (q : Producer) : (o.call q).1.Stage := by
  cases h with
  | unstarted hlink hsender hlife hround hlost hreads hroom =>
      obtain ⟨l', hface, hreads', hcapacity, -⟩ := (Producer.steps hlink q).kept hlink
      rw [Outlet.call, hface]
      exact .unstarted rfl hsender hlife hround hlost (hreads'.trans hreads) (hcapacity ▸ hroom)
  | serving hlink hsender hlife hlost =>
      obtain ⟨l', hface, -⟩ := (Producer.steps hlink q).kept hlink
      rw [Outlet.call, hface]
      exact .serving rfl hsender hlife hlost
  | ended hlink hsender hlife hround hitems hclosed =>
      obtain ⟨l', hface, hreads', -, hqueue⟩ := (Producer.steps hlink q).kept hlink
      rw [Outlet.call, hface]
      exact .ended rfl hsender hlife hround ((hqueue hclosed).trans hitems) (hreads'.trans hclosed)

theorem advance (h : o.Stage) (now : Instant) : (o.advance now).Stage := by
  cases h with
  | unstarted hlink hsender hlife hround hlost hreads hroom =>
      have hstay : o.advance now = o := by simp [Outlet.advance, hlink, hround, hsender]
      exact hstay.symm ▸ .unstarted hlink hsender hlife hround hlost hreads hroom
  | ended hlink hsender hlife hround hitems hclosed =>
      have hstay : o.advance now = o := by simp [Outlet.advance, hlink, hround, hsender]
      exact hstay.symm ▸ .ended hlink hsender hlife hround hitems hclosed
  | @serving l hlink hsender hlife hlost =>
      generalize hnext : o.advance now = next
      have hstep : Step o l next := hnext ▸ steps hlink now
      cases hstep with
      | stay => exact .serving hlink hsender hlife hlost
      | quit _ hround =>
          exact .ended (Face.endSender_link hlink) rfl rfl hround rfl rfl
      | take => exact .serving rfl hsender hlife hlost
      | measure => exact .serving hlink hsender hlife hlost
      | uncount => exact .serving rfl hsender hlife hlost
      | @send p occupancy now =>
          obtain ⟨l', medium, counters, outBytes, expiration, hface, -⟩ :=
            o.face.sendUncounted_eq l p occupancy now
          rw [hface]
          exact .serving rfl hsender hlife hlost

/-- A service that was stopped before its start is never started. -/
theorem start (h : o.Stage) : Stage { o with face := o.face.start } := by
  cases h with
  | unstarted hlink hsender hlife hround hlost hreads hroom =>
      rw [Face.start_link hlink]
      split
      · exact .serving hlink rfl (.inl rfl) hlost
      · exact .unstarted hlink hsender hlife hround hlost hreads hroom
  | serving hlink hsender hlife hlost =>
      rw [Face.start_link hlink, if_neg fun hcreated => by simp [hcreated] at hlife]
      exact .serving hlink hsender hlife hlost
  | ended hlink hsender hlife hround hitems hclosed =>
      rw [Face.start_link hlink, if_neg fun hcreated => by simp [hcreated] at hlife]
      exact .ended hlink hsender hlife hround hitems hclosed

theorem move (h : o.Stage) (mover : Mover) (target : FaceState) :
    Stage { o with face := o.face.move mover target } := by
  cases h with
  | unstarted hlink hsender hlife hround hlost hreads hroom =>
      obtain ⟨base, medium, lifecycle, hmove, -, hlife'⟩ := Face.move_link hlink mover target
      rw [hmove]
      refine .unstarted hlink hsender ?_ hround hlost hreads hroom
      rcases hlife' with rfl | ⟨-, rfl⟩ | ⟨hrunning, -⟩
      · exact hlife
      · exact .inr rfl
      · simp [hrunning] at hlife
  | serving hlink hsender hlife hlost =>
      obtain ⟨base, medium, lifecycle, hmove, -, hlife'⟩ := Face.move_link hlink mover target
      rw [hmove]
      refine .serving hlink hsender ?_ hlost
      rcases hlife' with rfl | ⟨hcreated, -⟩ | ⟨-, rfl⟩
      · exact hlife
      · simp [hcreated] at hlife
      · exact .inr rfl
  | ended hlink hsender hlife hround hitems hclosed =>
      obtain ⟨base, medium, lifecycle, hmove, -, hlife'⟩ := Face.move_link hlink mover target
      rw [hmove]
      refine .ended hlink hsender ?_ hround hitems hclosed
      rcases hlife' with rfl | ⟨hcreated, -⟩ | ⟨hrunning, -⟩
      · exact hlife
      · simp [hcreated] at hlife
      · simp [hrunning] at hlife

theorem lost_eq_nil (h : o.Stage) (hsender : o.face.sender ≠ .ended) : o.lost = [] := by
  cases h with
  | unstarted _ _ _ _ hlost => exact hlost
  | serving _ _ _ hlost => exact hlost
  | ended _ hended => exact absurd hended hsender

end Stage

end Outlet

namespace Traffic

variable {ι : Type}

theorem stage_opened (base : FaceBase) (medium : Medium) (options : LinkOptions) (config : Config)
    (parcels : ι → List Parcel) : (opened base medium options config parcels).shared.Stage :=
  .unstarted rfl rfl (.inl rfl) rfl rfl rfl (Nat.lt_of_lt_of_le Nat.one_pos (Nat.le_max_right ..))

variable [DecidableEq ι] {w : Traffic ι}

theorem stage_take (h : w.shared.Stage) (t : Turn ι) : (w.take t).shared.Stage := by
  cases t with
  | call i => exact h.call (w.parties i)
  | round now => exact h.advance now
  | start => exact h.start
  | move mover target => exact h.move mover target

theorem after_induction {P : Traffic ι → Prop} (htake : ∀ w t, P w → P (w.take t)) (h : P w)
    (turns : List (Turn ι)) : P (w.after turns) := by
  unfold after
  induction turns generalizing w with
  | nil => exact h
  | cons t rest ih => exact ih (htake w t h)

end Traffic

end NamedData
