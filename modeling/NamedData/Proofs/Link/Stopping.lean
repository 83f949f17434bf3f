import NamedData.Proofs.Link.Occupancy

/-!
# What a stopped face counts

A service quits in two ways: it is stopped before it is started, or its sending task sees the stop
signal. Either way the face goes on counting the parcels that wait at that moment, and in the first
case those that are sent later, too.
-/

namespace NamedData

open Parcel (bytes)

/-! ## Sending to a queue with and without room -/

theorem LinkService.send_of_no_room {l : LinkService} (h : ¬ l.queue.HasRoom) (p : Parcel) :
    l.send p = l := by
  obtain ⟨e, he⟩ := Channel.send_of_no_room h p
  have hqueue : (l.count p).enqueue? p = .error e := by
    rw [enqueue?, count, he]
    rfl
  rw [send, hqueue]
  simp only [count, uncount, UInt64.add_sub_cancel]

namespace Face

variable {f : Face} {l : LinkService}

theorem send_of_no_room (hlink : f.service = .link l) (h : ¬ l.queue.HasRoom) (p : Parcel) :
    f.send p = f := by
  simp only [send, hlink, LinkService.send_of_no_room h]
  rw [← hlink]

theorem queueSize_send_of_room (hlink : f.service = .link l) (h : l.queue.HasRoom) (p : Parcel) :
    (f.send p).queueSize = f.queueSize + LinkService.rawLength p := by
  simp only [send, queueSize, hlink, LinkService.send_of_room h.1 h.2, LinkService.count]
  ac_rfl

/-- The face counts nothing but what waits below it, whatever it is sent. -/
def ReportsEmpty (f : Face) : Prop :=
  ∀ ps : List Parcel, (ps.foldl send f).queueSize = f.medium.queued

theorem not_reportsEmpty_of_room (hlink : f.service = .link l) (h : l.queue.HasRoom) :
    ¬ f.ReportsEmpty := by
  intro hempty
  let p : Parcel := { raw := [0], packet := .interest { name := ⟨[]⟩ } }
  have hnone : f.queueSize = f.medium.queued := hempty []
  have hone : (f.send p).queueSize = f.medium.queued := hempty [p]
  rw [queueSize_send_of_room hlink h, hnone] at hone
  exact absurd (add_eq_left.mp hone) (by decide)

theorem foldl_send_of_no_room (hlink : f.service = .link l) (h : ¬ l.queue.HasRoom)
    (ps : List Parcel) : ps.foldl send f = f := by
  induction ps with
  | nil => rfl
  | cons p rest ih => rw [List.foldl_cons, send_of_no_room hlink h, ih]

end Face

/-! ## After the end of the sending task -/

theorem Outlet.Stage.of_ended {o : Outlet} (h : o.Stage) (hended : o.face.sender = .ended) :
    ∃ l, o.face.service = .link l ∧ o.face.lifecycle = .quit ∧ o.round = .waiting
      ∧ l.queue.items = [] ∧ l.queue.hasReceiver = false := by
  cases h with
  | unstarted _ hidle => cases hidle.symm.trans hended
  | serving _ hrunning => cases hrunning.symm.trans hended
  | ended hlink _ hlife hround hitems hclosed => exact ⟨_, hlink, hlife, hround, hitems, hclosed⟩

namespace Traffic

variable {ι : Type} {w : Traffic ι}

theorem foldl_send_of_ended (hstage : w.shared.Stage) (hended : w.shared.face.sender = .ended)
    (ps : List Parcel) : ps.foldl Face.send w.shared.face = w.shared.face := by
  obtain ⟨l, hlink, -, -, -, hclosed⟩ := hstage.of_ended hended
  exact Face.foldl_send_of_no_room hlink (fun hroom => by cases hroom.1.symm.trans hclosed) ps

section

variable [DecidableEq ι]

theorem ended_take (hstage : w.shared.Stage) (hended : w.shared.face.sender = .ended) (t : Turn ι) :
    (w.take t).shared.face.sender = .ended ∧ (w.take t).shared.lost = w.shared.lost
      ∧ (w.take t).shared.face.medium.queued = w.shared.face.medium.queued := by
  obtain ⟨l, hlink, hlife, hround, -⟩ := hstage.of_ended hended
  cases t with
  | call i =>
      obtain ⟨l', hface, -⟩ := (Producer.steps hlink (w.parties i)).kept hlink
      simpa [take, Joint.turn, Outlet.call, hface] using hended
  | round now =>
      have hstay : w.shared.advance now = w.shared := by
        simp [Outlet.advance, hlink, hround, hended]
      simpa [take, hstay] using hended
  | start => simpa [take, Face.start_link hlink, hlife] using hended
  | move mover target =>
      obtain ⟨base, medium, lifecycle, hmove, hqueued, -⟩ := Face.move_link hlink mover target
      simpa [take, hmove] using ⟨hended, hqueued⟩

theorem ended_after (hstage : w.shared.Stage) (hended : w.shared.face.sender = .ended)
    (turns : List (Turn ι)) :
    (w.after turns).shared.face.sender = .ended ∧ (w.after turns).shared.lost = w.shared.lost
      ∧ (w.after turns).shared.face.medium.queued = w.shared.face.medium.queued := by
  unfold after
  induction turns generalizing w with
  | nil => exact ⟨hended, rfl, rfl⟩
  | cons t rest ih =>
      obtain ⟨hsender, hlost, hqueued⟩ := ended_take hstage hended t
      have hrest := ih (stage_take hstage t) hsender
      rwa [hlost, hqueued] at hrest

end

/-! ## What is still counted -/

variable [Fintype ι]

theorem total_at_rest (hcalls : ∀ i, (w.parties i).held = [])
    (hround : w.shared.round = .waiting) :
    w.total = bytes (w.shared.face.waiting ++ w.shared.lost) := by
  simp [total, Outlet.held, hround, Round.held, hcalls, bytes]

/-- While no call is under way and no round has begun, the face counts what waits and what was
lost. -/
theorem Balanced.queueSize_eq (h : w.Balanced) (hcalls : ∀ i, (w.parties i).held = [])
    (hround : w.shared.round = .waiting) :
    w.shared.face.queueSize = UInt64.ofNat (bytes (w.shared.face.waiting ++ w.shared.lost))
      + w.shared.face.medium.queued := by
  rw [h.2.queueSize_eq, h.countedBytes_eq, total_at_rest hcalls hround]

theorem Balanced.queueSize_of_ended (h : w.Balanced) (hcalls : ∀ i, (w.parties i).held = [])
    (hended : w.shared.face.sender = .ended) :
    w.shared.face.queueSize = UInt64.ofNat (bytes w.shared.lost) + w.shared.face.medium.queued := by
  obtain ⟨l, hlink, -, hround, hitems, -⟩ := h.1.of_ended hended
  have hwaiting : w.shared.face.waiting = [] := by simp only [Face.waiting, hlink, hitems]
  rw [h.queueSize_eq hcalls hround, hwaiting, List.nil_append]

/-- A face that counts nothing beyond its medium has nothing left. -/
theorem Balanced.left_eq_nil (h : w.Balanced) (hcalls : ∀ i, (w.parties i).held = [])
    (hround : w.shared.round = .waiting) (hfits : w.Fits)
    (hraw : ∀ p ∈ w.shared.face.waiting ++ w.shared.lost, p.raw ≠ [])
    (hempty : w.shared.face.queueSize = w.shared.face.medium.queued) :
    w.shared.face.waiting ++ w.shared.lost = [] := by
  have hsum := h.toNat_queueSize hfits
  rw [hempty, total_at_rest hcalls hround] at hsum
  cases hleft : w.shared.face.waiting ++ w.shared.lost with
  | nil => rfl
  | cons p rest =>
      rw [hleft] at hraw hsum
      have hpos := List.length_pos_iff.mpr (hraw p List.mem_cons_self)
      rw [Parcel.bytes_cons] at hsum
      omega

theorem Balanced.reportsEmpty_iff_of_ended (h : w.Balanced)
    (hcalls : ∀ i, (w.parties i).held = []) (hended : w.shared.face.sender = .ended)
    (hfits : w.Fits) (hraw : ∀ p ∈ w.shared.face.waiting ++ w.shared.lost, p.raw ≠ []) :
    w.shared.face.ReportsEmpty ↔ w.shared.lost = [] := by
  obtain ⟨l, -, -, hround, -⟩ := h.1.of_ended hended
  constructor
  · intro hempty
    exact (List.append_eq_nil_iff.mp (h.left_eq_nil hcalls hround hfits hraw (hempty []))).2
  · intro hlost ps
    rw [foldl_send_of_ended h.1 hended, h.queueSize_of_ended hcalls hended, hlost]
    exact UInt64.zero_add _

/-- With nothing left there is room for a parcel, which would be counted. -/
theorem Balanced.not_reportsEmpty_of_unstarted {l : LinkService} (h : w.Balanced)
    (hcalls : ∀ i, (w.parties i).held = []) (hlink : w.shared.face.service = .link l)
    (hround : w.shared.round = .waiting) (hreads : l.queue.hasReceiver = true)
    (hroom : 0 < l.queue.capacity) (hfits : w.Fits)
    (hraw : ∀ p ∈ w.shared.face.waiting ++ w.shared.lost, p.raw ≠ []) :
    ¬ w.shared.face.ReportsEmpty := by
  intro hempty
  have hwaiting := (List.append_eq_nil_iff.mp
    (h.left_eq_nil hcalls hround hfits hraw (hempty []))).1
  have hitems : l.queue.items = [] := by simpa only [Face.waiting, hlink] using hwaiting
  have hplace : l.queue.items.length < l.queue.capacity := by rwa [hitems]
  exact Face.not_reportsEmpty_of_room hlink ⟨hreads, hplace⟩ hempty

end Traffic

/-- A face whose service quit counts the parcels that waited when its sending task ended or, if it
was never started, those that wait. In the second case it goes on counting what is sent. So it
reports an empty queue just if its sending task ended and nothing waited then. -/
theorem queueSize_of_quit {ι : Type} [DecidableEq ι] [Fintype ι] (base : FaceBase) (medium : Medium)
    (options : LinkOptions) (config : Config) (parcels : ι → List Parcel) (turns : List (Turn ι)) :
    let w := (Traffic.opened base medium options config parcels).after turns
    let f := w.shared.face
    f.lifecycle = .quit → (∀ i, (w.parties i).held = []) →
      f.queueSize = UInt64.ofNat (bytes (f.waiting ++ w.shared.lost)) + f.medium.queued
        ∧ (f.sender = .ended ∧ f.waiting = [] ∧ (∀ ps : List Parcel, ps.foldl Face.send f = f)
            ∧ (∀ more, (∀ i, ((w.after more).parties i).held = []) →
              (w.after more).shared.face.queueSize = f.queueSize)
          ∨ f.sender = .idle ∧ w.shared.lost = []
            ∧ ∀ l, f.service = .link l → l.queue.items.length < l.queue.capacity →
              ∀ p, (f.send p).queueSize = f.queueSize + LinkService.rawLength p)
        ∧ (w.Fits → (∀ p ∈ f.waiting ++ w.shared.lost, p.raw ≠ []) →
          (f.ReportsEmpty ↔ f.sender = .ended ∧ w.shared.lost = [])) := by
  intro w f hquit hcalls
  have hw : w.Balanced := (Traffic.balanced_opened base medium options config parcels).after turns
  cases hw.1 with
  | serving _ _ hlife => simp [f, hquit] at hlife
  | ended hlink hsender _ hround hitems =>
      have hwaiting : f.waiting = [] := by simp only [Face.waiting, f, hlink, hitems]
      have hsent := Traffic.foldl_send_of_ended hw.1 hsender
      refine ⟨hw.queueSize_eq hcalls hround, .inl ⟨hsender, hwaiting, hsent, fun more hmore => ?_⟩,
        fun hfits hraw => ?_⟩
      · obtain ⟨hsender', hlost, hqueued⟩ := Traffic.ended_after hw.1 hsender more
        rw [(hw.after more).queueSize_of_ended hmore hsender', hlost, hqueued]
        exact (hw.queueSize_of_ended hcalls hsender).symm
      · rw [hw.reportsEmpty_iff_of_ended hcalls hsender hfits hraw]
        exact (and_iff_right hsender).symm
  | @unstarted l hlink hsender _ hround hlost hreads hroom =>
      have hgrows (l' : LinkService) (hl : f.service = .link l')
          (hplace : l'.queue.items.length < l'.queue.capacity) (p : Parcel) :
          (f.send p).queueSize = f.queueSize + LinkService.rawLength p := by
        cases hl.symm.trans hlink
        exact Face.queueSize_send_of_room hl ⟨hreads, hplace⟩ p
      refine ⟨hw.queueSize_eq hcalls hround, .inr ⟨hsender, hlost, hgrows⟩, fun hfits hraw => ?_⟩
      have hnot := hw.not_reportsEmpty_of_unstarted hcalls hlink hround hreads hroom hfits hraw
      exact ⟨fun hempty => absurd hempty hnot, fun hended => by cases hsender.symm.trans hended.1⟩

/-- A parcel that is sent before the service is stopped without a start is counted for good. -/
theorem queueSize_of_quit_unstarted :
    let p := Parcel.ofPacket (.interest { name := ⟨[⟨8, [97]⟩]⟩ })
    let w := (Traffic.opened Face.componentBase (.outbox [] 0) {} {} fun _ : Fin 1 => [p]).after
      [.call 0, .call 0, .move .caller .down]
    w.shared.face.lifecycle = .quit ∧ (∀ i, (w.parties i).held = [])
      ∧ ¬ w.shared.face.ReportsEmpty := by
  intro p w
  have hquit : w.shared.face.lifecycle = .quit := by decide +kernel
  have hcalls : ∀ i, (w.parties i).held = [] := by decide +kernel
  have hfits : w.Fits := by
    change _ < _
    decide +kernel
  have hraw : ∀ p ∈ w.shared.face.waiting ++ w.shared.lost, p.raw ≠ [] := by decide +kernel
  obtain ⟨-, -, hexact⟩ := queueSize_of_quit Face.componentBase (.outbox [] 0) {} {}
    (fun _ : Fin 1 => [p]) [.call 0, .call 0, .move .caller .down] hquit hcalls
  have hidle : w.shared.face.sender = .idle := by decide +kernel
  exact ⟨hquit, hcalls, fun hempty => by
    cases hidle.symm.trans ((hexact hfits hraw).mp hempty).1⟩

/-- Both ways to quit leave bytes counted: without a start, where later parcels add to them, and on
a stop signal that comes while a parcel waits. -/
theorem parcels_counted_after_quit :
    let p := Parcel.ofPacket (.interest { name := ⟨[⟨8, [97]⟩]⟩ })
    let start := Traffic.opened Face.componentBase (.outbox [] 0) {} {} fun _ : Fin 1 => [p]
    let unstarted := (start.after [.call 0, .call 0, .move .caller .down]).shared.face
    let stopped :=
      (start.after [.start, .call 0, .call 0, .move .caller .down, .round 0]).shared.face
    (unstarted.lifecycle = .quit ∧ unstarted.medium.queued = 0 ∧ unstarted.queueSize = 7
        ∧ (unstarted.send p).queueSize = 14)
      ∧ stopped.lifecycle = .quit ∧ stopped.medium.queued = 0 ∧ stopped.queueSize = 7 := by
  decide +kernel

end NamedData
