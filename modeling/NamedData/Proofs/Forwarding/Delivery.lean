import NamedData.Proofs.Channel
import NamedData.Proofs.Forwarding.Targets

/-!
# The queues that take a parcel

A thread that a parcel is offered to takes it if the queue of its kind has room, whatever the other
threads do. Which parcels no thread takes and which leave the first thread follows from the targets.
-/

namespace NamedData

namespace ThreadQueues

variable {q : ThreadQueues} {p : Parcel}

/-- The queue for parcels of this kind. -/
def queueFor (q : ThreadQueues) (p : Parcel) : Channel Parcel :=
  if p.packet.isInterest then q.interests else q.data

/-- The queues with one more parcel, at the end of the queue of its kind. -/
def appended (q : ThreadQueues) (p : Parcel) : ThreadQueues :=
  if p.packet.isInterest then
    { q with interests := q.interests.withItems (q.interests.items ++ [p]) }
  else { q with data := q.data.withItems (q.data.items ++ [p]) }

theorem offered_of_room (h : (q.queueFor p).HasRoom) : q.offered p = q.appended p := by
  obtain ⟨hreads, hroom⟩ := h
  unfold queueFor at hreads hroom
  unfold offered push appended
  cases hkind : p.packet.isInterest with
  | true =>
      simp only [hkind, ↓reduceIte] at hreads hroom
      simp only [↓reduceIte, Channel.send_of_room hreads hroom]
      rfl
  | false =>
      simp only [hkind, Bool.false_eq_true, ↓reduceIte] at hreads hroom
      simp only [Bool.false_eq_true, ↓reduceIte, Channel.send_of_room hreads hroom]
      rfl

theorem offered_of_no_room (h : ¬ (q.queueFor p).HasRoom) : q.offered p = q := by
  obtain ⟨e, he⟩ := Channel.send_of_no_room h p
  unfold queueFor at he
  unfold offered push
  cases hkind : p.packet.isInterest with
  | true =>
      simp only [hkind, ↓reduceIte] at he
      simp only [↓reduceIte, he]
      rfl
  | false =>
      simp only [hkind, Bool.false_eq_true, ↓reduceIte] at he
      simp only [Bool.false_eq_true, ↓reduceIte, he]
      rfl

theorem queueFor_appended (q : ThreadQueues) (p : Parcel) :
    (q.appended p).queueFor p = (q.queueFor p).withItems ((q.queueFor p).items ++ [p]) := by
  unfold queueFor appended
  cases p.packet.isInterest <;> rfl

theorem appended_ne (q : ThreadQueues) (p : Parcel) : q.appended p ≠ q := by
  intro h
  have hitems : (q.queueFor p).items ++ [p] = (q.queueFor p).items := by
    have happended := congrArg Channel.items (q.queueFor_appended p)
    rw [h] at happended
    exact happended.symm
  simpa using congrArg List.length hitems

/-- All parcels that wait for a thread. -/
def waiting (q : ThreadQueues) : List Parcel :=
  q.interests.items ++ q.data.items

theorem mem_waiting_offered {x : Parcel} (h : x ∈ (q.offered p).waiting) :
    x = p ∨ x ∈ q.waiting := by
  by_cases hroom : (q.queueFor p).HasRoom
  · rw [offered_of_room hroom, appended] at h
    split at h
    · simp only [waiting, Channel.items_withItems, List.mem_append, List.mem_singleton] at h ⊢
      tauto
    · simp only [waiting, Channel.items_withItems, List.mem_append, List.mem_singleton] at h ⊢
      tauto
  · rw [offered_of_no_room hroom] at h
    exact .inr h

end ThreadQueues

namespace Dispatcher

variable {d : Dispatcher} {p : Parcel} {q : ThreadQueues} {scope : Scope} {t : Nat}

/-- What waits anywhere after a parcel was dispatched is this parcel or waited before. -/
theorem mem_waiting_dispatch {x : Parcel} (hq : q ∈ (d.dispatch p scope).threads)
    (hx : x ∈ q.waiting) : x = p ∨ ∃ q' ∈ d.threads, x ∈ q'.waiting := by
  obtain ⟨t, ht⟩ := List.mem_iff_getElem?.mp hq
  rw [getElem?_dispatch] at ht
  split at ht
  · obtain ⟨q', hq', rfl⟩ := Option.map_eq_some_iff.mp ht
    rcases ThreadQueues.mem_waiting_offered hx with hnew | hold
    · exact .inl hnew
    · exact .inr ⟨q', List.mem_of_getElem? hq', hold⟩
  · exact .inr ⟨q, List.mem_of_getElem? ht, hx⟩

/-- Dispatching puts a parcel at the end of a thread's queue for its kind. -/
def Takes (d : Dispatcher) (p : Parcel) (scope : Scope) (t : Nat) : Prop :=
  ∃ q, d.threads[t]? = some q ∧ (d.dispatch p scope).threads[t]? = some (q.appended p)

theorem mem_targets_of_takes (h : d.Takes p scope t) : t ∈ d.targets p scope := by
  obtain ⟨q, hq, htakes⟩ := h
  by_contra hnot
  rw [getElem?_dispatch, if_neg hnot, hq] at htakes
  exact q.appended_ne p (Option.some.inj htakes).symm

/-- A thread with room takes what it is offered, whether or not others have room. -/
theorem takes_of_room (ht : t ∈ d.targets p scope) (hq : d.threads[t]? = some q)
    (hroom : (q.queueFor p).HasRoom) : d.Takes p scope t := by
  refine ⟨q, hq, ?_⟩
  rw [getElem?_dispatch, if_pos ht, hq, Option.map_some, ThreadQueues.offered_of_room hroom]

theorem dispatch_of_targets_eq_nil (h : d.targets p scope = []) : d.dispatch p scope = d := by
  rw [dispatch, h, List.foldl_nil]

/-! ## How the threads are found -/

/-- The three ways in which the threads of a parcel are found. -/
inductive Routed (d : Dispatcher) (p : Parcel) (scope : Scope) : List Nat → Prop where
  | byName (named : p.packet.isInterest = true ∨ p.pitToken.getD [] = [] ∧ scope ≠ .isLocal) :
      Routed d p scope [d.threadForName p.packet.name]
  | byPrefixes (isData : p.packet.isInterest = false) (noToken : p.pitToken.getD [] = [])
      (fromLocal : scope = .isLocal) : Routed d p scope (d.threadsForPrefixes p.packet.name)
  | byToken {token : Bytes} (isData : p.packet.isInterest = false)
      (hasToken : p.pitToken = some token) (nonempty : token ≠ []) :
      Routed d p scope (d.threadsForToken token)

theorem routed (d : Dispatcher) (p : Parcel) (scope : Scope) :
    Routed d p scope (d.targets p scope) := by
  unfold targets
  cases hp : p.packet with
  | interest i =>
      have hname : p.packet.name = i.name := by rw [hp]; rfl
      dsimp only
      rw [← hname]
      exact .byName (.inl (by rw [hp]; rfl))
  | data data =>
      have hname : p.packet.name = data.name := by rw [hp]; rfl
      have hdata : p.packet.isInterest = false := by rw [hp]; rfl
      dsimp only
      split
      · rename_i hnone
        rw [← hname]
        split
        · rename_i hlocal
          exact .byPrefixes hdata hnone hlocal
        · rename_i hlocal
          exact .byName (.inr ⟨hnone, hlocal⟩)
      · rename_i hnonempty
        refine .byToken hdata ?_ hnonempty
        cases htoken : p.pitToken with
        | none => exact absurd (by rw [htoken]; rfl) hnonempty
        | some token => rfl

theorem lt_of_mem_threadsForToken {token : Bytes} (h : t ∈ d.threadsForToken token) :
    t < d.size := by
  unfold threadsForToken at h
  split at h
  · split at h
    · rename_i hlt
      exact List.mem_singleton.mp h ▸ hlt
    · cases h
  · cases h

theorem lt_of_mem_targets (hd : 0 < d.size) (h : t ∈ d.targets p scope) : t < d.size := by
  have hrouted := d.routed p scope
  generalize d.targets p scope = targets at h hrouted
  cases hrouted with
  | byName => exact List.mem_singleton.mp h ▸ threadForName_lt hd _
  | byPrefixes =>
      obtain ⟨k, -, -, rfl⟩ := mem_threadsForPrefixes.mp h
      exact threadForName_lt hd _
  | byToken => exact lt_of_mem_threadsForToken h

/-! ## Parcels that no thread takes -/

/-- Data whose token has not the size of one, or names no thread. -/
def Misaddressed (d : Dispatcher) (p : Parcel) : Prop :=
  p.packet.isInterest = false ∧ ∃ token, p.pitToken = some token ∧ token ≠ []
    ∧ (token.length ≠ PitToken.size
      ∨ ∃ thread, PitToken.thread? token = some thread ∧ d.size ≤ thread.toNat)

/-- Data from a local face that has neither a token nor a name with any prefix to go by. -/
structure Nameless (p : Parcel) (scope : Scope) : Prop where
  isData : p.packet.isInterest = false
  noToken : p.pitToken.getD [] = []
  noName : p.packet.name = .empty
  fromLocal : scope = .isLocal

theorem Misaddressed.token_ne (h : d.Misaddressed p) : p.pitToken.getD [] ≠ [] := by
  obtain ⟨-, token, htoken, hne, -⟩ := h
  rwa [htoken]

theorem threadForName_mem_threadsForPrefixes {n : Name} (hne : n ≠ .empty) :
    d.threadForName n ∈ d.threadsForPrefixes n := by
  have hwhole : n.take n.length = n := congrArg Name.mk (List.take_length (l := n.components))
  exact mem_threadsForPrefixes.mpr
    ⟨n.length, Name.length_pos_of_ne_empty hne, Nat.le_refl _, by rw [hwhole]⟩

theorem threadsForPrefixes_eq_nil_iff {n : Name} : d.threadsForPrefixes n = [] ↔ n = .empty := by
  constructor
  · intro hnil
    by_contra hne
    have hmem := d.threadForName_mem_threadsForPrefixes hne
    rw [hnil] at hmem
    cases hmem
  · rintro rfl
    refine List.eq_nil_iff_forall_not_mem.mpr fun t ht => ?_
    obtain ⟨k, hpos, hle, -⟩ := mem_threadsForPrefixes.mp ht
    exact Nat.not_lt.mpr hle hpos

theorem threadsForToken_eq_nil_iff {token : Bytes} : d.threadsForToken token = []
    ↔ token.length ≠ PitToken.size
      ∨ ∃ thread, PitToken.thread? token = some thread ∧ d.size ≤ thread.toNat := by
  unfold threadsForToken
  by_cases hsize : token.length = PitToken.size
  · obtain ⟨thread, hthread⟩ : ∃ thread, PitToken.thread? token = some thread := ⟨_, if_pos hsize⟩
    simp [hthread, hsize]
  · have hthread : PitToken.thread? token = none := if_neg hsize
    simp [hthread, hsize]

/-- Only misaddressed Data and Data without a name are offered to no thread. -/
theorem targets_eq_nil_iff : d.targets p scope = [] ↔ d.Misaddressed p ∨ Nameless p scope := by
  have hrouted := d.routed p scope
  generalize d.targets p scope = targets at hrouted ⊢
  cases hrouted with
  | byName named =>
      refine iff_of_false (List.cons_ne_nil _ _) ?_
      rintro (hmis | hnone) <;> rcases named with hinterest | ⟨htoken, hscope⟩
      · exact absurd hinterest (by rw [hmis.1]; decide)
      · exact hmis.token_ne htoken
      · exact absurd hinterest (by rw [hnone.isData]; decide)
      · exact hscope hnone.fromLocal
  | byPrefixes isData noToken fromLocal =>
      rw [threadsForPrefixes_eq_nil_iff]
      constructor
      · exact fun hname => .inr ⟨isData, noToken, hname, fromLocal⟩
      · rintro (hmis | hnone)
        · exact absurd noToken hmis.token_ne
        · exact hnone.noName
  | byToken isData hasToken nonempty =>
      rw [threadsForToken_eq_nil_iff]
      constructor
      · exact fun hbad => .inl ⟨isData, _, hasToken, nonempty, hbad⟩
      · rintro (⟨-, token, htoken, -, hbad⟩ | hnone)
        · cases hasToken.symm.trans htoken
          exact hbad
        · exact absurd hnone.noToken (by rw [hasToken]; exact nonempty)

/-- The thread of its own name takes part, for an Interest and for Data without a token. -/
theorem threadForName_mem_targets (hnamed : p.packet.isInterest = true ∨ p.pitToken.getD [] = [])
    (hname : ¬ Nameless p scope) : d.threadForName p.packet.name ∈ d.targets p scope := by
  have hrouted := d.routed p scope
  generalize d.targets p scope = targets at hrouted ⊢
  cases hrouted with
  | byName => exact List.mem_singleton_self _
  | byPrefixes isData noToken fromLocal =>
      exact threadForName_mem_threadsForPrefixes fun hempty =>
        hname ⟨isData, noToken, hempty, fromLocal⟩
  | byToken isData hasToken nonempty =>
      rw [isData, hasToken] at hnamed
      rcases hnamed with hinterest | htoken
      · cases hinterest
      · exact absurd htoken nonempty

/-- A dispatcher with room loses no parcel but misaddressed Data and, from local faces, Data of no
name without a token; both leave all queues as they are. Interests and other Data without a token
are taken by the thread of their own name. What one thread has no room for, the other threads that
it is offered to take nevertheless. -/
theorem taken_unless_misaddressed_or_nameless (hd : 0 < d.size) (p : Parcel) (scope : Scope) :
    ((∀ q ∈ d.threads, (q.queueFor p).HasRoom) →
        ((∃ t, d.Takes p scope t) ↔ ¬ (d.Misaddressed p ∨ Nameless p scope))
        ∧ ((p.packet.isInterest = true ∨ p.pitToken.getD [] = []) →
            (d.Takes p scope (d.threadForName p.packet.name) ↔ ¬ Nameless p scope)))
      ∧ (d.Misaddressed p ∨ Nameless p scope → d.dispatch p scope = d)
      ∧ ∀ t ∈ d.targets p scope, ∃ q, d.threads[t]? = some q
        ∧ ((q.queueFor p).HasRoom → d.Takes p scope t) := by
  have hthread : ∀ t ∈ d.targets p scope, ∃ q, d.threads[t]? = some q
      ∧ ((q.queueFor p).HasRoom → d.Takes p scope t) := fun t ht =>
    have hlt := lt_of_mem_targets hd ht
    ⟨d.threads[t], List.getElem?_eq_getElem hlt,
      takes_of_room ht (List.getElem?_eq_getElem hlt)⟩
  refine ⟨fun hroom => ?_, fun hlost => ?_, hthread⟩
  · have htakes : ∀ t ∈ d.targets p scope, d.Takes p scope t := by
      intro t ht
      obtain ⟨q, hq, htakes⟩ := hthread t ht
      exact htakes (hroom q (List.mem_of_getElem? hq))
    constructor
    · rw [← targets_eq_nil_iff, List.eq_nil_iff_forall_not_mem, not_forall_not]
      exact exists_congr fun t => ⟨mem_targets_of_takes, htakes t⟩
    · intro hnamed
      constructor
      · intro htaken hnone
        have hmem := mem_targets_of_takes htaken
        rw [targets_eq_nil_iff.mpr (.inr hnone)] at hmem
        cases hmem
      · exact fun hname => htakes _ (threadForName_mem_targets hnamed hname)
  · exact dispatch_of_targets_eq_nil (targets_eq_nil_iff.mpr hlost)

/-- Data that two threads are offered, first with room everywhere and then with one of them full. -/
theorem taken_by_other_of_full :
    let data : Data := { name := ⟨[.generic [97], .generic [98], .generic [99], .generic [100]]⟩ }
    let p := Parcel.ofPacket (.data data)
    let d := create 8 1
    let full := d.dispatch p .nonLocal
    0 < d.size ∧ (∀ q ∈ d.threads, (q.queueFor p).HasRoom) ∧ ¬ Nameless p .isLocal
      ∧ d.Takes p .isLocal (d.threadForName data.name)
      ∧ 0 < full.size ∧ 5 ∈ full.targets p .isLocal ∧ 7 ∈ full.targets p .isLocal
      ∧ (∃ q, full.threads[5]? = some q ∧ ¬ (q.queueFor p).HasRoom) ∧ full.Takes p .isLocal 7 := by
  intro data p d full
  have hd : 0 < d.size := by decide
  have hroom : ∀ q ∈ d.threads, (q.queueFor p).HasRoom := by decide
  have hname : ¬ Nameless p .isLocal := fun h => absurd h.noName (by decide)
  have hfull : 0 < full.size := by decide +kernel
  have htarget (k : Nat) (hk : 1 ≤ k) (hle : k ≤ 4) :
      full.threadForName (data.name.take k) ∈ full.targets p .isLocal := by
    rw [targets_data_local rfl rfl]
    exact mem_threadsForPrefixes.mpr ⟨k, hk, hle, rfl⟩
  have hfive : 5 ∈ full.targets p .isLocal := by
    have hthread : full.threadForName (data.name.take 4) = 5 := by decide +kernel
    exact hthread ▸ htarget 4 (by decide) (by decide)
  have hseven : 7 ∈ full.targets p .isLocal := by
    have hthread : full.threadForName (data.name.take 3) = 7 := by decide +kernel
    exact hthread ▸ htarget 3 (by decide) (by decide)
  have hwaits : ∃ q, full.threads[5]? = some q ∧ ¬ (q.queueFor p).HasRoom :=
    ⟨⟨.empty 1, (Channel.empty 1).withItems [p]⟩, by decide +kernel, by decide⟩
  obtain ⟨htaken, -, -⟩ := taken_unless_misaddressed_or_nameless hd p .isLocal
  obtain ⟨-, hnamed⟩ := htaken hroom
  obtain ⟨-, -, hoffered⟩ := taken_unless_misaddressed_or_nameless hfull p .isLocal
  obtain ⟨q, hq, htakes⟩ := hoffered 7 hseven
  have hempty : full.threads[7]? = some (.empty 1) := by decide +kernel
  cases hempty.symm.trans hq
  exact ⟨hd, hroom, hname, (hnamed (.inr rfl)).mpr hname, hfull, hfive, hseven,
    hwaits, htakes (by decide)⟩

/-- All queues have room, and the Data is offered to no thread, where another scope would have
brought it to the thread of its name. -/
theorem nameless_data_is_lost :
    let p := Parcel.ofPacket (.data { name := .empty })
    let d := create 4 4
    0 < d.size ∧ (∀ q ∈ d.threads, (q.queueFor p).HasRoom) ∧ p.pitToken = none
      ∧ (∀ t, ¬ d.Takes p .isLocal t) ∧ d.dispatch p .isLocal = d
      ∧ d.Takes p .nonLocal (d.threadForName p.packet.name) := by
  intro p d
  have htargets : d.targets p .isLocal = [] :=
    targets_eq_nil_iff.mpr (.inr ⟨rfl, rfl, rfl, rfl⟩)
  have hremote : d.targets p .nonLocal = [d.threadForName p.packet.name] := by decide +kernel
  refine ⟨by decide, by decide, rfl, fun t ht => ?_, dispatch_of_targets_eq_nil htargets, ?_⟩
  · have hmem := mem_targets_of_takes ht
    rw [htargets] at hmem
    cases hmem
  · have hfirst : d.threadForName p.packet.name = 0 := by decide +kernel
    rw [hfirst] at hremote ⊢
    exact takes_of_room (by rw [hremote]; decide) rfl (by decide)

/-! ## Names of this machine -/

/-- Data with a token of this thread. -/
def SentTo (p : Parcel) (t : Nat) : Prop :=
  p.packet.isInterest = false ∧ ∃ token thread, p.pitToken = some token
    ∧ PitToken.thread? token = some thread ∧ thread.toNat = t

theorem mem_threadsForToken {token : Bytes} : t ∈ d.threadsForToken token
    ↔ t < d.size ∧ ∃ thread, PitToken.thread? token = some thread ∧ thread.toNat = t := by
  constructor
  · intro h
    refine ⟨lt_of_mem_threadsForToken h, ?_⟩
    unfold threadsForToken at h
    split at h
    · rename_i thread hthread
      split at h
      · exact ⟨thread, hthread, (List.mem_singleton.mp h).symm⟩
      · cases h
    · cases h
  · rintro ⟨hlt, thread, hthread, rfl⟩
    rw [threadsForToken, hthread]
    dsimp only
    rw [if_pos hlt]
    exact List.mem_singleton_self _

theorem mem_targets_of_sentTo (h : SentTo p t) (ht : t < d.size) : t ∈ d.targets p scope := by
  obtain ⟨hdata, token, thread, htoken, hthread, heq⟩ := h
  have hnonempty : token ≠ [] := by
    rintro rfl
    cases hthread
  have hrouted := d.routed p scope
  generalize d.targets p scope = targets at hrouted ⊢
  cases hrouted with
  | byName named =>
      rw [hdata, htoken] at named
      rcases named with hinterest | ⟨hnone, -⟩
      · cases hinterest
      · exact absurd hnone hnonempty
  | byPrefixes isData noToken fromLocal =>
      rw [htoken] at noToken
      exact absurd noToken hnonempty
  | byToken isData hasToken nonempty =>
      cases hasToken.symm.trans htoken
      exact mem_threadsForToken.mpr ⟨ht, thread, hthread, heq⟩

/-- Under `/localhost` only a token leads to another thread than the first. -/
theorem eq_zero_or_sentTo_of_localhost (hlocal : p.packet.name.isLocalhost = true)
    (h : t ∈ d.targets p scope) : t = 0 ∨ t < d.size ∧ SentTo p t := by
  have hname : d.threadForName p.packet.name = 0 := if_pos hlocal
  have hprefixes : d.threadsForPrefixes p.packet.name = [0] := if_pos hlocal
  have hrouted := d.routed p scope
  generalize d.targets p scope = targets at h hrouted
  cases hrouted with
  | byName => exact .inl (hname ▸ List.mem_singleton.mp h)
  | byPrefixes =>
      rw [hprefixes] at h
      exact .inl (List.mem_singleton.mp h)
  | byToken isData hasToken nonempty =>
      obtain ⟨hlt, thread, hthread, heq⟩ := mem_threadsForToken.mp h
      exact .inr ⟨hlt, isData, _, thread, hasToken, hthread, heq⟩

/-- A packet under `/localhost` changes no queues but those of the first thread, unless it is Data
with a token of another thread that exists; such Data is taken by that thread if it has room. -/
theorem localhost_stays_unless_sent (hlocal : p.packet.name.isLocalhost = true) (d : Dispatcher)
    (scope : Scope) :
    ((∀ t ∈ d.targets p scope, t = 0) ↔ ∀ t < d.size, SentTo p t → t = 0)
      ∧ ((∀ t < d.size, SentTo p t → t = 0) → ∀ t, t ≠ 0 →
        ¬ d.Takes p scope t ∧ (d.dispatch p scope).threads[t]? = d.threads[t]?)
      ∧ ∀ t q, SentTo p t → d.threads[t]? = some q → (q.queueFor p).HasRoom →
        d.Takes p scope t := by
  have hiff : (∀ t ∈ d.targets p scope, t = 0) ↔ ∀ t < d.size, SentTo p t → t = 0 := by
    constructor
    · exact fun h t hlt hsent => h t (mem_targets_of_sentTo hsent hlt)
    · intro h t ht
      rcases eq_zero_or_sentTo_of_localhost hlocal ht with hzero | ⟨hlt, hsent⟩
      · exact hzero
      · exact h t hlt hsent
  refine ⟨hiff, fun h t hne => ?_, fun t q hsent hq hroom => ?_⟩
  · have hnot : t ∉ d.targets p scope := fun ht => hne (hiff.mpr h t ht)
    exact ⟨fun htakes => hnot (mem_targets_of_takes htakes), by rw [getElem?_dispatch, if_neg hnot]⟩
  · have hlt : t < d.size := (List.getElem?_eq_some_iff.mp hq).1
    exact takes_of_room (mem_targets_of_sentTo hsent hlt) hq hroom

/-- Data with a token of another thread, and Data without a token, beside each other. -/
theorem localhost_stays_unless_sent_by_token :
    let data : Data := { name := ⟨[.generic (Bytes.ofText "localhost"), .generic [97]]⟩ }
    let p := Parcel.ofPacket (.data data)
    let sent := { p with pitToken := some (PitToken.make 5 1) }
    let d := create 8 16
    p.packet.name.isLocalhost = true ∧ sent.packet.name.isLocalhost = true
      ∧ (∀ t, t ≠ 0 → ¬ d.Takes p .isLocal t) ∧ SentTo sent 5 ∧ d.Takes sent .nonLocal 5 := by
  intro data p sent d
  have hlocal : p.packet.name.isLocalhost = true := by decide
  have hsent : SentTo sent 5 :=
    ⟨rfl, PitToken.make 5 1, 5, rfl, PitToken.thread?_make 5 1, rfl⟩
  have hnot : ∀ t < d.size, SentTo p t → t = 0 := by
    rintro t - ⟨-, token, thread, htoken, -⟩
    cases htoken
  obtain ⟨-, hstays, -⟩ := localhost_stays_unless_sent hlocal d .isLocal
  obtain ⟨-, -, htaken⟩ := localhost_stays_unless_sent (p := sent) hlocal d .nonLocal
  exact ⟨hlocal, hlocal, fun t hne => (hstays hnot t hne).1, hsent,
    htaken 5 (.empty 16) hsent rfl (by decide)⟩

/-- Data under `/localhost` from a local face is put in a queue of thread 5, which its token
names. -/
theorem localhost_leaves_first_thread :
    let p := { Parcel.ofPacket (.data
      { name := ⟨[.generic (Bytes.ofText "localhost"), .generic [97]]⟩ }) with
        pitToken := some (PitToken.make 5 1) }
    p.packet.name.isLocalhost = true ∧ (create 8 16).Takes p .isLocal 5 := by
  intro p
  have hsent : SentTo p 5 := ⟨rfl, PitToken.make 5 1, 5, rfl, PitToken.thread?_make 5 1, rfl⟩
  exact ⟨by decide, takes_of_room (mem_targets_of_sentTo hsent (by decide)) rfl (by decide)⟩

end Dispatcher

end NamedData
