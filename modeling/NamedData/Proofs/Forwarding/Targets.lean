import NamedData.Forwarding.Dispatcher
import NamedData.Proofs.Name.Prefixes

/-!
# The threads that a parcel is offered to

Data finds the thread that holds its Interest, whether by the hashes of its prefixes, by the hash of
its whole name or by its token.
-/

namespace NamedData

/-! ## Sorted numbers without repetitions -/

namespace Repetition

-- The loop keeps what it has seen in reverse order; seen from outside it is a recursion on the
-- list.
theorem eraseReps_loop_eq (a : Nat) (xs acc : List Nat) :
    List.eraseRepsBy.loop (· == ·) a xs acc = acc.reverse ++ (a :: xs).eraseReps := by
  unfold List.eraseReps List.eraseRepsBy
  induction xs generalizing a acc with
  | nil => simp [List.eraseRepsBy.loop]
  | cons b xs ih =>
      simp only [List.eraseRepsBy.loop]
      split
      · exact ih a acc
      · rw [ih b (a :: acc), ih b [a], List.reverse_cons, List.append_assoc]
        rfl

theorem eraseReps_cons_cons (a b : Nat) (xs : List Nat) :
    (a :: b :: xs).eraseReps
      = if a = b then (b :: xs).eraseReps else a :: (b :: xs).eraseReps := by
  have hloop : (a :: b :: xs).eraseReps
      = List.eraseRepsBy.loop (· == ·) a (b :: xs) [] := rfl
  rw [hloop, List.eraseRepsBy.loop]
  by_cases hab : a = b
  · rw [if_pos hab, hab, beq_self_eq_true]
    rfl
  · rw [if_neg hab, beq_false_of_ne hab]
    exact eraseReps_loop_eq b xs [a]

theorem mem_eraseReps {x : Nat} {l : List Nat} : x ∈ l.eraseReps ↔ x ∈ l := by
  induction l with
  | nil => rfl
  | cons a l ih =>
      cases l with
      | nil => rfl
      | cons b xs =>
          rw [eraseReps_cons_cons]
          split
          · rename_i hab
            rw [ih, hab, List.mem_cons (a := x) (l := b :: xs), or_iff_right_of_imp]
            rintro rfl
            exact List.mem_cons_self
          · rw [List.mem_cons, List.mem_cons, ih]

theorem pairwise_lt_eraseReps {l : List Nat} (h : l.Pairwise (· ≤ ·)) :
    l.eraseReps.Pairwise (· < ·) := by
  induction l with
  | nil => exact List.Pairwise.nil
  | cons a l ih =>
      cases l with
      | nil => exact List.pairwise_singleton _ a
      | cons b xs =>
          obtain ⟨hle, hrest⟩ := List.pairwise_cons.mp h
          rw [eraseReps_cons_cons]
          split
          · exact ih hrest
          · rename_i hab
            refine List.pairwise_cons.mpr ⟨fun x hx => ?_, ih hrest⟩
            have hb := hle b List.mem_cons_self
            have hx : b ≤ x := by
              rcases List.mem_cons.mp (mem_eraseReps.mp hx) with rfl | hx
              · exact Nat.le_refl x
              · exact (List.pairwise_cons.mp hrest).1 x hx
            omega

end Repetition

/-! ## Tokens -/

namespace PitToken

theorem thread?_make (thread : UInt16) (tag : UInt32) :
    thread? (make thread tag) = some thread := by
  have hlength : (make thread tag).length = size := by
    simp [make, size]
  have htake : (make thread tag).take 2 = Bytes.bigEndian 2 thread.toNat := by
    rw [make, List.take_append_of_le_length (by simp), List.take_of_length_le (by simp)]
  rw [thread?, if_pos hlength, htake, Bytes.toNumber_bigEndian_of_lt (UInt16.toNat_lt thread),
    UInt16.ofNat_toNat]

theorem make_ne_nil (thread : UInt16) (tag : UInt32) : make thread tag ≠ [] := by
  intro h
  have := congrArg List.length h
  simp [make] at this

end PitToken

/-- The queues of a thread after it was offered a parcel. -/
def ThreadQueues.offered (q : ThreadQueues) (p : Parcel) : ThreadQueues :=
  (q.push p).toOption.getD q

namespace Dispatcher

variable {d : Dispatcher} {n : Name} {p : Parcel} {t : Nat}

/-! ## The threads of prefixes -/

theorem threadForName_lt (hd : 0 < d.size) (n : Name) : d.threadForName n < d.size := by
  unfold threadForName threadOf
  split
  · exact hd
  · exact Nat.mod_lt _ hd

theorem threadForName_take {k : Nat} (hk : 1 ≤ k) :
    d.threadForName (n.take k) = if n.isLocalhost then 0 else d.threadOf (n.take k).hash := by
  unfold threadForName
  rw [Name.isLocalhost_take hk]

/-- Sorting the hashes of one pass gives the threads of all nonempty prefixes. -/
theorem mem_threadsForPrefixes :
    t ∈ d.threadsForPrefixes n ↔ ∃ k, 1 ≤ k ∧ k ≤ n.length ∧ d.threadForName (n.take k) = t := by
  by_cases hlocal : n.isLocalhost
  · rw [threadsForPrefixes, if_pos hlocal, List.mem_singleton]
    constructor
    · rintro rfl
      exact ⟨1, Nat.le_refl 1, Name.length_pos_of_isLocalhost hlocal,
        by rw [threadForName_take (Nat.le_refl 1), if_pos hlocal]⟩
    · rintro ⟨k, hk, -, rfl⟩
      rw [threadForName_take hk, if_pos hlocal]
  · rw [threadsForPrefixes, if_neg hlocal, Repetition.mem_eraseReps, List.mem_mergeSort,
      List.mem_map]
    constructor
    · rintro ⟨h, hh, rfl⟩
      obtain ⟨k, hk, hle, rfl⟩ := Name.mem_prefixHashes_drop_one.mp hh
      exact ⟨k, hk, hle, by rw [threadForName_take hk, if_neg hlocal]⟩
    · rintro ⟨k, hk, hle, rfl⟩
      refine ⟨(n.take k).hash, Name.mem_prefixHashes_drop_one.mpr ⟨k, hk, hle, rfl⟩, ?_⟩
      rw [threadForName_take hk, if_neg hlocal]

theorem pairwise_threadsForPrefixes : (d.threadsForPrefixes n).Pairwise (· < ·) := by
  unfold threadsForPrefixes
  split
  · exact List.pairwise_singleton _ 0
  · exact Repetition.pairwise_lt_eraseReps (List.pairwise_mergeSort' (· ≤ ·) _)

/-! ## What an offer does -/

theorem threads_offer (d : Dispatcher) (p : Parcel) (t : Nat) :
    (d.offer p t).threads = d.threads.modify t fun q => q.offered p := by
  rw [List.modify_eq_set_getElem?]
  unfold offer queue
  cases hq : d.threads[t]? with
  | none => rfl
  | some q =>
      dsimp only
      cases hpush : q.push p with
      | ok q' =>
          have hoffered : q.offered p = q' := by rw [ThreadQueues.offered, hpush]; rfl
          exact congrArg (d.threads.set t) hoffered.symm
      | error e =>
          -- A full queue refuses the parcel, and setting the queue to itself changes nothing.
          have hoffered : q.offered p = q := by rw [ThreadQueues.offered, hpush]; rfl
          obtain ⟨hlt, rfl⟩ := List.getElem?_eq_some_iff.mp hq
          have hsame : d.threads.set t (d.threads[t].offered p) = d.threads := by
            rw [hoffered, List.set_getElem_self]
          exact hsame.symm

theorem getElem?_foldl_offer (d : Dispatcher) (p : Parcel) {targets : List Nat}
    (hnodup : targets.Nodup) (t : Nat) :
    (targets.foldl (fun d thread => d.offer p thread) d).threads[t]?
      = if t ∈ targets then d.threads[t]?.map fun q => q.offered p else d.threads[t]? := by
  induction targets generalizing d with
  | nil => rfl
  | cons target targets ih =>
      obtain ⟨hnot, hrest⟩ := List.nodup_cons.mp hnodup
      rw [List.foldl_cons, ih _ hrest, threads_offer, List.getElem?_modify]
      by_cases htarget : target = t
      · subst htarget
        simp [hnot]
      · simp [htarget, Ne.symm htarget]

theorem nodup_targets (d : Dispatcher) (p : Parcel) (scope : Scope) :
    (d.targets p scope).Nodup := by
  unfold targets
  cases p.packet with
  | interest i => exact List.nodup_singleton _
  | data data =>
      dsimp only
      split
      · split
        · exact pairwise_threadsForPrefixes.imp Nat.ne_of_lt
        · exact List.nodup_singleton _
      · unfold threadsForToken
        split
        · split
          · exact List.nodup_singleton _
          · exact List.nodup_nil
        · exact List.nodup_nil

/-- Each of the targets is offered the parcel once, and no other thread is. -/
theorem getElem?_dispatch (d : Dispatcher) (p : Parcel) (scope : Scope) (t : Nat) :
    (d.dispatch p scope).threads[t]?
      = if t ∈ d.targets p scope then d.threads[t]?.map fun q => q.offered p
        else d.threads[t]? :=
  getElem?_foldl_offer d p (nodup_targets d p scope) t

/-! ## Data and its Interest -/

theorem targets_interest {i : Interest} (hp : p.packet = .interest i) (scope : Scope) :
    d.targets p scope = [d.threadForName i.name] := by
  rw [targets, hp]

theorem targets_data_local {data : Data} (hp : p.packet = .data data)
    (htoken : p.pitToken.getD [] = []) :
    d.targets p .isLocal = d.threadsForPrefixes data.name := by
  simp [targets, hp, htoken]

theorem targets_data_remote {data : Data} {scope : Scope} (hp : p.packet = .data data)
    (htoken : p.pitToken.getD [] = []) (hscope : scope ≠ .isLocal) :
    d.targets p scope = [d.threadForName data.name] := by
  simp [targets, hp, htoken, hscope]

theorem targets_data_token {data : Data} {thread : UInt16} {tag : UInt32} (scope : Scope)
    (hp : p.packet = .data data) (htoken : p.pitToken = some (PitToken.make thread tag))
    (hthread : thread.toNat < d.size) : d.targets p scope = [thread.toNat] := by
  have hne := PitToken.make_ne_nil thread tag
  have htargets : d.targets p scope = d.threadsForToken (PitToken.make thread tag) := by
    rw [targets, hp, htoken, Option.getD_some]
    dsimp only
    split
    · contradiction
    · rfl
  rw [htargets, threadsForToken, PitToken.thread?_make]
  exact if_pos hthread

/-- The threads of the prefixes of a name are those of the Interests that it can answer. An Interest
is offered to one thread. Data without a token from a local face is therefore offered to the thread
that an Interest for a prefix went to, Data for the very name of the Interest from any other face to
that thread alone, and Data with a token of that thread to no other. -/
theorem targets_meet_interest (hd : 0 < d.size) (name : Name) :
    (d.threadsForPrefixes name).Pairwise (· < ·)
      ∧ (∀ t ∈ d.threadsForPrefixes name, t < d.size)
      ∧ (∀ t, t ∈ d.threadsForPrefixes name
          ↔ ∃ k, 1 ≤ k ∧ k ≤ name.length ∧ d.threadForName (name.take k) = t)
      ∧ ∀ (q : Parcel) (i : Interest) (p : Parcel) (data : Data),
        q.packet = .interest i → p.packet = .data data → data.name = name →
          (∀ scope, d.targets q scope = [d.threadForName i.name]
            ∧ ∀ t, (d.dispatch q scope).threads[t]?
              = if t = d.threadForName i.name then d.threads[t]?.map fun queues => queues.offered q
                else d.threads[t]?)
          ∧ (p.pitToken.getD [] = [] → i.name ≠ .empty → i.name.isPrefixOf name = true →
              d.threadForName i.name ∈ d.targets p .isLocal ∧ (d.targets p .isLocal).Nodup)
          ∧ (p.pitToken.getD [] = [] → i.name = name → ∀ scope, scope ≠ .isLocal →
              d.targets p scope = [d.threadForName i.name])
          ∧ (∀ tag scope, d.size ≤ 65536 →
              p.pitToken = some (PitToken.make (UInt16.ofNat (d.threadForName i.name)) tag) →
              d.targets p scope = [d.threadForName i.name])
          ∧ ∀ scope t, (d.dispatch p scope).threads[t]?
              = if t ∈ d.targets p scope then d.threads[t]?.map fun queues => queues.offered p
                else d.threads[t]? := by
  refine ⟨pairwise_threadsForPrefixes, ?_, fun t => mem_threadsForPrefixes, ?_⟩
  · intro t ht
    obtain ⟨k, -, -, rfl⟩ := mem_threadsForPrefixes.mp ht
    exact threadForName_lt hd _
  rintro q i p data hq hp rfl
  refine ⟨fun scope => ⟨targets_interest hq scope, fun t => ?_⟩,
    fun htoken hne hprefix => ⟨?_, nodup_targets d p _⟩, ?_, ?_, getElem?_dispatch d p⟩
  · rw [getElem?_dispatch, targets_interest hq]
    simp only [List.mem_singleton]
  · obtain ⟨hle, htake⟩ := Name.eq_take_of_isPrefixOf hprefix
    have hpos : 1 ≤ i.name.length := Name.length_pos_of_ne_empty hne
    rw [targets_data_local hp htoken]
    exact mem_threadsForPrefixes.mpr ⟨i.name.length, hpos, hle, by rw [← htake]⟩
  · intro htoken hname scope hscope
    rw [targets_data_remote hp htoken hscope, hname]
  · intro tag scope hsize htoken
    have hlt := threadForName_lt hd i.name
    have hthread : (UInt16.ofNat (d.threadForName i.name)).toNat = d.threadForName i.name :=
      UInt16.toNat_ofNat_of_lt' (Nat.lt_of_lt_of_le hlt hsize)
    rw [targets_data_token scope hp htoken (hthread.symm ▸ hlt), hthread]

/-- An Interest for a prefix, the Data that answers it, and the Data with the Interest's token. -/
theorem targets_meet_interest_of_prefix :
    let d := create 8 16
    let i : Interest := { name := ⟨[.generic [97]]⟩ }
    let data : Data := { name := ⟨[.generic [97], .generic [98], .generic [99], .generic [100]]⟩ }
    let q := Parcel.ofPacket (.interest i)
    let p := Parcel.ofPacket (.data data)
    0 < d.size ∧ i.name.isPrefixOf data.name = true
      ∧ d.targets q .nonLocal = [5]
      ∧ (d.dispatch q .nonLocal).threads[5]? = some ((ThreadQueues.empty 16).offered q)
      ∧ (d.dispatch q .nonLocal).threads[4]? = some (.empty 16)
      ∧ 5 ∈ d.targets p .isLocal ∧ (d.targets p .isLocal).Nodup
      ∧ d.targets { p with pitToken := some (PitToken.make 5 77) } .nonLocal = [5] := by
  intro d i data q p
  have hd : 0 < d.size := by decide
  have hprefix : i.name.isPrefixOf data.name = true := by decide
  have hthread : d.threadForName i.name = 5 := by decide +kernel
  obtain ⟨-, -, -, hmeet⟩ := targets_meet_interest hd data.name
  obtain ⟨hinterest, hlocal, -, -, -⟩ := hmeet q i p data rfl rfl rfl
  obtain ⟨-, -, -, htoken, -⟩ := hmeet q i { p with pitToken := some (PitToken.make 5 77) } data
    rfl rfl rfl
  obtain ⟨htargets, hoffered⟩ := hinterest .nonLocal
  obtain ⟨hmem, hnodup⟩ := hlocal rfl (by decide) hprefix
  have htoken := htoken 77 .nonLocal (by decide) (by rw [hthread]; rfl)
  rw [hthread] at htargets hmem htoken hoffered
  exact ⟨hd, hprefix, htargets, hoffered 5, hoffered 4, hmem, hnodup, htoken⟩

end Dispatcher

end NamedData
