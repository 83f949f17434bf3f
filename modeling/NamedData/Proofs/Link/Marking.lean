import Mathlib.Data.List.Induction
import NamedData.Link.Congestion

/-!
# When marks are made

A marker is asked many times. All that it knows is when it made its last mark, so its answer to a
congested query depends on the time since then, and a query that it turns down leaves nothing in it.
-/

namespace NamedData.CongestionMarker

/-- What a marker is asked. -/
structure Query where
  occupancy : UInt64
  threshold : UInt64
  interval : Duration
  now : Instant

def ask (m : CongestionMarker) (q : Query) : Bool × CongestionMarker :=
  m.consult q.occupancy q.threshold q.interval q.now

def after (m : CongestionMarker) (qs : List Query) : CongestionMarker :=
  qs.foldl (fun m q => (m.ask q).2) m

/-- The answers to queries that come one after the other. -/
def answers (m : CongestionMarker) : List Query → List Bool
  | [] => []
  | q :: rest => (m.ask q).1 :: (m.ask q).2.answers rest

/-- The queries that bring a mark. -/
def marked (m : CongestionMarker) (qs : List Query) : List Query :=
  ((qs.zip (m.answers qs)).filter (·.2)).map (·.1)

/-- When the last mark was made, in some queries or before them. -/
def latest? (m : CongestionMarker) (qs : List Query) : Option Instant :=
  ((m.marked qs).getLast?.map (·.now)).or m.lastMark

variable {m : CongestionMarker} {q : Query} {qs : List Query}

/-! ## One query -/

theorem marks_iff {occupancy threshold : UInt64} {interval : Duration} {now : Instant} :
    m.marks occupancy threshold interval now = true
      ↔ threshold < occupancy
        ∧ ∀ last, m.lastMark = some last → interval.nanos ≤ now - last := by
  cases h : m.lastMark <;> simp [marks, h]

theorem ask_fst : (m.ask q).1 = m.marks q.occupancy q.threshold q.interval q.now := by
  unfold ask consult
  split
  · rename_i h
    exact h.symm
  · rename_i h
    exact (Bool.eq_false_iff.mpr h).symm

theorem ask_snd : (m.ask q).2 = if (m.ask q).1 then ⟨some q.now⟩ else m := by
  unfold ask consult
  split <;> rfl

/-! ## Many queries -/

theorem after_append (m : CongestionMarker) (qs rs : List Query) :
    m.after (qs ++ rs) = (m.after qs).after rs :=
  List.foldl_append

theorem after_concat (m : CongestionMarker) (qs : List Query) (q : Query) :
    m.after (qs ++ [q]) = ((m.after qs).ask q).2 :=
  after_append m qs [q]

@[simp] theorem length_answers (m : CongestionMarker) (qs : List Query) :
    (m.answers qs).length = qs.length := by
  induction qs generalizing m with
  | nil => rfl
  | cons q rest ih => rw [answers, List.length_cons, List.length_cons, ih]

theorem answers_append (m : CongestionMarker) (qs rs : List Query) :
    m.answers (qs ++ rs) = m.answers qs ++ (m.after qs).answers rs := by
  induction qs generalizing m with
  | nil => rfl
  | cons q rest ih => simp only [List.cons_append, answers, ih, after, List.foldl_cons]

theorem marked_concat (m : CongestionMarker) (qs : List Query) (q : Query) :
    m.marked (qs ++ [q]) = m.marked qs ++ if ((m.after qs).ask q).1 then [q] else [] := by
  unfold marked
  rw [answers_append, List.zip_append (length_answers m qs).symm, List.filter_append,
    List.map_append]
  cases h : ((m.after qs).ask q).1 <;> simp [answers, h]

theorem lastMark_after (m : CongestionMarker) (qs : List Query) :
    (m.after qs).lastMark = m.latest? qs := by
  unfold latest?
  induction qs using List.reverseRecOn with
  | nil => rfl
  | append_singleton qs q ih =>
      rw [after_concat, ask_snd, marked_concat]
      cases ((m.after qs).ask q).1 with
      | false => simpa using ih
      | true => simp

theorem ask_after_iff (m : CongestionMarker) (qs : List Query) (q : Query) :
    ((m.after qs).ask q).1 = true
      ↔ q.threshold < q.occupancy
        ∧ ∀ last, m.latest? qs = some last → q.interval.nanos ≤ q.now - last := by
  rw [ask_fst, marks_iff, lastMark_after]

/-- With one interval for all queries, each mark comes an interval after those before it. -/
theorem pairwise_marked (m : CongestionMarker) {interval : Duration}
    (hpositive : 0 < interval.nanos) (hinterval : ∀ q ∈ qs, q.interval = interval) :
    (m.marked qs).Pairwise fun p q => p.now < q.now ∧ interval.nanos ≤ q.now - p.now := by
  induction qs using List.reverseRecOn with
  | nil => exact .nil
  | append_singleton qs q ih =>
      have hqs := ih fun p hp => hinterval p (List.mem_append_left _ hp)
      have hq : q.interval = interval := hinterval q (by simp)
      rw [marked_concat]
      split
      · rename_i hmark
        have hlast := ((ask_after_iff m qs q).mp hmark).2
        rw [latest?, hq] at hlast
        rcases List.eq_nil_or_concat (m.marked qs) with hnone | ⟨front, p, hmarked⟩
        · rw [hnone]
          exact List.pairwise_singleton _ q
        · rw [List.concat_eq_append] at hmarked
          rw [hmarked] at hqs hlast ⊢
          have hapart : interval.nanos ≤ q.now - p.now := hlast p.now (by simp)
          refine List.pairwise_append.mpr ⟨hqs, List.pairwise_singleton _ q, fun r hr s hs => ?_⟩
          obtain rfl := List.mem_singleton.mp hs
          have hgap : interval.nanos ≤ s.now - r.now := by
            -- The last mark is later than all before it, so it is enough to be apart from that one.
            rcases List.mem_append.mp hr with hfront | hr
            · have hbefore := ((List.pairwise_append.mp hqs).2.2 r hfront p (by simp)).2
              omega
            · obtain rfl := List.mem_singleton.mp hr
              exact hapart
          exact ⟨Nat.lt_of_sub_pos (Nat.lt_of_lt_of_le hpositive hgap), hgap⟩
      · rw [List.append_nil]
        exact hqs

/-- A query brings a mark if and only if it is congested and no mark was made before it or the
interval has passed since the last one. A query that brings none could as well have been left out.
With one positive interval for all queries the times of the marks increase, and any two are at least
the interval apart. -/
theorem marks_limited_not_starved (m : CongestionMarker) :
    (∀ before q later, ∃ mark rest,
      m.answers (before ++ q :: later) = m.answers before ++ mark :: rest
        ∧ (mark = true ↔ q.threshold < q.occupancy
          ∧ ∀ last, m.latest? before = some last → q.interval.nanos ≤ q.now - last)
        ∧ (mark = false → m.answers (before ++ later) = m.answers before ++ rest))
      ∧ ∀ (interval : Duration) (qs : List Query), 0 < interval.nanos →
        (∀ q ∈ qs, q.interval = interval) →
          (m.marked qs).Pairwise fun p q => p.now < q.now ∧ interval.nanos ≤ q.now - p.now := by
  refine ⟨fun before q later => ?_, fun interval qs => m.pairwise_marked⟩
  refine ⟨((m.after before).ask q).1, ((m.after before).ask q).2.answers later, ?_,
    ask_after_iff m before q, fun hnone => ?_⟩
  · rw [answers_append, answers]
  · rw [answers_append, ask_snd, hnone]
    rfl

/-- Of four queries the first is not congested, and the third comes too soon after the second. -/
theorem four_queries_bring_two_marks :
    let ask (occupancy : UInt64) (ms : Nat) : Query :=
      ⟨occupancy, 1000, .ofMillis 100, ms * 1000000⟩
    let qs := [ask 100 0, ask 2000 0, ask 2000 50, ask 2000 100]
    0 < (Duration.ofMillis 100).nanos ∧ (∀ q ∈ qs, q.interval = .ofMillis 100)
      ∧ answers {} qs = [false, true, false, true]
      ∧ (marked {} qs).Pairwise fun p q =>
        p.now < q.now ∧ (Duration.ofMillis 100).nanos ≤ q.now - p.now := by
  intro ask qs
  have hinterval : ∀ q ∈ qs, q.interval = .ofMillis 100 := by simp [qs, ask]
  obtain ⟨-, hpairwise⟩ := marks_limited_not_starved {}
  exact ⟨by decide, hinterval, by decide +kernel, hpairwise _ qs (by decide) hinterval⟩

end NamedData.CongestionMarker
