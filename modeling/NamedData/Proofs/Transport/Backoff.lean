import Mathlib
import NamedData.Transport.Backoff

/-!
# The waits between redials

Doubling up to a limit has a closed form, in which neither the carry into the seconds nor the
largest span leaves a trace.
-/

namespace NamedData

namespace Duration

variable {d e : Duration}

theorem eq_of_nanos_eq (h : d.nanos = e.nanos) : d = e := by
  cases d
  cases e
  cases h
  rfl

theorem nanos_saturating (n : Nat) : (saturating n).nanos = min n maxNanos := rfl

theorem nanos_double (d : Duration) : d.double.nanos = min (2 * d.nanos) maxNanos := rfl

theorem nanos_atMost (d limit : Duration) : (d.atMost limit).nanos = min d.nanos limit.nanos := by
  unfold atMost
  split
  · rename_i h
    exact (Nat.min_eq_right (Nat.le_of_lt h)).symm
  · rename_i h
    exact (Nat.min_eq_left (Nat.le_of_not_lt h)).symm

/-! ## Seconds and nanoseconds beyond them -/

theorem nanos_of_parts (d : Duration) : d.secs * 1000000000 + d.subsecNanos = d.nanos :=
  Nat.div_add_mod' d.nanos 1000000000

theorem subsecNanos_lt (d : Duration) : d.subsecNanos < 1000000000 :=
  Nat.mod_lt _ (by decide)

/-- Whether a span is shorter, by its whole seconds first and then by the nanoseconds beyond. -/
def ShorterByParts (d e : Duration) : Prop :=
  d.secs < e.secs ∨ d.secs = e.secs ∧ d.subsecNanos < e.subsecNanos

instance : DecidableRel ShorterByParts :=
  fun d e => inferInstanceAs (Decidable (d.secs < e.secs ∨ d.secs = e.secs ∧ _))

theorem shorterByParts_iff : d.ShorterByParts e ↔ d.nanos < e.nanos := by
  have hd := d.nanos_of_parts
  have he := e.nanos_of_parts
  have hd' := d.subsecNanos_lt
  have he' := e.subsecNanos_lt
  unfold ShorterByParts
  omega

/-- Twice a span, by parts: the nanoseconds carry into the seconds, and it is the largest span if
64 bits do not hold the seconds. -/
def doubleByParts (d : Duration) : Duration :=
  let beyond := 2 * d.subsecNanos
  let secs := 2 * d.secs + beyond / 1000000000
  if secs < 2 ^ 64 then ofSecsNanos secs (beyond % 1000000000) else largest

theorem doubleByParts_eq (d : Duration) : d.doubleByParts = d.double := by
  have hparts := d.nanos_of_parts
  have hdouble : (2 * d.secs + 2 * d.subsecNanos / 1000000000) * 1000000000
      + 2 * d.subsecNanos % 1000000000 = 2 * d.nanos := by
    rw [Nat.add_mul, Nat.add_assoc, Nat.div_add_mod', Nat.mul_assoc, ← Nat.mul_add, hparts]
  apply eq_of_nanos_eq
  rw [nanos_double]
  by_cases hfits : 2 * d.secs + 2 * d.subsecNanos / 1000000000 < 2 ^ 64
  · rw [doubleByParts, if_pos hfits, ofSecsNanos, nanos_saturating, hdouble]
  · have hle : maxNanos ≤ 2 * d.nanos := by
      rw [maxNanos]
      omega
    rw [doubleByParts, if_neg hfits, Nat.min_eq_right hle]
    exact Nat.min_self maxNanos

end Duration

namespace Backoff

variable {limit start : Duration} {k m : Nat}

def nextByParts (limit current : Duration) : Duration :=
  if limit.ShorterByParts current.doubleByParts then limit else current.doubleByParts

theorem nextByParts_eq (limit current : Duration) :
    nextByParts limit current = next limit current := by
  simp only [nextByParts, next, Duration.doubleByParts_eq, Duration.shorterByParts_iff,
    Duration.atMost]

theorem nanos_next (limit current : Duration) :
    (next limit current).nanos = min (2 * current.nanos) limit.nanos := by
  -- The limit is not above the largest span, so the largest span never counts.
  rw [next, Duration.nanos_atMost, Duration.nanos_double, Nat.min_assoc,
    Nat.min_eq_right limit.le_max]

theorem next_limit (limit : Duration) : next limit limit = limit := by
  apply Duration.eq_of_nanos_eq
  rw [nanos_next]
  omega

theorem nanos_iterate_next (limit start : Duration) (hk : 1 ≤ k) :
    ((next limit)^[k] start).nanos = min (2 ^ k * start.nanos) limit.nanos := by
  induction k, hk using Nat.le_induction with
  | base => exact nanos_next limit start
  | succ k hk ih =>
      -- What was cut off at the limit is still at the limit once it is doubled.
      rw [Function.iterate_succ_apply', nanos_next, ih, Nat.pow_succ]
      have hpow : 2 ^ k * 2 * start.nanos = 2 * (2 ^ k * start.nanos) := by
        rw [Nat.mul_comm (2 ^ k) 2, Nat.mul_assoc]
      omega

theorem nanos_le_next (h : start.nanos ≤ limit.nanos) :
    start.nanos ≤ (next limit start).nanos := by
  rw [nanos_next]
  omega

theorem nanos_iterate_next_le (h : start.nanos ≤ limit.nanos) (k : Nat) :
    ((next limit)^[k] start).nanos ≤ limit.nanos := by
  cases k with
  | zero => exact h
  | succ k =>
      rw [nanos_iterate_next limit start (Nat.succ_pos k)]
      exact Nat.min_le_right _ _

theorem monotone_nanos_iterate_next (h : start.nanos ≤ limit.nanos) :
    Monotone fun k => ((next limit)^[k] start).nanos := by
  apply monotone_nat_of_le_succ
  intro k
  rw [Function.iterate_succ_apply']
  exact nanos_le_next (nanos_iterate_next_le h k)

theorem iterate_next_of_reached (h : (next limit)^[k] start = limit) (hk : k ≤ m) :
    (next limit)^[m] start = limit := by
  obtain ⟨more, rfl⟩ := Nat.exists_eq_add_of_le' hk
  rw [Function.iterate_add_apply, h]
  exact Function.iterate_fixed (next_limit limit) more

/-- After one redial and more, the wait is the first one doubled as often, up to the limit, to the
nanosecond and however far the double lies beyond the largest span. So none of these waits is longer
than the limit, none is shorter than the one before it if the first is not longer than the limit,
and the limit is kept once it is reached. Seconds and nanoseconds that are doubled apart come to the
same. -/
theorem waits_double_up_to_limit (limit start : Duration) :
    nextByParts limit = next limit
      ∧ (∀ k, 1 ≤ k → ((next limit)^[k] start).nanos = min (2 ^ k * start.nanos) limit.nanos)
      ∧ (∀ k, 1 ≤ k → ((next limit)^[k] start).nanos ≤ limit.nanos)
      ∧ (start.nanos ≤ limit.nanos → Monotone fun k => ((next limit)^[k] start).nanos)
      ∧ ∀ k m, (next limit)^[k] start = limit → k ≤ m → (next limit)^[m] start = limit := by
  refine ⟨funext (nextByParts_eq limit), fun k hk => nanos_iterate_next limit start hk, ?_,
    monotone_nanos_iterate_next, fun k m => iterate_next_of_reached⟩
  intro k hk
  rw [nanos_iterate_next limit start hk]
  exact Nat.min_le_right _ _

/-- The first double carries into the last second that 64 bits count; the second is cut off at the
largest span. -/
theorem waits_double_up_to_limit_past_largest :
    let start := Duration.ofSecsNanos 0x7FFFFFFFFFFFFFFF 999999999
    let limit := Duration.largest
    (next limit start).nanos = 2 * start.nanos
      ∧ ((next limit)^[3] start).nanos = min (2 ^ 3 * start.nanos) limit.nanos
      ∧ start.nanos ≤ ((next limit)^[2] start).nanos
      ∧ (next limit)^[2] start = limit ∧ (next limit)^[5] start = limit := by
  intro start limit
  obtain ⟨-, hclosed, -, hmono, hkept⟩ := waits_double_up_to_limit limit start
  have hreached : (next limit)^[2] start = limit := by decide
  exact ⟨by decide, hclosed 3 (by decide), hmono (by decide) (Nat.zero_le 2), hreached,
    hkept 2 5 hreached (by decide)⟩

end Backoff

end NamedData
