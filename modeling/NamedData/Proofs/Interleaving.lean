import Mathlib

/-!
# Parties that take turns

Several parties work on what they share, each in steps of its own, and a schedule says whose step
comes next. What a step keeps for the party that takes it, and for every other, holds after all
schedules.
-/

namespace NamedData

/-- What some parties share, and how far each of them has come. -/
structure Joint (ι σ π : Type) where
  shared : σ
  parties : ι → π

namespace Joint

variable {ι σ π : Type} [DecidableEq ι] {step : σ → π → σ × π} {w : Joint ι σ π}

/-- One party takes its next step. -/
def turn (step : σ → π → σ × π) (w : Joint ι σ π) (i : ι) : Joint ι σ π where
  shared := (step w.shared (w.parties i)).1
  parties := Function.update w.parties i (step w.shared (w.parties i)).2

def run (step : σ → π → σ × π) (w : Joint ι σ π) (schedule : List ι) : Joint ι σ π :=
  schedule.foldl (turn step) w

theorem parties_turn_self (w : Joint ι σ π) (i : ι) :
    (w.turn step i).parties i = (step w.shared (w.parties i)).2 :=
  Function.update_self ..

theorem parties_turn_of_ne (w : Joint ι σ π) {i j : ι} (h : j ≠ i) :
    (w.turn step i).parties j = w.parties j :=
  Function.update_of_ne h ..

theorem run_induction {P : Joint ι σ π → Prop} (hturn : ∀ w i, P w → P (w.turn step i)) (h : P w)
    (schedule : List ι) : P (w.run step schedule) := by
  unfold run
  induction schedule generalizing w with
  | nil => exact h
  | cons i rest ih => exact ih (hturn w i h)

/-! ## What every step keeps -/

/-- A condition on what is shared, one on each party, and one on any two of them. -/
structure Sound (P : σ → Prop) (Q : σ → π → Prop) (R : π → π → Prop) (w : Joint ι σ π) : Prop where
  shared : P w.shared
  parties : ∀ i, Q w.shared (w.parties i)
  apart : ∀ i j, i ≠ j → R (w.parties i) (w.parties j)

/-- A step keeps the conditions if it keeps them for the party that takes it, and for any other that
stands apart from it. -/
theorem Sound.turn {P : σ → Prop} {Q : σ → π → Prop} {R : π → π → Prop} (h : Sound P Q R w)
    (hsymm : ∀ p q, R p q → R q p)
    (hown : ∀ s p, P s → Q s p → P (step s p).1 ∧ Q (step s p).1 (step s p).2)
    (hother : ∀ s p q, P s → Q s p → Q s q → R p q → Q (step s p).1 q ∧ R (step s p).2 q) (i : ι) :
    Sound P Q R (w.turn step i) := by
  obtain ⟨hshared, hparty⟩ := hown _ _ h.shared (h.parties i)
  have hothers (j : ι) (hj : j ≠ i) :=
    hother _ _ _ h.shared (h.parties i) (h.parties j) (h.apart i j hj.symm)
  refine ⟨hshared, fun j => ?_, fun j k hjk => ?_⟩
  · by_cases hj : j = i
    · subst hj
      rw [parties_turn_self]
      exact hparty
    · rw [parties_turn_of_ne w hj]
      exact (hothers j hj).1
  · by_cases hj : j = i
    · subst hj
      rw [parties_turn_self, parties_turn_of_ne w hjk.symm]
      exact (hothers k hjk.symm).2
    · rw [parties_turn_of_ne w hj]
      by_cases hk : k = i
      · subst hk
        rw [parties_turn_self]
        exact hsymm _ _ (hothers j hj).2
      · rw [parties_turn_of_ne w hk]
        exact h.apart j k hjk

/-- A step changes a sum over all parties by what it changes for the party that takes it. -/
theorem sum_turn [Fintype ι] {M : Type} [AddCommMonoid M] (weight : π → M) (w : Joint ι σ π)
    (i : ι) :
    ∑ j, weight ((w.turn step i).parties j) + weight (w.parties i)
      = ∑ j, weight (w.parties j) + weight (step w.shared (w.parties i)).2 := by
  have hrest : ∑ j ∈ Finset.univ.erase i, weight ((w.turn step i).parties j)
      = ∑ j ∈ Finset.univ.erase i, weight (w.parties j) :=
    Finset.sum_congr rfl fun j hj => by rw [parties_turn_of_ne w (Finset.ne_of_mem_erase hj)]
  rw [← Finset.add_sum_erase _ _ (Finset.mem_univ i), ← Finset.add_sum_erase _ (fun j =>
    weight (w.parties j)) (Finset.mem_univ i), hrest, parties_turn_self]
  abel

end Joint

end NamedData
