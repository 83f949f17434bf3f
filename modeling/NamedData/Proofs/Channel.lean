import NamedData.Channel

/-!
# What waits in a channel

What sending and receiving leave in a channel of which both ends are there.
-/

namespace NamedData.Channel

variable {α : Type} {ch : Channel α} {a : α} {as : List α}

/-- A channel in which other items wait. -/
def withItems (ch : Channel α) (items : List α) : Channel α :=
  { ch with items }

@[simp] theorem items_withItems : (ch.withItems as).items = as := rfl

@[simp] theorem capacity_withItems : (ch.withItems as).capacity = ch.capacity := rfl

/-- Somebody receives, and one more item may wait. -/
def HasRoom (ch : Channel α) : Prop :=
  ch.hasReceiver = true ∧ ch.items.length < ch.capacity

instance (ch : Channel α) : Decidable ch.HasRoom :=
  inferInstanceAs (Decidable (_ ∧ _))

theorem send_of_room (hreads : ch.hasReceiver = true) (hroom : ch.items.length < ch.capacity)
    (a : α) : ch.send a = .ok (ch.withItems (ch.items ++ [a])) := by
  rw [send, if_neg (by simp [hreads]), if_neg (by omega)]
  rfl

theorem send_of_no_room (h : ¬ ch.HasRoom) (a : α) : ∃ e, ch.send a = .error e := by
  unfold send
  split
  · exact ⟨_, rfl⟩
  · rename_i hreads
    split
    · exact ⟨_, rfl⟩
    · rename_i hfull
      exact absurd ⟨by simpa using hreads, Nat.not_le.mp hfull⟩ h

theorem send_eq_ok {ch' : Channel α} (h : ch.send a = .ok ch') :
    ch.HasRoom ∧ ch' = ch.withItems (ch.items ++ [a]) := by
  by_cases hroom : ch.HasRoom
  · rw [send_of_room hroom.1 hroom.2] at h
    cases h
    exact ⟨hroom, rfl⟩
  · obtain ⟨e, he⟩ := send_of_no_room hroom a
    rw [he] at h
    cases h

theorem receive_of_cons (h : ch.items = a :: as) : ch.receive = (.item a, ch.withItems as) := by
  unfold receive
  rw [h]
  rfl

theorem receive_of_nil (h : ch.items = []) :
    ch.receive = (if ch.hasSender then .pending else .closed, ch) := by
  unfold receive
  rw [h]

end NamedData.Channel
