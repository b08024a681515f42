import AgentEngine.Lib.Transitions
import Mathlib.Data.Nat.Count
import Mathlib.Data.Nat.ModEq

/-!
Tickets that are spread over a ring of slots: the ticket `t` goes to the slot `t % n`.

* `sum_tickets`: every ticket goes to one slot.
* `tickets_add_ring`: a whole round of tickets gives each slot one more.
* `exists_slot`: if fewer tickets than `A` and than `B` are used up, in whatever order, then some
  slot has an unused one among the first `A` and one among the first `B`. This is why it does no
  harm that those who hand out and those who collect draw from two counters.
-/

namespace AgentEngine.Lib

open Finset

/-- How many of the tickets 1, ..., `drawn` are for a slot. -/
def tickets (n drawn slot : Nat) : Nat := Nat.count (fun t => (t + 1) % n = slot) drawn

variable {n : Nat}

theorem tickets_zero (slot : Nat) : tickets n 0 slot = 0 := Nat.count_zero _

theorem tickets_succ (drawn slot : Nat) : tickets n (drawn + 1) slot =
    tickets n drawn slot + if (drawn + 1) % n = slot then 1 else 0 := Nat.count_succ _ _

theorem tickets_mono {drawn drawn' : Nat} (le : drawn ≤ drawn') (slot : Nat) :
    tickets n drawn slot ≤ tickets n drawn' slot := Nat.count_monotone _ le

/-- A ticket goes to one slot. -/
theorem sum_slots (pos : 0 < n) (t : Nat) : ∑ slot : Fin n, (if t % n = slot then 1 else 0) = 1 := by
  have slot : ∀ s : Fin n, (t % n = s) = ((⟨t % n, Nat.mod_lt _ pos⟩ : Fin n) = s) := fun s => by
    rw [Fin.ext_iff]
  simp only [slot, sum_ite_eq, mem_univ, if_true]

/-- Every ticket goes to one slot. -/
theorem sum_tickets (pos : 0 < n) (drawn : Nat) : ∑ slot : Fin n, tickets n drawn slot = drawn := by
  induction drawn with
  | zero => simp only [tickets_zero, sum_const_zero]
  | succ drawn ih =>
    simp only [tickets_succ, sum_add_distrib, ih, sum_slots pos]

/-- A whole round gives each slot one more. -/
theorem tickets_add_ring {slot : Nat} (inRing : slot < n) (drawn : Nat) :
    tickets n (drawn + n) slot = tickets n drawn slot + 1 := by
  have pos : 0 < n := Nat.lt_of_le_of_lt (Nat.zero_le _) inRing
  induction drawn with
  | zero =>
    -- one ticket each adds up to `n`, and no slot can get two from fewer than two rounds
    have atMost : ∀ s : Fin n, tickets n n s ≤ 1 := by
      intro s
      unfold tickets
      rw [Nat.count_eq_card_filter_range]
      apply card_le_one.mpr
      intro a ha b hb
      obtain ⟨aLt, aSlot⟩ := mem_filter.mp ha
      obtain ⟨bLt, bSlot⟩ := mem_filter.mp hb
      have same : a + 1 ≡ b + 1 [MOD n] := aSlot.trans bSlot.symm
      have same' : a ≡ b [MOD n] := Nat.ModEq.add_right_cancel' 1 same
      exact same'.eq_of_lt_of_lt (mem_range.mp aLt) (mem_range.mp bLt)
    have total := sum_tickets pos n
    have all := (sum_eq_sum_iff_of_le (s := univ) (f := fun s : Fin n => tickets n n s)
      (g := fun _ => 1) fun s _ => atMost s).mp (by simp [total])
    have here := all ⟨slot, inRing⟩ (mem_univ _)
    rw [tickets_zero, Nat.zero_add, Nat.zero_add]
    exact here
  | succ drawn ih =>
    have next : (drawn + n + 1) % n = (drawn + 1) % n := by
      rw [Nat.add_right_comm, Nat.add_mod_right]
    rw [Nat.add_right_comm, tickets_succ, tickets_succ, next, ih]
    omega

/-- If fewer tickets are used up than `A` and than `B`, then some slot has an unused one among the
first `A` and one among the first `B`. -/
theorem exists_slot (pos : 0 < n) {used : Fin n → Nat} {A B : Nat} (lt_A : ∑ s, used s < A)
    (lt_B : ∑ s, used s < B) : ∃ s, used s < tickets n A s ∧ used s < tickets n B s := by
  have lt_min : ∑ s, used s < ∑ s : Fin n, tickets n (min A B) s := by
    rw [sum_tickets pos]
    exact lt_min lt_A lt_B
  obtain ⟨s, -, unused⟩ := exists_lt_of_sum_lt lt_min
  exact ⟨s, unused.trans_le (tickets_mono (min_le_left A B) s),
    unused.trans_le (tickets_mono (min_le_right A B) s)⟩

end AgentEngine.Lib
