import AgentEngine.Anet.ChannelPool
import Mathlib.Data.Nat.ModEq

/-!
How long channel ids stay unique.

A plain packet carries only the low word of its channel id, so that replies are told apart by
it. Three low words are never given out; the others follow each other in a cycle, in which
`rank` numbers them. The first `2 ^ 32 - 3` ids therefore have different low words, whatever
the counter was at the start.
-/

namespace AgentEngine.Anet.ChannelPool

variable (counter : BitVec 64) (id : BitVec 64)

/-- The low word of a channel id. -/
def low : Nat := id.toNat % 2 ^ 32

/-- The low words that are skipped. -/
def Reserved (n : Nat) : Prop := n = 0x10000000 ∨ n = 0x10000001 ∨ n = 0

instance (n : Nat) : Decidable (Reserved n) := inferInstanceAs (Decidable (_ ∨ _ ∨ _))

/-- How many low words are given out. -/
def lowWords : Nat := 2 ^ 32 - 3

/-- The low word after `n`. -/
def nextLow (n : Nat) : Nat :=
  if n = 2 ^ 32 - 1 then 1
  else if n = 0x0FFFFFFF ∨ n = 0x10000000 then 0x10000002
  else n + 1

/-- The counter after one more id was given out. -/
def tick : BitVec 64 := (createChannelId 0 counter).2

theorem skipped_iff : skipped id = true ↔ Reserved (low id) := by
  have word : ((id.setWidth 32).setWidth 64).toNat = low id := by
    rw [BitVec.toNat_setWidth, BitVec.toNat_setWidth, low]
    exact Nat.mod_eq_of_lt (lt_of_lt_of_le (Nat.mod_lt _ (by decide)) (by decide))
  simp only [skipped, Bool.or_eq_true, beq_iff_eq, or_assoc, ← BitVec.toNat_inj, word]
  exact Iff.rfl

theorem low_and : low (id &&& AUTO_CHANNEL_ID_MAX) = low id := by
  have mask : AUTO_CHANNEL_ID_MAX.toNat = 2 ^ 60 - 1 := by decide
  rw [low, BitVec.toNat_and, mask, Nat.and_two_pow_sub_one_eq_mod]
  exact Nat.mod_mod_of_dvd _ (by decide)

theorem low_succ : low (counter + 1) = (low counter + 1) % 2 ^ 32 := by
  rw [low, low, BitVec.toNat_add, Nat.mod_mod_of_dvd _ (by decide), Nat.mod_add_mod]
  rfl

variable {n : Nat}

/-- The loop of `createChannelId` is over if the next low word is not reserved. -/
theorem nextChannelId_done {fuel : Nat} {counter : BitVec 64}
    (next : (low counter + 1) % 2 ^ 32 = n) (free : ¬ Reserved n) :
    low (nextChannelId (fuel + 1) counter).1 = n ∧ low (nextChannelId (fuel + 1) counter).2 = n := by
  have word : low (counter + 1) = n := (low_succ counter).trans next
  have found : ¬ skipped ((counter + 1) &&& AUTO_CHANNEL_ID_MAX) = true := by
    rw [skipped_iff, low_and, word]
    exact free
  simp only [nextChannelId, if_neg found, low_and]
  exact ⟨word, word⟩

/-- Otherwise it goes on. -/
theorem nextChannelId_skip (fuel : Nat) (counter : BitVec 64)
    (next : (low counter + 1) % 2 ^ 32 = n) (reserved : Reserved n) :
    nextChannelId (fuel + 1) counter = nextChannelId fuel (counter + 1) ∧
      low (counter + 1) = n := by
  have word : low (counter + 1) = n := (low_succ counter).trans next
  have skip : skipped ((counter + 1) &&& AUTO_CHANNEL_ID_MAX) = true := by
    rw [skipped_iff, low_and, word]
    exact reserved
  exact ⟨if_pos skip, word⟩

theorem createChannelId_low : low (createChannelId 0 counter).1 = nextLow (low counter) ∧
      low (tick counter) = nextLow (low counter) := by
  have auto : createChannelId 0 counter = nextChannelId 3 counter := if_pos (by decide)
  have small : low counter < 2 ^ 32 := Nat.mod_lt _ (by decide)
  rw [tick, auto, nextLow]
  split_ifs with last before
  · obtain ⟨skip, word⟩ := nextChannelId_skip (n := 0) 2 counter (by omega) (.inr (.inr rfl))
    rw [skip]
    exact nextChannelId_done (by omega) (by decide)
  · rcases before with before | before
    · obtain ⟨skip, word⟩ := nextChannelId_skip (n := 0x10000000) 2 counter (by omega) (.inl rfl)
      obtain ⟨skip', word'⟩ :=
        nextChannelId_skip (n := 0x10000001) 1 (counter + 1) (by omega) (.inr (.inl rfl))
      rw [skip, skip']
      exact nextChannelId_done (by omega) (by decide)
    · obtain ⟨skip, word⟩ :=
        nextChannelId_skip (n := 0x10000001) 2 counter (by omega) (.inr (.inl rfl))
      rw [skip]
      exact nextChannelId_done (by omega) (by decide)
  · exact nextChannelId_done (Nat.mod_eq_of_lt (by omega)) (by unfold Reserved; omega)

/-- The place of a low word in the cycle of those that are given out. -/
def rank (n : Nat) : Nat := if n < 0x10000000 then n - 1 else n - 3

theorem nextLow_free (small : n < 2 ^ 32) : ¬ Reserved (nextLow n) ∧ nextLow n < 2 ^ 32 := by
  unfold nextLow
  constructor
  · rintro (h | h | h) <;> split_ifs at h <;> omega
  · split_ifs <;> omega

theorem rank_nextLow (small : n < 2 ^ 32) (free : ¬ Reserved n) :
    rank (nextLow n) = (rank n + 1) % lowWords := by
  unfold Reserved at free
  simp only [not_or] at free
  unfold nextLow rank lowWords
  split_ifs <;> omega

theorem low_lt : low id < 2 ^ 32 := Nat.mod_lt _ (by decide)

theorem low_tick_free : ¬ Reserved (low (tick counter)) := by
  rw [(createChannelId_low counter).2]
  exact (nextLow_free (low_lt counter)).1

theorem rank_tick (n : Nat) :
    rank (low (tick^[n + 1] counter)) = (rank (low (tick counter)) + n) % lowWords := by
  induction n with
  | zero =>
    have free := low_tick_free counter
    have small := low_lt (tick counter)
    unfold Reserved at free
    simp only [not_or] at free
    change rank (low (tick counter)) = rank (low (tick counter)) % lowWords
    refine (Nat.mod_eq_of_lt ?_).symm
    unfold rank lowWords
    split_ifs <;> omega
  | succ n ih =>
    rw [Function.iterate_succ_apply', (createChannelId_low _).2,
      rank_nextLow (low_lt _) ?_, ih, Nat.mod_add_mod]
    · rfl
    · rw [Function.iterate_succ_apply']
      exact low_tick_free _

/-- The low words of the first `2 ^ 32 - 3` ids differ. -/
theorem tick_injective {counter : BitVec 64} {m n : Nat} (hm : 1 ≤ m) (hn : 1 ≤ n)
    (hm' : m ≤ lowWords) (hn' : n ≤ lowWords)
    (same : low (tick^[m] counter) = low (tick^[n] counter)) : m = n := by
  obtain ⟨m, rfl⟩ := Nat.exists_eq_add_of_le' hm
  obtain ⟨n, rfl⟩ := Nat.exists_eq_add_of_le' hn
  have ranks := congrArg rank same
  rw [rank_tick, rank_tick] at ranks
  have close : m ≡ n [MOD lowWords] := Nat.ModEq.add_left_cancel' _ ranks
  rw [close.eq_of_lt_of_lt (by omega) (by omega)]

end AgentEngine.Anet.ChannelPool
