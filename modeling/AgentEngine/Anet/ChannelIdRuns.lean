import AgentEngine.Anet.ChannelIds
import AgentEngine.Anet.Connection
import Mathlib.Order.Interval.Finset.Nat

/-!
Channel ids that several pools take from the one counter.

A round of the loop of `createChannelId` is one atomic increment; rounds of different calls
interleave in any order. Whatever the order, the ids given out are automatic ones with a free low
word, and two of them with fewer than `2 ^ 32 - 1` increments between them keep different low
words. A call retries at most three times as long as its increments lie within `2 ^ 32`
consecutive ones (`channelIds_sound_iff`); if the others make `2 ^ 32 - 1` increments between any two of its
own it meets the same reserved word again and again (`not_retries_bounded`).
-/

namespace AgentEngine.Anet.ChannelPool

open Function Finset

/-- One round of the loop: the id if it is not skipped, and the new counter. -/
def round (counter : BitVec 64) : Option (BitVec 64) × BitVec 64 :=
  let counter := counter + 1
  let id := counter &&& AUTO_CHANNEL_ID_MAX
  (if skipped id then none else some id, counter)

/-- A call without interference makes rounds until one gives an id. -/
theorem nextChannelId_succ (fuel : Nat) (counter : BitVec 64) : nextChannelId (fuel + 1) counter =
      match round counter with
      | (some id, counter) => (id, counter)
      | (none, counter) => nextChannelId fuel counter := by
  simp only [nextChannelId, round]
  split <;> rfl

theorem round_eq (counter : BitVec 64) : round counter =
      (if Reserved (low (counter + 1)) then none
        else some ((counter + 1) &&& AUTO_CHANNEL_ID_MAX), counter + 1) := by
  simp only [round, skipped_iff, low_and]

/-! ### Calls that interleave -/

/-- A call that is still in the loop: the numbers of its first and of its latest increment, and
how often it has retried. -/
structure Call where
  first : Nat
  last : Nat
  retries : Nat

/-- An id that was returned, with the number of the increment that gave it. -/
structure Given where
  id : BitVec 64
  increment : Nat

/-- The counter, the increments made so far, the pools that are in the loop, and what was
returned. A pool calls `createChannelId` under its lock, so that it makes one call at a time. -/
structure Calls where
  counter : BitVec 64
  increments : Nat
  calls : Nat → Option Call
  given : List Given

namespace Calls

def init (counter : BitVec 64) : Calls := ⟨counter, 0, fun _ => none, []⟩

variable (s : Calls) (start : BitVec 64) (pool : Nat)

/-- The next round of the pool's call, the first of a new one if it has none. -/
def step : Calls :=
  let increments := s.increments + 1
  match round s.counter with
  | (some id, counter) =>
      ⟨counter, increments, Function.update s.calls pool none, ⟨id, increments⟩ :: s.given⟩
  | (none, counter) =>
      let call : Call :=
        match s.calls pool with
        | some call => ⟨call.first, increments, call.retries + 1⟩
        | none => ⟨increments, increments, 1⟩
      ⟨counter, increments, Function.update s.calls pool (some call), s.given⟩

/-- The rounds in the order in which the increments happen. -/
def run (pools : List Nat) : Calls := pools.foldl step s

@[simp] theorem run_append (xs ys : List Nat) : s.run (xs ++ ys) = (s.run xs).run ys :=
  List.foldl_append

@[simp] theorem step_counter : (s.step pool).counter = s.counter + 1 := by
  unfold step
  rw [round_eq]
  split <;> simp_all

@[simp] theorem step_increments : (s.step pool).increments = s.increments + 1 := by
  unfold step
  split <;> rfl

/-- What a round can do: give an id, or count a retry. -/
theorem step_cases :
    (¬ Reserved (low (s.counter + 1)) ∧ (s.step pool).calls = Function.update s.calls pool none ∧
      (s.step pool).given =
        ⟨(s.counter + 1) &&& AUTO_CHANNEL_ID_MAX, s.increments + 1⟩ :: s.given) ∨
    (Reserved (low (s.counter + 1)) ∧ (s.step pool).given = s.given ∧
      ∃ first retries, (s.step pool).calls =
          Function.update s.calls pool (some ⟨first, s.increments + 1, retries + 1⟩) ∧
        ((s.calls pool = none ∧ first = s.increments + 1 ∧ retries = 0) ∨
          ∃ last, s.calls pool = some ⟨first, last, retries⟩)) := by
  unfold step
  rw [round_eq]
  by_cases reserved : Reserved (low (s.counter + 1))
  · right
    rw [if_pos reserved]
    cases s.calls pool with
    | none => exact ⟨reserved, rfl, _, 0, rfl, .inl ⟨rfl, rfl, rfl⟩⟩
    | some call => exact ⟨reserved, rfl, _, _, rfl, .inr ⟨_, rfl⟩⟩
  · left
    rw [if_neg reserved]
    exact ⟨reserved, rfl, rfl⟩

/-! ### Invariants -/

/-- The low word that the `k`-th increment gives. -/
def lowAt (k : Nat) : Nat := (low start + k) % 2 ^ 32

theorem low_add (k : Nat) : low (start + BitVec.ofNat 64 k) = lowAt start k := by
  unfold lowAt low
  rw [BitVec.toNat_add, BitVec.toNat_ofNat]
  omega

/-- The increments from `first` to `last` that meet a reserved word. -/
def reservedIn (first last : Nat) : Finset Nat :=
  (Finset.Icc first last).filter fun k => Reserved (lowAt start k)

/-- Among `2 ^ 32` consecutive increments no word comes twice. -/
theorem card_reservedIn {start : BitVec 64} {first last : Nat} (near : last < first + 2 ^ 32) :
    (reservedIn start first last).card ≤ 3 := by
  have words : Set.MapsTo (lowAt start) (reservedIn start first last)
      ({0, 0x10000000, 0x10000001} : Finset Nat) := by
    intro k mem
    simp only [reservedIn, coe_filter, Set.mem_ofPred_eq] at mem
    simpa [Reserved, or_comm, or_assoc, or_left_comm] using mem.2
  have injective : Set.InjOn (lowAt start) (reservedIn start first last) := by
    intro j memj k memk same
    simp only [reservedIn, coe_filter, Set.mem_ofPred_eq, mem_Icc] at memj memk
    simp only [lowAt] at same
    omega
  exact card_le_card_of_injOn _ words injective

/-- What holds after any rounds: where the counter is, the ids that were given, and that a call
has retried at reserved words only. -/
structure Counted (start : BitVec 64) (s : Calls) : Prop where
  counter : s.counter = start + BitVec.ofNat 64 s.increments
  given : ∀ g ∈ s.given, g.increment ≤ s.increments ∧
    g.id = (start + BitVec.ofNat 64 g.increment) &&& AUTO_CHANNEL_ID_MAX ∧
    ¬ Reserved (lowAt start g.increment)
  calls : ∀ pool call, s.calls pool = some call →
    call.first ≤ call.last ∧ call.last ≤ s.increments ∧
      call.retries ≤ (reservedIn start call.first call.last).card

theorem Counted.init : Counted start (init start) where
  counter := (BitVec.add_zero start).symm
  given := nofun
  calls := nofun

/-- One more reserved word for a call. -/
theorem card_reservedIn_succ {start : BitVec 64} {first last next : Nat} (before : last < next)
    (le : first ≤ next) (reserved : Reserved (lowAt start next)) :
    (reservedIn start first last).card + 1 ≤ (reservedIn start first next).card := by
  have new : next ∉ reservedIn start first last := by
    intro mem
    have := (mem_Icc.mp (mem_filter.mp mem).1).2
    omega
  rw [← card_insert_of_notMem new]
  apply card_le_card
  intro k mem
  rcases mem_insert.mp mem with rfl | old
  · exact mem_filter.mpr ⟨mem_Icc.mpr ⟨le, le_rfl⟩, reserved⟩
  · obtain ⟨inside, word⟩ := mem_filter.mp old
    obtain ⟨lower, upper⟩ := mem_Icc.mp inside
    exact mem_filter.mpr ⟨mem_Icc.mpr ⟨lower, by omega⟩, word⟩

theorem Counted.step {start : BitVec 64} {s : Calls} (inv : Counted start s) (pool : Nat) :
    Counted start (s.step pool) := by
  have next : s.counter + 1 = start + BitVec.ofNat 64 (s.increments + 1) := by
    rw [inv.counter, BitVec.add_assoc, BitVec.ofNat_add]
    rfl
  have word : low (s.counter + 1) = lowAt start (s.increments + 1) := by rw [next, low_add]
  have given : ∀ g ∈ s.given, g.increment ≤ s.increments + 1 ∧
      g.id = (start + BitVec.ofNat 64 g.increment) &&& AUTO_CHANNEL_ID_MAX ∧
      ¬ Reserved (lowAt start g.increment) := by
    intro g mem
    obtain ⟨le, rest⟩ := inv.given g mem
    exact ⟨Nat.le_succ_of_le le, rest⟩
  have others : ∀ other call, s.calls other = some call → call.first ≤ call.last ∧
      call.last ≤ s.increments + 1 ∧
        call.retries ≤ (reservedIn start call.first call.last).card := by
    intro other call found
    obtain ⟨le, last, count⟩ := inv.calls other call found
    exact ⟨le, Nat.le_succ_of_le last, count⟩
  constructor
  · rw [step_counter, step_increments, next]
  · rw [step_increments]
    rcases step_cases s pool with ⟨free, -, gave⟩ | ⟨-, same, -⟩
    · rw [gave]
      intro g mem
      rcases List.mem_cons.mp mem with rfl | old
      · rw [word] at free
        exact ⟨le_rfl, by rw [next], free⟩
      · exact given g old
    · rw [same]
      exact given
  · rw [step_increments]
    intro other call found
    rcases step_cases s pool with ⟨-, left, -⟩ | ⟨reserved, -, first, retries, now, before⟩
    · rw [left] at found
      by_cases eq : other = pool
      · rw [eq, update_self] at found
        cases found
      · rw [update_of_ne eq] at found
        exact others other call found
    · rw [now] at found
      by_cases eq : other = pool
      · rw [eq, update_self] at found
        cases found
        rw [word] at reserved
        rcases before with ⟨-, rfl, rfl⟩ | ⟨last, call⟩
        · refine ⟨le_rfl, le_rfl, card_pos.mpr ⟨s.increments + 1, ?_⟩⟩
          exact mem_filter.mpr ⟨mem_Icc.mpr ⟨le_rfl, le_rfl⟩, reserved⟩
        · obtain ⟨le, upto, count⟩ := inv.calls pool _ call
          dsimp only at le upto count ⊢
          refine ⟨by omega, le_rfl, ?_⟩
          exact (Nat.succ_le_succ count).trans
            (card_reservedIn_succ (by omega) (by omega) reserved)
      · rw [update_of_ne eq] at found
        exact others other call found

theorem Counted.run {start : BitVec 64} {s : Calls} (inv : Counted start s) (pools : List Nat) :
    Counted start (s.run pools) := by
  induction pools generalizing s with
  | nil => exact inv
  | cons pool pools ih => exact ih (inv.step pool)

/-! ### What the ids are -/

/-- Every call whose increments lie within `window` consecutive ones has retried at most
`retries` times; the ids returned are automatic, with a free low word; and two ids with fewer
than `2 ^ 32 - 1` increments between them differ in the header of a plain packet. -/
structure Sound (retries window : Nat) (s : Calls) : Prop where
  bounded : ∀ pool call, s.calls pool = some call → call.last < call.first + window →
    call.retries ≤ retries
  automatic : ∀ g ∈ s.given, 1 ≤ g.id.toNat ∧ g.id ≤ AUTO_CHANNEL_ID_MAX ∧ ¬ Reserved (low g.id)
  distinct : ∀ g ∈ s.given, ∀ h ∈ s.given, g.increment < h.increment →
    h.increment - g.increment - 1 < 2 ^ 32 - 1 → wireId false g.id ≠ wireId false h.id

theorem wireId_toNat (id : BitVec 64) : (wireId false id).toNat = low id := by
  simp only [wireId, Bool.false_eq_true, if_false, BitVec.toNat_setWidth, low]
  omega

theorem Counted.sound {start : BitVec 64} {s : Calls} (inv : Counted start s) :
    Sound 3 (2 ^ 32) s where
  bounded pool call found near :=
    (inv.calls pool call found).2.2.trans (card_reservedIn near)
  automatic g mem := by
    obtain ⟨-, id, free⟩ := inv.given g mem
    have word : low g.id = lowAt start g.increment := by rw [id, low_and, low_add]
    refine ⟨?_, ?_, word ▸ free⟩
    · rcases Nat.eq_zero_or_pos g.id.toNat with zero | pos
      · refine absurd (.inr (.inr ?_)) (word ▸ free)
        rw [low, zero, Nat.zero_mod]
      · exact pos
    · rw [id, BitVec.le_def, BitVec.toNat_and]
      exact Nat.and_le_right
  distinct g memg h memh lt near same := by
    obtain ⟨-, idg, -⟩ := inv.given g memg
    obtain ⟨-, idh, -⟩ := inv.given h memh
    have words := congrArg BitVec.toNat same
    rw [wireId_toNat, wireId_toNat, idg, idh, low_and, low_and, low_add, low_add, lowAt, lowAt]
      at words
    omega

/-! ### A call that the others outrun -/

/-- Rounds of other pools leave a call where it is. -/
theorem run_others (s : Calls) {pool other : Nat} (ne : pool ≠ other) (n : Nat) :
    let s' := s.run (List.replicate n other)
    s'.calls pool = s.calls pool ∧ s'.increments = s.increments + n ∧
      s'.counter = s.counter + BitVec.ofNat 64 n := by
  induction n generalizing s with
  | zero => exact ⟨rfl, rfl, (BitVec.add_zero _).symm⟩
  | succ n ih =>
    obtain ⟨calls, increments, counter⟩ := ih (s.step other)
    rw [step_increments] at increments
    rw [step_counter, BitVec.add_assoc] at counter
    have untouched : (s.step other).calls pool = s.calls pool := by
      rcases step_cases s other with ⟨-, eq, -⟩ | ⟨-, -, _, _, eq, -⟩
      all_goals rw [eq, update_of_ne ne]
    refine ⟨calls.trans untouched, increments.trans (by omega), counter.trans ?_⟩
    rw [add_comm n, BitVec.ofNat_add]
    rfl

/-- Pool 0 makes its next round after `gap` rounds of pool 1 and meets a reserved word. -/
theorem run_meets {s : Calls} {call : Call} {gap : Nat} (busy : s.calls 0 = some call)
    (reserved : Reserved (lowAt s.counter (gap + 1))) :
    let s' := s.run (List.replicate gap 1 ++ [0])
    s'.calls 0 = some ⟨call.first, s'.increments, call.retries + 1⟩ ∧
      s'.increments = s.increments + (gap + 1) ∧ low s'.counter = lowAt s.counter (gap + 1) := by
  obtain ⟨calls, increments, counter⟩ := run_others s Nat.zero_ne_one gap
  rw [run_append]
  generalize s.run (List.replicate gap 1) = t at *
  have word : low (t.counter + 1) = lowAt s.counter (gap + 1) := by
    rw [counter, BitVec.add_assoc, ← low_add, BitVec.ofNat_add]
    rfl
  change (t.step 0).calls 0 = some ⟨call.first, (t.step 0).increments, _⟩ ∧
    (t.step 0).increments = _ ∧ low (t.step 0).counter = _
  rw [step_increments, step_counter, increments, add_assoc]
  refine ⟨?_, rfl, word⟩
  rcases step_cases t 0 with ⟨free, -⟩ | ⟨-, -, first, retries, now, before⟩
  · exact absurd (word ▸ reserved) free
  · rw [now, update_self, increments]
    rcases before with ⟨idle, -⟩ | ⟨last, same⟩
    · rw [calls, busy] at idle
      cases idle
    · rw [calls, busy] at same
      cases same
      rfl

/-- The rounds of pool 0, each after so many rounds of pool 1. -/
def chase (gaps : List Nat) : List Nat := gaps.flatMap fun gap => List.replicate gap 1 ++ [0]

/-- Each of these rounds meets a reserved word, from a given low word on. -/
def Meets : Nat → List Nat → Prop
  | _, [] => True
  | word, gap :: gaps =>
      Reserved ((word + (gap + 1)) % 2 ^ 32) ∧ Meets ((word + (gap + 1)) % 2 ^ 32) gaps

theorem run_chase {gaps : List Nat} {s : Calls} {call : Call}
    (busy : s.calls 0 = some call) (now : call.last = s.increments)
    (meets : Meets (low s.counter) gaps) :
    (s.run (chase gaps)).calls 0 =
      some ⟨call.first, call.last + (gaps.map (· + 1)).sum, call.retries + gaps.length⟩ := by
  induction gaps generalizing s call with
  | nil => exact busy
  | cons gap gaps ih =>
    obtain ⟨busy', increments, word⟩ := run_meets busy meets.1
    have rest := ih busy' rfl (word ▸ meets.2)
    rw [← run_append, increments, ← now] at rest
    simpa [chase, add_assoc, add_comm, add_left_comm] using rest

/-- The counter whose next low word is that of HTTP, after one round of pool 0. -/
def metHttp : Calls := (init 0x0FFFFFFF).step 0

theorem run_metHttp (pools : List Nat) : (init 0x0FFFFFFF).run (0 :: pools) = metHttp.run pools :=
  rfl

/-- A call that meets four reserved words within `2 ^ 32 + 1` increments. -/
theorem meets_four : (metHttp.run (chase [0, 2 ^ 32 - 2 ^ 28 - 2, 2 ^ 28 - 1])).calls 0 =
    some ⟨1, 1 + 2 ^ 32, 4⟩ := by
  have busy : metHttp.calls 0 = some ⟨1, 1, 1⟩ := rfl
  have meets : Meets (low metHttp.counter) [0, 2 ^ 32 - 2 ^ 28 - 2, 2 ^ 28 - 1] := by
    refine ⟨?_, ?_, ?_, trivial⟩ <;> decide
  exact run_chase busy rfl meets

/-- A call that meets the low word of HTTP any number of times. -/
theorem meets_again (n : Nat) :
    ((metHttp.run (chase (List.replicate n (2 ^ 32 - 1)))).calls 0).map Call.retries =
      some (1 + n) := by
  have busy : metHttp.calls 0 = some ⟨1, 1, 1⟩ := rfl
  have meets : Meets 0x10000000 (List.replicate n (2 ^ 32 - 1)) := by
    induction n with
    | zero => trivial
    | succ n ih => exact ⟨.inl rfl, ih⟩
  rw [run_chase busy rfl meets, List.length_replicate]
  rfl

/-- Three retries are enough for the calls whose increments lie within `window` consecutive ones
iff no word comes twice among so many. -/
theorem channelIds_sound_iff (window : Nat) :
    (∀ start pools, Sound 3 window ((init start).run pools)) ↔ window ≤ 2 ^ 32 := by
  constructor
  · intro sound
    by_contra large
    have bounded := (sound 0x0FFFFFFF (0 :: chase [0, 2 ^ 32 - 2 ^ 28 - 2, 2 ^ 28 - 1])).bounded 0
    rw [run_metHttp] at bounded
    have near : 1 + 2 ^ 32 < 1 + window := by omega
    exact absurd (bounded _ meets_four near) (by decide)
  · intro small start pools
    obtain ⟨bounded, automatic, distinct⟩ := ((Counted.init start).run pools).sound
    refine ⟨?_, automatic, distinct⟩
    intro pool call found near
    exact bounded pool call found (by omega)

/-- No number of retries is enough for every interleaving. -/
theorem not_retries_bounded :
    ¬ ∃ retries, ∀ window start pools, Sound retries window ((init start).run pools) := by
  rintro ⟨retries, sound⟩
  have many := meets_again retries
  obtain ⟨call, busy, count⟩ := Option.map_eq_some_iff.mp many
  rw [← run_metHttp] at busy
  have bounded := (sound (call.last + 1) 0x0FFFFFFF _).bounded 0 call busy (by omega)
  omega

end Calls

end AgentEngine.Anet.ChannelPool
