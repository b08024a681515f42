import AgentEngine.Anet.Connection
import AgentEngine.Anet.PacketQueueLists

/-!
Whole runs of operations on packet queues: which of them keep every packet, and keep packets that
expire at the same time in the order in which they were pushed.

Everything holds in every run, except that a move can put packets before others that expire at the
same time and were pushed earlier to the same queue, and that a queue must not be moved to itself
(`ordered_queues_iff`). The moves of a connection, which takes its packets to an empty queue and
back, do neither.
-/

namespace AgentEngine.Anet

open Lib PacketQueues List Function

/-- A call on one of the queues. A packet that is pushed has an expire time then. -/
inductive QueueOp (κ ρ : Type) where
  | push (q : κ) (packet : ρ) (expireTime : Int)
  | pop (q : κ)
  | moveTo (q dest : κ)
  | moveBack (q src : κ)
  | getTimeoutList (q : κ) (now : Int)

/-- The queues and what has happened to them: pushes are numbered, every packet has the number of
its last push and the queue that it was pushed to, and the numbers of the packets that were taken
out by `pop` or `getTimeoutList` are listed. -/
structure QueueHistory (κ ρ : Type) where
  queues : PacketQueues κ ρ := {}
  origin : ρ → Option κ := fun _ => none
  number : ρ → Nat := fun _ => 0
  pushes : Nat := 0
  handedOut : List Nat := []

namespace QueueHistory

variable {κ ρ : Type}

def contents (h : QueueHistory κ ρ) (q : κ) : List ρ := h.queues.contents q

/-- Packets that expire at the same time and were pushed to the same queue, in that order. -/
def InPushOrder (h : QueueHistory κ ρ) (x y : ρ) : Prop :=
  h.queues.expireTime x = h.queues.expireTime y → h.origin x = h.origin y → h.number x < h.number y

/-- The queues hold the lists `c`, which are in order, and every packet is where it should be. -/
structure Keeps (h : QueueHistory κ ρ) (c : κ → List ρ) : Prop where
  represents : Represents h.queues c
  ordered : ∀ q, Ordered h.queues.expireTime (c q)
  numbered : ∀ q, ∀ x ∈ c q, h.number x < h.pushes
  distinct : ∀ q q' x y, x ∈ c q → y ∈ c q' → h.number x = h.number y → x = y
  accounted : ∀ n < h.pushes, n ∈ h.handedOut ↔ ¬ ∃ q, ∃ x ∈ c q, h.number x = n
  once : h.handedOut.Nodup
  issued : ∀ n ∈ h.handedOut, n < h.pushes
  stable : ∀ q, (c q).Pairwise h.InPushOrder

/-- Every queue is a well-formed list in the order of expire times, no packet is lost or
duplicated, and those that expire at the same time are in the order of their pushes. -/
def Sound (h : QueueHistory κ ρ) : Prop := h.Keeps h.contents

variable [DecidableEq κ] [DecidableEq ρ]

/-- A call and what it returns. -/
def step (h : QueueHistory κ ρ) : QueueOp κ ρ → Option (Option ρ × QueueHistory κ ρ)
  | .push q packet expireTime => do
      let queues ← { h.queues with
        expireTime := Function.update h.queues.expireTime packet expireTime }.push q packet
      return (none, { h with
        queues
        origin := Function.update h.origin packet (some q)
        number := Function.update h.number packet h.pushes
        pushes := h.pushes + 1 })
  | .pop q =>
      let (packet, queues) := h.queues.pop q
      some (packet, { h with queues, handedOut := h.handedOut ++ packet.toList.map h.number })
  | .moveTo q dest => do
      let queues ← h.queues.moveTo q dest
      return (none, { h with queues })
  | .moveBack q src => do
      let queues ← h.queues.moveBack q src
      return (none, { h with queues })
  | .getTimeoutList q now => do
      let (list, queues) ← h.queues.getTimeoutList q now
      let expired := follow queues.next ((h.queues.queue q).size - (queues.queue q).size) list
      return (list, { h with queues, handedOut := h.handedOut ++ expired.map h.number })

/-- A packet is pushed only while it is in no queue. -/
def Permits (h : QueueHistory κ ρ) : QueueOp κ ρ → Prop
  | .push _ packet _ => ∀ q, packet ∉ h.contents q
  | _ => True

/-- What `pop` and `getTimeoutList` take out and leave. -/
def Exact (h : QueueHistory κ ρ) (op : QueueOp κ ρ) (result : Option ρ) (h' : QueueHistory κ ρ) :
    Prop :=
  match op with
  | .pop q => result = (h.contents q).head? ∧ h'.contents q = (h.contents q).tail
  | .getTimeoutList q now =>
      let expired := (h.contents q).filter fun x => h.queues.expireTime x < now
      result = expired.head? ∧ Linked h'.queues.next expired none ∧
        h'.contents q = (h.contents q).filter fun x => !decide (h.queues.expireTime x < now)
  | _ => True

/-- The packets of `src` may go before those of `q`: the two are not the same queue with packets in
it, and no packet of `q` was pushed before one of `src` that expires at the same time. -/
def MayPrecede (h : QueueHistory κ ρ) (src q : κ) : Prop :=
  (src = q → h.contents q = []) ∧ ∀ x ∈ h.contents src, ∀ y ∈ h.contents q, h.InPushOrder x y

/-- A move keeps the order of pushes. -/
def InOrder (h : QueueHistory κ ρ) : QueueOp κ ρ → Prop
  | .moveTo q dest => h.MayPrecede q dest
  | .moveBack q src => h.MayPrecede src q
  | _ => True

/-- All calls are permitted, each where it is made. -/
def PermitsAll (h : QueueHistory κ ρ) : List (QueueOp κ ρ) → Prop
  | [] => True
  | op :: ops => h.Permits op ∧ ∀ result h', h.step op = some (result, h') → PermitsAll h' ops

def InOrderAll (h : QueueHistory κ ρ) : List (QueueOp κ ρ) → Prop
  | [] => True
  | op :: ops => h.InOrder op ∧ ∀ result h', h.step op = some (result, h') → InOrderAll h' ops

/-- Every call returns what it should, and the queues are sound all along. -/
def SoundAll (h : QueueHistory κ ρ) : List (QueueOp κ ρ) → Prop
  | [] => h.Sound
  | op :: ops => h.Sound ∧ ∃ result h',
      h.step op = some (result, h') ∧ h.Exact op result h' ∧ SoundAll h' ops

end QueueHistory

/-- The queues of connections: `_outputQueue` and `_myQueue`. -/
inductive ConnectionQueue (ι : Type) where
  | outputQueue (i : ι)
  | myQueue (i : ι)
deriving DecidableEq

/-- The calls that connections make, where `away` says which of them have taken their packets to
`_myQueue`: `writeData` moves the packets there, pops some and moves the others back. -/
inductive Travels {ι ρ : Type} [DecidableEq ι] :
    (ι → Bool) → List (QueueOp (ConnectionQueue ι) ρ) → Prop where
  | done (away : ι → Bool) : Travels away []
  | push {away : ι → Bool} {ops : List (QueueOp (ConnectionQueue ι) ρ)} (i : ι) (packet : ρ)
      (expireTime : Int) (rest : Travels away ops) :
      Travels away (.push (.outputQueue i) packet expireTime :: ops)
  | timeout {away : ι → Bool} {ops : List (QueueOp (ConnectionQueue ι) ρ)} (i : ι) (now : Int)
      (rest : Travels away ops) : Travels away (.getTimeoutList (.outputQueue i) now :: ops)
  | leave {away : ι → Bool} {ops : List (QueueOp (ConnectionQueue ι) ρ)} (i : ι)
      (home : away i = false) (rest : Travels (Function.update away i true) ops) :
      Travels away (.moveTo (.outputQueue i) (.myQueue i) :: ops)
  | pop {away : ι → Bool} {ops : List (QueueOp (ConnectionQueue ι) ρ)} (i : ι)
      (rest : Travels away ops) : Travels away (.pop (.myQueue i) :: ops)
  | back {away : ι → Bool} {ops : List (QueueOp (ConnectionQueue ι) ρ)} (i : ι)
      (rest : Travels (Function.update away i false) ops) :
      Travels away (.moveBack (.outputQueue i) (.myQueue i) :: ops)

namespace QueueHistory

section Steps

variable {κ ρ : Type} {h : QueueHistory κ ρ} {c : κ → List ρ}

theorem Keeps.sound (k : h.Keeps c) : h.Sound := by
  have same : h.contents = c := k.represents.contents_eq
  rw [Sound, same]
  exact k

variable {queues : PacketQueues κ ρ}

/-- Some packets leave the queues, the others stay in some order. -/
theorem Keeps.takeOut (k : h.Keeps c) {c' : κ → List ρ} (out : List ρ)
    (represents : Represents queues c') (expireTime : queues.expireTime = h.queues.expireTime)
    (ordered : ∀ q, Ordered h.queues.expireTime (c' q)) (stable : ∀ q, (c' q).Pairwise h.InPushOrder)
    (once : out.Nodup) (queued : ∀ x ∈ out, ∃ q, x ∈ c q)
    (others : ∀ x, (∃ q, x ∈ c' q) ↔ (∃ q, x ∈ c q) ∧ x ∉ out) :
    Keeps { h with queues, handedOut := h.handedOut ++ out.map h.number } c' := by
  have stays : ∀ q x, x ∈ c' q → (∃ q, x ∈ c q) ∧ x ∉ out := fun q x hx => (others x).mp ⟨q, hx⟩
  refine ⟨represents, ?_, ?_, ?_, ?_, ?_, ?_, ?_⟩
  · rw [expireTime]
    exact ordered
  · intro q x hx
    obtain ⟨⟨q', hx'⟩, -⟩ := stays q x hx
    exact k.numbered q' x hx'
  · intro q q' x y hx hy same
    obtain ⟨⟨p, hx'⟩, -⟩ := stays q x hx
    obtain ⟨⟨p', hy'⟩, -⟩ := stays q' y hy
    exact k.distinct p p' x y hx' hy' same
  · intro n hn
    rw [mem_append, k.accounted n hn, mem_map]
    constructor
    · rintro (absent | ⟨y, hy, rfl⟩) ⟨q, x, hx, same⟩
      · obtain ⟨⟨q', hx'⟩, -⟩ := stays q x hx
        exact absent ⟨q', x, hx', same⟩
      · obtain ⟨⟨q', hx'⟩, notOut⟩ := stays q x hx
        obtain ⟨p, hy'⟩ := queued y hy
        exact notOut (k.distinct q' p x y hx' hy' same ▸ hy)
    · intro absent
      by_cases there : ∃ q, ∃ x ∈ c q, h.number x = n
      · obtain ⟨q, x, hx, same⟩ := there
        refine .inr ⟨x, ?_, same⟩
        by_contra notOut
        obtain ⟨q', hx'⟩ := (others x).mpr ⟨⟨q, hx⟩, notOut⟩
        exact absent ⟨q', x, hx', same⟩
      · exact .inl there
  · refine nodup_append.mpr ⟨k.once, ?_, ?_⟩
    · apply List.Nodup.map_on _ once
      intro x hx y hy same
      obtain ⟨q, hx'⟩ := queued x hx
      obtain ⟨q', hy'⟩ := queued y hy
      exact k.distinct q q' x y hx' hy' same
    · rintro n hn m hm rfl
      obtain ⟨x, hx, rfl⟩ := mem_map.mp hm
      obtain ⟨q, hx'⟩ := queued x hx
      exact (k.accounted _ (k.numbered q x hx')).mp hn ⟨q, x, hx', rfl⟩
  · intro n hn
    rcases mem_append.mp hn with hn | hn
    · exact k.issued n hn
    · obtain ⟨x, hx, rfl⟩ := mem_map.mp hn
      obtain ⟨q, hx'⟩ := queued x hx
      exact k.numbered q x hx'
  · intro q
    refine (stable q).imp ?_
    intro x y before
    unfold InPushOrder at before ⊢
    rw [expireTime]
    exact before

variable [DecidableEq κ] [DecidableEq ρ]

/-- A packet that is pushed gets behind those that expire at the same time. -/
theorem step_push (k : h.Keeps c) (q : κ) {packet : ρ} (fresh : ∀ q, packet ∉ c q)
    (expireTime : Int) :
    ∃ h', h.step (.push q packet expireTime) = some (none, h') ∧ h'.Sound ∧
      (∀ q' x, x ∈ h'.contents q' ↔ q' = q ∧ x = packet ∨ x ∈ c q') ∧
      h'.number = Function.update h.number packet h.pushes := by
  have other : ∀ {q' x}, x ∈ c q' → x ≠ packet := by
    rintro q' x hx rfl
    exact fresh q' hx
  let expire := update h.queues.expireTime packet expireTime
  have expire_of : ∀ {q' x}, x ∈ c q' → expire x = h.queues.expireTime x := fun hx =>
    update_of_ne (other hx) ..
  have sorted : ∀ q', Ordered expire (c q') := fun q' =>
    (k.ordered q').imp_of_mem fun hx hy le => by
      rw [expire_of hx, expire_of hy]
      exact le
  obtain ⟨queues, pushed, represents, sameExpire⟩ :=
    push_spec (s := { h.queues with expireTime := expire })
      ⟨k.represents.holds, k.represents.apart⟩ (sorted q) fresh
  change queues.expireTime = expire at sameExpire
  let h' : QueueHistory κ ρ := { h with
    queues
    origin := update h.origin packet (some q)
    number := update h.number packet h.pushes
    pushes := h.pushes + 1 }
  have newNumber : h'.number packet = h.pushes := update_self ..
  have number_of : ∀ {q' x}, x ∈ c q' → h'.number x = h.number x := fun hx =>
    update_of_ne (other hx) ..
  have origin_of : ∀ {q' x}, x ∈ c q' → h'.origin x = h.origin x := fun hx =>
    update_of_ne (other hx) ..
  have stable : ∀ q', (c q').Pairwise h'.InPushOrder := fun q' =>
    (k.stable q').imp_of_mem fun hx hy before => by
      change queues.expireTime _ = queues.expireTime _ → _
      rw [sameExpire, number_of hx, number_of hy, origin_of hx, origin_of hy, expire_of hx,
        expire_of hy]
      exact before
  have mem : ∀ q' x, x ∈ update c q (enqueue expire (c q) packet) q' ↔
      q' = q ∧ x = packet ∨ x ∈ c q' := by
    intro q' x
    by_cases isQ : q' = q
    · rw [isQ, update_self, mem_enqueue]
      simp
    · rw [update_of_ne isQ]
      simp [isQ]
  have queued : packet ∈ update c q (enqueue expire (c q) packet) q :=
    (mem q packet).mpr (.inl ⟨rfl, rfl⟩)
  have contents : h'.contents = update c q (enqueue expire (c q) packet) :=
    represents.contents_eq
  refine ⟨h', ?_, Keeps.sound (c := update c q (enqueue expire (c q) packet))
    ⟨represents, ?_, ?_, ?_, ?_, k.once, ?_, ?_⟩, by rwa [contents], rfl⟩
  · simp only [step]
    rw [pushed]
    rfl
  · intro q'
    change Ordered queues.expireTime _
    rw [sameExpire]
    by_cases isQ : q' = q
    · rw [isQ, update_self]
      exact (sorted q).enqueue
    · rw [update_of_ne isQ]
      exact sorted q'
  · intro q' x hx
    rcases (mem q' x).mp hx with ⟨-, rfl⟩ | hx
    · rw [newNumber]
      exact Nat.lt_succ_self _
    · rw [number_of hx]
      exact Nat.lt_succ_of_lt (k.numbered q' x hx)
  · intro q₁ q₂ x y hx hy same
    rcases (mem q₁ x).mp hx with ⟨-, isNew⟩ | inX <;> rcases (mem q₂ y).mp hy with ⟨-, isNew'⟩ | inY
    · rw [isNew, isNew']
    · rw [isNew, newNumber, number_of inY] at same
      exact absurd same (ne_of_gt (k.numbered q₂ y inY))
    · rw [isNew', newNumber, number_of inX] at same
      exact absurd same (ne_of_lt (k.numbered q₁ x inX))
    · rw [number_of inX, number_of inY] at same
      exact k.distinct q₁ q₂ x y inX inY same
  · intro n hn
    change n < h.pushes + 1 at hn
    by_cases new : n = h.pushes
    · subst new
      constructor
      · exact fun issued => absurd (k.issued _ issued) (lt_irrefl _)
      · exact fun absent => absurd ⟨q, packet, queued, newNumber⟩ absent
    · refine (k.accounted n (by omega)).trans (not_congr ?_)
      constructor
      · rintro ⟨q', x, hx, rfl⟩
        exact ⟨q', x, (mem q' x).mpr (.inr hx), number_of hx⟩
      · rintro ⟨q', x, hx, rfl⟩
        rcases (mem q' x).mp hx with ⟨-, rfl⟩ | hx
        · exact absurd newNumber new
        · exact ⟨q', x, hx, (number_of hx).symm⟩
  · intro n hn
    exact Nat.lt_succ_of_lt (k.issued n hn)
  · intro q'
    by_cases isQ : q' = q
    · rw [isQ, update_self]
      refine pairwise_enqueue (sorted q) (stable q) ?_ ?_
      · intro y hy _ _ _
        rw [newNumber, number_of hy]
        exact k.numbered q y hy
      · intro y hy later same
        change queues.expireTime packet = queues.expireTime y at same
        rw [sameExpire] at same
        exact absurd same (ne_of_lt later)
    · rw [update_of_ne isQ]
      exact stable q'

omit [DecidableEq ρ] in
/-- The front of a queue is taken out. -/
theorem Keeps.cutOff (k : h.Keeps c) {q : κ} {out rest : List ρ} (split : c q = out ++ rest)
    (represents : Represents queues (Function.update c q rest))
    (expireTime : queues.expireTime = h.queues.expireTime) :
    Keeps { h with queues, handedOut := h.handedOut ++ out.map h.number }
      (Function.update c q rest) := by
  have nodup := (k.represents.holds q).slist.linked.nodup
  rw [split] at nodup
  obtain ⟨once, -, apart⟩ := nodup_append.mp nodup
  have sublist : ∀ q', (update c q rest q').Sublist (c q') := by
    intro q'
    by_cases isQ : q' = q
    · rw [isQ, update_self, split]
      exact sublist_append_right ..
    · rw [update_of_ne isQ]
  refine k.takeOut _ represents expireTime (fun q' => (k.ordered q').sublist (sublist q'))
    (fun q' => (k.stable q').sublist (sublist q')) once ?_ ?_
  · intro x hx
    exact ⟨q, by rw [split]; exact mem_append_left _ hx⟩
  · intro x
    constructor
    · rintro ⟨q', hx⟩
      refine ⟨⟨q', (sublist q').mem hx⟩, ?_⟩
      intro hx'
      have inQ : x ∈ c q := by
        rw [split]
        exact mem_append_left _ hx'
      have isQ := k.represents.apart q' q x ((sublist q').mem hx) inQ
      rw [isQ, update_self] at hx
      exact apart x hx' x hx rfl
    · rintro ⟨⟨q', hx⟩, notOut⟩
      refine ⟨q', ?_⟩
      by_cases isQ : q' = q
      · rw [isQ, update_self]
        rw [isQ, split] at hx
        exact (mem_append.mp hx).resolve_left notOut
      · rwa [update_of_ne isQ]

theorem step_pop (k : h.Keeps c) (q : κ) :
    ∃ h', h.step (.pop q) = some ((c q).head?, h') ∧ h'.Sound ∧
      h'.contents = Function.update c q (c q).tail ∧ h'.number = h.number := by
  obtain ⟨first, represents, expireTime⟩ := pop_spec k.represents q
  have split : c q = (c q).head?.toList ++ (c q).tail := by
    cases c q <;> rfl
  refine ⟨_, ?_, (k.cutOff split represents expireTime).sound, represents.contents_eq, rfl⟩
  simp only [step]
  rw [first]

theorem step_getTimeoutList (k : h.Keeps c) (q : κ) (now : Int) :
    ∃ h', h.step (.getTimeoutList q now) =
        some (((c q).filter fun x => h.queues.expireTime x < now).head?, h') ∧ h'.Sound ∧
      Linked h'.queues.next ((c q).filter fun x => h.queues.expireTime x < now) none ∧
      h'.contents = Function.update c q
        ((c q).filter fun x => !decide (h.queues.expireTime x < now)) ∧ h'.number = h.number := by
  obtain ⟨queues, listed, linked, represents, expireTime⟩ :=
    getTimeoutList_spec k.represents q now
  have split := below_append h.queues.expireTime now (c q)
  rw [(k.ordered q).below_eq_filter now] at listed linked represents split
  have followed : follow queues.next ((h.queues.queue q).size - (queues.queue q).size)
      ((c q).filter fun x => h.queues.expireTime x < now).head? =
      (c q).filter fun x => h.queues.expireTime x < now := by
    have left := (represents.holds q).size
    rw [update_self] at left
    have length := congrArg length split
    rw [length_append] at length
    rw [(k.represents.holds q).size, left, ← length, Nat.add_sub_cancel]
    exact linked.follow_eq
  refine ⟨_, ?_, (k.cutOff split.symm represents expireTime).sound, linked, represents.contents_eq,
    rfl⟩
  simp only [step]
  rw [listed]
  simp only [Option.bind_eq_bind, Option.bind_some, followed]
  rfl

/-- A move between two queues: what it does, and when the packets stay in the order of their
pushes. -/
theorem moveBack_sound_iff (k : h.Keeps c) {q src : κ} (other : q ≠ src) :
    ∃ queues, h.queues.moveBack q src = some queues ∧
      queues.contents = Function.update (Function.update c q
        (combine h.queues.expireTime (c q) (c src))) src [] ∧
      (Sound { h with queues } ↔ ∀ x ∈ c src, ∀ y ∈ c q, h.InPushOrder x y) := by
  obtain ⟨queues, moved, represents, expireTime⟩ :=
    moveBack_spec k.represents other (k.ordered q) (k.ordered src)
  refine ⟨queues, moved, represents.contents_eq, ?_⟩
  have atQ : update (update c q (combine h.queues.expireTime (c q) (c src)))
      src [] q = combine h.queues.expireTime (c q) (c src) := by
    rw [update_of_ne other, update_self]
  have elsewhere : ∀ q' ≠ q, q' ≠ src → update (update c q
      (combine h.queues.expireTime (c q) (c src))) src [] q' = c q' := fun q' notQ notSrc => by
    rw [update_of_ne notSrc, update_of_ne notQ]
  have merged := pairwise_combine_iff (R := h.InPushOrder) (k.ordered q) (k.ordered src)
  constructor
  · intro sound x hx y hy same
    have contents : QueueHistory.contents { h with queues } = _ := represents.contents_eq
    have stable := sound.stable q
    rw [contents, atQ] at stable
    have stable' : (combine h.queues.expireTime (c q) (c src)).Pairwise h.InPushOrder := by
      refine stable.imp ?_
      intro x y before
      unfold InPushOrder at before ⊢
      rwa [expireTime] at before
    exact ((merged.mp stable').2.2 y hy x hx).2 (le_of_eq same) same
  · intro inOrder
    have kept := k.takeOut [] represents expireTime ?_ ?_ nodup_nil
      nofun ?_
    · rw [map_nil, append_nil] at kept
      exact kept.sound
    · intro q'
      by_cases isSrc : q' = src
      · rw [isSrc, update_self]
        exact List.Pairwise.nil
      · by_cases isQ : q' = q
        · rw [isQ, atQ]
          exact (k.ordered q).combine (k.ordered src)
        · rw [elsewhere q' isQ isSrc]
          exact k.ordered q'
    · intro q'
      by_cases isSrc : q' = src
      · rw [isSrc, update_self]
        exact List.Pairwise.nil
      · by_cases isQ : q' = q
        · rw [isQ, atQ]
          refine merged.mpr ⟨k.stable q, k.stable src, fun x hx y hy => ⟨?_, ?_⟩⟩
          · intro later same
            exact absurd same (ne_of_lt later)
          · intro _
            exact inOrder y hy x hx
        · rw [elsewhere q' isQ isSrc]
          exact k.stable q'
    · intro x
      simp only [not_mem_nil, not_false_eq_true, and_true]
      constructor
      · rintro ⟨q', hx⟩
        by_cases isSrc : q' = src
        · rw [isSrc, update_self] at hx
          cases hx
        · by_cases isQ : q' = q
          · rw [isQ, atQ] at hx
            rcases mem_combine.mp hx with hx | hx
            · exact ⟨q, hx⟩
            · exact ⟨src, hx⟩
          · rw [elsewhere q' isQ isSrc] at hx
            exact ⟨q', hx⟩
      · rintro ⟨q', hx⟩
        by_cases moves : q' = src ∨ q' = q
        · refine ⟨q, ?_⟩
          rw [atQ, mem_combine]
          rcases moves with rfl | rfl
          · exact .inr hx
          · exact .inl hx
        · rw [not_or] at moves
          exact ⟨q', by rwa [elsewhere q' moves.2 moves.1]⟩

/-- A move is sound exactly if the packets may go before the others. -/
theorem move_sound_iff (k : h.Sound) (q src : κ) :
    (∃ queues, h.queues.moveBack q src = some queues ∧ Sound { h with queues }) ↔
      h.MayPrecede src q := by
  by_cases same : q = src
  · subst same
    constructor
    · rintro ⟨queues, moved, sound⟩
      by_cases empty : h.contents q = []
      · refine ⟨fun _ => empty, ?_⟩
        rw [empty]
        exact nofun
      · -- the packets are neither in a queue nor handed out afterwards
        exfalso
        obtain ⟨x, xs, packets⟩ := exists_cons_of_ne_nil empty
        have hx : x ∈ h.contents q := by
          rw [packets]
          exact mem_cons_self
        have left : QueueHistory.contents { h with queues } =
            update h.contents q [] := moveBack_self k.represents empty moved
        have lost : h.number x ∈ h.handedOut := by
          refine (sound.accounted _ (k.numbered q x hx)).mpr ?_
          rw [left]
          rintro ⟨q', y, hy, number⟩
          by_cases isQ : q' = q
          · rw [isQ, update_self] at hy
            cases hy
          · rw [update_of_ne isQ] at hy
            have e := k.distinct q' q y x hy hx number
            exact isQ (k.represents.apart q' q x (e ▸ hy) hx)
        exact (k.accounted _ (k.numbered q x hx)).mp lost ⟨q, x, hx, rfl⟩
    · rintro ⟨empty, -⟩
      have nothing : (h.queues.queue q).head = none := by
        rw [(k.represents.holds q).slist.head, empty rfl]
        rfl
      refine ⟨h.queues, ?_, k⟩
      simp only [moveBack, nothing]
  · obtain ⟨queues, moved, -, iff⟩ := moveBack_sound_iff k same
    constructor
    · rintro ⟨queues', moved', sound⟩
      cases moved.symm.trans moved'
      exact ⟨fun e => absurd e.symm same, iff.mp sound⟩
    · rintro ⟨-, inOrder⟩
      exact ⟨queues, moved, iff.mpr inOrder⟩

/-- From a sound state, a call is sound exactly if it is in order. -/
theorem step_sound_iff (k : h.Sound) {op : QueueOp κ ρ} (permits : h.Permits op) :
    (∃ result h', h.step op = some (result, h') ∧ h.Exact op result h' ∧ h'.Sound) ↔ h.InOrder op := by
  have move : ∀ q src, (∃ result h', (do
        let queues ← h.queues.moveBack q src
        return ((none : Option ρ), { h with queues })) = some (result, h') ∧ True ∧ h'.Sound) ↔
      h.MayPrecede src q := by
    intro q src
    rw [← move_sound_iff k q src]
    constructor
    · rintro ⟨result, h', moved, -, sound⟩
      obtain ⟨queues, back, e⟩ := Option.bind_eq_some_iff.mp moved
      cases e
      exact ⟨queues, back, sound⟩
    · rintro ⟨queues, moved, sound⟩
      exact ⟨none, _, by rw [moved]; rfl, trivial, sound⟩
  cases op with
  | push q packet expireTime =>
    obtain ⟨h', pushed, sound, -⟩ := step_push k q permits expireTime
    exact iff_of_true ⟨none, h', pushed, trivial, sound⟩ trivial
  | pop q =>
    obtain ⟨h', popped, sound, contents, -⟩ := step_pop k q
    refine iff_of_true ⟨_, h', popped, ⟨rfl, ?_⟩, sound⟩ trivial
    rw [contents, update_self]
  | getTimeoutList q now =>
    obtain ⟨h', listed, sound, linked, contents, -⟩ := step_getTimeoutList k q now
    refine iff_of_true ⟨_, h', listed, ⟨rfl, linked, ?_⟩, sound⟩ trivial
    rw [contents, update_self]
  | moveTo q dest => exact move dest q
  | moveBack q src => exact move q src

omit [DecidableEq κ] [DecidableEq ρ] in
theorem sound_start : Sound ({} : QueueHistory κ ρ) := by
  have none_queued : QueueHistory.contents ({} : QueueHistory κ ρ) = fun _ => [] := rfl
  rw [Sound, none_queued]
  refine ⟨⟨fun _ => ⟨.nil, rfl⟩, ?_⟩, fun _ => .nil, ?_, ?_, ?_, .nil, ?_, fun _ => .nil⟩
  all_goals
    intros
    contradiction

theorem soundAll_iff (k : h.Sound) {ops : List (QueueOp κ ρ)} (permits : h.PermitsAll ops) :
    h.SoundAll ops ↔ h.InOrderAll ops := by
  induction ops generalizing h with
  | nil => exact iff_of_true k trivial
  | cons op ops ih =>
    obtain ⟨here, rest⟩ := permits
    constructor
    · rintro ⟨-, result, h', moved, exact', sound⟩
      have sound' : h'.Sound := by
        cases ops with
        | nil => exact sound
        | cons op' ops => exact sound.1
      refine ⟨(step_sound_iff k here).mp ⟨result, h', moved, exact', sound'⟩, ?_⟩
      intro result' h'' moved'
      cases moved.symm.trans moved'
      exact (ih sound' (rest result h' moved)).mp sound
    · rintro ⟨inOrder, later⟩
      obtain ⟨result, h', moved, exact', sound'⟩ := (step_sound_iff k here).mpr inOrder
      exact ⟨k, result, h', moved, exact',
        (ih sound' (rest result h' moved)).mpr (later result h' moved)⟩

end Steps

/-! ### The queues of connections -/

section Connections

variable {ι ρ : Type} {h h' : QueueHistory (ConnectionQueue ι) ρ} {away : ι → Bool}

open ConnectionQueue

/-- The packets that a connection has taken to `_myQueue` were pushed before those that have come
since, and there are none while it is not writing. -/
def Settled (h : QueueHistory (ConnectionQueue ι) ρ) (away : ι → Bool) : Prop :=
  ∀ i, (away i = false → h.contents (myQueue i) = []) ∧
    ∀ x ∈ h.contents (myQueue i), ∀ y ∈ h.contents (outputQueue i), h.number x < h.number y

/-- Packets that leave the queues leave the others settled. -/
theorem Settled.fewer (settled : h.Settled away) (number : h'.number = h.number)
    (fewer : ∀ q, ∀ x ∈ h'.contents q, x ∈ h.contents q) : h'.Settled away := by
  intro i
  refine ⟨fun home => ?_, fun x hx y hy => ?_⟩
  · apply eq_nil_iff_forall_not_mem.mpr
    intro x hx
    have := fewer _ x hx
    rw [(settled i).1 home] at this
    cases this
  · rw [number]
    exact (settled i).2 x (fewer _ x hx) y (fewer _ y hy)

variable [DecidableEq ι] [DecidableEq ρ]

omit [DecidableEq ρ] in
/-- A connection that moves packets between its queues and leaves one of them empty. -/
theorem Settled.moved (settled : h.Settled away) {i : ι} {travelling : Bool} {q src : ConnectionQueue ι}
    (queues : q = myQueue i ∧ src = outputQueue i ∧ travelling = true ∨
      q = outputQueue i ∧ src = myQueue i ∧ travelling = false)
    (number : h'.number = h.number) {xs : List ρ}
    (contents : h'.contents = Function.update (Function.update h.contents q xs) src []) :
    h'.Settled (Function.update away i travelling) := by
  have emptied : h'.contents src = [] := by rw [contents, update_self]
  have same : ∀ q' ≠ q, q' ≠ src → h'.contents q' = h.contents q' := fun q' notQ notSrc => by
    rw [contents, update_of_ne notSrc, update_of_ne notQ]
  intro j
  by_cases isI : j = i
  · subst isI
    rw [update_self]
    rcases queues with ⟨rfl, rfl, rfl⟩ | ⟨rfl, rfl, rfl⟩
    · refine ⟨nofun, ?_⟩
      rw [emptied]
      exact nofun
    · refine ⟨fun _ => emptied, ?_⟩
      rw [emptied]
      exact nofun
  · have mine : myQueue j ≠ q ∧ myQueue j ≠ src := by
      rcases queues with ⟨rfl, rfl, -⟩ | ⟨rfl, rfl, -⟩ <;> simp [isI]
    have output : outputQueue j ≠ q ∧ outputQueue j ≠ src := by
      rcases queues with ⟨rfl, rfl, -⟩ | ⟨rfl, rfl, -⟩ <;> simp [isI]
    rw [update_of_ne isI, same _ mine.1 mine.2, same _ output.1 output.2, number]
    exact settled j

/-- The calls of connections are in order. -/
theorem Settled.inOrder (settled : h.Settled away) {ops : List (QueueOp (ConnectionQueue ι) ρ)}
    (k : h.Sound) (permits : h.PermitsAll ops) (travels : Travels away ops) : h.InOrderAll ops := by
  induction travels generalizing h with
  | done away => trivial
  | push i packet expireTime rest ih =>
    obtain ⟨fresh, permits⟩ := permits
    refine ⟨trivial, ?_⟩
    intro result h' pushed
    obtain ⟨_, pushed', sound, members, number⟩ := step_push k (outputQueue i) fresh expireTime
    cases pushed.symm.trans pushed'
    refine ih ?_ sound (permits _ _ pushed)
    have old : ∀ {q x}, x ∈ h.contents q → h'.number x = h.number x := by
      intro q x hx
      rw [number]
      apply update_of_ne
      rintro rfl
      exact fresh q hx
    have mine : ∀ j x, x ∈ h'.contents (myQueue j) ↔ x ∈ h.contents (myQueue j) := by
      intro j x
      rw [members]
      simp
    intro j
    refine ⟨fun home => ?_, fun x hx y hy => ?_⟩
    · apply eq_nil_iff_forall_not_mem.mpr
      intro x hx
      rw [mine, (settled j).1 home] at hx
      cases hx
    · rw [mine] at hx
      rcases (members _ y).mp hy with ⟨-, rfl⟩ | hy
      · rw [old hx, number, update_self]
        exact k.numbered _ x hx
      · rw [old hx, old hy]
        exact (settled j).2 x hx y hy
  | timeout i now rest ih =>
    refine ⟨trivial, ?_⟩
    intro result h' listed
    obtain ⟨_, listed', sound, -, contents, number⟩ := step_getTimeoutList k (outputQueue i) now
    cases listed.symm.trans listed'
    refine ih (settled.fewer number ?_) sound (permits.2 _ _ listed)
    intro q x hx
    rw [contents] at hx
    by_cases isQ : q = outputQueue i
    · rw [isQ, update_self] at hx
      rw [isQ]
      exact (mem_filter.mp hx).1
    · rwa [update_of_ne isQ] at hx
  | pop i rest ih =>
    refine ⟨trivial, ?_⟩
    intro result h' popped
    obtain ⟨_, popped', sound, contents, number⟩ := step_pop k (myQueue i)
    cases popped.symm.trans popped'
    refine ih (settled.fewer number ?_) sound (permits.2 _ _ popped)
    intro q x hx
    rw [contents] at hx
    by_cases isQ : q = myQueue i
    · rw [isQ, update_self] at hx
      rw [isQ]
      exact mem_of_mem_tail hx
    · rwa [update_of_ne isQ] at hx
  | leave i home rest ih =>
    have precede : h.MayPrecede (outputQueue i) (myQueue i) := by
      refine ⟨nofun, ?_⟩
      rw [(settled i).1 home]
      exact nofun
    refine ⟨precede, ?_⟩
    intro result h' moved
    obtain ⟨queues, back, contents, iff⟩ :=
      moveBack_sound_iff k (show myQueue i ≠ outputQueue i from nofun)
    obtain ⟨_, back', e⟩ := Option.bind_eq_some_iff.mp moved
    cases back.symm.trans back'
    cases e
    exact ih (settled.moved (.inl ⟨rfl, rfl, rfl⟩) rfl contents) (iff.mpr precede.2)
      (permits.2 _ _ moved)
  | back i rest ih =>
    have precede : h.MayPrecede (myQueue i) (outputQueue i) :=
      ⟨nofun, fun x hx y hy _ _ => (settled i).2 x hx y hy⟩
    refine ⟨precede, ?_⟩
    intro result h' moved
    obtain ⟨queues, back, contents, iff⟩ :=
      moveBack_sound_iff k (show outputQueue i ≠ myQueue i from nofun)
    obtain ⟨_, back', e⟩ := Option.bind_eq_some_iff.mp moved
    cases back.symm.trans back'
    cases e
    exact ih (settled.moved (.inr ⟨rfl, rfl, rfl⟩) rfl contents) (iff.mpr precede.2)
      (permits.2 _ _ moved)

end Connections

/-! ### Whole runs -/

section Runs

variable {κ ι ρ : Type} [DecidableEq κ] [DecidableEq ι] [DecidableEq ρ]

/-- From empty queues on, a run of calls is sound exactly if its moves are in order, and the calls
of connections are. -/
theorem ordered_queues_iff :
    (∀ ops : List (QueueOp κ ρ), PermitsAll {} ops → (SoundAll {} ops ↔ InOrderAll {} ops)) ∧
    ∀ ops : List (QueueOp (ConnectionQueue ι) ρ), PermitsAll {} ops →
      Travels (fun _ => false) ops → SoundAll {} ops := by
  refine ⟨fun ops permits => soundAll_iff sound_start permits, ?_⟩
  intro ops permits travels
  have settled : Settled ({} : QueueHistory (ConnectionQueue ι) ρ) fun _ => false := fun i =>
    ⟨fun _ => rfl, nofun⟩
  exact (soundAll_iff sound_start permits).mpr (settled.inOrder sound_start permits travels)

open ConnectionQueue in
theorem ordered_queues_there_and_back :
    SoundAll {} [QueueOp.push (outputQueue ()) 0 5, .moveTo (outputQueue ()) (myQueue ()),
      .push (outputQueue ()) 1 5, .moveBack (outputQueue ()) (myQueue ())] := by
  refine (ordered_queues_iff (κ := Unit)).2 _ ?_
    (.push _ _ _ (.leave _ rfl (.push _ _ _ (.back _ (.done _)))))
  refine ⟨?_, ?_⟩
  · rintro (i | i) <;> exact not_mem_nil
  · rintro _ _ ⟨⟩
    refine ⟨trivial, ?_⟩
    rintro _ _ ⟨⟩
    refine ⟨?_, ?_⟩
    · rintro (⟨⟨⟩⟩ | ⟨⟨⟩⟩) <;> decide
    · rintro _ _ ⟨⟩
      refine ⟨trivial, ?_⟩
      rintro _ _ ⟨⟩
      trivial

/-- Two packets with the same expire time that were pushed to the first queue and moved to the
second one after each other: the later one comes out in front. -/
theorem second_move_reorders :
    ∃ ops : List (QueueOp Bool Nat), PermitsAll {} ops ∧ ¬ SoundAll {} ops := by
  refine ⟨[.push false 0 5, .moveTo false true, .push false 1 5, .moveTo false true], ?_, ?_⟩
  · refine ⟨fun q => not_mem_nil, ?_⟩
    rintro _ _ ⟨⟩
    refine ⟨trivial, ?_⟩
    rintro _ _ ⟨⟩
    refine ⟨?_, ?_⟩
    · rintro (⟨⟩ | ⟨⟩) <;> decide
    · rintro _ _ ⟨⟩
      refine ⟨trivial, ?_⟩
      rintro _ _ ⟨⟩
      trivial
  · rintro ⟨-, _, _, ⟨⟩, -, -, _, _, ⟨⟩, -, -, _, _, ⟨⟩, -, -, _, h, moved, -, sound⟩
    have first : h.contents true = [1, 0] := by
      cases moved
      decide +kernel
    have order : h.queues.expireTime 1 = h.queues.expireTime 0 ∧ h.origin 1 = h.origin 0 ∧
        ¬ h.number 1 < h.number 0 := by
      cases moved
      decide +kernel
    have stable := sound.stable true
    rw [first] at stable
    exact order.2.2 ((pairwise_cons.mp stable).1 0 (mem_singleton_self 0) order.1 order.2.1)

end Runs

end QueueHistory

/-! ### The queue of a connection as a list -/

namespace OrderedPacketQueue

variable {queue src : List Outgoing}

/-- On a queue that is in order, the functions on lists that `Connection` is made of do what the
calls on linked packets do. -/
theorem push_eq_enqueue (sorted : Ordered Outgoing.expireTime queue) (packet : Outgoing) :
    push queue packet = enqueue Outgoing.expireTime queue packet := by
  unfold push
  cases queue with
  | nil => rfl
  | cons head rest =>
    obtain ⟨tail, last⟩ : ∃ tail, (head :: rest).getLast? = some tail := ⟨_, getLast?_cons⟩
    simp only [head?_cons, last]
    split_ifs with atEnd atFront
    · exact (enqueue_last fun p hp => (sorted.le_getLast? last p hp).trans atEnd).symm
    · exact (enqueue_first atFront).symm
    · rfl

theorem moveBack_eq_combine (sorted : Ordered Outgoing.expireTime queue)
    (sorted' : Ordered Outgoing.expireTime src) :
    moveBack queue src = combine Outgoing.expireTime queue src := by
  unfold moveBack
  split
  · rename_i empty
    rw [getLast?_eq_none_iff.mp empty, combine_nil_right]
  · rename_i empty _
    rw [head?_eq_none_iff.mp empty, combine_nil_left]
  · rename_i head tail first last
    split_ifs with before
    · symm
      apply combine_of_le
      intro p hp p' hp'
      exact (sorted'.le_getLast? last p' hp').trans (before.trans (sorted.head?_le first p hp))
    · rfl

end OrderedPacketQueue

end AgentEngine.Anet
