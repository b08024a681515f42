import AgentEngine.Anet.ChannelPool
import Mathlib.Data.List.Perm.Basic
import Mathlib.Data.List.Perm.Lattice

/-!
What a channel pool is for, and that its linked lists do it.

A pool holds its channels in three places: some are free, some are handed out, and some are
in lists of expired channels that `getTimeoutList` has detached and nobody has given back
yet. Some of those handed out wait for a reply. `Holdings` is that and no more; `Holds p h`
says that the links, the map and the counter of the pool `p` represent `h`. Each operation of
the pool has one lemma here, which says what it does to the holdings.
-/

namespace AgentEngine.Anet

open Lib List

/-- Where the channels are. The waiting channels are among those handed out. -/
structure Holdings where
  free : List ChannelRef
  handed : List ChannelRef
  waiting : List ChannelRef
  detached : List (List ChannelRef)
deriving DecidableEq

/-- All channels, place by place. -/
def Holdings.all (h : Holdings) : List ChannelRef := h.free ++ h.handed ++ h.detached.flatten

namespace ChannelPool

variable {η α : Type}

/-- The lists of the holdings `h` are threaded through the links of the pool `p`. -/
structure Threads (p : ChannelPool η α) (h : Holdings) : Prop where
  freeList : p.links.DList p.freeListHead p.freeListTail h.free
  waitingList : p.links.DList p.waitReplyHead p.waitReplyTail h.waiting
  detachedList : ∀ d ∈ h.detached, d ≠ [] ∧ p.links.Span none d none

/-- The pool `p` represents the holdings `h`. -/
structure Holds (p : ChannelPool η α) (h : Holdings) : Prop extends Threads p h where
  everyChannel : h.all.Perm (List.range (CHANNEL_CLUSTER_SIZE * p.clusters))
  handedOut : ∀ c ∈ h.waiting, c ∈ h.handed
  map : ∀ id c, p.waitReplyMap id = some c ↔ c ∈ h.waiting ∧ (p.channel c).id = id
  useCount : p.useCount = .ofNat 32 h.handed.length
  expire : ∀ c ∈ h.handed, c ∈ h.waiting ↔ p.getExpireTime c ≠ 0

theorem holds_new : Holds ({} : ChannelPool η α) ⟨[], [], [], []⟩ where
  toThreads := ⟨Links.DList.nil, Links.DList.nil, by simp⟩
  everyChannel := by simp [Holdings.all]
  handedOut := by simp
  map := by simp
  useCount := rfl
  expire := by simp

namespace Holds

variable {p : ChannelPool η α} {h : Holdings} (hp : p.Holds h)

include hp

/-! ### No channel is in two places -/

theorem nodup : h.all.Nodup := hp.everyChannel.nodup_iff.mpr nodup_range

theorem handed_nodup : h.handed.Nodup :=
  (nodup_append.mp (nodup_append.mp hp.nodup).1).2.1

variable {c : ChannelRef}

theorem not_handed_of_free (hc : c ∈ h.free) : c ∉ h.handed := fun hc' =>
  (nodup_append.mp (nodup_append.mp hp.nodup).1).2.2 c hc c hc' rfl

theorem not_waiting_of_free (hc : c ∈ h.free) : c ∉ h.waiting := fun hc' =>
  hp.not_handed_of_free hc (hp.handedOut c hc')

variable {d : List ChannelRef}

theorem not_detached_of_free (hd : d ∈ h.detached) (hc : c ∈ h.free) : c ∉ d := fun hc' =>
  (nodup_append.mp hp.nodup).2.2 c (mem_append_left _ hc) c
    (mem_flatten_of_mem hd hc') rfl

theorem not_detached_of_handed (hd : d ∈ h.detached) (hc : c ∈ h.handed) : c ∉ d := fun hc' =>
  (nodup_append.mp hp.nodup).2.2 c (mem_append_right _ hc) c
    (mem_flatten_of_mem hd hc') rfl

theorem mem_all : c ∈ h.all ↔ c < CHANNEL_CLUSTER_SIZE * p.clusters := by
  rw [hp.everyChannel.mem_iff, mem_range]

/-- A list of channels without repetition is shorter than any loop may be. -/
theorem length_lt_rounds {xs : List ChannelRef} (nodup : xs.Nodup) (sub : ∀ c ∈ xs, c ∈ h.all) :
    xs.length < p.rounds := by
  have := (subperm_of_subset nodup sub).length_le
  rw [hp.everyChannel.length_eq, length_range] at this
  unfold rounds
  omega

theorem waiting_lt_rounds : h.waiting.length < p.rounds := by
  apply hp.length_lt_rounds hp.waitingList.nodup
  intro c hc
  exact mem_append_left _ (mem_append_right _ (hp.handedOut c hc))

theorem detached_lt_rounds (hd : d ∈ h.detached) : d.length < p.rounds := by
  apply hp.length_lt_rounds (hp.detachedList d hd).2.nodup
  intro c hc
  exact mem_append_right _ (mem_flatten_of_mem hd hc)

/-! ### Looking channels up -/

theorem findChannel_eq_some {id : BitVec 64} :
    p.findChannel id = some c ↔ c ∈ h.waiting ∧ (p.channel c).id = id := hp.map id c

/-- The loops start at the first waiting channel. -/
theorem waitReplyHead_eq : p.waitReplyHead = h.waiting.head? := hp.waitingList.head

end Holds

/-! ### The linked lists -/

/-- No channel is in two of the linked lists. -/
structure Apart (h : Holdings) : Prop where
  waiting_free : ∀ c ∈ h.waiting, c ∉ h.free
  detached_free : ∀ d ∈ h.detached, ∀ c ∈ d, c ∉ h.free
  detached_waiting : ∀ d ∈ h.detached, ∀ c ∈ d, c ∉ h.waiting

namespace Threads

variable {p : ChannelPool η α} {h : Holdings} (hp : p.Threads h) (apart : Apart h)

include hp apart

theorem recycleChannel {c : ChannelRef} (free : c ∉ h.free) (waiting : c ∉ h.waiting)
    (detached : ∀ d ∈ h.detached, c ∉ d) :
    (p.recycleChannel c).Threads { h with free := h.free ++ [c] } := by
  have last : ∀ x ∈ p.freeListTail, x ∈ c :: h.free := by
    intro x hx
    rw [hp.freeList.tail] at hx
    exact mem_cons_of_mem c (mem_of_getLast? hx)
  have touches : p.links.Touches (p.recycleChannel c).links (c :: h.free) :=
    ((p.links.touches_setPrev mem_cons_self _).trans
      (Links.touches_setNext _ mem_cons_self _)).trans (Links.touches_setNextOf _ last _)
  refine ⟨hp.freeList.pushBack free, hp.waitingList.of_touches touches ?_, ?_⟩
  · intro x hx
    exact not_mem_cons_of_ne_of_not_mem (fun e => waiting (e ▸ hx)) (apart.waiting_free x hx)
  · intro d hd
    refine ⟨(hp.detachedList d hd).1, (hp.detachedList d hd).2.of_touches touches ?_⟩
    intro x hx
    exact not_mem_cons_of_ne_of_not_mem (fun e => detached d hd (e ▸ hx))
      (apart.detached_free d hd x hx)

theorem freeWaitingChannel {c : ChannelRef} (hc : c ∈ h.waiting) :
    (p.freeWaitingChannel c).Threads { h with waiting := h.waiting.erase c } := by
  obtain ⟨xs, ys, split⟩ := append_of_mem hc
  have list := hp.waitingList
  rw [split] at list
  obtain ⟨-, ⟨prev, next, -⟩, out, -⟩ := list.at_node
  have left : h.waiting.erase c = xs ++ ys := by
    rw [split, erase_append_right _ out, erase_cons_head]
  have touches : p.links.Touches (p.freeWaitingChannel c).links h.waiting := by
    refine (p.links.touches_setNextOf ?_ _).trans (Links.touches_setPrevOf _ ?_ _)
    · intro x hx
      rw [prev] at hx
      rw [split]
      exact mem_append_left _ (mem_of_getLast? hx)
    · intro x hx
      rw [next, Option.or_none] at hx
      rw [split]
      exact mem_append_right _ (mem_cons_of_mem _ (mem_of_head? hx))
  refine ⟨hp.freeList.of_touches touches ?_, ?_, ?_⟩
  · exact fun x hx hx' => apart.waiting_free x hx' hx
  · rw [left]
    exact list.remove
  · intro d hd
    exact ⟨(hp.detachedList d hd).1,
      (hp.detachedList d hd).2.of_touches touches (apart.detached_waiting d hd)⟩

theorem appendFreeList {d : List ChannelRef} (hd : d ∈ h.detached)
    (others : ∀ d' ∈ h.detached.erase d, ∀ c ∈ d', c ∉ d) (short : d.length < p.rounds) :
    (p.appendFreeList d.head?).Threads
      { h with free := h.free ++ d, detached := h.detached.erase d } := by
  obtain ⟨ne, span⟩ := hp.detachedList d hd
  obtain ⟨list, rest, rfl⟩ := exists_cons_of_ne_nil ne
  have last : ∀ x ∈ p.freeListTail, x ∈ h.free ++ list :: rest := by
    intro x hx
    rw [hp.freeList.tail] at hx
    exact mem_append_left _ (mem_of_getLast? hx)
  have touches : p.links.Touches (p.appendFreeList (some list)).links (h.free ++ list :: rest) :=
    (p.links.touches_setPrev (mem_append_right _ mem_cons_self) _).trans
      (Links.touches_setNextOf _ last _)
  refine ⟨?_, hp.waitingList.of_touches touches ?_, ?_⟩
  · have tail := span.last_eq (show rest.length ≤ p.rounds by simp at short; omega)
    have appended := hp.freeList.append span (apart.detached_free _ hd)
    rw [← tail] at appended
    exact appended
  · intro x hx
    rw [mem_append, not_or]
    exact ⟨apart.waiting_free x hx, fun hx' => apart.detached_waiting _ hd x hx' hx⟩
  · intro d' hd'
    have old := mem_of_mem_erase hd'
    refine ⟨(hp.detachedList d' old).1, (hp.detachedList d' old).2.of_touches touches ?_⟩
    intro x hx
    rw [mem_append, not_or]
    exact ⟨apart.detached_free d' old x hx, others d' hd' x hx⟩

end Threads

/-- The waiting channels with `c` behind those that expire no later. -/
def queued (p : ChannelPool η α) (c : ChannelRef) (waiting : List ChannelRef) : List ChannelRef :=
  waiting.takeWhile (fun x => !decide (p.getExpireTime x > p.getExpireTime c)) ++
    c :: waiting.dropWhile fun x => !decide (p.getExpireTime x > p.getExpireTime c)

variable {waiting : List ChannelRef} (p : ChannelPool η α)

/-- Where the loop of `enqueue` stops. -/
theorem queued_eq (c : ChannelRef)
    {before : Option ChannelRef} (span : p.links.Span before waiting none)
    (short : waiting.length < p.rounds) :
    ∃ front back, waiting = front ++ back ∧ p.queued c waiting = front ++ c :: back ∧
      (p.links.walk (fun x => decide (p.getExpireTime x > p.getExpireTime c)) p.rounds
        waiting.head?).2 = back.head? :=
  ⟨_, _, (takeWhile_append_dropWhile ..).symm, rfl, congrArg Prod.snd (span.walk_eq _ short)⟩

theorem enqueue_list {p : ChannelPool η α} {c : ChannelRef}
    (list : p.links.DList p.waitReplyHead p.waitReplyTail waiting) (out : c ∉ waiting)
    (short : waiting.length < p.rounds) :
    (p.enqueue c).links.DList (p.enqueue c).waitReplyHead
        (p.enqueue c).waitReplyTail (p.queued c waiting) ∧
      p.links.Touches (p.enqueue c).links (c :: waiting) := by
  have self : c ∈ c :: waiting := mem_cons_self
  have sub : ∀ {x}, x ∈ waiting → x ∈ c :: waiting := mem_cons_of_mem c
  unfold enqueue
  cases waiting with
  | nil =>
    simp only [list.head, head?_nil]
    refine ⟨⟨rfl, rfl, Links.Span.single _ c none none⟩, ?_⟩
    exact (p.links.touches_setPrev self _).trans (Links.touches_setNext _ self _)
  | cons head ws =>
    obtain ⟨prev, next, rest⟩ := list.span
    rw [Option.or_none] at next
    simp only [list.head, head?_cons]
    split
    · rename_i later
      have inserted := Links.DList.insert (show p.links.DList _ _ ([] ++ head :: ws) from list) out
      rw [prev] at inserted
      have first : p.queued c (head :: ws) = c :: head :: ws := by
        simp only [getExpireTime] at later
        simp [queued, getExpireTime, later]
      rw [first]
      refine ⟨inserted, ?_⟩
      exact ((p.links.touches_setPrev self _).trans (Links.touches_setNext _ self _)).trans
        (Links.touches_setPrev _ (sub mem_cons_self) _)
    · rename_i sooner
      have first : p.queued c (head :: ws) = head :: p.queued c ws := by
        simp only [getExpireTime] at sooner
        simp [queued, getExpireTime, sooner]
      obtain ⟨front, back, split, queued_eq, stop⟩ :=
        p.queued_eq c rest (Nat.lt_of_succ_lt short)
      rw [first, queued_eq, next, stop]
      subst split
      cases back with
      | nil =>
        have tail : p.waitReplyTail ≠ none := by simp [list.tail]
        have pushed := list.pushBack out
        rw [if_neg tail, list.head, append_nil] at pushed
        refine ⟨pushed, ?_⟩
        have last : ∀ x ∈ p.waitReplyTail, x ∈ c :: head :: (front ++ []) := by
          intro x hx
          rw [list.tail] at hx
          exact sub (mem_of_getLast? hx)
        exact ((p.links.touches_setPrev self _).trans (Links.touches_setNext _ self _)).trans
          (Links.touches_setNextOf _ last _)
      | cons y ys =>
        have inserted := Links.DList.insert
          (show p.links.DList _ _ ((head :: front) ++ y :: ys) from list) out
        rw [if_neg (cons_ne_nil _ _), list.head] at inserted
        refine ⟨inserted, ?_⟩
        have before : ∀ x ∈ p.links.prev y, x ∈ c :: head :: (front ++ y :: ys) := by
          intro x hx
          obtain ⟨-, ⟨prev, -⟩, -⟩ :=
            Links.DList.at_node (show p.links.DList _ _ ((head :: front) ++ y :: ys) from list)
          rw [prev] at hx
          exact sub (mem_append_left _ (mem_of_getLast? hx))
        exact (((p.links.touches_setPrev self _).trans (Links.touches_setNext _ self _)).trans
          (Links.touches_setNextOf _ before _)).trans (Links.touches_setPrev _ (by simp) _)

/-- What `getTimeoutList` does along the way. -/
theorem foldl_forget (passed : List ChannelRef) : passed.foldl forget p =
      { p with
        waitReplyMap := fun id =>
          if id ∈ passed.map (fun c => (p.channel c).id) then none else p.waitReplyMap id
        useCount := p.useCount - .ofNat 32 passed.length } := by
  induction passed generalizing p with
  | nil => simp
  | cons c cs ih =>
    rw [foldl_cons, ih]
    simp only [forget, length_cons, mk.injEq, true_and]
    constructor
    · funext id
      by_cases same : id = (p.channel c).id
      · simp [same]
      · simp [same, Function.update_of_ne]
    · bv_omega

/-- The channels that have expired are those at the start of the waiting list. -/
def expired (p : ChannelPool η α) (now : Int) (waiting : List ChannelRef) : List ChannelRef :=
  waiting.takeWhile fun c => !p.notExpired now c

def remaining (p : ChannelPool η α) (now : Int) (waiting : List ChannelRef) : List ChannelRef :=
  waiting.dropWhile fun c => !p.notExpired now c

theorem cutBefore_list {p : ChannelPool η α} {head : ChannelRef} {passed rest : List ChannelRef}
    (list : p.links.DList (some head) p.waitReplyTail (passed ++ rest)) 
    (start : p.waitReplyHead = some head) :
    (p.cutBefore head rest.head?).1 = passed.head? ∧
      (p.cutBefore head rest.head?).2.links.DList (p.cutBefore head rest.head?).2.waitReplyHead
        (p.cutBefore head rest.head?).2.waitReplyTail rest ∧
      (p.cutBefore head rest.head?).2.links.Span none passed none ∧
      p.links.Touches (p.cutBefore head rest.head?).2.links (passed ++ rest) := by
  have first := list.head
  unfold cutBefore
  cases rest with
  | nil =>
    rw [append_nil] at list first
    exact ⟨first, .nil, list.span, .refl _ _⟩
  | cons c cs =>
    cases passed with
    | nil =>
      obtain rfl : head = c := Option.some.inj first
      rw [head?_cons, if_pos rfl]
      refine ⟨rfl, ?_, trivial, .refl _ _⟩
      rw [start]
      exact list
    | cons x xs =>
      obtain rfl : head = x := Option.some.inj first
      obtain ⟨-, ⟨prev, -⟩, out, -⟩ := list.at_node
      have ne : some c ≠ some head := fun e => out (Option.some.inj e ▸ mem_cons_self)
      obtain ⟨detached, kept⟩ := list.splitAt
      rw [head?_cons, if_neg ne]
      refine ⟨rfl, kept, detached, ?_⟩
      refine (p.links.touches_setNextOf ?_ _).trans (Links.touches_setPrev _ (by simp) _)
      intro y hy
      rw [prev] at hy
      exact mem_append_left _ (mem_of_getLast? hy)

theorem cutBefore_fields (head : ChannelRef) (channel : Option ChannelRef) :
    (p.cutBefore head channel).2 =
      { p with
        links := (p.cutBefore head channel).2.links
        waitReplyHead := (p.cutBefore head channel).2.waitReplyHead
        waitReplyTail := (p.cutBefore head channel).2.waitReplyTail } := by
  unfold cutBefore
  split
  · rfl
  · split <;> rfl

theorem enqueue_fields (c : ChannelRef) : p.enqueue c =
      { p with
        links := (p.enqueue c).links
        waitReplyHead := (p.enqueue c).waitReplyHead
        waitReplyTail := (p.enqueue c).waitReplyTail } := by
  unfold enqueue
  split
  · rfl
  · split
    · rfl
    · dsimp only
      split <;> rfl

/-- `getTimeoutList` on a waiting list that is known. -/
theorem getTimeoutList_spec {p : ChannelPool η α} (now : Int)
    (list : p.links.DList p.waitReplyHead p.waitReplyTail waiting)
    (short : waiting.length < p.rounds) :
    (p.getTimeoutList now).1 = (p.expired now waiting).head? ∧
    ∃ links head tail,
      (p.getTimeoutList now).2 =
        { (p.expired now waiting).foldl forget p with
          links, waitReplyHead := head, waitReplyTail := tail } ∧
      links.DList head tail (p.remaining now waiting) ∧
      links.Span none (p.expired now waiting) none ∧
      p.links.Touches links waiting := by
  have whole : waiting = p.expired now waiting ++ p.remaining now waiting :=
    (takeWhile_append_dropWhile ..).symm
  have stop : p.links.walk (p.notExpired now) p.rounds waiting.head? =
      (p.expired now waiting, (p.remaining now waiting).head?) := list.span.walk_eq _ short
  unfold getTimeoutList
  rw [← list.head] at stop
  cases e : p.waitReplyHead with
  | none =>
    have empty := head?_eq_none_iff.mp (list.head.symm.trans e)
    subst empty
    exact ⟨rfl, p.links, p.waitReplyHead, p.waitReplyTail, rfl, list, trivial, .refl _ _⟩
  | some head =>
    rw [e] at stop
    simp only [stop]
    rw [whole, e] at list
    have cut := cutBefore_list (p := (p.expired now waiting).foldl forget p)
      (by rw [foldl_forget]; exact list) (by rw [foldl_forget]; exact e)
    refine ⟨cut.1, _, _, _, cutBefore_fields .., cut.2.1, cut.2.2.1, ?_⟩
    have touches := cut.2.2.2
    rw [foldl_forget, ← whole] at touches
    rw [foldl_forget]
    exact touches

end ChannelPool

end AgentEngine.Anet
