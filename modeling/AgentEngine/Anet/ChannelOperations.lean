import AgentEngine.Anet.ChannelHoldings

/-!
What the operations of a channel pool do to its holdings, one lemma for each.
-/

namespace AgentEngine.Anet
open Lib Function Holdings
open scoped List

/-- Give a channel that was handed out back. -/
def Holdings.recycle (h : Holdings) (c : ChannelRef) : Holdings where
  free := h.free ++ [c]
  handed := h.handed.erase c
  waiting := h.waiting.erase c
  detached := h.detached

/-- Detach the waiting channels `passed` from the rest of them. -/
def Holdings.detach (h : Holdings) (passed rest : List ChannelRef) : Holdings where
  free := h.free
  handed := h.handed.filter (· ∉ passed)
  waiting := rest
  detached := if passed = [] then h.detached else passed :: h.detached

/-- Give a detached list back. -/
def Holdings.giveBack (h : Holdings) (d : List ChannelRef) : Holdings where
  free := h.free ++ d
  handed := h.handed
  waiting := h.waiting
  detached := h.detached.erase d

namespace ChannelPool

variable {η α : Type}

/-! ### Operations that leave the fields of the channels alone -/

section

variable (p : ChannelPool η α)
include p

variable (c : ChannelRef)

theorem addToWaitingList_channel : (p.addToWaitingList c).channel = p.channel := by
  unfold addToWaitingList
  split
  · rfl
  · rw [enqueue_fields]

theorem freeChannel_channel : (p.freeChannel (some c)).2.channel = p.channel := by
  simp only [freeChannel]
  split <;> rfl

theorem appendFreeList_channel (list : Option ChannelRef) :
    (p.appendFreeList list).channel = p.channel := by
  cases list <;> rfl

theorem queued_perm (waiting : List ChannelRef) : (p.queued c waiting).Perm (c :: waiting) := by
  refine List.perm_middle.trans (.cons c ?_)
  rw [List.takeWhile_append_dropWhile]

end

theorem mem_queued {p : ChannelPool η α} {c x : ChannelRef} {waiting : List ChannelRef} :
    x ∈ p.queued c waiting ↔ x = c ∨ x ∈ waiting := by
  rw [(p.queued_perm c waiting).mem_iff, List.mem_cons]

namespace Holds

variable {p : ChannelPool η α} {h : Holdings} (hp : p.Holds h)

include hp

theorem apart : Apart h where
  waiting_free _ hc hc' := hp.not_waiting_of_free hc' hc
  detached_free _ hd _ hc hc' := hp.not_detached_of_free hd hc' hc
  detached_waiting _ hd c hc hc' := hp.not_detached_of_handed hd (hp.handedOut c hc') hc

/-- Two waiting channels with one id are one channel. -/
theorem eq_of_id {c c' : ChannelRef} (hc : c ∈ h.waiting) (hc' : c' ∈ h.waiting)
    (same : (p.channel c).id = (p.channel c').id) : c = c' := by
  have first := (hp.map _ c).mpr ⟨hc, rfl⟩
  have second := (hp.map _ c').mpr ⟨hc', rfl⟩
  rw [same] at first
  exact Option.some.inj (first.symm.trans second)

variable {c : ChannelRef}

/-- What `freeChannel` does to the waiting list before it recycles the channel. -/
theorem unwait (hc : c ∈ h.handed) (safe : 0 ≤ p.getExpireTime c) : ∃ p' : ChannelPool η α,
      (if p.getExpireTime c > 0 then p.freeWaitingChannel c else p) = p' ∧
      p'.Threads { h with waiting := h.waiting.erase c } ∧
      (∀ id x, p'.waitReplyMap id = some x ↔ x ∈ h.waiting.erase c ∧ (p.channel x).id = id) ∧
      p'.channel = p.channel ∧ p'.clusters = p.clusters ∧ p'.useCount = p.useCount := by
  refine ⟨_, rfl, ?_⟩
  by_cases waits : c ∈ h.waiting
  · have positive : p.getExpireTime c > 0 :=
      Int.lt_iff_le_and_ne.mpr ⟨safe, Ne.symm ((hp.expire c hc).mp waits)⟩
    rw [if_pos positive]
    refine ⟨hp.toThreads.freeWaitingChannel hp.apart waits, ?_, rfl, rfl, rfl⟩
    intro id x
    rw [hp.waitingList.nodup.mem_erase_iff, and_assoc, ← hp.map]
    by_cases same : id = (p.channel c).id
    · subst same
      simp only [freeWaitingChannel, update_self, reduceCtorEq, false_iff, not_and]
      rw [(hp.map _ c).mpr ⟨waits, rfl⟩]
      exact fun ne e => ne (Option.some.inj e).symm
    · simp only [freeWaitingChannel, update_of_ne same, iff_and_self]
      rintro found rfl
      exact same ((hp.map _ _).mp found).2.symm
  · have zero : ¬ p.getExpireTime c > 0 := by
      rw [not_not.mp (mt (hp.expire c hc).mpr waits)]
      exact Int.lt_irrefl 0
    rw [if_neg zero, List.erase_of_not_mem waits]
    exact ⟨hp.toThreads, hp.map, rfl, rfl, rfl⟩

theorem freeChannel (hc : c ∈ h.handed) (safe : 0 ≤ p.getExpireTime c) :
    (p.freeChannel (some c)).2.Holds (h.recycle c) := by
  obtain ⟨p', unwaited, threads, map, channel, clusters, useCount⟩ := hp.unwait hc safe
  have moved : (h.recycle c).all.Perm h.all := by
    apply List.Perm.append_right
    rw [recycle, List.append_assoc]
    exact (List.perm_cons_erase hc).symm.append_left h.free
  have apart' : Apart { h with waiting := h.waiting.erase c } :=
    ⟨fun x hx => hp.apart.waiting_free x (List.mem_of_mem_erase hx), hp.apart.detached_free,
      fun d hd x hx hx' => hp.apart.detached_waiting d hd x hx (List.mem_of_mem_erase hx')⟩
  have recycled := threads.recycleChannel apart' (fun hf => hp.not_handed_of_free hf hc)
    hp.waitingList.nodup.not_mem_erase (fun d hd => hp.not_detached_of_handed hd hc)
  simp only [ChannelPool.freeChannel, unwaited]
  refine ⟨⟨recycled.1, recycled.2, recycled.3⟩, ?_, ?_, ?_, ?_, ?_⟩
  · exact moved.trans (clusters ▸ hp.everyChannel)
  · intro x hx
    have kept := hp.waitingList.nodup.mem_erase_iff.mp hx
    exact hp.handed_nodup.mem_erase_iff.mpr ⟨kept.1, hp.handedOut x kept.2⟩
  · intro id x
    change p'.waitReplyMap id = some x ↔ x ∈ h.waiting.erase c ∧ (p'.channel x).id = id
    rw [channel]
    exact map id x
  · change p'.useCount - 1 = .ofNat 32 (h.handed.erase c).length
    rw [useCount, hp.useCount, List.length_erase_of_mem hc]
    have := List.length_pos_of_mem hc
    bv_omega
  · intro x hx
    obtain ⟨ne, hx⟩ := hp.handed_nodup.mem_erase_iff.mp hx
    change x ∈ h.waiting.erase c ↔ (p'.channel x).expireTime ≠ 0
    rw [channel, hp.waitingList.nodup.mem_erase_iff, and_iff_right ne]
    exact hp.expire x hx

variable {f : Channel η α → Channel η α}

/-- The handler, the arguments and the id of a channel that does not wait may change. -/
theorem modify (out : c ∉ h.waiting)
    (idle : (f (p.channel c)).expireTime = 0) : (p.modify c f).Holds h := by
  have other : ∀ x ∈ h.waiting, (p.modify c f).channel x = p.channel x := by
    intro x hx
    have ne : x ≠ c := fun e => out (e ▸ hx)
    exact update_of_ne ne ..
  refine ⟨⟨hp.freeList, hp.waitingList, hp.detachedList⟩, hp.everyChannel, hp.handedOut, ?_,
    hp.useCount, ?_⟩
  · intro id x
    refine (hp.map id x).trans (and_congr_right fun hx => ?_)
    rw [other x hx]
  · intro x hx
    by_cases same : x = c
    · subst same
      simp [out, getExpireTime, ChannelPool.modify, idle]
    · rw [hp.expire x hx]
      simp [getExpireTime, ChannelPool.modify, update_of_ne same]

/-- A channel starts to wait once its expire time is set. -/
theorem addToWaitingList (hc : c ∈ h.handed)
    (out : c ∉ h.waiting) (fresh : p.findChannel (p.channel c).id = none)
    (keeps : (f (p.channel c)).id = (p.channel c).id) (expires : (f (p.channel c)).expireTime ≠ 0) :
    ((p.modify c f).addToWaitingList c).Holds
      { h with waiting := (p.modify c f).queued c h.waiting } := by
  have self : (p.modify c f).channel c = f (p.channel c) := update_self ..
  have other : ∀ x ≠ c, (p.modify c f).channel x = p.channel x := fun x ne =>
    update_of_ne ne ..
  have id_eq : ∀ x, ((p.modify c f).channel x).id = (p.channel x).id := by
    intro x
    by_cases same : x = c
    · rw [same, self, keeps]
    · rw [other x same]
  have linked := enqueue_list
    (p := { p.modify c f with
            waitReplyMap := update p.waitReplyMap (p.channel c).id (some c) })
    hp.waitingList out hp.waiting_lt_rounds
  have touched : ∀ xs : List ChannelRef, (∀ x ∈ xs, x ∉ h.handed) → ∀ x ∈ xs, x ∉ c :: h.waiting := by
    intro xs outside x hx
    refine List.not_mem_cons_of_ne_of_not_mem (fun e => outside x hx (e ▸ hc)) ?_
    exact fun hw => outside x hx (hp.handedOut x hw)
  have added : (p.modify c f).addToWaitingList c =
      { p.modify c f with
        waitReplyMap := update p.waitReplyMap (p.channel c).id (some c) }.enqueue c := by
    rw [ChannelPool.addToWaitingList, if_neg (by rw [getExpireTime, self]; exact expires), self,
      keeps]
    rfl
  rw [added, enqueue_fields]
  refine ⟨⟨hp.freeList.of_touches linked.2 (touched _ fun x => hp.not_handed_of_free), linked.1, ?_⟩,
    hp.everyChannel, ?_, ?_, hp.useCount, ?_⟩
  · intro d hd
    refine ⟨(hp.detachedList d hd).1, (hp.detachedList d hd).2.of_touches linked.2 ?_⟩
    exact touched d fun x hx hx' => hp.not_detached_of_handed hd hx' hx
  · intro x hx
    rcases mem_queued.mp hx with rfl | hx
    · exact hc
    · exact hp.handedOut x hx
  · intro id x
    change update p.waitReplyMap (p.channel c).id (some c) id = some x ↔
      x ∈ (p.modify c f).queued c h.waiting ∧ ((p.modify c f).channel x).id = id
    rw [mem_queued, id_eq]
    by_cases same : id = (p.channel c).id
    · subst same
      have nobody : ¬ (x ∈ h.waiting ∧ (p.channel x).id = (p.channel c).id) := by
        rw [← hp.map, show p.waitReplyMap _ = none from fresh]
        exact fun e => by cases e
      rw [update_self, Option.some.injEq]
      constructor
      · rintro rfl
        exact ⟨.inl rfl, rfl⟩
      · rintro ⟨rfl | hx, e⟩
        · rfl
        · exact absurd ⟨hx, e⟩ nobody
    · rw [update_of_ne same, hp.map]
      constructor
      · rintro ⟨hx, e⟩
        exact ⟨.inr hx, e⟩
      · rintro ⟨rfl | hx, e⟩
        · exact absurd e.symm same
        · exact ⟨hx, e⟩
  · intro x hx
    change x ∈ (p.modify c f).queued c h.waiting ↔ ((p.modify c f).channel x).expireTime ≠ 0
    rw [mem_queued]
    by_cases same : x = c
    · subst same
      rw [self]
      exact ⟨fun _ => expires, fun _ => .inl rfl⟩
    · rw [other x same, or_iff_right same]
      exact hp.expire x hx

section Detach

variable {passed rest : List ChannelRef} (whole : h.waiting = passed ++ rest)

include whole

theorem handed_of_passed : ∀ x ∈ passed, x ∈ h.handed := by
  intro x hx
  apply hp.handedOut
  rw [whole]
  exact List.mem_append_left _ hx

theorem not_passed_of_rest : ∀ x ∈ rest, x ∉ passed := by
  have nodup := hp.waitingList.nodup
  rw [whole] at nodup
  exact fun x hx hx' => (List.nodup_append.mp nodup).2.2 x hx' x hx rfl

theorem handed_perm : h.handed.Perm (passed ++ h.handed.filter (· ∉ passed)) := by
  have nodup : (passed ++ h.handed.filter (· ∉ passed)).Nodup := by
    have sorted := hp.waitingList.nodup
    rw [whole] at sorted
    refine List.nodup_append.mpr ⟨(List.nodup_append.mp sorted).1, hp.handed_nodup.filter _, ?_⟩
    rintro x hx y hy rfl
    exact of_decide_eq_true (List.mem_filter.mp hy).2 hx
  apply (List.perm_ext_iff_of_nodup hp.handed_nodup nodup).mpr
  intro x
  rw [List.mem_append, List.mem_filter, decide_eq_true_iff]
  constructor
  · intro hx
    by_cases hx' : x ∈ passed
    · exact .inl hx'
    · exact .inr ⟨hx, hx'⟩
  · rintro (hx | hx)
    · exact hp.handed_of_passed whole x hx
    · exact hx.1

theorem detach_all : (h.detach passed rest).all.Perm h.all := by
  have flat : (h.detach passed rest).detached.flatten = passed ++ h.detached.flatten := by
    by_cases none_passed : passed = []
    · simp [detach, none_passed]
    · simp [detach, none_passed]
  have moved := (hp.handed_perm whole).symm.append_right h.detached.flatten
  rw [all, flat, all, detach, List.append_assoc, List.append_assoc]
  refine List.Perm.append_left h.free (List.Perm.trans ?_ moved)
  rw [← List.append_assoc]
  exact List.perm_append_comm.append_right _

theorem detach {links : Links ChannelRef} {head tail : Option ChannelRef}
    (kept : links.DList head tail rest) (cut : links.Span none passed none)
    (touches : p.links.Touches links h.waiting) :
    Holds { passed.foldl forget p with links, waitReplyHead := head, waitReplyTail := tail }
      (h.detach passed rest) := by
  rw [foldl_forget]
  refine ⟨⟨hp.freeList.of_touches touches fun x => hp.not_waiting_of_free, kept, ?_⟩,
    (hp.detach_all whole).trans hp.everyChannel, ?_, ?_, ?_, ?_⟩
  · intro d hd
    have old : ∀ d ∈ h.detached, d ≠ [] ∧ links.Span none d none := by
      intro d hd
      exact ⟨(hp.detachedList d hd).1,
        (hp.detachedList d hd).2.of_touches touches (hp.apart.detached_waiting d hd)⟩
    simp only [Holdings.detach] at hd
    split at hd
    · exact old d hd
    · rename_i some_passed
      rcases List.mem_cons.mp hd with rfl | hd
      · exact ⟨some_passed, cut⟩
      · exact old d hd
  · intro x hx
    refine List.mem_filter.mpr ⟨?_, decide_eq_true (hp.not_passed_of_rest whole x hx)⟩
    apply hp.handedOut
    rw [whole]
    exact List.mem_append_right _ hx
  · intro id x
    dsimp only [Holdings.detach]
    split
    · rename_i forgotten
      obtain ⟨c, hc, rfl⟩ := List.mem_map.mp forgotten
      refine ⟨nofun, ?_⟩
      rintro ⟨hx, same⟩
      have : x = c := hp.eq_of_id (by rw [whole]; exact List.mem_append_right _ hx)
        (by rw [whole]; exact List.mem_append_left _ hc) same
      exact absurd (this ▸ hc) (hp.not_passed_of_rest whole x hx)
    · rename_i kept
      rw [hp.map, whole, List.mem_append]
      constructor
      · rintro ⟨hx | hx, rfl⟩
        · exact absurd (List.mem_map_of_mem hx) kept
        · exact ⟨hx, rfl⟩
      · exact fun ⟨hx, e⟩ => ⟨.inr hx, e⟩
  · have := (hp.handed_perm whole).length_eq
    rw [List.length_append] at this
    have old := hp.useCount
    simp only [Holdings.detach]
    bv_omega
  · intro x hx
    obtain ⟨hx, out⟩ := List.mem_filter.mp hx
    refine Iff.trans ?_ (hp.expire x hx)
    rw [whole, List.mem_append, or_iff_right (of_decide_eq_true out)]
    rfl

end Detach

/-- The expired channels are detached, and the first of them is returned. -/
theorem getTimeoutList (now : Int) :
    (p.getTimeoutList now).1 = (p.expired now h.waiting).head? ∧
      (p.getTimeoutList now).2.Holds
        (h.detach (p.expired now h.waiting) (p.remaining now h.waiting)) ∧
      (p.getTimeoutList now).2.channel = p.channel := by
  obtain ⟨first, links, head, tail, fields, kept, cut, touches⟩ :=
    getTimeoutList_spec now hp.waitingList hp.waiting_lt_rounds
  have whole : h.waiting = p.expired now h.waiting ++ p.remaining now h.waiting :=
    (List.takeWhile_append_dropWhile ..).symm
  refine ⟨first, ?_, ?_⟩
  · rw [fields]
    exact hp.detach whole kept cut touches
  · rw [fields, foldl_forget]

theorem appendFreeList {d : List ChannelRef} (hd : d ∈ h.detached) :
    (p.appendFreeList d.head?).Holds (h.giveBack d) := by
  have flat : h.detached.flatten.Perm (d ++ (h.detached.erase d).flatten) :=
    (List.perm_cons_erase hd).flatten
  have nodup := flat.nodup_iff.mp (List.nodup_append.mp hp.nodup).2.1
  have others : ∀ d' ∈ h.detached.erase d, ∀ c ∈ d', c ∉ d := fun d' hd' c hc hc' =>
    (List.nodup_append.mp nodup).2.2 c hc' c (List.mem_flatten_of_mem hd' hc) rfl
  have threads := hp.toThreads.appendFreeList hp.apart hd others (hp.detached_lt_rounds hd)
  have moved : (h.giveBack d).all.Perm h.all := by
    rw [all, all, giveBack, List.append_assoc, List.append_assoc, List.append_assoc]
    refine List.Perm.append_left h.free (List.Perm.trans ?_ (flat.symm.append_left h.handed))
    rw [← List.append_assoc, ← List.append_assoc]
    exact List.perm_append_comm.append_right _
  obtain ⟨list, rest, rfl⟩ := List.exists_cons_of_ne_nil (hp.detachedList d hd).1
  exact ⟨threads, moved.trans hp.everyChannel, hp.handedOut, hp.map, hp.useCount, hp.expire⟩

/-- What the two branches of `allocChannel` have in common: a channel `c` is taken out. -/
structure Takes (p : ChannelPool η α) (h : Holdings) (c : ChannelRef) (free : List ChannelRef)
    (p' : ChannelPool η α) : Prop where
  threads : p'.Threads { h with free }
  everyChannel : (free ++ c :: h.handed ++ h.detached.flatten).Perm
    (List.range (CHANNEL_CLUSTER_SIZE * p'.clusters))
  map : p'.waitReplyMap = p.waitReplyMap
  useCount : p'.useCount = p.useCount
  channel : ∀ x ∈ h.all, p'.channel x = p.channel x

theorem allocFree {cs : List ChannelRef} (hc : h.free = c :: cs) :
    Takes p h c cs (p.allocFree c).2 := by
  have list := hp.freeList
  rw [hc] at list
  have touches : p.links.Touches (p.allocFree c).2.links h.free := by
    refine p.links.touches_setPrevOf ?_ _
    intro x hx
    rw [list.popFront.2.head] at hx
    rw [hc]
    exact List.mem_cons_of_mem c (List.mem_of_head? hx)
  refine ⟨⟨list.popFront.2, hp.waitingList.of_touches touches hp.apart.waiting_free, ?_⟩, ?_, rfl,
    rfl, fun _ _ => rfl⟩
  · intro d hd
    exact ⟨(hp.detachedList d hd).1,
      (hp.detachedList d hd).2.of_touches touches (hp.apart.detached_free d hd)⟩
  · refine List.Perm.trans (List.Perm.append_right _ ?_) hp.everyChannel
    rw [hc]
    exact List.perm_middle

omit hp in
/-- New channels are initialised; nothing else happens. -/
theorem foldl_init (p : ChannelPool η α) (cs : List ChannelRef) :
    ∃ links channel, cs.foldl (fun p c => p.init c 0) p = { p with links, channel } ∧
      p.links.Touches links cs ∧ ∀ x ∉ cs, channel x = p.channel x := by
  induction cs generalizing p with
  | nil => exact ⟨p.links, p.channel, rfl, .refl _ _, fun _ _ => rfl⟩
  | cons c cs ih =>
    obtain ⟨links, channel, fields, touches, same⟩ := ih (p.init c 0)
    refine ⟨links, channel, fields, ?_, ?_⟩
    · have here : p.links.Touches (p.init c 0).links (c :: cs) :=
        (p.links.touches_setPrev (List.mem_cons_self) _).trans
          (Links.touches_setNext _ (List.mem_cons_self) _)
      exact here.trans (touches.mono fun x hx => List.mem_cons_of_mem c hx)
    · intro x hx
      obtain ⟨ne, hx⟩ := not_or.mp (mt List.mem_cons.mpr hx)
      exact (same x hx).trans (update_of_ne ne ..)

omit hp in
/-- The links of a new cluster: its channels but for the first are one list. -/
theorem allocCluster_links (p : ChannelPool η α) {base : ChannelRef}
    (hbase : CHANNEL_CLUSTER_SIZE * p.clusters = base) :
    ∃ links channel tail,
      p.allocCluster.2 =
        { p with
          clusters := p.clusters + 1
          links
          channel
          freeListHead := some (base + 1)
          freeListTail := some tail } ∧
      links.DList (some (base + 1)) (some tail)
        (List.range' (base + 1) (CHANNEL_CLUSTER_SIZE - 1)) ∧
      p.links.Touches links (List.range' base CHANNEL_CLUSTER_SIZE) ∧
      ∀ x < base, channel x = p.channel x := by
  obtain ⟨links, channel, fields, touches, same⟩ :=
    foldl_init p (List.range' base CHANNEL_CLUSTER_SIZE)
  have new : List.range' (base + 1) (CHANNEL_CLUSTER_SIZE - 1) =
      (base + 1) :: List.range' (base + 2) (CHANNEL_CLUSTER_SIZE - 2) := rfl
  have nodup : ((base + 1) :: List.range' (base + 2) (CHANNEL_CLUSTER_SIZE - 2)).Nodup :=
    new ▸ List.nodup_range'
  obtain ⟨linked, last, span⟩ := links.chain_span (base + 1) _ nodup
  have cleared := (span.relinkPrev nodup none).relinkNext nodup none
  rw [← last] at cleared
  have inside : ∀ x ∈ (base + 1) :: List.range' (base + 2) (CHANNEL_CLUSTER_SIZE - 2),
      x ∈ List.range' base CHANNEL_CLUSTER_SIZE := fun x hx => List.mem_cons_of_mem base hx
  refine ⟨_, channel, _, ?_, ⟨rfl, last, cleared⟩, ?_, ?_⟩
  · simp only [ChannelPool.allocCluster, newCluster, hbase, fields]
    rfl
  · refine ((touches.trans (linked.mono inside)).trans (Links.touches_setPrevOf _ ?_ _)).trans
      (Links.touches_setNextOf _ ?_ _)
    · intro x hx
      exact inside x (List.mem_of_head? hx)
    · intro x hx
      rw [last] at hx
      exact inside x (List.mem_of_getLast? hx)
  · intro x hx
    apply same
    rw [List.mem_range'_1]
    exact fun inside => absurd inside.1 (Nat.not_le.mpr hx)

theorem allocCluster (none_free : h.free = []) :
    Takes p h (CHANNEL_CLUSTER_SIZE * p.clusters)
      (List.range' (CHANNEL_CLUSTER_SIZE * p.clusters + 1) (CHANNEL_CLUSTER_SIZE - 1))
      p.allocCluster.2 := by
  obtain ⟨base, hbase⟩ : ∃ n, CHANNEL_CLUSTER_SIZE * p.clusters = n := ⟨_, rfl⟩
  obtain ⟨links, channel, tail, fields, list, touches, same⟩ := allocCluster_links p hbase
  have old : ∀ x ∈ h.all, x < base := fun x hx => hbase ▸ hp.mem_all.mp hx
  have outside : ∀ x ∈ h.all, x ∉ List.range' base CHANNEL_CLUSTER_SIZE := by
    intro x hx
    rw [List.mem_range'_1]
    exact fun inside => absurd inside.1 (Nat.not_le.mpr (old x hx))
  rw [fields, hbase]
  refine ⟨⟨list, hp.waitingList.of_touches touches ?_, ?_⟩, ?_, rfl, rfl, ?_⟩
  · intro x hx
    exact outside x (List.mem_append_left _ (List.mem_append_right _ (hp.handedOut x hx)))
  · intro d hd
    refine ⟨(hp.detachedList d hd).1, (hp.detachedList d hd).2.of_touches touches ?_⟩
    intro x hx
    exact outside x (List.mem_append_right _ (List.mem_flatten_of_mem hd hx))
  · have every := hp.everyChannel
    rw [all, none_free, List.nil_append, hbase] at every
    have grown : List.range (CHANNEL_CLUSTER_SIZE * (p.clusters + 1)) =
        List.range base ++ List.range' base CHANNEL_CLUSTER_SIZE := by
      rw [Nat.mul_succ, hbase, List.range_add, List.range'_eq_map_range]
    rw [grown]
    calc _ ++ base :: h.handed ++ h.detached.flatten
      _ = _ ++ base :: (h.handed ++ h.detached.flatten) := List.append_assoc ..
      _ ~ base :: (_ ++ (h.handed ++ h.detached.flatten)) := List.perm_middle
      _ ~ List.range' base CHANNEL_CLUSTER_SIZE ++ List.range base := every.append_left (base :: _)
      _ ~ _ := List.perm_append_comm
  · intro x hx
    exact same x (old x hx)

theorem takeChannel : ∃ c free p', p.takeChannel = (c, p') ∧ Takes p h c free p' := by
  rw [ChannelPool.takeChannel, hp.freeList.head]
  cases e : h.free with
  | nil => exact ⟨_, _, _, rfl, hp.allocCluster e⟩
  | cons c cs => exact ⟨_, _, _, rfl, hp.allocFree e⟩

/-- A channel is handed out with nothing but an id. -/
theorem allocChannel (chid counter : BitVec 64) :
    ∃ c free,
      (p.allocChannel chid counter).1 = c ∧
      (p.allocChannel chid counter).2.1.Holds { h with free, handed := c :: h.handed } ∧
      (p.allocChannel chid counter).2.1.channel c = { id := (createChannelId chid counter).1 } ∧
      ∀ x, x ∈ h.handed ∨ x ∈ h.detached.flatten →
        (p.allocChannel chid counter).2.1.channel x = p.channel x := by
  obtain ⟨c, free, p', taken, takes⟩ := hp.takeChannel
  obtain ⟨threads, everyChannel, map, useCount, channel⟩ := takes
  obtain ⟨nodup, -, apart⟩ :=
    List.nodup_append.mp (everyChannel.nodup_iff.mpr List.nodup_range)
  obtain ⟨-, nodup, apart'⟩ := List.nodup_append.mp nodup
  have not_free : ∀ x ∈ free, x ∉ [c] := fun x hx e =>
    apart' x hx c (List.mem_cons_self) (List.mem_singleton.mp e)
  have not_handed : ∀ x ∈ h.handed, x ≠ c := fun x hx e =>
    (List.nodup_cons.mp nodup).1 (e ▸ hx)
  have not_detached : ∀ d ∈ h.detached, ∀ x ∈ d, x ∉ [c] := fun d hd x hx e =>
    apart c (List.mem_append_right _ (List.mem_cons_self)) x (List.mem_flatten_of_mem hd hx)
      (List.mem_singleton.mp e).symm
  have not_waiting : ∀ x ∈ h.waiting, x ≠ c := fun x hx => not_handed x (hp.handedOut x hx)
  have touches : ∀ id, p'.links.Touches (p'.init c id).links [c] := fun id =>
    (p'.links.touches_setPrev (List.mem_singleton_self c) _).trans
      (Links.touches_setNext _ (List.mem_singleton_self c) _)
  simp only [ChannelPool.allocChannel, taken]
  obtain ⟨id, hid⟩ : ∃ id, (createChannelId chid counter).1 = id := ⟨_, rfl⟩
  rw [hid]
  have self : (p'.init c id).channel c = { id } := update_self ..
  have other : ∀ x, x ∈ h.handed ∨ x ∈ h.detached.flatten →
      (p'.init c id).channel x = p.channel x := by
    rintro x (hx | hx)
    · exact (update_of_ne (not_handed x hx) ..).trans
        (channel x (List.mem_append_left _ (List.mem_append_right _ hx)))
    · obtain ⟨d, hd, hx'⟩ := List.mem_flatten.mp hx
      have ne : x ≠ c := fun e => not_detached d hd x hx' (List.mem_singleton.mpr e)
      exact (update_of_ne ne ..).trans (channel x (List.mem_append_right _ hx))
  refine ⟨c, free, rfl, ?_, self, other⟩
  refine ⟨⟨threads.freeList.of_touches (touches id) not_free,
    threads.waitingList.of_touches (touches id) ?_, ?_⟩, everyChannel, ?_, ?_, ?_, ?_⟩
  · exact fun x hx e => not_waiting x hx (List.mem_singleton.mp e)
  · intro d hd
    exact ⟨(hp.detachedList d hd).1,
      (threads.detachedList d hd).2.of_touches (touches id) (not_detached d hd)⟩
  · exact fun x hx => List.mem_cons_of_mem c (hp.handedOut x hx)
  · intro id' x
    change p'.waitReplyMap id' = some x ↔ x ∈ h.waiting ∧ ((p'.init c id).channel x).id = id'
    rw [map, hp.map]
    refine and_congr_right fun hx => ?_
    rw [other x (.inl (hp.handedOut x hx))]
  · change p'.useCount + 1 = .ofNat 32 (c :: h.handed).length
    rw [useCount, hp.useCount, List.length_cons, BitVec.ofNat_add]
    rfl
  · intro x hx
    change x ∈ h.waiting ↔ ((p'.init c id).channel x).expireTime ≠ 0
    rcases List.mem_cons.mp hx with rfl | hx
    · rw [self]
      exact ⟨fun hx' => absurd rfl (not_waiting x hx'), fun ne => absurd rfl ne⟩
    · rw [other x (.inl hx)]
      exact hp.expire x hx

end Holds

end ChannelPool

end AgentEngine.Anet
