import AgentEngine.Anet.Transport

/-!
Every reference to a component is accounted for.

`Listed` describes the workers' lists: they are linked both ways, and hold just those components whose
last command was `TC_ADD_IOC`. `Accounts` says where the references of a component are. Both are kept
by everything that happens to a transport (`Kept.step`); when it is closed, the lists are walked
through and given up, the commands that are left are dropped, and what remains are the references of
others (`refcount_closeComponents`).
-/

namespace AgentEngine.Anet

open Lib List Function

namespace Transport

variable {ι : Type} [DecidableEq ι] {k : Nat} {t : Transport ι k}

/-! ### References -/

section References

/-- How often a component is in a list of commands. -/
def commandsFor (c : ι) (commands : List (CommandType × ι)) : Nat := (commands.map Prod.snd).count c

/-- The number of commands for a component that no worker has processed. -/
def pending (t : Transport ι k) (c : ι) : Nat := tally (commandsFor c) t.commands

/-- The number of entries of a component in the lists of the timeout thread. -/
def checks (t : Transport ι k) (c : ι) : Nat := t.checkingList.count c + t.newCheckingList.count c

/-- The references to each component, of which `listed` are those of the workers' lists. -/
def Accounts (t : Transport ι k) (listed : ι → Nat) : Prop :=
  ∀ c, t.refcount c = t.others c + listed c + t.pending c + t.checks c

theorem refcount_addRef (t : Transport ι k) (c c' : ι) :
    (t.addRef c).refcount c' = t.refcount c' + if c = c' then 1 else 0 := by
  by_cases same : c = c'
  · subst same
    simp [addRef]
  · simp [addRef, same, update_of_ne (Ne.symm same)]

theorem refcount_subRef (t : Transport ι k) (c c' : ι) :
    (t.subRef c).refcount c' = t.refcount c' - if c = c' then 1 else 0 := by
  by_cases same : c = c'
  · subst same
    simp [subRef]
  · simp [subRef, same, update_of_ne (Ne.symm same)]

theorem commandsFor_cons (c : ι) (command : CommandType × ι) (commands : List (CommandType × ι)) :
    commandsFor c (command :: commands) = commandsFor c commands + if command.2 = c then 1 else 0 := by
  simp only [commandsFor, map_cons, count_cons, beq_iff_eq]

theorem commandsFor_append (c : ι) (commands : List (CommandType × ι)) (command : CommandType × ι) :
    commandsFor c (commands ++ [command]) = commandsFor c commands + if command.2 = c then 1 else 0 := by
  simp only [commandsFor, map_append, map_singleton, count_append, count_singleton, beq_iff_eq]

/-- The commands for a component change with those of one worker. -/
theorem tally_commandsFor (t : Transport ι k) (w : Fin k) (commands : List (CommandType × ι)) (c : ι) :
    tally (commandsFor c) (Function.update t.commands w commands) + commandsFor c (t.commands w) =
      t.pending c + commandsFor c commands := tally_update ..

variable {listed : ι → Nat}

theorem Accounts.postCommand (h : t.Accounts listed) (belonged : ι → Fin k) (type : CommandType)
    (c : ι) : (t.postCommand belonged type c).Accounts listed := by
  intro c'
  have refs := h c'
  have moved := t.tally_commandsFor (belonged c) (t.commands (belonged c) ++ [(type, c)]) c'
  rw [commandsFor_append] at moved
  have count : (t.postCommand belonged type c).refcount c' = _ := refcount_addRef t c c'
  change (t.postCommand belonged type c).refcount c' =
    t.others c' + listed c' + tally (commandsFor c') _ + t.checks c'
  rw [count, refs]
  dsimp only [Transport.postCommand] at moved ⊢
  split_ifs at moved ⊢ <;> omega

theorem Accounts.closeComponent (h : t.Accounts listed) (belonged : ι → Fin k) (c : ι) (posts : Bool) :
    ∀ c', (t.closeComponent belonged c posts).refcount c' + (if c = c' then 1 else 0) =
      (t.closeComponent belonged c posts).others c' + listed c' +
        (t.closeComponent belonged c posts).pending c' + (t.closeComponent belonged c posts).checks c' := by
  have posted : (if posts then t.postCommand belonged .removeIoc c else t).Accounts listed := by
    split_ifs
    · exact h.postCommand belonged .removeIoc c
    · exact h
  intro c'
  unfold Transport.closeComponent
  rw [refcount_subRef, posted c']
  change _ = ((if posts then t.postCommand belonged .removeIoc c else t).others c' + listed c' +
    (if posts then t.postCommand belonged .removeIoc c else t).pending c' +
    (if posts then t.postCommand belonged .removeIoc c else t).checks c' : Int)
  omega

end References

/-! ### The workers' lists -/

section Lists

variable (belonged : ι → Fin k)

/-- The lists of the workers are `xs`. -/
structure Listed (t : Transport ι k) (xs : Fin k → List ι) : Prop where
  lists : ∀ w, DList t.next t.prev (t.head w) (t.tail w) (xs w)
  mem : ∀ w c, c ∈ xs w ↔ belonged c = w ∧ t.referenced c = true

variable {belonged} {xs : Fin k → List ι} {w : Fin k} {c : ι}

omit [DecidableEq ι] in
/-- No component is in the lists of two workers. -/
theorem Listed.apart (h : Listed belonged t xs) {w' : Fin k} (other : w' ≠ w) {x y : ι}
    (hx : x ∈ xs w') (hy : y ∈ xs w) : x ≠ y := by
  rintro rfl
  exact other (((h.mem w' x).mp hx).1.symm.trans ((h.mem w x).mp hy).1)

omit [DecidableEq ι] in
theorem Listed.tail_mem (h : Listed belonged t xs) {x : ι} (last : t.tail w = some x) : x ∈ xs w :=
  mem_of_getLast? ((h.lists w).tail.symm.trans last)

/-- A component is at most once in a list, and in none but that of its worker. -/
theorem Listed.count_eq (h : Listed belonged t xs) (c : ι) :
    (xs (belonged c)).count c = (t.referenced c).toNat := by
  cases flag : t.referenced c with
  | true => exact count_eq_one_of_mem (h.lists _).forth.nodup ((h.mem _ c).mpr ⟨rfl, flag⟩)
  | false =>
    refine count_eq_zero_of_not_mem fun mem => ?_
    cases flag.symm.trans ((h.mem _ c).mp mem).2

theorem Listed.addComponent (h : Listed belonged t xs) (own : belonged c = w)
    (fresh : t.referenced c = false) :
    Listed belonged (t.addComponent w c) (Function.update xs w (xs w ++ [c])) := by
  have out : ∀ w', c ∉ xs w' := by
    intro w' mem
    cases fresh.symm.trans ((h.mem w' c).mp mem).2
  unfold Transport.addComponent
  rw [if_neg (Bool.eq_false_iff.mp fresh)]
  constructor
  · intro w'
    by_cases same : w' = w
    · subst same
      dsimp only [addRef]
      rw [update_self, update_self, update_self]
      exact (h.lists w').pushBack (out w')
    · dsimp only [addRef]
      rw [update_of_ne same, update_of_ne same, update_of_ne same]
      refine (h.lists w').congr ?_ ?_
      · intro x mem
        have notLast : t.tail w ≠ some x := fun last => h.apart same mem (h.tail_mem last) rfl
        rw [storeAt_of_ne notLast, update_of_ne]
        rintro rfl
        exact out w' mem
      · intro x mem
        rw [update_of_ne]
        rintro rfl
        exact out w' mem
  · intro w' x
    dsimp only [addRef]
    by_cases same : x = c
    · subst same
      rw [update_self]
      by_cases here : w' = w
      · subst here
        simp [own]
      · rw [update_of_ne here]
        simp [out w', own, Ne.symm here]
    · rw [update_of_ne same]
      by_cases here : w' = w
      · subst here
        rw [update_self, mem_append, mem_singleton, h.mem]
        simp [same]
      · rw [update_of_ne here, h.mem]

theorem Listed.removeComponent (h : Listed belonged t xs) (own : belonged c = w)
    (isListed : t.referenced c = true) :
    ∃ ys, Listed belonged (t.removeComponent w c) (Function.update xs w ys) := by
  obtain ⟨before, behind, split⟩ := append_of_mem ((h.mem w c).mpr ⟨own, isListed⟩)
  have list := h.lists w
  rw [split] at list
  obtain ⟨next, prev⟩ := list.links
  have nodup := list.forth.nodup
  have near : ∀ {x}, t.prev c = some x ∨ t.next c = some x → x ∈ xs w := by
    intro x link
    rw [split]
    rcases link with link | link
    · exact mem_append_left _ (mem_of_getLast? (prev.symm.trans link))
    · exact mem_append_right _ (mem_cons_of_mem c (mem_of_head? (next.symm.trans link)))
  unfold Transport.removeComponent
  rw [if_pos isListed]
  refine ⟨before ++ behind, ?_, ?_⟩
  · intro w'
    by_cases same : w' = w
    · subst same
      dsimp only [subRef]
      rw [update_self, update_self, update_self]
      exact list.remove
    · dsimp only [subRef]
      rw [update_of_ne same, update_of_ne same, update_of_ne same]
      refine (h.lists w').congr ?_ ?_
      · intro x mem
        exact storeAt_of_ne fun link => h.apart same mem (near (.inl link)) rfl
      · intro x mem
        exact storeAt_of_ne fun link => h.apart same mem (near (.inr link)) rfl
  · intro w' x
    dsimp only [subRef]
    have out : c ∉ before ++ behind := by
      simp only [nodup_append, nodup_cons, mem_cons, mem_append] at nodup ⊢
      rintro (mem | mem)
      · exact nodup.2.2 c mem c (.inl rfl) rfl
      · exact nodup.2.1.1 mem
    by_cases same : x = c
    · subst same
      rw [update_self]
      by_cases here : w' = w
      · subst here
        simp [out]
      · rw [update_of_ne here, h.mem]
        simp [own, Ne.symm here]
    · rw [update_of_ne same]
      by_cases here : w' = w
      · subst here
        rw [update_self, ← h.mem, split]
        simp [same]
      · rw [update_of_ne here, h.mem]

end Lists

/-! ### Runs -/

section Runs

variable (belonged : ι → Fin k)

/-- What holds as long as the transport is not closed. -/
structure Kept (t : Transport ι k) : Prop where
  lists : ∃ xs, Listed belonged t xs
  accounts : t.Accounts fun c => (t.referenced c).toNat
  last : ∀ c, t.lastAdds c = t.referenced c
  own : ∀ w, ∀ command ∈ t.commands w, belonged command.2 = w

/-- A worker with these commands. -/
def withCommands (t : Transport ι k) (w : Fin k) (commands : List (CommandType × ι)) : Transport ι k :=
  { t with commands := Function.update t.commands w commands }

variable {belonged} {w : Fin k} {listed listed' : ι → Nat} {commands : List (CommandType × ι)}
  {command : CommandType × ι}

/-- A command is done with; it held a reference. -/
theorem Accounts.processed {t t' : Transport ι k}
    (h : (t.withCommands w (command :: commands)).Accounts listed)
    (refs : ∀ c, t'.refcount c + (if command.2 = c then 1 else 0) + listed c =
      t.refcount c + listed' c)
    (rest : t'.commands = t.commands) (others : t'.others = t.others)
    (checks : t'.checks = t.checks) : (t'.withCommands w commands).Accounts listed' := by
  intro c
  have before := h c
  have first := t.tally_commandsFor w (command :: commands) c
  have last := t.tally_commandsFor w commands c
  rw [commandsFor_cons] at first
  have delta := refs c
  change t'.refcount c = t'.others c + listed' c +
    tally (commandsFor c) (update t'.commands w commands) + t'.checks c
  change t.refcount c = t.others c + listed c +
    tally (commandsFor c) (update t.commands w (command :: commands)) + t.checks c at before
  rw [rest, others, checks]
  split_ifs at first delta <;> omega

/-- A component is in its worker's list after a command just if that was to add it. -/
theorem Kept.processed {t t' : Transport ι k} {type : CommandType} {c : ι}
    (h : Kept belonged (t.withCommands w ((type, c) :: commands))) (lists : ∃ xs, Listed belonged t' xs)
    (refs : ∀ c', t'.refcount c' + (t.referenced c').toNat = t.refcount c' + (t'.referenced c').toNat)
    (flag : t'.referenced c = decide (type = .addIoc))
    (flags : ∀ c' ≠ c, t'.referenced c' = t.referenced c')
    (rest : t'.commands = t.commands) (others : t'.others = t.others)
    (checks : t'.checks = t.checks) (last : t'.lastAdds = t.lastAdds) :
    Kept belonged (withCommands { t'.subRef c with
      lastAdds := Function.update t'.lastAdds c (type = .addIoc) } w commands) := by
  constructor
  · obtain ⟨xs, listed⟩ := lists
    exact ⟨xs, listed.lists, listed.mem⟩
  · refine h.accounts.processed (fun c' => ?_) rest others checks
    have delta := refs c'
    change (t'.subRef c).refcount c' + _ + ((t.referenced c').toNat : Int) =
      t.refcount c' + ((t'.referenced c').toNat : Int)
    rw [refcount_subRef]
    dsimp only
    omega
  · intro c'
    by_cases same : c' = c
    · subst same
      exact (update_self ..).trans flag.symm
    · have kept := h.last c'
      change update t'.lastAdds c _ c' = t'.referenced c'
      rw [update_of_ne same, flags c' same, last]
      exact kept
  · intro w' command mem
    have own := h.own w' command
    by_cases same : w' = w
    · subst same
      apply own
      change command ∈ update t'.commands w' commands w' at mem
      change command ∈ update t.commands w' ((type, c) :: commands) w'
      rw [update_self] at mem ⊢
      exact mem_cons_of_mem _ mem
    · apply own
      change command ∈ update t'.commands w commands w' at mem
      change command ∈ update t.commands w ((type, c) :: commands) w'
      rw [update_of_ne same] at mem ⊢
      rwa [rest] at mem

theorem Kept.processCommand (h : Kept belonged (t.withCommands w (command :: commands))) :
    Kept belonged ((t.processCommand w command).withCommands w commands) := by
  obtain ⟨type, c⟩ := command
  have own : belonged c = w := by
    apply h.own w (type, c)
    change (type, c) ∈ update t.commands w ((type, c) :: commands) w
    rw [update_self]
    exact mem_cons_self
  have lists : ∃ xs, Listed belonged t xs := by
    obtain ⟨xs, listed⟩ := h.lists
    exact ⟨xs, listed.lists, listed.mem⟩
  obtain ⟨xs, listed⟩ := lists
  cases type with
  | addIoc =>
    cases fresh : t.referenced c with
    | true =>
      have same : t.addComponent w c = t := by rw [addComponent, if_pos fresh]
      simp only [Transport.processCommand, same]
      exact h.processed ⟨xs, listed⟩ (fun _ => rfl) fresh (fun _ _ => rfl) rfl rfl rfl rfl
    | false =>
      have added := listed.addComponent own fresh
      simp only [Transport.processCommand]
      have eq : t.addComponent w c = _ := if_neg (Bool.eq_false_iff.mp fresh)
      refine h.processed ⟨_, added⟩ ?_ ?_ ?_ ?_ ?_ ?_ ?_ <;> rw [eq]
      · intro c'
        rw [refcount_addRef]
        by_cases same : c = c'
        · subst same
          simp [addRef, fresh]
        · simp [addRef, same, update_of_ne (Ne.symm same)]
      · simp [addRef]
      · intro c' other
        exact update_of_ne other _ _
      all_goals rfl
  | removeIoc =>
    cases isListed : t.referenced c with
    | false =>
      have same : t.removeComponent w c = t := if_neg (Bool.eq_false_iff.mp isListed)
      simp only [Transport.processCommand, same]
      exact h.processed ⟨xs, listed⟩ (fun _ => rfl) isListed (fun _ _ => rfl) rfl rfl rfl rfl
    | true =>
      obtain ⟨ys, removed⟩ := listed.removeComponent own isListed
      simp only [Transport.processCommand]
      have eq : t.removeComponent w c = _ := if_pos isListed
      refine h.processed ⟨_, removed⟩ ?_ ?_ ?_ ?_ ?_ ?_ ?_ <;> rw [eq]
      · intro c'
        rw [refcount_subRef]
        by_cases same : c = c'
        · subst same
          simp [subRef, isListed]
        · simp [subRef, same, update_of_ne (Ne.symm same)]
      · simp [subRef]
      · intro c' other
        exact update_of_ne other _ _
      all_goals rfl

theorem Kept.processCommands (h : Kept belonged t) (w : Fin k) : Kept belonged (t.processCommands w) := by
  suffices loop : ∀ commands (t : Transport ι k), Kept belonged (t.withCommands w commands) →
      Kept belonged ((commands.foldl (Transport.processCommand w) t).withCommands w []) by
    apply loop
    unfold withCommands
    rw [update_eq_self]
    exact h
  intro commands
  induction commands with
  | nil => exact fun t h => h
  | cons command commands ih => exact fun t h => ih _ h.processCommand

/-- References change hands, and the lists of the workers and the commands stay as they are. -/
theorem Kept.refer (h : Kept belonged t) {refcount : ι → Int} {others : ι → Nat}
    {checkingList newCheckingList : List ι} {iterator : Option Nat}
    (refs : ∀ c, refcount c + t.others c + t.checks c =
      t.refcount c + others c + (checkingList.count c + newCheckingList.count c)) :
    Kept belonged { t with refcount, others, checkingList, newCheckingList, iterator } := by
  refine ⟨?_, ?_, h.last, h.own⟩
  · obtain ⟨xs, listed⟩ := h.lists
    exact ⟨xs, listed.lists, listed.mem⟩
  · intro c
    have before := h.accounts c
    have delta := refs c
    dsimp only at before
    change refcount c = others c + (t.referenced c).toNat + t.pending c +
      ((checkingList.count c + newCheckingList.count c : Nat) : Int)
    omega

theorem Kept.postCommand (h : Kept belonged t) (type : CommandType) (c : ι) :
    Kept belonged (t.postCommand belonged type c) := by
  refine ⟨?_, h.accounts.postCommand belonged type c, h.last, ?_⟩
  · obtain ⟨xs, listed⟩ := h.lists
    exact ⟨xs, listed.lists, listed.mem⟩
  · intro w command mem
    by_cases same : w = belonged c
    · subst same
      change command ∈ update t.commands _ _ _ at mem
      rw [update_self, mem_append, mem_singleton] at mem
      rcases mem with mem | rfl
      · exact h.own _ command mem
      · rfl
    · change command ∈ update t.commands _ _ _ at mem
      rw [update_of_ne same] at mem
      exact h.own w command mem

theorem count_eraseIdx_add {xs : List ι} {i : Nat} {x : ι} (here : xs[i]? = some x) (y : ι) :
    (xs.eraseIdx i).count y + (if x = y then 1 else 0) = xs.count y := by
  obtain ⟨inside, rfl⟩ := List.getElem?_eq_some_iff.mp here
  rw [← (List.getElem_cons_eraseIdx_perm inside).count_eq y, List.count_cons]
  simp only [beq_iff_eq]

theorem Kept.step (t : Transport ι k) (a : Action ι k) (t' : Transport ι k) (h : Kept belonged t)
    (moved : t.step belonged a = some t') : Kept belonged t' := by
  cases a with
  | hold c =>
    simp only [Transport.step] at moved
    split_ifs at moved with alive
    cases moved
    refine h.refer fun c' => ?_
    change (t.addRef c).refcount c' + _ + _ = t.refcount c' + _ + t.checks c'
    rw [refcount_addRef]
    by_cases same : c = c'
    · subst same
      rw [update_self, if_pos rfl]
      omega
    · rw [update_of_ne (Ne.symm same), if_neg same]
      omega
  | drop c =>
    simp only [Transport.step] at moved
    split_ifs at moved with held
    cases moved
    refine h.refer fun c' => ?_
    change (t.subRef c).refcount c' + _ + _ = t.refcount c' + _ + t.checks c'
    rw [refcount_subRef]
    by_cases same : c = c'
    · subst same
      rw [update_self, if_pos rfl]
      omega
    · rw [update_of_ne (Ne.symm same), if_neg same]
      omega
  | postCommand type c =>
    simp only [Transport.step] at moved
    split_ifs at moved with alive
    cases moved
    exact h.postCommand type c
  | processCommands w =>
    cases moved
    exact h.processCommands w
  | addToCheckingList c =>
    simp only [Transport.step] at moved
    split_ifs at moved with alive
    cases moved
    refine h.refer fun c' => ?_
    change (t.addRef c).refcount c' + _ + _ = t.refcount c' + t.others c' +
      ((t.checkingList.count c' : Int) + ((t.newCheckingList ++ [c]).count c' : Nat))
    rw [refcount_addRef, count_append, count_singleton]
    simp only [checks, beq_iff_eq]
    split_ifs <;> omega
  | timeoutIteration =>
    simp only [Transport.step] at moved
    split_ifs at moved with idle
    cases moved
    refine h.refer fun c' => ?_
    change t.refcount c' + _ + _ = _ + t.others c' +
      (((t.checkingList ++ t.newCheckingList).count c' : Nat) + (0 : Int))
    rw [count_append, checks, add_zero]
  | checkNext result =>
    obtain ⟨position, -, rfl⟩ := Option.map_eq_some_iff.mp moved
    split
    · exact h.refer fun c' => rfl
    · rename_i c here
      split_ifs
      · exact h.refer fun c' => rfl
      · refine h.refer fun c' => ?_
        have erased := count_eraseIdx_add here c'
        change (t.subRef c).refcount c' + _ + _ = t.refcount c' + t.others c' +
          (((t.checkingList.eraseIdx position).count c' : Int) + t.newCheckingList.count c')
        rw [refcount_subRef]
        simp only [checks]
        split_ifs at erased ⊢ <;> omega

end Runs

/-! ### Closing -/

section Closing

variable {belonged : ι → Fin k} {listed : ι → Nat}

/-- A component is closed, which `listed'` does not count any more. -/
theorem Accounts.close (h : t.Accounts listed) {c : ι} (posts : Bool) {listed' : ι → Nat}
    (less : ∀ c', listed' c' + (if c = c' then 1 else 0) = listed c') :
    (t.closeComponent belonged c posts).Accounts listed' := by
  intro c'
  have closed := h.closeComponent belonged c posts c'
  have fewer := less c'
  split_ifs at closed fewer <;> omega

/-- What the closing of components leaves as it is. -/
structure Frame (t t' : Transport ι k) : Prop where
  next : t'.next = t.next
  prev : t'.prev = t.prev
  head : t'.head = t.head
  tail : t'.tail = t.tail
  referenced : t'.referenced = t.referenced
  others : t'.others = t.others
  checks : t'.checks = t.checks

theorem Frame.trans {t t' t'' : Transport ι k} (h : Frame t t') (h' : Frame t' t'') : Frame t t'' :=
  ⟨h'.next.trans h.next, h'.prev.trans h.prev, h'.head.trans h.head, h'.tail.trans h.tail,
    h'.referenced.trans h.referenced, h'.others.trans h.others, h'.checks.trans h.checks⟩

theorem frame_closeComponent (belonged : ι → Fin k) (t : Transport ι k) (c : ι) (posts : Bool) :
    Frame t (t.closeComponent belonged c posts) := by
  unfold closeComponent
  split_ifs <;> exact ⟨rfl, rfl, rfl, rfl, rfl, rfl, rfl⟩

/-- Closing a component posts to no other worker. -/
theorem commands_closeComponent (t : Transport ι k) {c : ι} (posts : Bool) {w : Fin k}
    (other : belonged c ≠ w) : (t.closeComponent belonged c posts).commands w = t.commands w := by
  unfold closeComponent
  split_ifs
  · exact update_of_ne (Ne.symm other) _ _
  · rfl

variable {fuel : Nat}

/-- A worker walks through its list and closes what is in it. -/
theorem closeList_spec {w : Fin k} (posts : ι → Bool) {xs : List ι}
    (linked : Linked t.next xs none) (own : ∀ c ∈ xs, belonged c = w) (enough : xs.length ≤ fuel)
    (h : t.Accounts listed) {listed' : ι → Nat} (less : ∀ c, listed' c + xs.count c = listed c) :
    ∃ t', closeList belonged posts fuel xs.head? t = some t' ∧ t'.Accounts listed' ∧ Frame t t' ∧
      ∀ w' ≠ w, t'.commands w' = t.commands w' := by
  induction xs generalizing t fuel listed with
  | nil =>
    refine ⟨t, by cases fuel <;> rfl, ?_, ⟨rfl, rfl, rfl, rfl, rfl, rfl, rfl⟩, fun _ _ => rfl⟩
    intro c
    have := less c
    rw [count_nil] at this
    rw [h c, ← this]
    rfl
  | cons c xs ih =>
    obtain ⟨fuel, rfl⟩ := Nat.exists_eq_succ_of_ne_zero (Nat.pos_iff_ne_zero.mp
      (lt_of_lt_of_le (Nat.succ_pos xs.length) enough))
    obtain ⟨link, rest⟩ := linked
    rw [Option.or_none] at link
    have frame := frame_closeComponent belonged t c (posts c)
    have closed : (t.closeComponent belonged c (posts c)).Accounts fun c' => listed' c' + xs.count c' := by
      refine h.close (posts c) fun c' => ?_
      rw [← less c', count_cons]
      simp only [beq_iff_eq, add_assoc]
    obtain ⟨t', walked, accounts, frame', commands⟩ := ih (frame.next ▸ rest)
      (fun c mem => own c (mem_cons_of_mem _ mem)) (Nat.le_of_succ_le_succ enough) closed
      (fun _ => rfl)
    refine ⟨t', ?_, accounts, frame.trans frame', ?_⟩
    · rw [head?_cons, closeList, link]
      exact walked
    · intro w' other
      rw [commands w' other]
      apply commands_closeComponent
      rw [own c mem_cons_self]
      exact Ne.symm other

/-- The commands that are left are dropped. -/
theorem Accounts.dropCommands (h : t.Accounts listed) (w : Fin k) :
    (t.dropCommands w).Accounts listed := by
  suffices loop : ∀ commands (t : Transport ι k), (t.withCommands w commands).Accounts listed →
      ((commands.foldl (fun t command => t.subRef command.2) t).withCommands w []).Accounts listed by
    apply loop
    unfold withCommands
    rw [update_eq_self]
    exact h
  intro commands
  induction commands with
  | nil => exact fun t h => h
  | cons command commands ih =>
    intro t h
    refine ih _ (h.processed (fun c => ?_) rfl rfl rfl)
    rw [refcount_subRef]
    omega

theorem frame_dropCommands (t : Transport ι k) (w : Fin k) :
    Frame t (t.dropCommands w) ∧ (t.dropCommands w).commands = Function.update t.commands w [] := by
  suffices loop : ∀ (commands : List (CommandType × ι)) (t : Transport ι k),
      Frame t (commands.foldl (fun t command => t.subRef command.2) t) ∧
        (commands.foldl (fun t command => t.subRef command.2) t).commands = t.commands by
    obtain ⟨frame, commands⟩ := loop (t.commands w) t
    refine ⟨{ frame with }, ?_⟩
    dsimp only [dropCommands]
    rw [commands]
  intro commands
  induction commands with
  | nil => exact fun t => ⟨⟨rfl, rfl, rfl, rfl, rfl, rfl, rfl⟩, rfl⟩
  | cons command commands ih =>
    intro t
    obtain ⟨frame, same⟩ := ih (t.subRef command.2)
    have first : Frame t (t.subRef command.2) := ⟨rfl, rfl, rfl, rfl, rfl, rfl, rfl⟩
    exact ⟨first.trans frame, same⟩

/-- The transport while its workers are closed, of which those in `left` are not closed yet. -/
structure Closing (belonged : ι → Fin k) (xs : Fin k → List ι) (t : Transport ι k)
    (left : List (Fin k)) : Prop where
  lists : ∀ w ∈ left, t.head w = (xs w).head? ∧ Linked t.next (xs w) none
  own : ∀ w, ∀ c ∈ xs w, belonged c = w
  accounts : t.Accounts fun c => if belonged c ∈ left then (xs (belonged c)).count c else 0
  commands : ∀ w ∉ left, t.commands w = []

theorem Closing.closeWorker {xs : Fin k → List ι} {w : Fin k} {left : List (Fin k)}
    (h : Closing belonged xs t (w :: left)) (once : w ∉ left) (posts : ι → Bool)
    (enough : (xs w).length ≤ fuel) :
    ∃ t', Transport.closeWorker belonged posts fuel t w = some t' ∧ Closing belonged xs t' left ∧
      t'.others = t.others ∧ t'.checks = t.checks := by
  obtain ⟨head, linked⟩ := h.lists w mem_cons_self
  have less : ∀ c, (if belonged c ∈ left then (xs (belonged c)).count c else 0) + (xs w).count c =
      if belonged c ∈ w :: left then (xs (belonged c)).count c else 0 := by
    intro c
    by_cases here : belonged c = w
    · rw [here, if_neg once, if_pos mem_cons_self, zero_add]
    · have out : c ∉ xs w := fun mem => here (h.own w c mem)
      rw [count_eq_zero_of_not_mem out, add_zero]
      simp only [mem_cons, here, false_or]
  obtain ⟨t₁, walked, accounts, frame, commands⟩ :=
    closeList_spec posts linked (h.own w) enough h.accounts less
  have emptied : Accounts { t₁ with
      head := update t₁.head w none
      tail := update t₁.tail w none } _ := accounts
  obtain ⟨dropped, commands'⟩ := frame_dropCommands { t₁ with
    head := update t₁.head w none
    tail := update t₁.tail w none } w
  refine ⟨_, ?_, ⟨?_, h.own, emptied.dropCommands w, ?_⟩, ?_, ?_⟩
  · unfold Transport.closeWorker
    rw [head, walked]
    rfl
  · intro w' mem
    have other : w' ≠ w := fun same => once (same ▸ mem)
    obtain ⟨head', linked'⟩ := h.lists w' (mem_cons_of_mem w mem)
    rw [dropped.head, dropped.next]
    dsimp only
    rw [update_of_ne other, frame.head, frame.next]
    exact ⟨head', linked'⟩
  · intro w' out
    rw [commands']
    by_cases same : w' = w
    · rw [same, update_self]
    · rw [update_of_ne same, commands w' same]
      exact h.commands w' fun mem => (mem_cons.mp mem).elim same out
  · rw [dropped.others]
    exact frame.others
  · rw [dropped.checks]
    exact frame.checks

theorem Closing.closeWorkers {xs : Fin k → List ι} {left : List (Fin k)}
    (h : Closing belonged xs t left) (once : left.Nodup) (posts : ι → Bool)
    (enough : ∀ w, (xs w).length ≤ fuel) :
    ∃ t', left.foldlM (Transport.closeWorker belonged posts fuel) t = some t' ∧
      Closing belonged xs t' [] ∧ t'.others = t.others ∧ t'.checks = t.checks := by
  induction left generalizing t with
  | nil => exact ⟨t, rfl, h, rfl, rfl⟩
  | cons w left ih =>
    obtain ⟨out, rest⟩ := nodup_cons.mp once
    obtain ⟨t₁, first, closing, others, checks⟩ := h.closeWorker out posts (enough w)
    obtain ⟨t', run, closed, others', checks'⟩ := ih closing rest
    refine ⟨t', ?_, closed, others'.trans others, checks'.trans checks⟩
    rw [foldlM_cons, first]
    exact run

/-- The list of the timeout thread is gone through and its components are closed. -/
theorem closeEntries_spec (posts : Nat → Bool) {i : Nat} {entries : List ι} (h : t.Accounts listed)
    (list : t.checkingList = entries) (none_new : t.newCheckingList = []) :
    (closeEntries belonged posts i entries t).Accounts listed ∧
      (∀ c, (closeEntries belonged posts i entries t).checks c = 0) ∧
      (closeEntries belonged posts i entries t).next = t.next ∧
      (closeEntries belonged posts i entries t).head = t.head ∧
      (closeEntries belonged posts i entries t).others = t.others := by
  induction entries generalizing t i with
  | nil =>
    refine ⟨h, fun c => ?_, rfl, rfl, rfl⟩
    change t.checks c = 0
    rw [checks, list, none_new]
    rfl
  | cons c entries ih =>
    have frame := frame_closeComponent belonged t c (posts i)
    have new : (t.closeComponent belonged c (posts i)).newCheckingList = [] := by
      rw [← none_new]
      unfold closeComponent
      split_ifs <;> rfl
    have closed : Accounts { t.closeComponent belonged c (posts i) with checkingList := entries }
        listed := by
      intro c'
      have before := h.closeComponent belonged c (posts i) c'
      have checks : (t.closeComponent belonged c (posts i)).checks c' =
          entries.count c' + if c = c' then 1 else 0 := by
        rw [frame.checks, Transport.checks, list, none_new, count_cons, count_nil]
        simp only [beq_iff_eq, add_zero]
      change (t.closeComponent belonged c (posts i)).refcount c' =
        (t.closeComponent belonged c (posts i)).others c' + listed c' +
          (t.closeComponent belonged c (posts i)).pending c' +
          ((entries.count c' + (t.closeComponent belonged c (posts i)).newCheckingList.count c' : Nat) : Int)
      rw [new, count_nil, add_zero]
      rw [checks] at before
      split_ifs at before <;> push_cast at before <;> omega
    obtain ⟨accounts, none_left, next, head, others⟩ := ih (i := i + 1) closed rfl new
    exact ⟨accounts, none_left, next.trans frame.next, head.trans frame.head,
      others.trans frame.others⟩

theorem Kept.closeComponents (h : Kept belonged t) {xs : Fin k → List ι} (lists : Listed belonged t xs)
    (posts : Nat → Bool) (posts' : ι → Bool) (enough : ∀ w, (xs w).length ≤ fuel) :
    ∃ t', t.closeComponents belonged posts posts' fuel = some t' ∧ t'.others = t.others ∧
      ∀ c, t'.refcount c = t'.others c := by
  have collected : t.collectNewComponents.Accounts fun c => (t.referenced c).toNat := by
    intro c
    have before := h.accounts c
    change t.refcount c = t.others c + _ + t.pending c +
      (((t.checkingList ++ t.newCheckingList).count c + 0 : Nat) : Int)
    rw [count_append]
    exact before
  obtain ⟨accounts, none_left, next, head, others⟩ :=
    closeEntries_spec (i := 0) posts collected rfl rfl
  have closing : Closing belonged xs
      (closeEntries belonged posts 0 t.collectNewComponents.checkingList t.collectNewComponents)
      (finRange k) := by
    refine ⟨?_, fun w c mem => ((lists.mem w c).mp mem).1, ?_, ?_⟩
    · intro w _
      rw [head, next]
      exact ⟨(lists.lists w).head, (lists.lists w).forth⟩
    · intro c
      rw [accounts c]
      dsimp only
      rw [if_pos (mem_finRange _), lists.count_eq]
    · intro w out
      exact absurd (mem_finRange w) out
  obtain ⟨t', run, closed, others', checks⟩ :=
    closing.closeWorkers (nodup_finRange k) posts' enough
  refine ⟨t', run, others'.trans others, fun c => ?_⟩
  have none_pending : t'.pending c = 0 := by
    apply tally_eq_zero
    intro w
    rw [closed.commands w not_mem_nil]
    rfl
  rw [closed.accounts c, none_pending, checks, none_left]
  simp

end Closing

/-- The lists of the workers are in order and hold the components whose last command was to add them,
every reference is accounted for, and when the transport is closed only those of others remain. -/
theorem components_accounted (belonged : ι → Fin k) (actions : List (Action ι k)) (t : Transport ι k)
    (run : after (step belonged) {} actions = some t) :
    ∃ xs : Fin k → List ι,
      (∀ w, DList t.next t.prev (t.head w) (t.tail w) (xs w) ∧ (xs w).Nodup ∧
        ∀ c, (c ∈ xs w ↔ belonged c = w ∧ t.lastAdds c = true) ∧
          (c ∈ xs w ↔ belonged c = w ∧ t.referenced c = true)) ∧
      (∀ c, t.refcount c = t.others c + (if c ∈ xs (belonged c) then 1 else 0) + t.pending c +
        t.checks c) ∧
      ∀ posts posts' fuel, (∀ w, (xs w).length ≤ fuel) →
        ∃ t', t.closeComponents belonged posts posts' fuel = some t' ∧ t'.others = t.others ∧
          ∀ c, t'.refcount c = t'.others c := by
  have start : Kept belonged ({} : Transport ι k) := by
    refine ⟨⟨fun _ => [], fun w => .nil, ?_⟩, ?_, fun _ => rfl, ?_⟩
    · intro w c
      simp
    · intro c
      have none_pending : ({} : Transport ι k).pending c = 0 := tally_eq_zero fun _ => rfl
      rw [none_pending]
      rfl
    · intro w command mem
      cases mem
  have kept : Kept belonged t := after_inv Kept.step start run
  obtain ⟨xs, lists⟩ := kept.lists
  refine ⟨xs, ?_, ?_, ?_⟩
  · intro w
    refine ⟨lists.lists w, (lists.lists w).forth.nodup, fun c => ⟨?_, lists.mem w c⟩⟩
    rw [kept.last c]
    exact lists.mem w c
  · intro c
    rw [kept.accounts c]
    dsimp only
    rw [← lists.count_eq, (lists.lists _).forth.nodup.count]
    push_cast
    rfl
  · intro posts posts' fuel enough
    exact kept.closeComponents lists posts posts' enough

/-- Two components of one worker, of which one is removed again and the other is checked. -/
theorem components_accounted_two :
    let actions : List (Action (Fin 2) 1) := [.postCommand .addIoc 0, .postCommand .addIoc 1,
      .postCommand .addIoc 0, .processCommands 0, .postCommand .removeIoc 0, .processCommands 0,
      .addToCheckingList 1, .timeoutIteration, .checkNext true, .postCommand .removeIoc 1]
    ∃ (t : Transport (Fin 2) 1) (xs : Fin 1 → List (Fin 2)),
      after (step fun _ => 0) {} actions = some t ∧ t.refcount 1 = 4 ∧
      DList t.next t.prev (t.head 0) (t.tail 0) (xs 0) ∧
      t.refcount 1 = t.others 1 + (if 1 ∈ xs 0 then 1 else 0) + t.pending 1 + t.checks 1 := by
  intro actions
  have ends : (after (step fun _ => 0) ({} : Transport (Fin 2) 1) actions).isSome ∧
      ∀ t ∈ after (step fun _ => 0) ({} : Transport (Fin 2) 1) actions, t.refcount 1 = 4 := by decide
  obtain ⟨t, run⟩ := Option.isSome_iff_exists.mp ends.1
  obtain ⟨xs, lists, accounts, -⟩ := components_accounted (fun _ => 0) actions t run
  exact ⟨t, xs, run, ends.2 t run, (lists 0).1, accounts 1⟩

end Transport

end AgentEngine.Anet
