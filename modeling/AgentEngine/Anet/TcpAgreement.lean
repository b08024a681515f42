import AgentEngine.Anet.TcpComponent

/-!
Whether the state of a component, its connection's `_closed` and the last command that it posted
agree.

`_closed` is set together with the state and never differs from it. The command follows later, after
the callbacks of the close hook; if one of them reconnects, then the `TC_REMOVE_IOC` of the connection
that was closed comes after the `TC_ADD_IOC` of the new one, and the component is connected without
its worker.
-/

namespace AgentEngine.Anet

open Lib IOCState

/-- `ANET_CONNECTING` or `ANET_CONNECTED`. -/
def IOCState.isUp : IOCState → Bool
  | .connecting | .connected => true
  | _ => false

namespace TCPComponent

variable {c c' c'' : TCPComponent}

/-! ### What has to agree -/

section Agreement

/-- `isClosed()` holds in states `ANET_CLOSING` and `ANET_CLOSED`. -/
def ClosedAgrees (c : TCPComponent) : Prop :=
  c.closed = true ↔ IOCState.closing.value ≤ c.state.value

/-- The last command posted is `TC_ADD_IOC`. -/
def lastAdds (c : TCPComponent) : Bool := c.commands.getLast? = some .addIoc

/-- It still has to post `TC_REMOVE_IOC`. -/
def Suspended.removes : Suspended → Bool
  | .removing _ | .removingFirst _ => true
  | _ => false

/-- The worker has the component just while that is up, or will be told soon that it does not. -/
def CommandAgrees (c : TCPComponent) : Prop :=
  c.lastAdds = c.state.isUp ∨
    c.lastAdds = true ∧ c.state.isUp = false ∧ ∃ rest ∈ c.suspended, rest.removes = true

/-- One part of an operation keeps what agrees. -/
structure Follows (c c' : TCPComponent) : Prop where
  closed : c.ClosedAgrees → c'.ClosedAgrees
  command : c.CommandAgrees → c'.CommandAgrees
  stays : c.state = .closed → c'.state = .closed

theorem Follows.refl (c : TCPComponent) : Follows c c := ⟨id, id, id⟩

theorem Follows.trans (h : Follows c c') (h' : Follows c' c'') : Follows c c'' :=
  ⟨h'.closed ∘ h.closed, h'.command ∘ h.command, h'.stays ∘ h.stays⟩

theorem isUp_eq_false (closing : IOCState.closing.value ≤ c.state.value) : c.state.isUp = false := by
  cases state : c.state <;> rw [state] at closing
  case connecting | connected => simp only [value] at closing; omega
  all_goals rfl

theorem ClosedAgrees.not_closed (h : c.ClosedAgrees) (before : c.state.value < IOCState.closing.value) :
    c.closed = false := by
  cases closed : c.closed with
  | false => rfl
  | true => exact absurd (h.mp closed) (not_le.mpr before)

theorem closedAgrees_of_open (closed : c.closed = false)
    (now : c.state.value < IOCState.closing.value) : c.ClosedAgrees := by
  constructor
  · intro closed'
    cases closed.symm.trans closed'
  · intro closing
    exact absurd closing (not_le.mpr now)

theorem lastAdds_postCommand (c : TCPComponent) (type : CommandType) :
    (c.postCommand type).lastAdds = decide (type = .addIoc) := by
  simp [lastAdds, postCommand]

end Agreement

/-! ### The parts of an operation -/

section Parts

theorem follows_suspend (c : TCPComponent) (rest : Suspended) : Follows c (c.suspend rest) := by
  refine ⟨id, fun h => h.imp_right ?_, id⟩
  rintro ⟨adds, down, rest', mem, removes⟩
  exact ⟨adds, down, rest', List.mem_append_left _ mem, removes⟩

variable {isSocketInEpoll : Bool}

/-- The hook runs after which the command will be posted. -/
theorem follows_hook {rest : Suspended}
    (before : c.state.value < IOCState.closing.value) (removes : rest.removes = true) :
    Follows c ({ c with isSocketInEpoll, state := .closing, closed := true }.suspend rest) := by
  refine ⟨fun _ => ⟨fun _ => le_rfl, fun _ => rfl⟩, fun _ => ?_, fun closed => ?_⟩
  · cases adds : c.lastAdds with
    | false => exact .inl adds
    | true => exact .inr ⟨adds, rfl, rest, List.mem_append_right _ (List.mem_singleton_self _), removes⟩
  · rw [closed] at before
    simp only [value] at before
    omega

theorem follows_lose (before : c.state.value < IOCState.closing.value) : Follows c { c with
      isSocketInEpoll
      state := .toBeConnecting
      commands := c.commands ++ [.removeIoc] } := by
  refine ⟨fun h => ?_, fun _ => .inl (lastAdds_postCommand c .removeIoc), fun closed => ?_⟩
  · exact closedAgrees_of_open (h.not_closed before) (by simp [value])
  · rw [closed] at before
    simp only [value] at before
    omega

/-- A component that is not up may be removed. -/
theorem follows_remove (down : c.state.isUp = false) : Follows c { c with
      isSocketInEpoll
      commands := c.commands ++ [.removeIoc] } :=
  ⟨id, fun _ => .inl ((lastAdds_postCommand c .removeIoc).trans down.symm), id⟩

theorem follows_closeAndSetState {rest : Suspended} (removes : rest.removes = true) :
    Follows c (if c.closeAndSetState.1 then c.closeAndSetState.2.suspend rest
      else c.closeAndSetState.2) := by
  rcases c.closeAndSetState_cases with ⟨before, -, same⟩ | ⟨before, -, same⟩ | ⟨closing, same⟩ <;>
    rw [same]
  · exact follows_hook before removes
  · exact follows_lose before
  · exact follows_remove (isUp_eq_false closing)

theorem follows_closeAtLast (c : TCPComponent) : Follows c c.closeAtLast :=
  follows_closeAndSetState rfl

theorem follows_time (c : TCPComponent) (startConnectTime : Int) :
    Follows c { c with startConnectTime } := ⟨id, id, id⟩

theorem follows_comeUp (connecting : c.state = .connecting) : Follows c c.comeUp := by
  rw [comeUp_eq connecting]
  refine ⟨fun h => ?_, fun h => ?_, fun closed => ?_⟩
  · exact closedAgrees_of_open (h.not_closed (by simp [connecting, value]))
      (by simp [value])
  · rcases h with same | ⟨-, down, -⟩
    · rw [connecting] at same
      exact .inl same
    · rw [connecting] at down
      cases down
  · cases connecting.symm.trans closed

theorem follows_handleWriteEvent (c : TCPComponent) (rc : Bool) : Follows c (c.handleWriteEvent rc) := by
  have up : Follows c (if c.state = .connecting then c.comeUp else c) := by
    split_ifs with connecting
    · exact follows_comeUp connecting
    · exact .refl c
  refine up.trans ?_
  unfold handleWriteEvent
  generalize (if c.state = .connecting then c.comeUp else c) = c'
  dsimp only
  split_ifs
  · exact .refl c'
  · exact follows_closeAtLast c'
  · exact .refl c'

theorem follows_closeConnection (c : TCPComponent) : Follows c c.closeConnection := by
  unfold closeConnection
  dsimp only
  by_cases before : c.state.value < closing.value
  · have hooked : c.closeSocketNoLock.hooks .closing = true := by
      simp [hooks, closeSocketNoLock, before]
    have changed : (c.closeSocketNoLock.setState .closing).2 =
        { c with isSocketInEpoll := false, state := .closing, closed := true } := by
      simp [setState, closeSocketNoLock, hooks, before]
    rw [if_pos hooked, changed]
    exact follows_hook before rfl
  · have hooked : ¬ c.closeSocketNoLock.hooks .closing = true := by
      simp [hooks, closeSocketNoLock, before]
    have changed : c.closeSocketNoLock.setState .closing = (false, c.closeSocketNoLock) := by
      simp [setState, closeSocketNoLock, before]
    rw [if_neg hooked, changed]
    exact ⟨id, id, id⟩

/-- An attempt to reconnect. -/
theorem follows_retry (waiting : c.state = .toBeConnecting) (now : Int) (connects : Bool) :
    Follows c (c.retry now connects) := by
  have stays : ∀ {P : Prop}, c.state = .closed → P := by
    intro P closed
    cases waiting.symm.trans closed
  cases connects with
  | true =>
    rw [retry_eq_of_connects now waiting]
    refine ⟨fun h => ?_, fun _ => .inl (lastAdds_postCommand c .addIoc), stays⟩
    exact closedAgrees_of_open (h.not_closed (by simp [waiting, value]))
      (by simp [value])
  | false =>
    by_cases last : c.autoReconn - 1 = 0
    · rw [retry_eq_of_last now waiting last]
      refine ⟨fun _ => ⟨fun _ => le_rfl, fun _ => rfl⟩, fun h => ?_, stays⟩
      rcases h with same | ⟨adds, -, rest, mem, removes⟩
      · rw [waiting] at same
        exact .inl same
      · exact .inr ⟨adds, rfl, rest, List.mem_append_left _ mem, removes⟩
    · rw [retry_eq_of_more now last]
      exact ⟨id, id, id⟩

theorem follows_reconnect (c : TCPComponent) (now : Int) (connects : Bool) :
    Follows c (c.reconnect now connects).2 := by
  unfold reconnect
  dsimp only
  split_ifs with auto open_ closing ok
  · exact .refl c
  · exact .refl c
  · subst ok
    refine ⟨fun _ => ?_, fun _ => ?_, fun closed => ?_⟩
    · exact closedAgrees_of_open rfl
        (by simp [setState, socketReconnect, postCommand, closing, value])
    · left
      simp [setState, socketReconnect, postCommand, closing, value, lastAdds, isUp]
    · cases closing.symm.trans closed
  · unfold socketReconnect
    dsimp only
    rw [if_neg ok]
    exact follows_time c now
  · exact .refl c

theorem follows_checkTimeout (c : TCPComponent) (now : Int) (expired : Bool) :
    Follows c (c.checkTimeout now expired) := by
  unfold checkTimeout
  dsimp only
  split_ifs with before times hooked
  · have closes : Follows c (if c.closeAndSetState.1 then
        c.closeAndSetState.2.suspend (.removingFirst now) else c.closeAndSetState.2) :=
      follows_closeAndSetState rfl
    rwa [if_pos hooked] at closes
  · have closes : Follows c (if c.closeAndSetState.1 then
        c.closeAndSetState.2.suspend (.removingFirst now) else c.closeAndSetState.2) :=
      follows_closeAndSetState rfl
    rw [if_neg hooked] at closes
    exact closes.trans (follows_suspend _ _)
  · exact follows_suspend c _
  · refine Follows.trans ?_ (follows_suspend _ _)
    exact ⟨fun _ => ⟨fun _ => not_lt.mp before, fun _ => rfl⟩, id, id⟩

theorem follows_checkState (c : TCPComponent) (now : Int) (answers : Answers) :
    Follows c (c.checkState now answers) := by
  unfold checkState
  dsimp only
  have closes : Follows c (if c.closeAndSetState.1 then
      c.closeAndSetState.2.suspend (.removing (some now)) else c.closeAndSetState.2) :=
    follows_closeAndSetState rfl
  split_ifs with connecting slow hooked server idle retry closing
  · rwa [if_pos hooked] at closes
  · rw [if_neg hooked] at closes
    exact closes.trans (follows_time _ now)
  · exact .refl c
  · have unset : Follows c { c with autoReconn := 0 } := ⟨id, id, id⟩
    exact unset.trans (follows_closeAtLast _)
  · exact .refl c
  · simp only [Bool.and_eq_true, decide_eq_true_eq] at retry
    exact follows_retry retry.1.1 now answers.connects
  · simp only [Bool.and_eq_true, decide_eq_true_eq] at closing
    rw [setState_closed_eq closing.1]
    refine ⟨fun h => ?_, fun h => ?_, fun _ => rfl⟩
    · have closed := h.mpr (by rw [closing.1])
      exact ⟨fun _ => by simp [value], fun _ => closed⟩
    · unfold CommandAgrees at h
      rw [closing.1] at h
      exact h
  · exact .refl c

end Parts

/-! ### Runs -/

section Runs

/-- An operation that posts its `TC_REMOVE_IOC` after the close hook finds that the component is not
up again. -/
def RemovesWhenDown (c : TCPComponent) : Action → Prop
  | .goOn index _ => ∀ rest ∈ c.suspended[index]?, rest.removes = true → c.state.isUp = false
  | _ => True

instance (c : TCPComponent) : (a : Action) → Decidable (c.RemovesWhenDown a)
  | .goOn index _ => inferInstanceAs
      (Decidable (∀ rest ∈ c.suspended[index]?, rest.removes = true → c.state.isUp = false))
  | .handleWriteEvent _ | .handleErrorEvent | .handleReadEvent | .checkTimeout .. | .close
  | .reconnect .. => .isTrue trivial

variable {rest : Suspended}

/-- An operation is taken up that has no command to post. -/
theorem follows_take {index : Nat} (here : c.suspended[index]? = some rest)
    (stays : rest.removes = false) :
    Follows c { c with suspended := c.suspended.eraseIdx index } := by
  refine ⟨id, fun h => h.imp_right ?_, id⟩
  rintro ⟨adds, down, rest', mem, removes⟩
  refine ⟨adds, down, rest', ?_, removes⟩
  obtain ⟨index', there⟩ := List.getElem?_of_mem mem
  refine List.mem_eraseIdx_iff_getElem?.mpr ⟨index', ?_, there⟩
  rintro rfl
  cases here.symm.trans there
  cases stays.symm.trans removes

/-- The command of a connection that was closed is posted. -/
theorem goOn_removes (removes : rest.removes = true) (answers : Answers)
    (suspended : List Suspended) :
    (c.ClosedAgrees → ({ c with suspended }.goOn answers rest).ClosedAgrees) ∧
    (({ c with suspended }.goOn answers rest).CommandAgrees ↔ c.state.isUp = false) ∧
    ({ c with suspended }.goOn answers rest).state = c.state := by
  have last : ∀ {c' : TCPComponent}, c'.commands = c.commands ++ [.removeIoc] →
      c'.state = c.state → (c'.CommandAgrees ↔ c.state.isUp = false) := by
    intro c' commands state
    have removed : c'.lastAdds = false := by simp [lastAdds, commands]
    constructor
    · rintro (same | ⟨adds, -⟩)
      · rw [← state, ← same, removed]
      · cases removed.symm.trans adds
    · intro down
      exact .inl (by rw [removed, state, down])
  match rest, removes with
  | .removing none, _ => exact ⟨id, last rfl rfl, rfl⟩
  | .removing (some now), _ => exact ⟨id, last rfl rfl, rfl⟩
  | .removingFirst now, _ => exact ⟨id, last rfl rfl, rfl⟩

/-- An operation goes on that has no command to post. -/
theorem follows_goOn (stays : rest.removes = false) (answers : Answers) :
    Follows c (c.goOn answers rest) := by
  match rest, stays with
  | .checking now, _ => exact follows_checkState c now answers
  | .givingUp, _ => exact .refl c
  | .reading, _ =>
    simp only [goOn]
    split_ifs
    · exact .refl c
    · exact follows_closeAtLast c

/-- A step keeps all that agrees, except that a command may be posted too late. -/
theorem step_spec {a : Action} (moved : c.step a = some c') :
    (c.ClosedAgrees → c'.ClosedAgrees) ∧ (c.state = .closed → c'.state = .closed) ∧
    (c.CommandAgrees → (c'.CommandAgrees ↔ c.RemovesWhenDown a)) := by
  suffices follows : Follows c c' ∧ c.RemovesWhenDown a ∨
      (c.ClosedAgrees → c'.ClosedAgrees) ∧ c'.state = c.state ∧
        (c'.CommandAgrees ↔ c.RemovesWhenDown a) by
    rcases follows with ⟨follows, safe⟩ | ⟨closed, state, command⟩
    · exact ⟨follows.closed, follows.stays, fun h => ⟨fun _ => safe, fun _ => follows.command h⟩⟩
    · exact ⟨closed, fun h => state.trans h, fun _ => command⟩
  cases a with
  | handleWriteEvent rc =>
    cases moved
    exact .inl ⟨follows_handleWriteEvent c rc, trivial⟩
  | handleErrorEvent =>
    cases moved
    refine .inl ⟨?_, trivial⟩
    unfold handleErrorEvent
    split_ifs
    · exact follows_closeAtLast c
    · exact .refl c
  | handleReadEvent =>
    cases moved
    refine .inl ⟨?_, trivial⟩
    unfold handleReadEvent
    split_ifs
    · exact follows_suspend c _
    · exact .refl c
  | checkTimeout now expired =>
    cases moved
    exact .inl ⟨follows_checkTimeout c now expired, trivial⟩
  | close =>
    cases moved
    exact .inl ⟨follows_closeConnection c, trivial⟩
  | reconnect now connects =>
    cases moved
    exact .inl ⟨follows_reconnect c now connects, trivial⟩
  | goOn index answers =>
    obtain ⟨rest, here, rfl⟩ := Option.map_eq_some_iff.mp moved
    cases removes : rest.removes with
    | false =>
      refine .inl ⟨(follows_take here removes).trans (follows_goOn removes answers), ?_⟩
      intro rest' there removes'
      cases here.symm.trans there
      cases removes.symm.trans removes'
    | true =>
      obtain ⟨closed, command, state⟩ := goOn_removes (c := c) removes answers
        (c.suspended.eraseIdx index)
      refine .inr ⟨closed, state, command.trans ?_⟩
      constructor
      · intro down rest' there _
        exact down
      · intro safe
        exact safe rest here removes

/-- In every run `isClosed()` agrees with the state and `ANET_CLOSED` is never left. The last command
agrees with the state, or one that is still to come will make it agree, exactly if no operation posts
its `TC_REMOVE_IOC` for a component that is up again. -/
theorem state_agreement_iff (start : TCPComponent)
    (opened : (∃ existPacketHeader autoReconn connectTimeout now,
      start = openClient existPacketHeader autoReconn connectTimeout now) ∨
      ∃ existPacketHeader connectTimeout now, start = openServer existPacketHeader connectTimeout now)
    (actions : List Action) :
    (∀ c, after step start actions = some c →
      (c.closed = true ↔ c.state = .closing ∨ c.state = .closed) ∧
      ∀ rest c', after step c rest = some c' → c.state = .closed → c'.state = .closed) ∧
    ((∀ pre, pre <+: actions → ∀ c, after step start pre = some c → c.CommandAgrees) ↔
      Throughout step RemovesWhenDown start actions) ∧
    (Throughout step RemovesWhenDown start actions → ∀ c, after step start actions = some c →
      c.suspended = [] →
      (c.commands.getLast? = some .addIoc ↔ c.state = .connecting ∨ c.state = .connected)) := by
  have closed : start.ClosedAgrees := by
    rcases opened with ⟨_, _, _, _, rfl⟩ | ⟨_, _, _, rfl⟩ <;>
      exact closedAgrees_of_open rfl (by simp [openClient, openServer, value])
  have command : start.CommandAgrees := by
    rcases opened with ⟨_, _, _, _, rfl⟩ | ⟨_, _, _, rfl⟩ <;> exact .inl rfl
  have always : (∀ pre, pre <+: actions → ∀ c, after step start pre = some c → c.CommandAgrees) ↔
      Throughout step RemovesWhenDown start actions :=
    throughout_iff (fun c a c' h moved => (step_spec moved).2.2 h) command
  refine ⟨?_, always, ?_⟩
  · intro c run
    constructor
    · have agrees : c.ClosedAgrees :=
        after_inv (fun c a c' h moved => (step_spec moved).1 h) closed run
      refine agrees.trans ?_
      cases c.state <;> simp [value]
    · intro rest c' run' isClosed
      have keeps : ∀ (c : TCPComponent) a c', c.state = .closed → c.step a = some c' →
          c'.state = .closed := fun c a c' h moved => (step_spec moved).2.1 h
      have stays := after_inv keeps isClosed run'
      exact stays
  · intro safe c run none_left
    have adds : c.lastAdds = c.state.isUp := by
      rcases always.mpr safe actions List.prefix_rfl c run with same | ⟨-, -, rest, mem, -⟩
      · exact same
      · rw [none_left] at mem
        cases mem
    have last : c.commands.getLast? = some .addIoc ↔ c.lastAdds = true := by simp [lastAdds]
    rw [last, adds]
    cases c.state <;> simp [isUp]

/-- A component that is closed and then connected again, with no callback between. -/
theorem state_agreement_iff_reconnected :
    let start := openClient true false 3000000 1
    let actions : List Action := [.handleWriteEvent true, .close, .goOn 0 ⟨true, true, true, true⟩,
      .reconnect 2 true]
    ∃ c, after step start actions = some c ∧ (c.closed = true ↔ c.state = .closing ∨ c.state = .closed) ∧
      (c.commands.getLast? = some .addIoc ↔ c.state = .connecting ∨ c.state = .connected) := by
  intro start actions
  have ends : (after step start actions).isSome ∧
      ∀ c ∈ after step start actions, c.suspended = [] := by decide
  obtain ⟨c, run⟩ := Option.isSome_iff_exists.mp ends.1
  obtain ⟨always, -, command⟩ := state_agreement_iff start (.inl ⟨true, false, 3000000, 1, rfl⟩) actions
  exact ⟨c, run, (always c run).1, command (by decide) c run (ends.2 c run)⟩

/-- A handler that is told of the end of its connection connects again. The component gets up, and is
then taken from its worker. -/
theorem reconnect_in_hook_disagrees :
    let actions : List Action := [.handleWriteEvent true, .close, .reconnect 2 true,
      .goOn 0 ⟨true, true, true, true⟩]
    ∃ c ∈ after step (openClient true false 3000000 1) actions, c.suspended = [] ∧
      c.state = .connecting ∧ c.commands = [.addIoc, .addIoc, .removeIoc] := by
  decide

end Runs

end TCPComponent

end AgentEngine.Anet
