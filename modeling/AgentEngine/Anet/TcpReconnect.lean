import AgentEngine.Anet.TcpComponent

/-!
How often a client tries to connect again.

`_autoReconn` counts down the attempts that are left, and also says whether there are to be any. An
attempt that is started with the last of them leaves it at zero; if that one succeeds,
`handleWriteEvent` takes the zero to mean that no attempts were asked for, and the next loss closes
the connection for good.
-/

namespace AgentEngine.Anet

open Lib

namespace TCPComponent

variable {c : TCPComponent}

/-- The actions other than `close` and `reconnect`. -/
def Action.isEvent : Action → Bool
  | .close | .reconnect .. => false
  | _ => true

/-- The component is up with all its attempts, and is closed only after it has made them all. -/
def Budgeted (c : TCPComponent) : Prop :=
  (c.state = .connected → c.autoReconn = maxReconnectingTimes) ∧
  (IOCState.closing.value ≤ c.state.value → maxReconnectingTimes ≤ c.attempts)

/-- A client that comes up has attempts left. -/
def ComesUpInTime (c : TCPComponent) : Action → Prop
  | .handleWriteEvent _ => c.state = .connecting → c.autoReconn ≠ 0
  | _ => True

instance (c : TCPComponent) : (a : Action) → Decidable (c.ComesUpInTime a)
  | .handleWriteEvent _ => inferInstanceAs (Decidable (c.state = .connecting → c.autoReconn ≠ 0))
  | .handleErrorEvent | .handleReadEvent | .checkTimeout .. | .close | .reconnect .. | .goOn .. =>
      .isTrue trivial

/-- What attempts a client has left in each state, and how many it made. -/
def Fits (autoReconn attempts : Nat) : IOCState → Prop
  | .toBeConnecting => autoReconn ≠ 0 ∧ autoReconn + attempts = maxReconnectingTimes
  | .connecting => autoReconn + attempts = maxReconnectingTimes
  | .connected => autoReconn = maxReconnectingTimes ∧ attempts = 0
  | .closing | .closed => maxReconnectingTimes ≤ attempts

structure Counting (c : TCPComponent) : Prop where
  isClient : c.isServer = false
  fits : Fits c.autoReconn c.attempts c.state

section

variable (h : c.Counting)
include h

theorem Counting.budgeted : c.Budgeted := by
  have fits := h.fits
  constructor
  · intro up
    rw [up] at fits
    exact fits.1
  · intro closing
    cases state : c.state <;> rw [state] at fits closing
    case closing | closed => exact fits
    all_goals simp only [IOCState.value] at closing; omega

theorem Counting.closeAndSetState : c.closeAndSetState.2.Counting := by
  have fits := h.fits
  rcases c.closeAndSetState_cases with ⟨-, auto, same⟩ | ⟨open_, auto, same⟩ | ⟨-, same⟩ <;> rw [same]
  · refine ⟨h.isClient, ?_⟩
    -- nothing is left: either it was the last attempt, or the component was closed before
    cases state : c.state <;> rw [state] at fits <;> simp only [Fits] at fits ⊢ <;> omega
  · refine ⟨h.isClient, ?_⟩
    cases state : c.state <;> rw [state] at fits open_ <;> simp only [Fits, IOCState.value] at * <;>
      omega
  · exact ⟨h.isClient, h.fits⟩

theorem Counting.suspend (rest : Suspended) : (c.suspend rest).Counting :=
  ⟨h.isClient, h.fits⟩

theorem Counting.closeAtLast : c.closeAtLast.Counting := by
  unfold TCPComponent.closeAtLast
  dsimp only
  split_ifs
  · exact h.closeAndSetState.suspend _
  · exact h.closeAndSetState

theorem Counting.handleErrorEvent : c.handleErrorEvent.Counting := by
  unfold TCPComponent.handleErrorEvent
  split_ifs
  · exact h.closeAtLast
  · exact h

/-- A client that comes up with attempts left gets all of them back. -/
theorem Counting.handleWriteEvent (rc : Bool)
    (inTime : c.state = .connecting → c.autoReconn ≠ 0) : (c.handleWriteEvent rc).Counting := by
  unfold TCPComponent.handleWriteEvent
  have up : (if c.state = .connecting then c.comeUp else c).Counting := by
    split_ifs with connecting
    · have auto : c.isAutoReconn = true := by
        simp [isAutoReconn, h.isClient, inTime connecting]
      rw [comeUp_eq connecting, auto, h.isClient]
      exact ⟨rfl, rfl, rfl⟩
    · exact h
  generalize (if c.state = .connecting then c.comeUp else c) = c' at up
  dsimp only
  split_ifs
  · exact up
  · exact up.closeAtLast
  · exact up

theorem Counting.checkTimeout (now : Int) (expired : Bool) :
    (c.checkTimeout now expired).Counting := by
  unfold TCPComponent.checkTimeout
  dsimp only
  split_ifs
  · exact h.closeAndSetState.suspend _
  · exact h.closeAndSetState.suspend _
  · exact h.suspend _
  · exact ⟨h.isClient, h.fits⟩

/-- An attempt to reconnect. -/
theorem Counting.retry (waiting : c.state = .toBeConnecting) (now : Int)
    (connects : Bool) : (c.retry now connects).Counting := by
  have fits := h.fits
  rw [waiting] at fits
  obtain ⟨some_left, sum⟩ := fits
  cases connects with
  | true =>
    rw [retry_eq_of_connects now waiting]
    refine ⟨h.isClient, ?_⟩
    simp only [Fits]
    omega
  | false =>
    by_cases last : c.autoReconn - 1 = 0
    · rw [retry_eq_of_last now waiting last]
      refine ⟨h.isClient, ?_⟩
      simp only [Fits]
      omega
    · rw [retry_eq_of_more now last]
      refine ⟨h.isClient, ?_⟩
      simp only [Fits, waiting]
      omega

theorem Counting.checkState (now : Int) (answers : Answers) :
    (c.checkState now answers).Counting := by
  unfold TCPComponent.checkState
  dsimp only
  split_ifs with connecting slow hooked server idle retry closing
  · exact h.closeAndSetState.suspend _
  · exact ⟨h.closeAndSetState.isClient, h.closeAndSetState.fits⟩
  · exact h
  · rw [h.isClient] at server
    simp at server
  · exact h
  · simp only [Bool.and_eq_true, decide_eq_true_eq] at retry
    exact h.retry retry.1.1 now answers.connects
  · simp only [Bool.and_eq_true, decide_eq_true_eq] at closing
    have fits := h.fits
    rw [closing.1] at fits
    rw [setState_closed_eq closing.1]
    exact ⟨h.isClient, fits⟩
  · exact h

theorem Counting.goOn (answers : Answers) (rest : Suspended) : (c.goOn answers rest).Counting := by
  unfold TCPComponent.goOn
  split
  · exact ⟨h.isClient, h.fits⟩
  · exact ⟨h.isClient, h.fits⟩
  · exact ⟨h.isClient, h.fits⟩
  · exact h.checkState _ _
  · exact h
  · split_ifs
    · exact h
    · exact h.closeAtLast

end

theorem Counting.step {c c' : TCPComponent} {a : Action} (event : a.isEvent = true) (h : c.Counting)
    (moved : c.step a = some c') (inTime : c.ComesUpInTime a) : c'.Counting := by
  cases a with
  | handleWriteEvent rc =>
    cases moved
    exact h.handleWriteEvent rc inTime
  | handleErrorEvent =>
    cases moved
    exact h.handleErrorEvent
  | handleReadEvent =>
    cases moved
    unfold handleReadEvent
    split_ifs
    · exact h.suspend _
    · exact h
  | checkTimeout now expired =>
    cases moved
    exact h.checkTimeout now expired
  | close | reconnect => cases event
  | goOn index answers =>
    obtain ⟨rest, -, rfl⟩ := Option.map_eq_some_iff.mp moved
    have taken : Counting { c with suspended := c.suspended.eraseIdx index } := ⟨h.isClient, h.fits⟩
    exact taken.goOn answers rest

/-- A client that comes up with its last attempt has none after that, and nothing that it did counts
any more. -/
theorem not_budgeted_of_last (rc : Bool) (connecting : c.state = .connecting)
    (last : c.autoReconn = 0) : ¬ (c.handleWriteEvent rc).Budgeted := by
  have none_left : budget c.isServer c.isAutoReconn = 0 := by simp [budget, isAutoReconn, last]
  unfold handleWriteEvent
  rw [if_pos connecting, comeUp_eq connecting, none_left]
  dsimp only
  rw [if_pos rfl]
  intro budgeted
  split_ifs at budgeted
  · cases budgeted.1 rfl
  · unfold closeAtLast at budgeted
    rcases closeAndSetState_cases { c with state := .connected, autoReconn := 0, attempts := 0 } with
      ⟨-, -, same⟩ | ⟨-, auto, -⟩ | ⟨closing, -⟩
    · rw [same] at budgeted
      cases budgeted.2 le_rfl
    · exact auto rfl
    · simp only [IOCState.value] at closing
      omega

/-- Each time that a client comes up it has all its attempts again, and it is closed only after they
were all made, exactly if it never comes up with the last of them. -/
theorem budget_restored_iff (existPacketHeader : Bool) (connectTimeout now : Int)
    (actions : List Action) (events : ∀ a ∈ actions, a.isEvent = true) :
    (∀ pre, pre <+: actions → ∀ c,
      after step (openClient existPacketHeader true connectTimeout now) pre = some c → c.Budgeted) ↔
    Throughout step ComesUpInTime (openClient existPacketHeader true connectTimeout now) actions := by
  have start : (openClient existPacketHeader true connectTimeout now).Counting := ⟨rfl, rfl⟩
  refine throughout_iff_of_inv (fun c a mem c' h moved => h.step (events a mem) moved) ?_ start
    start.budgeted
  intro c a mem c' h moved
  constructor
  · intro budgeted
    cases a with
    | handleWriteEvent rc =>
      cases moved
      intro connecting last
      exact not_budgeted_of_last rc connecting last budgeted
    | _ => trivial
  · intro inTime
    exact (h.step (events a mem) moved inTime).budgeted

/-- A client whose first attempt to reconnect succeeds. -/
theorem budget_restored_iff_first_attempt :
    let actions : List Action := [.handleErrorEvent, .checkTimeout 2000000 false,
      .goOn 0 ⟨true, true, false, false⟩, .handleWriteEvent true]
    (∃ c ∈ after step (openClient true true 3000000 1) actions, c.state = .connected) ∧
    ∀ pre, pre <+: actions → ∀ c, after step (openClient true true 3000000 1) pre = some c →
      c.Budgeted := by
  intro actions
  exact ⟨by decide, (budget_restored_iff true 3000000 1 actions (by decide)).mpr (by decide)⟩

/-- A client whose last attempt succeeds is closed at once when it loses that connection, too. -/
theorem last_attempt_not_restored :
    let retry (i : Nat) (connects : Bool) : List Action :=
      [.checkTimeout (2000000 * i) false, .goOn 0 ⟨true, connects, false, false⟩]
    let actions := .handleErrorEvent :: (List.range' 1 29).flatMap (retry · false) ++ retry 30 true ++
      [.handleWriteEvent true, .handleErrorEvent]
    ∃ c ∈ after step (openClient true true 3000000 1) actions, c.state = .closing ∧ c.attempts = 0 := by
  decide +kernel

end TCPComponent

end AgentEngine.Anet
