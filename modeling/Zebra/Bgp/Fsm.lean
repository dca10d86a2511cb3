import Mathlib.Logic.Relation
import Mathlib.Logic.Function.Basic
import Zebra.Lib.Run

/-!
# The BGP finite state machine

`Fsm` of `fsm.go`: the state of one neighbor's session, changed by `Event` one event at a
time from `NewFsm`.  Of each timer the model keeps whether it was started and not stopped
since; of `connExit` whether a dial of `TcpConnect` can still be cancelled; of `readFunc` and
`writeFunc` whether the reader and the writer of `TcpRead` and `TcpWrite` are set, which their
own deferred functions clear when they exit; the negotiated hold and keepalive times; and the
messages queued on `sendCh`, in order.  The events come from the timers, the dial, the reader
and the operator, through one channel, in any order: a run of events is any list of them, and
a run of inputs (`FsmInput`) mixes in the exits of the reader and the writer anywhere.

What one event can do is the relation `FsmStep` (`event_step`), and every result below is
read off it.  Over every run of inputs, the invariant `FsmInv` ties the timers, the dial and
the connection to the state (`fsmInv_run`); the FSM queues nothing and stays out of OpenConfirm
and Established until it handles an OPEN in Connect, and then queues an OPEN and a KEEPALIVE
first (`run_first_open`); and in OpenConfirm and
Established the hold time is the smaller of the neighbor's and that of the OPEN that took it
out of Connect (`run_holdTime_of_opened`).  Since no transition sends an OPEN first
(`ChangeStateTo(BGP_FSM_OPENSENT)` is never called), sessions that take their OPENs from each
other never get past Connect and Active (`reachable_sessions_quiet`).
-/

namespace Zebra.Bgp

/-- `DEFAULT_HOLDTIME`. -/
def defaultHoldtime : UInt16 := 90

/-- `Neighbor.HoldTime`: the configured hold time, or `DEFAULT_HOLDTIME`. -/
def neighborHoldTime (configured : Option UInt16) : UInt16 := configured.getD defaultHoldtime

/-- `BGP_FSM_IDLE` to `BGP_FSM_ESTABLISHED`. -/
inductive FsmState
  | idle
  | connect
  | active
  | openSent
  | openConfirm
  | established
deriving DecidableEq, Repr

/-- OpenConfirm and Established: the states of a session that has taken an OPEN. -/
def FsmState.opened : FsmState → Bool
  | .openConfirm | .established => true
  | _ => false

/-- The events `ManualStart` (1) to `CapabilityMsg` (30).  `BGPOpen` carries the hold time of
the OPEN it was made for, the one field of its message that the FSM reads. -/
inductive FsmEvent
  | manualStart
  | manualStop
  | automaticStart
  | manualStartWithPassive
  | automaticStartWithPassive
  | automaticStartWithDamp
  | automaticStartWithDampAndPassive
  | automaticStop
  | connectRetryTimerExpires
  | holdTimerExpires
  | keepaliveTimerExpires
  | delayOpenTimerExpires
  | idleHoldTimerExpires
  | tcpConnectionValid
  | tcpCRInvalid
  | tcpCRAcked
  | tcpConnectionConfirmed
  | tcpConnectionFails
  | bgpOpen (holdTime : UInt16)
  | bgpOpenWithDelayOpenTimerRunning
  | bgpHeaderErr
  | bgpOpenMsgErr
  | openCollisionDump
  | notifMsgVerErr
  | notifMsg
  | keepAliveMsg
  | updateMsg
  | updateMsgErr
  | routeRefreshMsg
  | capabilityMsg
deriving DecidableEq, Repr

/-- A message queued on `sendCh`: the OPEN of `NewBgpOpenMsg`, with the hold time it offers,
and the KEEPALIVE of `NewBgpKeepAliveMsg`. -/
inductive FsmMsg
  | openMsg (holdTime : UInt16)
  | keepAliveMsg
deriving DecidableEq, Repr

/-- The fields of `Fsm` that its handlers read and write. -/
structure Fsm where
  state : FsmState
  idleTimer : Bool
  connRetryTimer : Bool
  keepaliveTimer : Bool
  connExit : Bool
  readFunc : Bool
  writeFunc : Bool
  holdTime : UInt16
  keepaliveTime : Nat
  sent : List FsmMsg
deriving DecidableEq, Repr

namespace Fsm

/-- `NewFsm`: Idle, with nothing started. -/
def new : Fsm :=
  ⟨.idle, false, false, false, false, false, false, 0, 0, []⟩

/-- `TcpDrop`: the reader and the writer are told to stop, and waited for. -/
def tcpDrop (f : Fsm) : Fsm := { f with readFunc := false, writeFunc := false }

/-- `Stop`: every timer stopped, the dial cancelled, then `TcpDrop`. -/
def stop (f : Fsm) : Fsm :=
  tcpDrop { f with idleTimer := false, connRetryTimer := false, keepaliveTimer := false,
                   connExit := false }

/-- `TcpConnect`: a dial in progress is cancelled and a new one started; its outcome comes
back as `TcpConnectionConfirmed` or `TcpConnectionFails`. -/
def tcpConnect (f : Fsm) : Fsm := { f with connExit := true }

/-- `TcpEstablish`: `TcpRead` and `TcpWrite` start the reader and the writer. -/
def tcpEstablish (f : Fsm) : Fsm := { f with readFunc := true, writeFunc := true }

/-- `ConnectRetryTimerStart`. -/
def connectRetryTimerStart (f : Fsm) : Fsm := { f with connRetryTimer := true }

/-- `IdleTimerStart`. -/
def idleTimerStart (f : Fsm) : Fsm := { f with idleTimer := true }

/-- `KeepaliveTimerStart`. -/
def keepaliveTimerStart (f : Fsm) : Fsm := { f with keepaliveTimer := true }

/-- `SendPacket`: the message is queued on `sendCh` for the writer. -/
def sendPacket (f : Fsm) (m : FsmMsg) : Fsm := { f with sent := f.sent ++ [m] }

/-- `SendOpen`: an OPEN offering the neighbor's hold time. -/
def sendOpen (nbrHoldTime : UInt16) (f : Fsm) : Fsm := f.sendPacket (.openMsg nbrHoldTime)

/-- `SendKeepAlive`. -/
def sendKeepAlive (f : Fsm) : Fsm := f.sendPacket .keepAliveMsg

/-- `BgpOpenProcess`: the smaller of the neighbor's hold time and the OPEN's, and a third of it
between keepalives. -/
def bgpOpenProcess (nbrHoldTime : UInt16) (f : Fsm) (msgHoldTime : UInt16) : Fsm :=
  let holdTime := if nbrHoldTime < msgHoldTime then nbrHoldTime else msgHoldTime
  { f with holdTime, keepaliveTime := (holdTime / 3).toNat }

/-- `ChangeStateTo`: the new state, and the timers and connection each state starts with.
`TimerStop` of a timer is `false` in its field. -/
def changeStateTo (f : Fsm) (s : FsmState) : Fsm :=
  let f := { f with state := s }
  match s with
  | .idle => f.stop.idleTimerStart
  | .connect => { f with idleTimer := false, keepaliveTimer := false }
  | .active => { f.tcpDrop with idleTimer := false, keepaliveTimer := false }
  | .openSent => { f with idleTimer := false }
  | .openConfirm => { f with idleTimer := false }
  | .established =>
    let f := if f.keepaliveTime ≠ 0 then f.keepaliveTimerStart
      else { f with keepaliveTimer := false }
    { f with idleTimer := false, connRetryTimer := false }

/-- `EventIdle`.  The reset of `connRetryCounter`, which nothing reads, is left out. -/
def eventIdle (f : Fsm) : FsmEvent → Fsm
  | .manualStart | .automaticStart => f.tcpConnect.changeStateTo .connect
  | .manualStartWithPassive | .automaticStartWithPassive => f.changeStateTo .active
  | _ => f

/-- `EventConnect`.  On `TcpConnectionFails` both branches of `DelayOpenTimer()`, which is
always false, do the same. -/
def eventConnect (nbrHoldTime : UInt16) (f : Fsm) : FsmEvent → Fsm
  | .manualStart | .automaticStart => f
  | .tcpConnectionConfirmed => f.tcpEstablish
  | .bgpOpen holdTime =>
    (((f.bgpOpenProcess nbrHoldTime holdTime).sendOpen nbrHoldTime).sendKeepAlive).changeStateTo
      .openConfirm
  | .tcpConnectionFails => (f.changeStateTo .active).connectRetryTimerStart
  | .notifMsg | .bgpHeaderErr => f.changeStateTo .idle
  | _ => f

/-- `EventActive`. -/
def eventActive (f : Fsm) : FsmEvent → Fsm
  | .connectRetryTimerExpires => f.tcpConnect.connectRetryTimerStart.changeStateTo .connect
  | .tcpConnectionFails => f.changeStateTo .idle
  | _ => f

/-- `EventOpenSent`. -/
def eventOpenSent (f : Fsm) : FsmEvent → Fsm
  | .notifMsg | .tcpConnectionFails | .bgpHeaderErr => f.changeStateTo .idle
  | _ => f

/-- `EventOpenConfirm`.  The neighbor's `uptime`, which the FSM never reads, is left out. -/
def eventOpenConfirm (f : Fsm) : FsmEvent → Fsm
  | .keepAliveMsg => f.changeStateTo .established
  | .notifMsg | .tcpConnectionFails | .bgpHeaderErr => f.changeStateTo .idle
  | _ => f

/-- `EventEstablished`. -/
def eventEstablished (f : Fsm) : FsmEvent → Fsm
  | .notifMsg | .tcpConnectionFails | .bgpHeaderErr => f.changeStateTo .idle
  | .keepaliveTimerExpires => f.sendKeepAlive.keepaliveTimerStart
  | _ => f

/-- `Event`: the handler of the current state.  `nbrHoldTime` is the neighbor's
`HoldTime()`. -/
def event (nbrHoldTime : UInt16) (f : Fsm) (e : FsmEvent) : Fsm :=
  match f.state with
  | .idle => f.eventIdle e
  | .connect => f.eventConnect nbrHoldTime e
  | .active => f.eventActive e
  | .openSent => f.eventOpenSent e
  | .openConfirm => f.eventOpenConfirm e
  | .established => f.eventEstablished e

/-- The FSM of `EventLoop` after the events `es`, from `NewFsm`. -/
def run (nbrHoldTime : UInt16) (es : List FsmEvent) : Fsm := es.foldl (event nbrHoldTime) new

/-- What changes the fields of `Fsm`: an event `EventLoop` handles, or the exit of the reader
of `TcpRead` or of the writer of `TcpWrite`, at any time.  Each goroutine's deferred function
sets only its own `readFunc` or `writeFunc` to nil. -/
inductive FsmInput
  | event (e : FsmEvent)
  | readerExit
  | writerExit
deriving DecidableEq, Repr

/-- One input: the handler of the event, or the deferred function of the goroutine that
exits. -/
def input (nbrHoldTime : UInt16) (f : Fsm) : FsmInput → Fsm
  | .event e => f.event nbrHoldTime e
  | .readerExit => { f with readFunc := false }
  | .writerExit => { f with writeFunc := false }

/-- The FSM after the inputs `xs`, from `NewFsm`. -/
def runInputs (nbrHoldTime : UInt16) (xs : List FsmInput) : Fsm :=
  xs.foldl (input nbrHoldTime) new

/-! ### The state each transition leaves -/

@[simp] theorem changeStateTo_idle (f : Fsm) :
    f.changeStateTo .idle =
      { f with state := .idle, idleTimer := true, connRetryTimer := false,
               keepaliveTimer := false, connExit := false, readFunc := false,
               writeFunc := false } := rfl

@[simp] theorem changeStateTo_connect (f : Fsm) :
    f.changeStateTo .connect =
      { f with state := .connect, idleTimer := false, keepaliveTimer := false } := rfl

@[simp] theorem changeStateTo_active (f : Fsm) :
    f.changeStateTo .active =
      { f with state := .active, idleTimer := false, keepaliveTimer := false,
               readFunc := false, writeFunc := false } := rfl

@[simp] theorem changeStateTo_openConfirm (f : Fsm) :
    f.changeStateTo .openConfirm = { f with state := .openConfirm, idleTimer := false } := rfl

@[simp] theorem changeStateTo_established (f : Fsm) :
    f.changeStateTo .established =
      { f with state := .established, idleTimer := false, connRetryTimer := false,
               keepaliveTimer := decide (f.keepaliveTime ≠ 0) } := by
  by_cases h : f.keepaliveTime = 0 <;> simp [changeStateTo, keepaliveTimerStart, h]

@[simp] theorem tcpConnect_eq (f : Fsm) : f.tcpConnect = { f with connExit := true } := rfl

@[simp] theorem tcpEstablish_eq (f : Fsm) :
    f.tcpEstablish = { f with readFunc := true, writeFunc := true } := rfl

@[simp] theorem connectRetryTimerStart_eq (f : Fsm) :
    f.connectRetryTimerStart = { f with connRetryTimer := true } := rfl

@[simp] theorem keepaliveTimerStart_eq (f : Fsm) :
    f.keepaliveTimerStart = { f with keepaliveTimer := true } := rfl

@[simp] theorem sendKeepAlive_eq (f : Fsm) :
    f.sendKeepAlive = { f with sent := f.sent ++ [.keepAliveMsg] } := rfl

@[simp] theorem sendOpen_eq (n : UInt16) (f : Fsm) :
    f.sendOpen n = { f with sent := f.sent ++ [.openMsg n] } := rfl

/-- The hold time `BgpOpenProcess` takes is the smaller of the two. -/
theorem bgpOpenProcess_holdTime (n : UInt16) (f : Fsm) (h : UInt16) :
    (f.bgpOpenProcess n h).holdTime = min n h := by
  have hmin : min n h = if n ≤ h then n else h := rfl
  rw [hmin, bgpOpenProcess]
  by_cases hlt : n < h
  · simp [hlt, UInt16.le_of_lt hlt]
  · by_cases hle : n ≤ h
    · have : n = h := UInt16.le_antisymm hle (UInt16.not_lt.1 hlt)
      simp [this]
    · simp [hlt, hle]

@[simp] theorem bgpOpenProcess_eq (n : UInt16) (f : Fsm) (h : UInt16) :
    f.bgpOpenProcess n h =
      { f with holdTime := min n h, keepaliveTime := (min n h / 3).toNat } := by
  rw [← bgpOpenProcess_holdTime n f h]
  rfl

/-! ### What one event can do -/

/-- What one event can do to the FSM: each transition of the handlers, with the state it is
taken in and the events that take it, and `ignore` for an event a handler drops. -/
inductive FsmStep (n : UInt16) : Fsm → FsmEvent → Fsm → Prop
  | ignore {f e} : FsmStep n f e f
  | start {f e} : f.state = .idle → (e = .manualStart ∨ e = .automaticStart) →
      FsmStep n f e (f.tcpConnect.changeStateTo .connect)
  | startPassive {f e} : f.state = .idle →
      (e = .manualStartWithPassive ∨ e = .automaticStartWithPassive) →
      FsmStep n f e (f.changeStateTo .active)
  | tcpEstablish {f} : f.state = .connect → FsmStep n f .tcpConnectionConfirmed f.tcpEstablish
  | bgpOpen {f holdTime} : f.state = .connect →
      FsmStep n f (.bgpOpen holdTime)
        (((f.bgpOpenProcess n holdTime).sendOpen n).sendKeepAlive.changeStateTo .openConfirm)
  | connectFails {f} : f.state = .connect →
      FsmStep n f .tcpConnectionFails (f.changeStateTo .active).connectRetryTimerStart
  | connectRetry {f} : f.state = .active →
      FsmStep n f .connectRetryTimerExpires
        (f.tcpConnect.connectRetryTimerStart.changeStateTo .connect)
  | toIdle {f e} : f.state ≠ .idle →
      (e = .notifMsg ∨ e = .tcpConnectionFails ∨ e = .bgpHeaderErr) →
      FsmStep n f e (f.changeStateTo .idle)
  | keepAliveMsg {f} : f.state = .openConfirm →
      FsmStep n f .keepAliveMsg (f.changeStateTo .established)
  | keepaliveTimerExpires {f} : f.state = .established →
      FsmStep n f .keepaliveTimerExpires f.sendKeepAlive.keepaliveTimerStart

variable {n : UInt16} {f f' : Fsm} {e : FsmEvent}

theorem eventIdle_step (hs : f.state = .idle) (e : FsmEvent) : FsmStep n f e (f.eventIdle e) := by
  cases e
  case manualStart | automaticStart => exact .start hs (by simp)
  case manualStartWithPassive | automaticStartWithPassive => exact .startPassive hs (by simp)
  all_goals exact .ignore

theorem eventConnect_step (hs : f.state = .connect) (e : FsmEvent) :
    FsmStep n f e (f.eventConnect n e) := by
  cases e
  case tcpConnectionConfirmed => exact .tcpEstablish hs
  case bgpOpen holdTime => exact .bgpOpen hs
  case tcpConnectionFails => exact .connectFails hs
  case notifMsg | bgpHeaderErr => exact .toIdle (by simp [hs]) (by simp)
  all_goals exact .ignore

theorem eventActive_step (hs : f.state = .active) (e : FsmEvent) :
    FsmStep n f e (f.eventActive e) := by
  cases e
  case connectRetryTimerExpires => exact .connectRetry hs
  case tcpConnectionFails => exact .toIdle (by simp [hs]) (by simp)
  all_goals exact .ignore

theorem eventOpenSent_step (hs : f.state = .openSent) (e : FsmEvent) :
    FsmStep n f e (f.eventOpenSent e) := by
  cases e
  case notifMsg | tcpConnectionFails | bgpHeaderErr => exact .toIdle (by simp [hs]) (by simp)
  all_goals exact .ignore

theorem eventOpenConfirm_step (hs : f.state = .openConfirm) (e : FsmEvent) :
    FsmStep n f e (f.eventOpenConfirm e) := by
  cases e
  case keepAliveMsg => exact .keepAliveMsg hs
  case notifMsg | tcpConnectionFails | bgpHeaderErr => exact .toIdle (by simp [hs]) (by simp)
  all_goals exact .ignore

theorem eventEstablished_step (hs : f.state = .established) (e : FsmEvent) :
    FsmStep n f e (f.eventEstablished e) := by
  cases e
  case keepaliveTimerExpires => exact .keepaliveTimerExpires hs
  case notifMsg | tcpConnectionFails | bgpHeaderErr => exact .toIdle (by simp [hs]) (by simp)
  all_goals exact .ignore

/-- Every event takes one of the transitions of `FsmStep`. -/
theorem event_step (f : Fsm) (e : FsmEvent) : FsmStep n f e (f.event n e) := by
  cases hs : f.state with
  | idle => simpa only [event, hs] using eventIdle_step hs e
  | connect => simpa only [event, hs] using eventConnect_step hs e
  | active => simpa only [event, hs] using eventActive_step hs e
  | openSent => simpa only [event, hs] using eventOpenSent_step hs e
  | openConfirm => simpa only [event, hs] using eventOpenConfirm_step hs e
  | established => simpa only [event, hs] using eventEstablished_step hs e

/-! ### Runs -/

theorem run_append (n : UInt16) (es es' : List FsmEvent) :
    run n (es ++ es') = es'.foldl (event n) (run n es) :=
  List.foldl_append

@[simp] theorem run_concat (n : UInt16) (es : List FsmEvent) (e : FsmEvent) :
    run n (es ++ [e]) = (run n es).event n e := by
  simp [run_append]

example : (run 90 [.manualStart, .tcpConnectionConfirmed, .bgpOpen 30, .keepAliveMsg]).state =
    .established := by decide

/-- A run of events is the run of inputs in which no goroutine exits. -/
theorem runInputs_map_event (n : UInt16) (es : List FsmEvent) :
    runInputs n (es.map .event) = run n es := by
  rw [runInputs, List.foldl_map]
  rfl

/-- The reader exits after the connection is confirmed: the writer is still set. -/
example : (runInputs 90 [.event .manualStart, .event .tcpConnectionConfirmed, .readerExit]).writeFunc =
    true := by decide

/-! ### The state invariant -/

/-- What holds of the FSM in every state it reaches: no handler enters OpenSent; the idle timer
runs only in Idle, the keepalive timer only in Established, the connect-retry timer only in
Connect, Active and OpenConfirm; the reader and the writer are set only in Connect,
OpenConfirm and Established, each of them apart from the other; a dial is out in those three
states and never in Idle; and the keepalive time is a third of the hold time, which is at most
the neighbor's. -/
structure FsmInv (n : UInt16) (f : Fsm) : Prop where
  state_ne_openSent : f.state ≠ .openSent
  idleTimer_state : f.idleTimer = true → f.state = .idle
  keepaliveTimer_state : f.keepaliveTimer = true → f.state = .established
  connRetryTimer_state : f.connRetryTimer = true →
    f.state = .connect ∨ f.state = .active ∨ f.state = .openConfirm
  readFunc_state : f.readFunc = true →
    f.state = .connect ∨ f.state = .openConfirm ∨ f.state = .established
  writeFunc_state : f.writeFunc = true →
    f.state = .connect ∨ f.state = .openConfirm ∨ f.state = .established
  connExit_of_state : f.state = .connect ∨ f.state = .openConfirm ∨ f.state = .established →
    f.connExit = true
  connExit_idle : f.state = .idle → f.connExit = false
  keepaliveTime_eq : f.keepaliveTime = (f.holdTime / 3).toNat
  holdTime_le : f.holdTime ≤ n

private theorem uint16_min_le_left (a b : UInt16) : min a b ≤ a := by
  change (if a ≤ b then a else b) ≤ a
  split
  · exact UInt16.le_refl a
  · exact UInt16.le_of_lt (UInt16.not_le.1 ‹_›)

theorem fsmInv_new : FsmInv n new := by
  constructor <;> simp [new]

theorem FsmStep.inv (h : FsmStep n f e f') (hv : FsmInv n f) : FsmInv n f' := by
  obtain ⟨hos, hidle, hka, hcr, hr, hw, hce, hci, hkt, hht⟩ := hv
  cases h with
  | ignore => exact ⟨hos, hidle, hka, hcr, hr, hw, hce, hci, hkt, hht⟩
  -- `Stop` clears every timer and the connection
  | toIdle _ _ => constructor <;> simp [hkt, hht]
  | start _ _ | startPassive _ _ | connectFails _ | connectRetry _ | tcpEstablish _ =>
    constructor <;> simp_all
  | bgpOpen hs =>
    -- OpenConfirm does not stop the keepalive timer: it was not running in Connect
    have hka : f.keepaliveTimer = false := by cases hk : f.keepaliveTimer <;> simp_all
    constructor <;> simp_all [uint16_min_le_left]
  | keepAliveMsg _ | keepaliveTimerExpires _ => constructor <;> simp_all

/-- An input keeps the invariant: an event takes a step of `FsmStep`, and an exit clears one
function, which the invariant allows in every state. -/
theorem FsmInv.input (hv : FsmInv n f) (x : FsmInput) : FsmInv n (f.input n x) := by
  cases x with
  | event e => exact (event_step f e).inv hv
  -- the deferred function changes its own field only, to false, where nothing is asked
  | readerExit => exact { hv with readFunc_state := fun h => absurd h Bool.false_ne_true }
  | writerExit => exact { hv with writeFunc_state := fun h => absurd h Bool.false_ne_true }

theorem FsmInv.foldl (hv : FsmInv n f) (xs : List FsmInput) :
    FsmInv n (xs.foldl (Fsm.input n) f) :=
  List.foldlRecOn xs (Fsm.input n) hv fun _ hf x _ => hf.input x

/-- The invariant over a run of events. -/
theorem fsmInv_of_events (n : UInt16) (es : List FsmEvent) : FsmInv n (run n es) := by
  rw [← runInputs_map_event]
  exact fsmInv_new.foldl _

/-! ### Nothing is sent before an OPEN comes in -/

/-- An event other than `BGPOpen` queues nothing and leads into neither OpenConfirm nor
Established, from a state that has queued nothing and is in neither. -/
theorem FsmStep.quiet (h : FsmStep n f e f') (hne : ∀ hold, e ≠ .bgpOpen hold)
    (hsent : f.sent = []) (hst : f.state.opened = false) :
    f'.sent = [] ∧ f'.state.opened = false := by
  cases h with
  | ignore | tcpEstablish _ => exact ⟨hsent, hst⟩
  | bgpOpen _ => exact absurd rfl (hne _)
  | keepAliveMsg hs | keepaliveTimerExpires hs => simp [hs, FsmState.opened] at hst
  | start _ _ | startPassive _ _ | connectFails _ | connectRetry _ | toIdle _ _ =>
    simp [hsent, FsmState.opened]

/-- The one way out of a state that has queued nothing and is in neither OpenConfirm nor
Established: a `BGPOpen` handled in Connect, which queues an OPEN and a KEEPALIVE. -/
theorem FsmStep.leave_quiet (h : FsmStep n f e f') (hsent : f.sent = [])
    (hst : f.state.opened = false) (h' : ¬(f'.sent = [] ∧ f'.state.opened = false)) :
    f.state = .connect ∧ (∃ hold, e = .bgpOpen hold) ∧ f'.sent = [.openMsg n, .keepAliveMsg] := by
  by_cases he : ∃ hold, e = .bgpOpen hold
  · obtain ⟨hold, rfl⟩ := he
    cases h with
    | bgpOpen hs => exact ⟨hs, ⟨_, rfl⟩, by simp [hsent]⟩
    | ignore => exact absurd ⟨hsent, hst⟩ h'
    | start _ he | startPassive _ he | toIdle _ he => simp at he
  · exact absurd (h.quiet (fun hold h => he ⟨hold, h⟩) hsent hst) h'

/-- `sendCh` is a queue: a step only adds to it. -/
theorem FsmStep.sent_grows (h : FsmStep n f e f') : f.sent <+: f'.sent := by
  cases h <;> simp

theorem run_sent_grows (n : UInt16) (es es' : List FsmEvent) :
    (run n es).sent <+: (run n (es ++ es')).sent := by
  rw [run_append]
  exact List.foldlRecOn es' (event n) (motive := fun f' => (run n es).sent <+: f'.sent)
    (List.prefix_refl _) fun f hf e _ => hf.trans (event_step f e).sent_grows

/-- Over any run, the FSM queues no message and stays out of OpenConfirm and Established until
it handles a `BGPOpen` in Connect; that event queues an OPEN offering the neighbor's hold time
and a KEEPALIVE, which are the first two messages of the run. -/
theorem run_first_open (n : UInt16) (es : List FsmEvent)
    (hes : (run n es).sent ≠ [] ∨ (run n es).state.opened = true) :
    ∃ pre hold post, es = pre ++ .bgpOpen hold :: post ∧ (run n pre).state = .connect ∧
      (run n pre).sent = [] ∧
      (run n (pre ++ [.bgpOpen hold])).sent = [.openMsg n, .keepAliveMsg] ∧
      [.openMsg n, .keepAliveMsg] <+: (run n es).sent := by
  have hnew : ¬¬(new.sent = [] ∧ new.state.opened = false) := by simp [new, FsmState.opened]
  have hend : ¬((run n es).sent = [] ∧ (run n es).state.opened = false) := by
    rcases hes with hes | hes <;> simp [hes]
  -- the last step out of the quiet states is the first, since no step leads back into them
  obtain ⟨pre, e, post, rfl, hpre, hpost⟩ := Lib.foldl_last_entry (event n)
    (P := fun f => ¬(f.sent = [] ∧ f.state.opened = false)) hnew es hend
  have hquiet : (run n pre).sent = [] ∧ (run n pre).state.opened = false := not_not.1 hpre
  have hleave : ¬((run n (pre ++ [e])).sent = [] ∧ (run n (pre ++ [e])).state.opened = false) :=
    hpost [] List.nil_prefix
  rw [run_concat] at hleave
  obtain ⟨hconnect, ⟨hold, rfl⟩, hsent⟩ :=
    (event_step (run n pre) e).leave_quiet hquiet.1 hquiet.2 hleave
  refine ⟨pre, hold, post, rfl, hconnect, hquiet.1, by rw [run_concat, hsent], ?_⟩
  have := run_sent_grows n (pre ++ [.bgpOpen hold]) post
  rwa [run_concat, hsent, List.append_assoc, List.singleton_append] at this

theorem run_first_open_after_connect :
    (run 90 [.manualStart, .tcpConnectionConfirmed, .bgpOpen 30]).sent ≠ [] ∧
      ∃ pre hold post,
        [.manualStart, .tcpConnectionConfirmed, .bgpOpen 30] = pre ++ .bgpOpen hold :: post ∧
        (run 90 pre).state = .connect ∧ (run 90 pre).sent = [] ∧
        (run 90 (pre ++ [.bgpOpen hold])).sent = [.openMsg 90, .keepAliveMsg] ∧
        [.openMsg 90, .keepAliveMsg] <+:
          (run 90 [.manualStart, .tcpConnectionConfirmed, .bgpOpen 30]).sent :=
  ⟨by decide, run_first_open 90 _ (.inl (by decide))⟩

/-! ### The negotiated hold time -/

/-- In OpenConfirm and Established every event keeps the hold time. -/
theorem FsmStep.holdTime_eq (h : FsmStep n f e f') (hst : f.state.opened = true) :
    f'.holdTime = f.holdTime := by
  cases h with
  | bgpOpen hs => simp [hs, FsmState.opened] at hst
  | _ => simp

/-- The one way into OpenConfirm and Established: a `BGPOpen` handled in Connect, which takes
the smaller hold time. -/
theorem FsmStep.enter_opened (h : FsmStep n f e f') (hst : f.state.opened = false)
    (hst' : f'.state.opened = true) :
    f.state = .connect ∧ ∃ hold, e = .bgpOpen hold ∧ f'.holdTime = min n hold := by
  cases h with
  | bgpOpen hs => exact ⟨hs, _, rfl, by simp⟩
  | ignore | tcpEstablish _ => simp [hst] at hst'
  | keepAliveMsg hs | keepaliveTimerExpires hs => simp [hs, FsmState.opened] at hst
  | start _ _ | startPassive _ _ | connectFails _ | connectRetry _ | toIdle _ _ =>
    simp [FsmState.opened] at hst'

/-- In OpenConfirm and Established, the hold time is the smaller of the neighbor's and that of
the OPEN whose `BGPOpen` took the FSM out of Connect, the session it has been in since, and the
keepalive time is a third of it. -/
theorem run_holdTime_of_opened (n : UInt16) (es : List FsmEvent)
    (hes : (run n es).state.opened = true) :
    ∃ pre hold post, es = pre ++ .bgpOpen hold :: post ∧ (run n pre).state = .connect ∧
      (∀ mid, mid <+: post → (run n (pre ++ .bgpOpen hold :: mid)).state.opened = true) ∧
      (run n es).holdTime = min n hold ∧ (run n es).keepaliveTime = (min n hold / 3).toNat := by
  obtain ⟨pre, e, post, rfl, hpre, hpost⟩ := Lib.foldl_last_entry (event n)
    (P := fun f => f.state.opened = true) (by simp [new, FsmState.opened]) es hes
  have hin : (run n (pre ++ [e])).state.opened = true := hpost [] List.nil_prefix
  rw [run_concat] at hin
  -- the session began at a `BGPOpen` handled in Connect
  obtain ⟨hconnect, hold, rfl, hhold⟩ :=
    (event_step (run n pre) e).enter_opened (by simpa [run] using hpre) hin
  -- and no event of the session changed the hold time
  have hkeep : (run n (pre ++ .bgpOpen hold :: post)).holdTime = min n hold := by
    rw [← List.singleton_append, ← List.append_assoc, run_append, ← hhold, ← run_concat]
    refine Lib.foldl_eq_of_forall_prefix (event n) holdTime
      (fun f e hf _ => (event_step f e).holdTime_eq hf) post fun mid hmid => ?_
    simpa [run] using hpost mid hmid
  refine ⟨pre, hold, post, rfl, hconnect, hpost, hkeep, ?_⟩
  rw [(fsmInv_of_events n _).keepaliveTime_eq, hkeep]

theorem run_holdTime_established :
    (run 90 [.manualStart, .tcpConnectionConfirmed, .bgpOpen 30, .keepAliveMsg, .bgpOpen 180]
      ).state.opened = true ∧
      ∃ pre hold post, [.manualStart, .tcpConnectionConfirmed, .bgpOpen 30, .keepAliveMsg,
          .bgpOpen 180] = pre ++ .bgpOpen hold :: post ∧
        (run 90 pre).state = .connect ∧
        (∀ mid, mid <+: post → (run 90 (pre ++ .bgpOpen hold :: mid)).state.opened = true) ∧
        (run 90 [.manualStart, .tcpConnectionConfirmed, .bgpOpen 30, .keepAliveMsg,
          .bgpOpen 180]).holdTime = min 90 hold ∧
        (run 90 [.manualStart, .tcpConnectionConfirmed, .bgpOpen 30, .keepAliveMsg,
          .bgpOpen 180]).keepaliveTime = (min 90 hold / 3).toNat :=
  ⟨by decide, run_holdTime_of_opened 90 _ (by decide)⟩

/-! ### Sessions that take their OPENs from each other -/

section Sessions

variable {ι : Type*} [DecidableEq ι]

/-- One step of a network of sessions, each running this FSM: session `i` handles an event.
A `BGPOpen` is made by the session's reader from an OPEN that the session at the other end,
`peer i`, queued; every other event may come at any time. -/
inductive SessionStep (holdTime : ι → UInt16) (peer : ι → ι) : (ι → Fsm) → (ι → Fsm) → Prop
  | event {p : ι → Fsm} (i : ι) (e : FsmEvent)
      (hopen : ∀ hold, e = .bgpOpen hold → FsmMsg.openMsg hold ∈ (p (peer i)).sent) :
      SessionStep holdTime peer p (Function.update p i ((p i).event (holdTime i) e))

/-- In every state that sessions starting from `NewFsm` reach, whatever the order of their
events, no session has queued a message or is in OpenConfirm or Established: each waits for
an OPEN that none sends first. -/
theorem reachable_sessions_quiet {holdTime : ι → UInt16} {peer : ι → ι} {p : ι → Fsm}
    (hp : Relation.ReflTransGen (SessionStep holdTime peer) (fun _ => new) p) (i : ι) :
    (p i).sent = [] ∧ (p i).state.opened = false := by
  induction hp generalizing i with
  | refl => exact ⟨rfl, rfl⟩
  | tail _ hs ih =>
    obtain ⟨j, e, hopen⟩ := hs
    -- no session has queued an OPEN, so no session is handed one
    have hne : ∀ hold, e ≠ .bgpOpen hold := fun hold he => by
      simpa [(ih (peer j)).1] using hopen hold he
    by_cases hij : i = j
    · subst hij
      simpa using (event_step _ e).quiet hne (ih i).1 (ih i).2
    · simpa [Function.update_of_ne hij] using ih i

theorem sessions_quiet_after_connect :
    Relation.ReflTransGen (SessionStep (fun _ => 90) (fun b : Bool => !b)) (fun _ => new)
      (Function.update (fun _ => new) true (new.event 90 .manualStart)) ∧
    ((Function.update (fun _ => new) true (new.event 90 .manualStart)) true).sent = [] ∧
    ((Function.update (fun _ => new) true (new.event 90 .manualStart)) true).state.opened =
      false :=
  have hp := Relation.ReflTransGen.single
    (SessionStep.event true .manualStart (by simp) :
      SessionStep (fun _ => 90) (fun b : Bool => !b) (fun _ => new) _)
  ⟨hp, reachable_sessions_quiet hp true⟩

end Sessions

end Fsm

end Zebra.Bgp
