import ReechatBase.EventWatcher.Basic
import ReechatBase.Lib.Transition
import Mathlib.Data.Int.Notation

/-!
# TcpClientTask

`TcpClientTask` (`tcp_client_task.cpp`) as a transition system on its worker loop. The methods of
the task run to the end, except where they call a hook of the subclass, or `BeginConnect`: from
there the task can be entered again. A hook may call the task; and when the worker loop and the
network loop are the same, what is called may lead into a function of a socket that calls
`SignalOnConnected` or `SignalOnCloseEvent` at once.

The sockets are numbered in the order in which `ConnectToServer` has made them. They may post and
call their signals in any order and any number of times, as long as the signals are set.
`event_add` of the timer is taken to succeed. Times are integers without bound: the differences of
`int64_t` are taken not to overflow.
-/

namespace ReechatBase.TcpClientTask

open Lib EventWatcher

/-! ## The state -/

/-- The signals of a socket that are bound to a functor when they are posted. -/
inductive Signal where
  | onConnected
  | onCloseEvent
  deriving DecidableEq

/-- What a method of the task has called and waits for. -/
inductive Frame where
  /-- `BeginConnect` of a socket -/
  | beginConnect (i : ℕ)
  /-- `RemoveFromManager`, in `StopProcess` -/
  | removeFromManager
  /-- `OnRecvVerifyMsg`, with a packet of a socket -/
  | onRecvVerifyMsg (i : ℕ)
  | addToManager
  | msgParse
  | onConnectOpen
  | onSendVerifyMsg
  | onConnectError
  /-- `OnSendHelloMsg`, in `ScheduleEvent(time)`; `first` is whether `last_schedule_time_` was 0 -/
  | onSendHelloMsg (time : ℤ) (first : Bool)
  deriving DecidableEq

/-- A hook of the subclass -/
def Frame.isHook : Frame → Bool
  | beginConnect _ => false
  | _ => true

/-- The members of the task and of its sockets, and what the results speak about. -/
structure Task where
  /-- Whether `BeginProcess` was called -/
  begun : Bool
  /-- `tcp_socket_` -/
  socket : Option ℕ
  /-- `reconnect_timer_` -/
  timer : Timer
  verified : Bool
  checkHello : Bool
  lastHelloTime : ℤ
  lastScheduleTime : ℤ
  maxReconnectTimes : ℤ
  connectRound : ℤ
  /-- What the task waits for, the innermost call first -/
  stack : List Frame
  /-- The number of sockets made -/
  created : ℕ
  /-- The sockets whose signals were set to null -/
  cleared : List ℕ
  /-- The signals posted to the worker loop that did not run -/
  posts : List (Signal × ℕ)
  /-- The sockets on which `CloseConnection` was called, once for each call -/
  closes : List ℕ
  /-- Whether `StopProcess` has run to its end -/
  stopped : Bool
  /-- Whether the task has connected, or called one of the hooks that tell the subclass about the
      connection, after that -/
  late : Bool
  /-- The sockets with a packet for which `OnRecvVerifyMsg` has returned true -/
  verifiedBy : List ℕ
  /-- Whether `MsgParse` was given a packet of another socket -/
  stray : Bool
  /-- The sockets given up by `TryReconnectServerInner`, the calls of `ConnectToServer`, and the
      calls of `OnConnectError`, all since `BeginProcess` or the last `OnConnectEvent` -/
  lost : List ℕ
  connects : ℕ
  errors : ℕ

/-- After the constructor -/
def Task.fresh : Task where
  begun := false
  socket := none
  timer := .absent
  verified := false
  checkHello := true
  lastHelloTime := 0
  lastScheduleTime := 0
  maxReconnectTimes := -1
  connectRound := 0
  stack := []
  created := 0
  cleared := []
  posts := []
  closes := []
  stopped := false
  late := false
  verifiedBy := []
  stray := false
  lost := []
  connects := 0
  errors := 0

/-! ## The methods -/

namespace Task

variable (s : Task)

/-- `f` is called. -/
def call (f : Frame) : Task := { s with stack := f :: s.stack }

/-- `f` is called, which is not to be called once the task is stopped. -/
def callOpen (f : Frame) : Task := { s with stack := f :: s.stack, late := s.late || s.stopped }

/-- `TcpClientTask::ConnectToServer`, up to `BeginConnect`. -/
def connectToServer : Task :=
  { s with
    socket := some s.created, created := s.created + 1,
    connects := s.connects + 1 }.callOpen (.beginConnect s.created)

/-- `if (tcp_socket_) { tcp_socket_->CloseConnection(); tcp_socket_ = nullptr; }` -/
def closeSocket : Task := { s with socket := none, closes := s.closes ++ s.socket.toList }

/-- `TcpClientTask::StopProcess`, behind `RemoveFromManager`. -/
def stopProcess : Task :=
  let s := { s with cleared := s.socket.toList ++ s.cleared }.closeSocket
  { s with timer := .absent }

/-- `StopProcess` has run to its end. -/
def markStopped : Task := { s with stopped := true }

/-- The end of `TcpClientTask::TryReconnectServerInner`, for a budget that is not used up. -/
def reconnect : Task :=
  let s := s.closeSocket
  { s with
    timer := if s.timer = .absent then .absent else .pending
    lastHelloTime := 0
    verified := false }

/-- The socket in `tcp_socket_` is given up. -/
def lose : Task :=
  { s with lost := match s.socket with
    | some i => s.lost.insert i
    | none => s.lost }

/-- `TcpClientTask::TryReconnectServerInner`, up to `OnConnectError` if that is called. -/
def tryReconnectServerInner : Task :=
  let s := s.lose
  if 0 < s.maxReconnectTimes then
    let s := { s with connectRound := s.connectRound + 1 }
    if s.connectRound ≥ s.maxReconnectTimes then
      { s with errors := s.errors + 1 }.callOpen .onConnectError
    else
      s.reconnect
  else
    s.reconnect

/-- `TcpClientTask::OnInternalPacket` with a packet of socket `i`, up to the hook it calls. -/
def onInternalPacket (i : ℕ) : Task :=
  if s.verified then { s with stray := s.stray || i ∉ s.verifiedBy }.call .msgParse
  else s.call (.onRecvVerifyMsg i)

/-- `TcpClientTask::OnConnectEvent`, up to the first hook. -/
def onConnectEvent : Task := s.callOpen .onConnectOpen

/-- The end of `TcpClientTask::OnConnectEvent`; `now` is `rtc::TimeMillis()`. -/
def endConnectEvent (now : ℤ) : Task :=
  { s with lastHelloTime := now, connectRound := 0, lost := [], connects := 0, errors := 0 }

/-- A signal of a socket; `TcpClientTask::OnCloseEvent` is `TryReconnectServerInner`. -/
def signal : Signal → Task
  | .onConnected => s.onConnectEvent
  | .onCloseEvent => s.tryReconnectServerInner

/-- The server did not say hello for 30 seconds. -/
def HelloTimeout (time : ℤ) : Prop :=
  s.checkHello = true ∧ s.lastHelloTime > 0 ∧ time - s.lastHelloTime > 30000

instance (time : ℤ) : Decidable (s.HelloTimeout time) :=
  inferInstanceAs (Decidable (_ ∧ _ ∧ _))

/-- The end of `TcpClientTask::ScheduleEvent`. -/
def checkHelloTime (time : ℤ) : Task :=
  if s.HelloTimeout time then s.tryReconnectServerInner else s

/-- `TcpClientTask::ScheduleEvent`, up to `OnSendHelloMsg` if that is called. -/
def scheduleEvent (time : ℤ) : Task :=
  if s.lastScheduleTime = 0 then s.call (.onSendHelloMsg time true)
  else if time - s.lastScheduleTime ≥ 10000 then s.call (.onSendHelloMsg time false)
  else s.checkHelloTime time

/-- `OnSendHelloMsg` has returned `sent`. -/
def helloSent (time : ℤ) (first sent : Bool) : Task :=
  { s with lastScheduleTime := if first && !sent then s.lastScheduleTime else time }

/-- A method of the task can be called: none is running, or one is in a hook. -/
def CanCall : Prop := ∀ f ∈ s.stack.head?, f.isHook = true

/-- A signal of socket `i` can be called at once: `BeginConnect` calls its own socket. -/
def CanSignal (i : ℕ) : Prop := ∀ f ∈ s.stack.head?, f.isHook = true ∨ f = .beginConnect i

end Task

/-! ## The steps -/

inductive Label where
  | setMaxReconnectTimes (count : ℤ)
  | setCheckHello (enable : Bool)
  | beginProcess
  | stopProcess
  | scheduleEvent (time : ℤ)
  | onRecvHelloMsg (now : ℤ)
  /-- A socket posts a signal to the worker loop -/
  | post (sig : Signal) (i : ℕ)
  /-- The worker loop runs it -/
  | run (sig : Signal) (i : ℕ)
  /-- A socket calls a signal at once -/
  | inline (sig : Signal) (i : ℕ)
  /-- A socket calls `SignalReadPacket` -/
  | packet (i : ℕ)
  /-- The reconnect timer fires -/
  | fire
  /-- The innermost call returns, a `bool` with `value`; the time is `now` -/
  | ret (value : Bool) (now : ℤ)
  deriving DecidableEq

/-- The steps of a task; `oneLoop` is whether its two loops are the same. -/
inductive Step (oneLoop : Bool) : Task → Label → Task → Prop where
  -- the user
  | setMaxReconnectTimes {s k} : s.CanCall →
      Step oneLoop s (.setMaxReconnectTimes k) { s with maxReconnectTimes := k }
  | setCheckHello {s b} : s.CanCall →
      Step oneLoop s (.setCheckHello b) { s with checkHello := b }
  | beginProcess {s} : s.begun = false → s.CanCall →
      Step oneLoop s .beginProcess { s with begun := true, timer := .idle }.connectToServer
  | stopProcess {s} : s.begun = true → s.CanCall →
      Step oneLoop s .stopProcess (s.call .removeFromManager)
  | scheduleEvent {s time} : s.begun = true → s.CanCall →
      Step oneLoop s (.scheduleEvent time) (s.scheduleEvent time)
  | onRecvHelloMsg {s now} : s.begun = true → s.CanCall →
      Step oneLoop s (.onRecvHelloMsg now) { s with lastHelloTime := now }
  -- the sockets
  | post {s sig i} : i < s.created → i ∉ s.cleared →
      Step oneLoop s (.post sig i) { s with posts := s.posts ++ [(sig, i)] }
  | run {s sig i} : s.stack = [] → (sig, i) ∈ s.posts →
      Step oneLoop s (.run sig i) ({ s with posts := s.posts.erase (sig, i) }.signal sig)
  | inline {s sig i} : oneLoop = true → s.CanSignal i → i < s.created → i ∉ s.cleared →
      Step oneLoop s (.inline sig i) (s.signal sig)
  | packet {s i} : s.stack = [] → i < s.created → i ∉ s.cleared →
      Step oneLoop s (.packet i) (s.onInternalPacket i)
  -- the timer
  | fire {s} : s.stack = [] → s.timer = .pending →
      Step oneLoop s .fire { s with timer := .idle }.connectToServer
  -- returns
  | beginConnect {s i rest b now} : s.stack = .beginConnect i :: rest →
      Step oneLoop s (.ret b now) { s with stack := rest }
  | removeFromManager {s rest b now} : s.stack = .removeFromManager :: rest →
      Step oneLoop s (.ret b now) { s with stack := rest }.stopProcess.markStopped
  | verified {s i rest now} : s.stack = .onRecvVerifyMsg i :: rest →
      Step oneLoop s (.ret true now) ({ s with
        verified := true, verifiedBy := i :: s.verifiedBy, stack := rest }.callOpen .addToManager)
  | notVerified {s i rest now} : s.stack = .onRecvVerifyMsg i :: rest →
      Step oneLoop s (.ret false now) ({ s with stack := rest }.callOpen .removeFromManager)
  | addToManager {s rest b now} : s.stack = .addToManager :: rest →
      Step oneLoop s (.ret b now) { s with stack := rest }
  | msgParse {s rest b now} : s.stack = .msgParse :: rest →
      Step oneLoop s (.ret b now) { s with stack := rest }
  | onConnectOpen {s rest b now} : s.stack = .onConnectOpen :: rest →
      Step oneLoop s (.ret b now) ({ s with stack := rest }.callOpen .onSendVerifyMsg)
  | onSendVerifyMsg {s rest b now} : s.stack = .onSendVerifyMsg :: rest →
      Step oneLoop s (.ret b now) ({ s with stack := rest }.endConnectEvent now)
  | onConnectError {s rest b now} : s.stack = .onConnectError :: rest →
      Step oneLoop s (.ret b now) ({ s with stack := rest }.callOpen .removeFromManager)
  | onSendHelloMsg {s time first rest b now} : s.stack = .onSendHelloMsg time first :: rest →
      Step oneLoop s (.ret b now)
        (({ s with stack := rest }.helloSent time first b).checkHelloTime time)

/-- The client task. -/
def system (oneLoop : Bool) : Lts Task Label where
  init s := s = .fresh
  step := Step oneLoop

end ReechatBase.TcpClientTask
