import ReechatBase.EventWatcher.Basic
import ReechatBase.Lib.Transition
import Mathlib.Data.Int.Notation

/-!
# TcpServerTask

`TcpServerTask` (`tcp_server_task.cpp`) as a transition system on its worker loop. The methods of
the task run to the end, except where they call a hook of the subclass. A hook may call the task;
and when the worker loop and the network loop are the same, what it does with the socket may lead
into a function that calls `SignalOnCloseEvent` at once.

The socket posts and calls its signals in any order and any number of times, as long as they are
set. Times are integers without bound: the differences of `int64_t` are taken not to overflow.
-/

namespace ReechatBase.TcpServerTask

open Lib EventWatcher

/-! ## The state -/

/-- A hook of the subclass that has been called and has not returned. -/
inductive Frame where
  | onRecvVerifyMsg
  | addToManager
  | msgParse
  /-- In `StopProcess` or `StopProcessV2` -/
  | removeFromManager
  deriving DecidableEq

/-- The members of the task, the signals of its socket, and what the results speak about. -/
structure Task where
  /-- Whether `BeginProcess` has returned true -/
  begun : Bool
  /-- Whether `conn_socket_` is set -/
  socket : Bool
  /-- Whether `SignalReadPacket` and `SignalOnCloseEvent` of the socket are set -/
  hasSignals : Bool
  closeTimer : Timer
  verifyTimer : Timer
  verified : Bool
  lastHelloTime : ℤ
  /-- The hooks that the task waits for, the innermost first -/
  stack : List Frame
  /-- The number of `OnCloseEvent` functors in the worker loop -/
  closePosts : ℕ
  /-- Whether `OnRecvVerifyMsg` has returned true -/
  accepted : Bool
  /-- The calls of `AddToManager` -/
  added : ℕ
  /-- Whether `MsgParse` was called before `OnRecvVerifyMsg` had returned true and `AddToManager`
      had been called -/
  premature : Bool
  /-- Whether `StopProcess` or `StopProcessV2` has run to its end -/
  stopped : Bool
  /-- Whether a packet has reached `OnRecvVerifyMsg` or `MsgParse` after that -/
  heard : Bool
  /-- Whether a close callback has called `RemoveFromManager` after that -/
  late : Bool
  /-- Whether a null timer was dereferenced -/
  crashed : Bool

/-- After the constructor -/
def Task.fresh : Task where
  begun := false
  socket := false
  hasSignals := false
  closeTimer := .absent
  verifyTimer := .absent
  verified := false
  lastHelloTime := 0
  stack := []
  closePosts := 0
  accepted := false
  added := 0
  premature := false
  stopped := false
  heard := false
  late := false
  crashed := false

/-! ## The methods -/

namespace Task

variable (s : Task)

/-- `f` is called. -/
def call (f : Frame) : Task := { s with stack := f :: s.stack }

/-- `close_timer_->AsyncWait()` -/
def asyncWaitClose : Task :=
  { s with
    closeTimer := s.closeTimer.asyncWait, crashed := s.crashed || s.closeTimer = .absent }

/-- `TcpServerTask::BeginProcess` with a socket, or with null; `now` is `rtc::TimeMillis()`. -/
def beginProcess (socket : Bool) (now : ℤ) : Task :=
  if socket then
    { s with
      begun := true, socket := true, hasSignals := true, closeTimer := .idle,
      verifyTimer := .pending, lastHelloTime := now }
  else
    s

/-- `TcpServerTask::StopProcess` and `TcpServerTask::StopProcessV2`, behind `RemoveFromManager`. -/
def release : Task :=
  { s with
    hasSignals := if s.socket then false else s.hasSignals
    socket := false
    closeTimer := .absent
    verifyTimer := .absent }

/-- `StopProcess` or `StopProcessV2` has run to its end. -/
def markStopped : Task := { s with stopped := true }

/-- `TcpServerTask::StopProcess`, up to `RemoveFromManager`. -/
def stopProcess : Task := s.call .removeFromManager

/-- `TcpServerTask::StopProcessV2`, up to `RemoveFromManager` if that is called. -/
def stopProcessV2 (notifyManager : Bool) : Task :=
  if notifyManager then s.call .removeFromManager else s.release

/-- The client did not say hello for 30 seconds. -/
def TimedOut (time : ℤ) : Prop :=
  s.lastHelloTime ≠ 0 ∧ s.verified = true ∧ time - s.lastHelloTime > 30000

instance (time : ℤ) : Decidable (s.TimedOut time) :=
  inferInstanceAs (Decidable (_ ∧ _ ∧ _))

/-- `TcpServerTask::ScheduleEvent` -/
def scheduleEvent (time : ℤ) : Task :=
  if s.TimedOut time then s.asyncWaitClose else s

/-- `TcpServerTask::OnInternalPacket`, up to the hook it calls. -/
def onInternalPacket : Task :=
  if s.verified then
    { s with
      premature := s.premature || !(s.accepted && 0 < s.added)
      heard := s.heard || s.stopped }.call .msgParse
  else
    { s with heard := s.heard || s.stopped }.call .onRecvVerifyMsg

/-- `OnRecvVerifyMsg` has returned true. -/
def accept : Task :=
  { s with accepted := true, verified := true, added := s.added + 1 }.call .addToManager

/-- `TcpServerTask::OnCloseEvent` -/
def onCloseEvent : Task := { s with late := s.late || s.stopped }.stopProcess

/-- `TcpServerTask::OnCheckVerified` -/
def onCheckVerified : Task := if s.verified then s else s.asyncWaitClose

end Task

/-! ## The steps -/

inductive Label where
  | beginProcess (socket : Bool) (now : ℤ)
  | stopProcess
  | stopProcessV2 (notifyManager : Bool)
  | scheduleEvent (time : ℤ)
  | onRecvHelloMsg (now : ℤ)
  /-- The socket posts `SignalOnCloseEvent` to the worker loop -/
  | post
  /-- The worker loop runs it -/
  | run
  /-- The socket calls `SignalOnCloseEvent` at once -/
  | inline
  /-- The socket calls `SignalReadPacket` -/
  | packet
  /-- `verify_timer_` fires -/
  | checkVerified
  /-- `close_timer_` fires -/
  | close
  /-- The innermost hook returns, `OnRecvVerifyMsg` with `value` -/
  | ret (value : Bool)
  deriving DecidableEq

/-- The steps of a task; `oneLoop` is whether the two loops of its socket are the same. -/
inductive Step (oneLoop : Bool) : Task → Label → Task → Prop where
  -- the user, at any time
  | beginProcess {s socket now} : s.begun = false →
      Step oneLoop s (.beginProcess socket now) (s.beginProcess socket now)
  | stopProcess {s} : s.begun = true → Step oneLoop s .stopProcess s.stopProcess
  | stopProcessV2 {s} : s.begun = true →
      Step oneLoop s (.stopProcessV2 true) (s.stopProcessV2 true)
  | stopProcessV2Alone {s} : s.begun = true →
      Step oneLoop s (.stopProcessV2 false) (s.stopProcessV2 false).markStopped
  | scheduleEvent {s time} : Step oneLoop s (.scheduleEvent time) (s.scheduleEvent time)
  | onRecvHelloMsg {s now} : Step oneLoop s (.onRecvHelloMsg now) { s with lastHelloTime := now }
  -- the socket
  | post {s} : s.hasSignals = true →
      Step oneLoop s .post { s with closePosts := s.closePosts + 1 }
  | run {s n} : s.stack = [] → s.closePosts = n + 1 →
      Step oneLoop s .run { s with closePosts := n }.onCloseEvent
  | inline {s} : s.hasSignals = true → s.stack = [] ∨ oneLoop = true →
      Step oneLoop s .inline s.onCloseEvent
  | packet {s} : s.stack = [] → s.hasSignals = true → Step oneLoop s .packet s.onInternalPacket
  -- the timers, which are registered for one firing
  | checkVerified {s} : s.stack = [] → s.verifyTimer = .pending →
      Step oneLoop s .checkVerified { s with verifyTimer := .idle }.onCheckVerified
  | close {s} : s.stack = [] → s.closeTimer = .pending →
      Step oneLoop s .close { s with closeTimer := .idle }.stopProcess
  -- returns
  | verified {s rest} : s.stack = .onRecvVerifyMsg :: rest →
      Step oneLoop s (.ret true) { s with stack := rest }.accept
  | notVerified {s rest} : s.stack = .onRecvVerifyMsg :: rest →
      Step oneLoop s (.ret false) { s with stack := rest }
  | addToManager {s rest b} : s.stack = .addToManager :: rest →
      Step oneLoop s (.ret b) { s with stack := rest }
  | msgParse {s rest b} : s.stack = .msgParse :: rest →
      Step oneLoop s (.ret b) { s with stack := rest }
  | removeFromManager {s rest b} : s.stack = .removeFromManager :: rest →
      Step oneLoop s (.ret b) { s with stack := rest }.release.markStopped

/-- The server task. -/
def system (oneLoop : Bool) : Lts Task Label where
  init s := s = .fresh
  step := Step oneLoop

end ReechatBase.TcpServerTask
