import ReechatBase.Lib.Transition
import Mathlib.Data.List.Basic

/-!
# EventLoop

`EventLoop` (`event_loop.cpp`) with its `PipeEventWatcher` (`event_watcher.cpp`) as a transition
system: any number of threads call `QueueInLoop` and `Stop`, the loop thread runs `Run`,
`PipeEventWatcher::HandlerFn`, `DoPendingFunctors` and `StopInLoop`, and the functors it executes
call `QueueInLoop` and `Stop` in turn.

One step is one access to a member that other threads can see. What a thread does to `notified_`
and `pending_functors_` under `mutex_` is seen by no other holder of the mutex, but the pipe,
`pending_functor_count_` and the test of `IsPendingQueueEmpty` are not guarded by it, so that a
call of `QueueInLoop` is a sequence of steps.

`Run` belongs to a loop built by `EventLoop()`. The constructor `EventLoop(base)` watches the queue
itself, and its comment (`event_loop.cpp:38-40`) excludes `Run` from then on: whoever owns the base
dispatches it, so that such a loop has neither the beginning nor the end of `Run` among its steps.
The two test programs call `Run` on such a loop all the same. With no `Stop` in progress that call
does nothing else to the queue: it sets the status to `kStarting` and back and waits for the pipe
again.
-/

namespace ReechatBase.EventLoop

open Lib

/-! ## Functors -/

/-- What is queued: a functor of the user, or `StopInLoop` bound by `Stop`. -/
inductive Functor (F : Type) where
  | user (f : F)
  | stopInLoop
  deriving DecidableEq

def Functor.isStop {F : Type} : Functor F → Bool
  | user _ => false
  | stopInLoop => true

/-- Who calls `QueueInLoop` or `Stop`. -/
inductive Caller where
  /-- Another thread, or another callback of the loop -/
  | other
  /-- A functor that the loop executes -/
  | loop
  deriving DecidableEq

/-- A functor that `QueueInLoop` has accepted, with its place in the order of acceptance and its
    caller. The program stores the functor alone. -/
structure Entry (F : Type) where
  seq : ℕ
  functor : Functor F
  caller : Caller
  deriving DecidableEq

/-! ## The state -/

/-- `BaseStatus::Status`, from the end of `Init` on. -/
inductive Status where
  | initialized
  | starting
  | running
  | stopping
  | stopped
  deriving DecidableEq

/-- Where a call of `QueueInLoop` stands while it holds `mutex_`. -/
inductive QueuePc (F : Type) where
  /-- Before `emplace_back` -/
  | locked (f : Functor F)
  /-- Before `++pending_functor_count_` -/
  | pushed
  /-- Before the test of `notified_` -/
  | counted
  /-- Before `Notify` -/
  | marked
  /-- Before the end of the scope of the lock -/
  | finished
  deriving DecidableEq

/-- Where `StopInLoop` stands. Its lambda `f` is called before and after `event_base_loopexit`,
    which `exited` tells apart. -/
inductive StopPc where
  /-- Before `DoPendingFunctors` in `f` -/
  | drain (exited : Bool)
  /-- Before `IsPendingQueueEmpty` in `f` -/
  | test (exited : Bool)
  /-- Before `event_base_loopexit` -/
  | loopexit
  /-- Before it returns -/
  | finished
  deriving DecidableEq

/-- A call of `DoPendingFunctors`; `rest` is the part of the local `functors` not started yet. -/
inductive Frame (F : Type) where
  /-- Before the swap -/
  | swap
  /-- Between two functors -/
  | batch (rest : List (Entry F))
  /-- Inside a functor of the user -/
  | user (e : Entry F) (rest : List (Entry F))
  /-- Inside `StopInLoop` -/
  | stop (e : Entry F) (pc : StopPc) (rest : List (Entry F))
  deriving DecidableEq

/-- Where the loop thread stands. -/
inductive Control (F : Type) where
  /-- `Run` has not been called -/
  | constructed
  /-- In `Run`, before the status is `kRunning` -/
  | starting
  /-- In the dispatch loop, inside the given calls of `DoPendingFunctors`, the innermost first -/
  | dispatch (stack : List (Frame F))
  /-- The dispatch loop has returned -/
  | left
  /-- `Run` has returned -/
  | done
  deriving DecidableEq

/-- The members of the loop; the functors accepted, started and finished so far in their orders;
    and the batch in which `StopInLoop` was swapped out. -/
structure Loop (F : Type) where
  status : Status
  /-- `create_event_base_myself_` -/
  createdBase : Bool
  /-- Whether `watcher_` is set -/
  watcher : Bool
  /-- The bytes in the pipe that were not read -/
  pipe : ℕ
  notified : Bool
  pending : List (Entry F)
  count : Int32
  /-- The call of `QueueInLoop` that holds `mutex_` -/
  queueing : Option (Caller × QueuePc F)
  /-- A call of `Stop` between its store to `status_` and its call of `QueueInLoop` -/
  stopCall : Option Caller
  /-- Whether `event_base_loopexit` has been called -/
  exitRequested : Bool
  control : Control F
  accepted : List (Entry F)
  started : List (Entry F)
  finished : List (Entry F)
  stopBatch : List (Entry F)

variable {F : Type}

/-- The part of the local `functors` that was not started. -/
def Frame.rest : Frame F → List (Entry F)
  | swap => []
  | batch rest => rest
  | user _ rest => rest
  | stop _ _ rest => rest

/-- The functor that is being executed. -/
def Frame.running : Frame F → List (Entry F)
  | user e _ => [e]
  | stop e _ _ => [e]
  | _ => []

def Frame.isStop : Frame F → Bool
  | stop _ _ _ => true
  | _ => false

def Control.stack : Control F → List (Frame F)
  | dispatch stack => stack
  | _ => []

/-- The functors swapped out and not started, those of outer calls first. -/
def waiting : List (Frame F) → List (Entry F)
  | [] => []
  | f :: stack => waiting stack ++ f.rest

/-- The functors being executed, the outermost first. -/
def running : List (Frame F) → List (Entry F)
  | [] => []
  | f :: stack => running stack ++ f.running

namespace Loop

variable (s : Loop F)

abbrev stack : List (Frame F) := s.control.stack

/-- The loop thread is inside `QueueInLoop` or `Stop`. -/
def Busy : Prop :=
  s.stopCall = some .loop ∨ s.queueing.map Prod.fst = some .loop

/-- Whether code of the caller can be running. -/
def MayCall : Caller → Prop
  | .other => True
  | .loop => ¬ s.Busy ∧ ∃ e rest stack, s.control = .dispatch (.user e rest :: stack)

/-- The entry made by the next `emplace_back`. -/
def nextEntry (f : Functor F) (c : Caller) : Entry F :=
  ⟨s.accepted.length, f, c⟩

end Loop

/-! ## The steps -/

/-- The size of the buffer in `HandlerFn`. -/
def recvLen : ℕ := 128

inductive Label (F : Type) where
  /-- `QueueInLoop` takes the mutex -/
  | queue (c : Caller) (f : F)
  /-- The same, called by `Stop` -/
  | queueStop (c : Caller)
  | push
  | count
  | test
  /-- `send` of one byte, which may fail -/
  | notify (sent : Bool)
  | unlock
  | stop (c : Caller)
  | run
  | watch
  /-- `recv` takes this many bytes -/
  | recv (n : ℕ)
  | swap
  | start
  | finish
  /-- `DoPendingFunctors` returns -/
  | endBatch
  /-- A step of `StopInLoop` -/
  | drain
  | testEmpty
  | loopexit
  | leave
  | stopped
  deriving DecidableEq

/-- The steps of the loop and of its callers. -/
inductive Step : Loop F → Label F → Loop F → Prop where
  -- QueueInLoop
  | queue {s c f} : s.queueing = none → s.MayCall c →
      Step s (.queue c f) { s with queueing := some (c, .locked (.user f)) }
  | queueStop {s c} : s.queueing = none → s.stopCall = some c →
      Step s (.queueStop c) { s with queueing := some (c, .locked .stopInLoop), stopCall := none }
  | push {s c f} : s.queueing = some (c, .locked f) →
      Step s .push { s with
        queueing := some (c, .pushed), pending := s.pending ++ [s.nextEntry f c],
        accepted := s.accepted ++ [s.nextEntry f c] }
  | count {s c} : s.queueing = some (c, .pushed) →
      Step s .count { s with queueing := some (c, .counted), count := s.count + 1 }
  | test {s c} : s.queueing = some (c, .counted) →
      Step s .test { s with
        queueing := some (c, if s.notified then .finished else .marked), notified := true }
  -- a one-byte `send` fails only when the pipe holds unread bytes
  | notify {s c} {sent : Bool} : s.queueing = some (c, .marked) →
      (sent = false → s.watcher = false ∨ 0 < s.pipe) → (sent = true → s.watcher = true) →
      Step s (.notify sent) { s with
        queueing := some (c, .finished), pipe := if sent then s.pipe + 1 else s.pipe }
  | unlock {s c} : s.queueing = some (c, .finished) →
      Step s .unlock { s with queueing := none }
  -- Stop
  | stop {s c} : s.status = .running → s.MayCall c →
      Step s (.stop c) { s with status := .stopping, stopCall := some c }
  -- Run
  | run {s} : s.control = .constructed →
      Step s .run { s with status := .starting, control := .starting }
  | watch {s} : s.control = .starting →
      Step s .watch { s with status := .running, control := .dispatch [] }
  -- HandlerFn; a failed `recv` returns -1, which is positive as a `size_t`
  | recv {s n} : s.control = .dispatch [] → s.exitRequested = false →
      n ≤ min s.pipe recvLen → (n = 0 → s.pipe = 0) →
      Step s (.recv n) { s with pipe := s.pipe - n, control := .dispatch [.swap] }
  -- DoPendingFunctors
  | swap {s stack} : s.control = .dispatch (.swap :: stack) → s.queueing = none →
      Step s .swap { s with
        notified := false, pending := [], control := .dispatch (.batch s.pending :: stack),
        stopBatch := if s.pending.any (·.functor.isStop) then s.pending
          else s.stopBatch }
  | start {s e f rest stack} : s.control = .dispatch (.batch (e :: rest) :: stack) →
      e.functor = .user f →
      Step s .start { s with
        control := .dispatch (.user e rest :: stack), started := s.started ++ [e] }
  | startStop {s e rest stack} : s.control = .dispatch (.batch (e :: rest) :: stack) →
      e.functor = .stopInLoop → s.status = .stopping →
      Step s .start { s with
        control := .dispatch (.stop e (.drain false) rest :: stack), started := s.started ++ [e] }
  | finish {s e rest stack} : s.control = .dispatch (.user e rest :: stack) → ¬ s.Busy →
      Step s .finish { s with
        control := .dispatch (.batch rest :: stack), count := s.count - 1,
        finished := s.finished ++ [e] }
  | endBatch {s stack} : s.control = .dispatch (.batch [] :: stack) →
      Step s .endBatch { s with control := .dispatch stack }
  -- StopInLoop
  | drain {s e exited rest stack} : s.control = .dispatch (.stop e (.drain exited) rest :: stack) →
      Step s .drain { s with
        control := .dispatch (.swap :: .stop e (.test exited) rest :: stack) }
  | again {s e exited rest stack} : s.control = .dispatch (.stop e (.test exited) rest :: stack) →
      s.pending ≠ [] →
      Step s .testEmpty { s with control := .dispatch (.stop e (.drain exited) rest :: stack) }
  | empty {s e exited rest stack} : s.control = .dispatch (.stop e (.test exited) rest :: stack) →
      s.pending = [] →
      Step s .testEmpty { s with
        control := .dispatch (.stop e (if exited then .finished else .loopexit) rest :: stack) }
  | loopexit {s e rest stack} : s.control = .dispatch (.stop e .loopexit rest :: stack) →
      Step s .loopexit { s with
        exitRequested := true, control := .dispatch (.stop e (.drain true) rest :: stack) }
  | finishStop {s e rest stack} : s.control = .dispatch (.stop e .finished rest :: stack) →
      Step s .finish { s with
        control := .dispatch (.batch rest :: stack), count := s.count - 1,
        finished := s.finished ++ [e] }
  -- the rest of Run, on a loop that made its base: after `event_base_loopexit` the dispatch loop
  -- does not poll again
  | leave {s} : s.control = .dispatch [] → s.exitRequested = true → s.createdBase = true →
      Step s .leave { s with control := .left, watcher := false }
  | stopped {s} : s.control = .left →
      Step s .stopped { s with control := .done, status := .stopped }

/-- A loop built by `EventLoop()`, before `Run`. -/
def Loop.fresh : Loop F where
  status := .initialized
  createdBase := true
  watcher := true
  pipe := 0
  notified := false
  pending := []
  count := 0
  queueing := none
  stopCall := none
  exitRequested := false
  control := .constructed
  accepted := []
  started := []
  finished := []
  stopBatch := []

/-- A loop built by `EventLoop(base)` on an event base that others dispatch. -/
def Loop.attached : Loop F :=
  { Loop.fresh with status := .running, createdBase := false, control := .dispatch [] }

/-- The event loop. -/
def system (F : Type) : Lts (Loop F) (Label F) where
  init s := s = .fresh ∨ s = .attached
  step := Step

end ReechatBase.EventLoop
