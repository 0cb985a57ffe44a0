import Mathlib.Data.Finset.Erase
import Mathlib.Data.Finset.Insert
import ReechatBase.EventWatcher.Basic
import ReechatBase.Lib.Transition

/-!
# One EventWatcher and what libevent holds of it

The member functions of `EventWatcher` and of its three subclasses (`event_watcher.cpp`), over the
calls they make into libevent. Two things may drift apart here: what the watcher believes
(`attached_`, `event_`, `pipe_`) and what libevent holds (`Watcher.registered`).

libevent's part follows its own source: `event_set` forgets that an event was inserted, `event_del`
takes out only what is marked as inserted, and an event that is not persistent leaves libevent
before its handler runs.

- `Watcher.next`: every public operation, the firing of the event and the two destructors;
- `timer_asyncWait`: the timers of the tasks (`Timer`) are such watchers, seen from outside.
-/

namespace ReechatBase.EventWatcher

open Lib

/-! ## State -/

/-- What an event waits for: the `fd` and the `events` that `event_set` is given. -/
inductive Watched where
  /-- `EV_READ | EV_PERSIST` on a descriptor -/
  | readable (fd : ℕ)
  /-- `EV_SIGNAL | EV_PERSIST` -/
  | signal (signo : ℤ)
  /-- No events, so only a timeout -/
  | timeout
  deriving DecidableEq

/-- `struct event` -/
structure Event where
  /-- `ev_base` is not null -/
  base : Bool
  /-- `ev_fd` and `ev_events` -/
  watched : Watched
  /-- `EVLIST_INSERTED` or `EVLIST_TIMEOUT` among `ev_flags` -/
  inserted : Bool
  deriving DecidableEq

/-- The subclasses, with the members that never change. -/
inductive Kind where
  /-- `PipeEventWatcher` -/
  | pipe
  /-- `TimerEventWatcher`, with `timeout_ms_` -/
  | timer (timeoutMs : ℤ)
  /-- `SignalEventWatcher`, with `signo_` -/
  | signal (signo : ℤ)

/-- How far the destruction has come. -/
inductive Phase where
  | alive
  /-- The body of the derived destructor has run. -/
  | derivedDestroyed
  | destroyed
  deriving DecidableEq

/-- A watcher, and what libevent and the process hold on its behalf. -/
structure Watcher where
  /-- `event_`, null once it is deleted -/
  event : Option Event
  /-- `attached_` -/
  attached : Bool
  /-- `cancel_callback_`, named by the number of the `SetCancelCallback` that set it -/
  cancelCallback : Option ℕ
  /-- `pipe_` -/
  pipe : ℕ × ℕ
  /-- Descriptors that the watcher has opened -/
  openFds : Finset ℕ
  /-- What libevent has this event registered for -/
  registered : List Watched
  /-- A null event has been handed to libevent, which ends the process. -/
  nullHanded : Bool
  phase : Phase
  /-- Calls of `SetCancelCallback` so far -/
  callbacksSet : ℕ
  /-- Cancel callbacks that have been run, by the same numbers -/
  callbacksRun : List ℕ
  /-- Calls of `Cancel` that are waiting for their callback to return -/
  cancelling : ℕ
  deriving DecidableEq

/-- A constructed watcher. `event_` is all zero, and of `pipe_` the constructor clears only the
    first descriptor. -/
def Watcher.constructed (pipe₁ : ℕ) : Watcher where
  event := some ⟨false, .timeout, false⟩
  attached := false
  cancelCallback := none
  pipe := (0, pipe₁)
  openFds := ∅
  registered := []
  nullHanded := false
  phase := .alive
  callbacksSet := 0
  callbacksRun := []
  cancelling := 0

namespace Watcher

variable (w : Watcher)

/-- The event is marked as inserted. -/
def inserted : Bool :=
  w.event.any Event.inserted

/-! ## libevent -/

/-- `event_set`, with no current base. It does not look at what is registered. -/
def eventSet (x : Watched) : Watcher :=
  match w.event with
  | none => { w with nullHanded := true }
  | some _ => { w with event := some ⟨false, x, false⟩ }

/-- `event_base_set`, which refuses an event that is inserted. -/
def eventBaseSet : Watcher :=
  match w.event with
  | none => { w with nullHanded := true }
  | some e => if e.inserted then w else { w with event := some { e with base := true } }

/-- `event_add`, with a timeout or without. Where libevent could add the event, it does so only if
    `added`. -/
def eventAdd (timeout added : Bool) : Bool × Watcher :=
  match w.event with
  | none => (false, { w with nullHanded := true })
  | some e =>
    if ¬ e.base ∨ ¬ added then (false, w)
    else if e.inserted ∨ (e.watched = .timeout ∧ ¬ timeout) then (true, w)
    else (true, { w with
      event := some { e with inserted := true }
      registered := e.watched :: w.registered })

/-- `event_del` -/
def eventDel : Watcher :=
  match w.event with
  | none => { w with nullHanded := true }
  | some e =>
    if e.inserted then { w with
      event := some { e with inserted := false }
      registered := w.registered.erase e.watched }
    else w

/-! ## EventWatcher -/

/-- `DoClose` -/
def doClose : Kind → Watcher
  | .pipe =>
    if w.pipe.1 > 0 then { w with
      openFds := (w.openFds.erase w.pipe.1).erase w.pipe.2
      pipe := (0, 0) }
    else w
  | _ => w

/-- `Close` -/
def close (k : Kind) : Watcher :=
  w.doClose k

/-- `FreeEvent` -/
def freeEvent : Watcher :=
  match w.event with
  | none => w
  | some _ =>
    let w' := if w.attached then { w.eventDel with attached := false } else w
    { w' with event := none }

/-- `Watch` -/
def watch (timeoutMs : ℤ) (added : Bool) : Bool × Watcher :=
  let w := if w.attached then { w.eventDel with attached := false } else w
  match w.eventAdd (decide (timeoutMs > 0)) added with
  | (false, w) => (false, w)
  | (true, w) => (true, { w with attached := true })

/-- `AsyncWait` -/
def asyncWait (added : Bool) : Kind → Bool × Watcher
  | .pipe => w.watch 0 added
  | .timer timeoutMs => w.watch timeoutMs added
  | .signal _ => w.watch 0 added

/-! ## Init -/

/-- What `evutil_socketpair` and the two `evutil_make_socket_nonblocking` do. -/
inductive Sockets where
  | pairFails
  | nonblockingFails (fd₀ fd₁ : ℕ)
  | created (fd₀ fd₁ : ℕ)
  deriving DecidableEq

/-- Two new descriptors -/
def opens (fd₀ fd₁ : ℕ) : Watcher :=
  { w with pipe := (fd₀, fd₁), openFds := insert fd₀ (insert fd₁ w.openFds) }

/-- `DoInit`. Only a pipe's makes sockets. -/
def doInit (sockets : Sockets) : Kind → Bool × Watcher
  | .pipe =>
    match sockets with
    | .pairFails => (false, w.close .pipe)
    | .nonblockingFails fd₀ fd₁ => (false, (w.opens fd₀ fd₁).close .pipe)
    | .created fd₀ fd₁ => (true, (w.opens fd₀ fd₁).eventSet (.readable fd₁))
  | .timer _ => (true, w.eventSet .timeout)
  | .signal signo => (true, w.eventSet (.signal signo))

/-- `Init` -/
def init (sockets : Sockets) (k : Kind) : Bool × Watcher :=
  match w.doInit sockets k with
  | (false, w) => (false, w.close k)
  | (true, w) => (true, w.eventBaseSet)

/-- The descriptors of a socket pair are two, and new. -/
def Sockets.New (w : Watcher) : Sockets → Prop
  | .pairFails => True
  | .nonblockingFails fd₀ fd₁ => fd₀ ≠ fd₁ ∧ fd₀ ∉ w.openFds ∧ fd₁ ∉ w.openFds
  | .created fd₀ fd₁ => fd₀ ≠ fd₁ ∧ fd₀ ∉ w.openFds ∧ fd₁ ∉ w.openFds

instance (sockets : Sockets) : Decidable (sockets.New w) := by
  unfold Sockets.New
  cases sockets <;> infer_instance

/-! ## Cancel -/

/-- `SetCancelCallback`, with an empty `Handler` or another -/
def setCancelCallback (empty : Bool) : Watcher :=
  { w with
    cancelCallback := if empty then none else some w.callbacksSet
    callbacksSet := w.callbacksSet + 1 }

/-- `Cancel` up to the call of its callback -/
def cancel : Watcher :=
  match w.cancelCallback with
  | none => w.freeEvent
  | some i => { w.freeEvent with
    callbacksRun := w.callbacksRun ++ [i]
    cancelling := w.cancelling + 1 }

/-- The rest of `Cancel`, when the callback has returned -/
def cancelReturns : Watcher :=
  { w with cancelCallback := none, cancelling := w.cancelling - 1 }

/-! ## The destructors -/

/-- `~PipeEventWatcher` calls `Close`; the other subclasses have no destructor of their own. -/
def derivedDestructor (k : Kind) : Watcher :=
  { w.close k with phase := .derivedDestroyed }

/-- `~EventWatcher`, in which `Close` calls the base's own `DoClose`, which does nothing. -/
def baseDestructor : Watcher :=
  { w.freeEvent with phase := .destroyed }

/-- libevent runs the event's handler. An event that is not persistent has left libevent. What the
    handler calls are operations of their own. -/
def fire : Watcher :=
  match w.event with
  | some ⟨_, .timeout, _⟩ => w.eventDel
  | _ => w

end Watcher

/-! ## Runs -/

/-- An operation on a watcher, with what the world around it does -/
inductive Op where
  | init (sockets : Watcher.Sockets)
  /-- `event_add` succeeds or fails. -/
  | asyncWait (added : Bool)
  | fire
  | setCancelCallback (empty : Bool)
  | cancel
  /-- A cancel callback returns. Before that it may call the watcher itself. -/
  | cancelReturns
  | derivedDestructor
  | baseDestructor
  deriving DecidableEq

variable (k : Kind) (ndebug : Bool)

/-- The assertions in `DoInit` -/
def Watcher.InitAsserts (w : Watcher) : Prop :=
  match k with
  | .pipe => w.pipe.1 = 0
  | .timer _ => True
  | .signal signo => signo ≠ 0

instance (w : Watcher) : Decidable (w.InitAsserts k) := by
  unfold Watcher.InitAsserts
  cases k <;> infer_instance

/-- When an operation may be called, and goes on. With `NDEBUG` assertions are not checked. -/
def Op.Enabled (w : Watcher) : Op → Prop
  | .init sockets => w.phase = .alive ∧ (ndebug ∨ w.InitAsserts k) ∧ sockets.New w
  | .asyncWait _ => w.phase = .alive
  | .fire => w.phase = .alive ∧ w.inserted
  | .setCancelCallback _ => w.phase = .alive
  | .cancel => w.phase = .alive ∧ (ndebug ∨ w.event.isSome)
  | .cancelReturns => w.phase = .alive ∧ 0 < w.cancelling
  | .derivedDestructor => w.phase = .alive ∧ w.cancelling = 0
  | .baseDestructor => w.phase = .derivedDestroyed

instance (w : Watcher) (op : Op) : Decidable (op.Enabled k ndebug w) := by
  unfold Op.Enabled
  cases op <;> infer_instance

/-- The operation itself -/
def Op.run (w : Watcher) : Op → Watcher
  | .init sockets => (w.init sockets k).2
  | .asyncWait added => (w.asyncWait added k).2
  | .fire => w.fire
  | .setCancelCallback empty => w.setCancelCallback empty
  | .cancel => w.cancel
  | .cancelReturns => w.cancelReturns
  | .derivedDestructor => w.derivedDestructor k
  | .baseDestructor => w.baseDestructor

/-- One operation. There is none after a null event has been handed to libevent. -/
def Watcher.next (w : Watcher) (op : Op) : Option Watcher :=
  if w.nullHanded = false ∧ op.Enabled k ndebug w then some (op.run k w) else none

/-- The operations on a watcher, in any order. -/
def watcher : Lts Watcher Op :=
  Lts.ofNext (fun w => ∃ pipe₁, w = .constructed pipe₁) (Watcher.next k ndebug)

variable {k : Kind} {ndebug : Bool}

theorem step_cases {w w' : Watcher} {op : Op} (hst : (watcher k ndebug).step w op w') :
    op.Enabled k ndebug w ∧ w' = op.run k w := by
  have hst : Watcher.next k ndebug w op = some w' := hst
  rw [Watcher.next] at hst
  split_ifs at hst with hguard
  exact ⟨hguard.2, (Option.some.inj hst).symm⟩

/-! ## The timers of the tasks -/

namespace Watcher

variable {w : Watcher}

/-- What a task sees of a `TimerEventWatcher` -/
def asTimer (w : Watcher) : Timer :=
  if w.phase = .destroyed then .absent else if w.inserted then .pending else .idle

/-- **The tasks' timers.** From an initialised `TimerEventWatcher` with a positive timeout,
    `AsyncWait` does what `Timer.asyncWait` says when `event_add` succeeds. -/
theorem timer_asyncWait {timeoutMs : ℤ} (hms : 0 < timeoutMs) {e : Event} (he : w.event = some e)
    (hbase : e.base) (hattached : e.inserted → w.attached) (halive : w.phase = .alive) :
    (w.asyncWait true (.timer timeoutMs)).2.asTimer = w.asTimer.asyncWait := by
  have hafter : (w.asyncWait true (.timer timeoutMs)).2.asTimer = .pending := by
    by_cases ha : w.attached
    · cases hi : e.inserted <;>
        simp [asyncWait, watch, eventDel, eventAdd, asTimer, inserted, he, ha, hi, hbase, hms,
          halive]
    · have hi : e.inserted = false := by simpa using mt hattached ha
      simp [asyncWait, watch, eventAdd, asTimer, inserted, he, ha, hi, hbase, hms, halive]
  have hbefore : w.asTimer ≠ .absent := by
    cases hi : w.inserted <;> simp [asTimer, halive, hi]
  rw [hafter]
  cases htimer : w.asTimer with
  | absent => exact absurd htimer hbefore
  | idle => rfl
  | pending => rfl

/-- A timer that has fired is idle. -/
theorem timer_fire {e : Event} (he : w.event = some e) (htimeout : e.watched = .timeout)
    (hinserted : e.inserted) (halive : w.phase = .alive) : w.fire.asTimer = .idle := by
  obtain ⟨base, watched, inserted'⟩ := e
  obtain rfl : watched = .timeout := htimeout
  obtain rfl : inserted' = true := hinserted
  simp [fire, eventDel, asTimer, inserted, he, halive]

end Watcher

end ReechatBase.EventWatcher
