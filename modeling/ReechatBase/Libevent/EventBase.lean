import ReechatBase.Libevent.MinHeap

/-!
# An event_base and its events

The part of `event.c` that the program's events go through: `event_add`, `event_del`, the activation
of events and `timeout_process`. All events have the one priority of `event_base_new`, none is a
signal, and no persistent event has a timeout. A failed check that ends the process (`event_errx`)
has no result, and neither has a read outside the block of the timer heap.
-/

namespace ReechatBase.Libevent

open Function

variable {ε : Type} [DecidableEq ε]

/-! ## Events -/

/-- What an event is reported for: the bits of `ev_res`. -/
structure Res where
  timeout : Bool
  read : Bool
  write : Bool
  deriving DecidableEq

/-- `EV_TIMEOUT` -/
def Res.evTimeout : Res := ⟨true, false, false⟩

/-- `|` -/
def Res.or (r r' : Res) : Res :=
  ⟨r.timeout || r'.timeout, r.read || r'.read, r.write || r'.write⟩

/-- What `event_assign` makes of `ev_events`. -/
structure Interest where
  read : Bool
  write : Bool
  persist : Bool

/-- `ev_events & (EV_READ|EV_WRITE)` -/
def Interest.io (k : Interest) : Bool :=
  k.read || k.write

/-! ## The base -/

/-- The fields of an `event_base`, and those of the events that change. -/
structure EventBase (ε : Type) where
  timeheap : MinHeap ε
  /-- `EVLIST_TIMEOUT` in `ev_flags` -/
  inTimeouts : ε → Bool
  /-- `EVLIST_INSERTED` in `ev_flags` -/
  inserted : ε → Bool
  /-- `EVLIST_ACTIVE` in `ev_flags` -/
  active : ε → Bool
  evRes : ε → Res
  /-- `activequeues[0]` -/
  activequeue : List ε
  eventCount : ℤ
  eventCountActive : ℤ
  tvCache : Timeval

namespace EventBase

/-- What `event_base_new` makes, with events on which `event_assign` has run. -/
def new (p : ℕ → ε) (evTimeout : ε → Timeval) (evRes : ε → Res) : EventBase ε where
  timeheap := .ctor p evTimeout
  inTimeouts _ := false
  inserted _ := false
  active _ := false
  evRes := evRes
  activequeue := []
  eventCount := 0
  eventCountActive := 0
  tvCache := ⟨0, 0⟩

/-- `event_queue_insert_inserted` -/
def queueInsertInserted (b : EventBase ε) (ev : ε) : Option (EventBase ε) :=
  if b.inserted ev then none
  else some { b with
    eventCount := b.eventCount + 1
    inserted := update b.inserted ev true }

/-- `event_queue_remove_inserted` -/
def queueRemoveInserted (b : EventBase ε) (ev : ε) : Option (EventBase ε) :=
  if b.inserted ev then
    some { b with
      eventCount := b.eventCount - 1
      inserted := update b.inserted ev false }
  else none

/-- `event_queue_insert_timeout`, which does not look at what `min_heap_push_` returns. -/
def queueInsertTimeout (b : EventBase ε) (ev : ε) (realloc : Bool) : Option (EventBase ε) :=
  if b.inTimeouts ev then none
  else do
    let (timeheap, _) ← b.timeheap.push ev realloc
    return { b with
      timeheap := timeheap
      eventCount := b.eventCount + 1
      inTimeouts := update b.inTimeouts ev true }

/-- `event_queue_remove_timeout` -/
def queueRemoveTimeout (b : EventBase ε) (ev : ε) : Option (EventBase ε) :=
  if b.inTimeouts ev then do
    let (timeheap, _) ← b.timeheap.erase ev
    return { b with
      timeheap := timeheap
      eventCount := b.eventCount - 1
      inTimeouts := update b.inTimeouts ev false }
  else none

/-- `event_queue_insert_active` -/
def queueInsertActive (b : EventBase ε) (ev : ε) : EventBase ε :=
  if b.active ev then b
  else { b with
    eventCount := b.eventCount + 1
    active := update b.active ev true
    eventCountActive := b.eventCountActive + 1
    activequeue := b.activequeue ++ [ev] }

/-- `event_queue_remove_active` -/
def queueRemoveActive (b : EventBase ε) (ev : ε) : Option (EventBase ε) :=
  if b.active ev then
    some { b with
      eventCount := b.eventCount - 1
      active := update b.active ev false
      eventCountActive := b.eventCountActive - 1
      activequeue := b.activequeue.erase ev }
  else none

/-- `gettime`, where `clock` is what the monotonic clock shows. -/
def gettime (b : EventBase ε) (clock : Timeval) : Timeval :=
  if b.tvCache.tvSec ≠ 0 then b.tvCache else clock

/-- `clear_time_cache` -/
def clearTimeCache (b : EventBase ε) : EventBase ε :=
  { b with tvCache := { b.tvCache with tvSec := 0 } }

/-- `update_time_cache` -/
def updateTimeCache (b : EventBase ε) (clock : Timeval) : EventBase ε :=
  { b with tvCache := b.clearTimeCache.gettime clock }

/-- `event_del_nolock_` -/
def eventDel (b : EventBase ε) (ev : ε) : Option (EventBase ε) := do
  let b ← (if b.inTimeouts ev then b.queueRemoveTimeout ev else some b)
  let b ← (if b.active ev then b.queueRemoveActive ev else some b)
  if b.inserted ev then b.queueRemoveInserted ev else some b

/-- `event_active_nolock_` -/
def eventActive (b : EventBase ε) (ev : ε) (res : Res) : EventBase ε :=
  if b.active ev then { b with evRes := update b.evRes ev ((b.evRes ev).or res) }
  else queueInsertActive { b with evRes := update b.evRes ev res } ev

/-- What the environment answers to one `event_add`: whether the two allocations and
    `evmap_io_add_` succeed, and what the clock shows. -/
structure AddAnswers where
  reserve : Bool
  push : Bool
  evmap : Bool
  clock : Timeval

/-- The second half of `event_add_nolock_`, for an event that has a timeout. -/
def addTimeout (b : EventBase ε) (ev : ε) (tv : Timeval) (a : AddAnswers) :
    Option (EventBase ε) := do
  let b ← (if b.inTimeouts ev then b.queueRemoveTimeout ev else some b)
  let b ← (if b.active ev && (b.evRes ev).timeout then b.queueRemoveActive ev else some b)
  let now := b.gettime a.clock
  queueInsertTimeout { b with timeheap := b.timeheap.setTimeout ev (now.timeradd tv) } ev a.push

/-- What `event_add_nolock_` does first, to prepare for the timeout insertion further below. -/
def prepareTimeout (b : EventBase ε) (ev : ε) (tv : Option Timeval) (realloc : Bool) :
    MinHeap ε × ℤ :=
  if tv.isSome && !b.inTimeouts ev then
    b.timeheap.reserve ((1 + b.timeheap.n) % 2 ^ 32) realloc
  else (b.timeheap, 0)

/-- `event_add_nolock_`. `tv` is `none` for a null pointer. -/
def eventAdd (b : EventBase ε) (k : Interest) (ev : ε) (tv : Option Timeval) (a : AddAnswers) :
    Option (EventBase ε × ℤ) := do
  let (timeheap, failed) := b.prepareTimeout ev tv a.reserve
  if failed = -1 then return (b, -1)
  let b := { b with timeheap := timeheap }
  let watch := k.io && !(b.inserted ev || b.active ev)
  if watch && !a.evmap then return (b, -1)
  let b ← (if watch then b.queueInsertInserted ev else some b)
  let b ← (match tv with
    | none => some b
    | some tv => b.addTimeout ev tv a)
  return (b, 0)

/-- The loop of `timeout_process` -/
def timeoutProcessLoop : ℕ → EventBase ε → Timeval → Option (EventBase ε)
  | 0, _, _ => none
  | fuel + 1, b, now =>
    match b.timeheap.top with
    | none => some b
    | some ev =>
      if (b.timeheap.evTimeout ev).timercmp now (· > ·) then some b
      else do
        let b ← b.eventDel ev
        timeoutProcessLoop fuel (b.eventActive ev Res.evTimeout) now

/-- `timeout_process` -/
def timeoutProcess (b : EventBase ε) (clock : Timeval) : Option (EventBase ε) :=
  if b.timeheap.n = 0 then some b
  else timeoutProcessLoop (b.timeheap.n + 1) b (b.gettime clock)

/-- `timeout_next`, `none` for a null pointer. -/
def timeoutNext (b : EventBase ε) (clock : Timeval) : Option Timeval :=
  match b.timeheap.top with
  | none => none
  | some ev =>
    let now := b.gettime clock
    if (b.timeheap.evTimeout ev).timercmp now (· ≤ ·) then some ⟨0, 0⟩
    else some ((b.timeheap.evTimeout ev).timersub now)

/-- One turn of the loop of `event_process_active_single_queue`, up to the call of the callback:
    the event and what it is reported for. -/
def processFirst (b : EventBase ε) (k : ε → Interest) : Option (EventBase ε × Option (ε × Res)) :=
  match b.activequeue with
  | [] => some (b, none)
  | ev :: _ => do
    let b ← (if (k ev).persist then b.queueRemoveActive ev else b.eventDel ev)
    return (b, some (ev, b.evRes ev))

/-- `event_haveevents` or `N_ACTIVE_CALLBACKS`, without which `event_base_loop` returns. -/
def haveEvents (b : EventBase ε) : Bool :=
  b.eventCount > 0 || b.eventCountActive ≠ 0

end EventBase

end ReechatBase.Libevent
