import ReechatBase.TcpServerTask.Basic
import Mathlib.Data.List.Count

/-!
# An unverified client of a server task

In every run, whatever the hooks do and in whatever order timers, callbacks and the user act, a
client that is not verified is watched by a timer, and nothing but `OnRecvVerifyMsg` sees its
packets.

Main result: `unverified_confined`.
-/

namespace ReechatBase.TcpServerTask

open Lib EventWatcher

variable {oneLoop : Bool} {s t : Task} {l : Label} {f : Frame}

/-! ## The members that live and die together -/

/-- Between `BeginProcess` and the end of a stop, the socket, its signals and the two timers are
    there; before and after, none of them is. -/
structure Attached (s : Task) : Prop where
  active : s.socket = true ↔ s.begun = true ∧ s.stopped = false
  signals : s.hasSignals = s.socket
  closeTimer : s.closeTimer = .absent ↔ s.socket = false
  verifyTimer : s.verifyTimer = .absent ↔ s.socket = false
  fresh : s.begun = false → s.stopped = false ∧ s.verified = false ∧ s.stack = [] ∧ s.closePosts = 0

/-- The members that `Attached` speaks about -/
def Task.members (s : Task) : Bool × Bool × Bool × Bool × Timer × Timer :=
  (s.begun, s.stopped, s.socket, s.hasSignals, s.closeTimer, s.verifyTimer)

/-- Steps that leave these members alone, of a task that was begun. -/
theorem Attached.of_members (h : Attached s) (heq : t.members = s.members)
    (hbegun : s.begun = true) : Attached t := by
  obtain ⟨h₁, h₂, h₃, h₄, h₅, h₆⟩ : t.begun = s.begun ∧ t.stopped = s.stopped ∧
      t.socket = s.socket ∧ t.hasSignals = s.hasSignals ∧ t.closeTimer = s.closeTimer ∧
      t.verifyTimer = s.verifyTimer := by simpa [Task.members] using heq
  refine ⟨by rw [h₁, h₂, h₃]; exact h.active, by rw [h₃, h₄]; exact h.signals,
    by rw [h₃, h₅]; exact h.closeTimer, by rw [h₃, h₆]; exact h.verifyTimer, fun hno => ?_⟩
  rw [h₁, hbegun] at hno
  cases hno

theorem Attached.begun_of_socket (h : Attached s) (hs : s.socket = true) : s.begun = true :=
  (h.active.mp hs).1

theorem Attached.begun_of_signals (h : Attached s) (hs : s.hasSignals = true) : s.begun = true :=
  h.begun_of_socket (h.signals ▸ hs)

theorem Attached.begun_of_stack (h : Attached s) {rest : List Frame} (hs : s.stack = f :: rest) :
    s.begun = true := by
  by_contra hno
  simp [(h.fresh (by simpa using hno)).2.2.1] at hs

theorem asyncWait_eq_absent {timer : Timer} : timer.asyncWait = .absent ↔ timer = .absent := by
  cases timer <;> simp [Timer.asyncWait]

theorem Attached.asyncWaitClose (h : Attached s) : Attached s.asyncWaitClose :=
  ⟨h.active, h.signals, asyncWait_eq_absent.trans h.closeTimer, h.verifyTimer, h.fresh⟩

theorem Attached.release (h : Attached s) (hbegun : s.begun = true) :
    Attached s.release.markStopped := by
  refine ⟨by simp [Task.release, Task.markStopped], ?_, by simp [Task.release, Task.markStopped],
    by simp [Task.release, Task.markStopped], fun hno => ?_⟩
  · have hsignals := h.signals
    cases hsocket : s.socket <;> simp [Task.release, Task.markStopped, hsocket, hsignals]
  · rw [show s.begun = false from hno] at hbegun
    cases hbegun

/-- **One step keeps the members together.** -/
theorem Attached.step (h : Attached s) (hst : Step oneLoop s l t) : Attached t := by
  cases hst with
  | @beginProcess socket now hno =>
    cases socket with
    -- the socket, its signals and both timers are made together
    | true => exact ⟨by simp [Task.beginProcess, (h.fresh hno).1], rfl, by simp [Task.beginProcess],
        by simp [Task.beginProcess], nofun⟩
    | false => exact h
  | stopProcess hb => exact h.of_members rfl hb
  | stopProcessV2 hb => exact h.of_members rfl hb
  | stopProcessV2Alone hb => exact h.release hb
  | scheduleEvent =>
    unfold Task.scheduleEvent
    split
    · exact h.asyncWaitClose
    · exact h
  | onRecvHelloMsg => exact ⟨h.active, h.signals, h.closeTimer, h.verifyTimer, h.fresh⟩
  | post hsig => exact h.of_members rfl (h.begun_of_signals hsig)
  | run _ hposts =>
    -- a callback that was posted proves that there was a socket
    refine h.of_members rfl ?_
    by_contra hno
    simp [(h.fresh (by simpa using hno)).2.2.2] at hposts
  | inline hsig _ => exact h.of_members rfl (h.begun_of_signals hsig)
  | packet _ hsig =>
    refine h.of_members ?_ (h.begun_of_signals hsig)
    unfold Task.onInternalPacket
    split <;> rfl
  | checkVerified _ hpending =>
    -- a timer that fires stays, idle, until the stop
    have hidle : Attached { s with verifyTimer := .idle } :=
      ⟨h.active, h.signals, h.closeTimer, by simpa [hpending] using h.verifyTimer, h.fresh⟩
    unfold Task.onCheckVerified
    split
    · exact hidle
    · exact hidle.asyncWaitClose
  | close _ hpending =>
    have hidle : Attached { s with closeTimer := .idle } :=
      ⟨h.active, h.signals, by simpa [hpending] using h.closeTimer, h.verifyTimer, h.fresh⟩
    have hsocket : s.socket = true := by simpa [hpending] using h.closeTimer
    exact hidle.of_members rfl (h.begun_of_socket hsocket)
  | verified hs | notVerified hs | addToManager hs | msgParse hs =>
    exact h.of_members rfl (h.begun_of_stack hs)
  | @removeFromManager rest b hs =>
    have hrest : Attached { s with stack := rest } := h.of_members rfl (h.begun_of_stack hs)
    exact hrest.release (h.begun_of_stack hs)

/-! ## Who watches an unverified client -/

/-- A timer is running, or a stop is on its way. -/
def Task.Watched (s : Task) : Prop :=
  s.verifyTimer = .pending ∨ s.closeTimer = .pending ∨ .removeFromManager ∈ s.stack

/-- The invariant: an unverified client is watched, and `AddToManager` is called once, when
    `OnRecvVerifyMsg` returns true. -/
structure Sound (s : Task) : Prop where
  attached : Attached s
  watched : s.socket = true → s.verified = false → s.Watched
  accepted : s.verified = true → s.accepted = true
  added : s.added = if s.verified then 1 else 0
  verifying : s.added + s.stack.count .onRecvVerifyMsg ≤ 1
  premature : s.premature = false
  heard : s.heard = false

theorem Sound.init : Sound .fresh :=
  ⟨⟨by decide, rfl, by decide, by decide, by decide⟩, nofun, nofun, rfl, by decide, rfl, rfl⟩

theorem watched_asyncWaitClose (h : s.closeTimer ≠ .absent) : s.asyncWaitClose.Watched := by
  refine .inr (.inl ?_)
  cases hc : s.closeTimer <;> simp_all [Task.asyncWaitClose, Timer.asyncWait]

theorem Task.Watched.asyncWaitClose (h : s.Watched) : s.asyncWaitClose.Watched := by
  rcases h with h | h | h
  · exact .inl h
  · exact watched_asyncWaitClose (by simp [h])
  · exact .inr (.inr h)

/-- What was said to the manager and to the subclass: the part of the invariant that speaks about
    calls. -/
def Task.calls (s : Task) : Bool × Bool × ℕ × ℕ × Bool × Bool :=
  (s.verified, s.accepted, s.added, s.stack.count .onRecvVerifyMsg, s.premature, s.heard)

/-- Steps that verify nobody and hand over no packet. -/
theorem Sound.of_calls (h : Sound s) (ht : Attached t)
    (hwatched : t.socket = true → t.verified = false → t.Watched) (heq : t.calls = s.calls) :
    Sound t := by
  obtain ⟨h₁, h₂, h₃, h₄, h₅, h₆⟩ : t.verified = s.verified ∧ t.accepted = s.accepted ∧
      t.added = s.added ∧ t.stack.count .onRecvVerifyMsg = s.stack.count .onRecvVerifyMsg ∧
      t.premature = s.premature ∧ t.heard = s.heard := by simpa [Task.calls] using heq
  exact ⟨ht, hwatched, by rw [h₁, h₂]; exact h.accepted, by rw [h₁, h₃]; exact h.added,
    by rw [h₃, h₄]; exact h.verifying, h₅.trans h.premature, h₆.trans h.heard⟩

/-- The hook on top of the stack returns, and is not one that watches the client. -/
theorem Task.Watched.of_return {rest : List Frame} (h : s.Watched) (hs : s.stack = f :: rest)
    (hf : f ≠ .removeFromManager) : Task.Watched { s with stack := rest } := by
  rcases h with h | h | h
  · exact .inl h
  · exact .inr (.inl h)
  · rw [hs, List.mem_cons] at h
    exact .inr (.inr (h.resolve_left (Ne.symm hf)))

/-- **One step keeps an unverified client confined.** -/
theorem Sound.step (h : Sound s) (hst : Step oneLoop s l t) : Sound t := by
  have ht := h.attached.step hst
  cases hst with
  | @beginProcess socket now hno =>
    cases socket with
    -- `verify_timer_` starts together with the task
    | true => exact h.of_calls ht (fun _ _ => .inl rfl) rfl
    | false => exact h
  -- `RemoveFromManager` is being called
  | stopProcess _ | stopProcessV2 _ =>
    exact h.of_calls ht (fun _ _ => .inr (.inr List.mem_cons_self)) rfl
  | stopProcessV2Alone _ => exact h.of_calls ht nofun rfl
  | scheduleEvent =>
    unfold Task.scheduleEvent at ht ⊢
    split at ht
    · next htime =>
      rw [if_pos htime]
      exact h.of_calls ht (fun hs hv => (h.watched hs hv).asyncWaitClose) rfl
    · next htime =>
      rw [if_neg htime]
      exact h
  | onRecvHelloMsg => exact h.of_calls ht h.watched rfl
  | post _ => exact h.of_calls ht h.watched rfl
  -- `OnCloseEvent` is a stop
  | run _ _ | inline _ _ => exact h.of_calls ht (fun _ _ => .inr (.inr List.mem_cons_self)) rfl
  | packet hidle hsig =>
    -- a stopped task has cleared `SignalReadPacket`
    have hopen : s.stopped = false := (h.attached.active.mp (h.attached.signals ▸ hsig)).2
    cases hv : s.verified with
    | true =>
      -- the packet goes to `MsgParse`
      have hadded : s.added = 1 := by simpa [hv] using h.added
      refine h.of_calls ht (fun _ hno => ?_) ?_
      · simp [Task.onInternalPacket, hv, Task.call] at hno
      · simp [Task.calls, Task.onInternalPacket, hv, Task.call, h.accepted hv, hadded, hopen]
    | false =>
      -- it goes to `OnRecvVerifyMsg`, which is not running
      have hadded : s.added = 0 := by simpa [hv] using h.added
      have heq : s.onInternalPacket = { s with heard := s.heard || s.stopped }.call
          .onRecvVerifyMsg := by simp [Task.onInternalPacket, hv]
      rw [heq] at ht ⊢
      refine ⟨ht, fun hs hno => ?_, h.accepted, h.added, ?_, h.premature, ?_⟩
      · rcases h.watched hs hv with hw | hw | hw
        · exact .inl hw
        · exact .inr (.inl hw)
        · exact .inr (.inr (List.mem_cons_of_mem _ hw))
      · simp [Task.call, hidle, hadded]
      · simp [Task.call, h.heard, hopen]
  | checkVerified _ hpending =>
    unfold Task.onCheckVerified at ht ⊢
    split at ht
    · next hv =>
      rw [if_pos hv]
      exact h.of_calls ht (fun _ hno => absurd (hv.symm.trans hno) (by decide)) rfl
    · next hv =>
      -- the client is unverified, so `close_timer_` takes over
      rw [if_neg hv]
      refine h.of_calls ht (fun hs _ => watched_asyncWaitClose ?_) rfl
      intro habsent
      have hnone : s.socket = false := h.attached.closeTimer.mp habsent
      rw [show s.socket = true from hs] at hnone
      cases hnone
  | close _ _ => exact h.of_calls ht (fun _ _ => .inr (.inr List.mem_cons_self)) rfl
  | @verified rest hs =>
    -- the call that returns is the only one, so that `AddToManager` was not called yet
    have hcount : s.stack.count .onRecvVerifyMsg = rest.count .onRecvVerifyMsg + 1 := by
      rw [hs, List.count_cons_self]
    have hverifying := h.verifying
    refine ⟨ht, nofun, fun _ => rfl, ?_, ?_, h.premature, h.heard⟩
    · show s.added + 1 = 1
      omega
    · show s.added + 1 + List.count _ (.addToManager :: rest) ≤ 1
      rw [List.count_cons_of_ne (by decide)]
      omega
  | @notVerified rest hs =>
    have hcount : s.stack.count .onRecvVerifyMsg = rest.count .onRecvVerifyMsg + 1 := by
      rw [hs, List.count_cons_self]
    have hverifying := h.verifying
    -- the client stays as it was, and the timers as well
    refine ⟨ht, fun hsocket hv => (h.watched hsocket hv).of_return hs nofun, h.accepted, h.added,
      ?_, h.premature, h.heard⟩
    show s.added + List.count _ rest ≤ 1
    omega
  | addToManager hs | msgParse hs =>
    refine h.of_calls ht (fun hsocket hv => (h.watched hsocket hv).of_return hs nofun) ?_
    simp [Task.calls, hs]
  -- `release` drops the socket, so that there is nobody left to watch
  | removeFromManager hs =>
    refine h.of_calls ht nofun ?_
    simp [Task.calls, Task.release, Task.markStopped, hs]

theorem sound_of_reachable (hs : (system oneLoop).Reachable s) : Sound s :=
  hs.invariant (fun _ h => h ▸ .init) fun _ _ _ h hst => h.step hst

/-! ## Main result -/

/-- What an unverified client can do, and how long. -/
structure Confined (s : Task) : Prop where
  /-- Between two steps a timer is running. -/
  watched : s.stack = [] → s.socket = true → s.verified = false →
    s.verifyTimer = .pending ∨ s.closeTimer = .pending
  parsed : s.premature = false
  addedOnce : s.added ≤ 1
  silent : s.heard = false

/-- **An unverified client is confined and cannot linger.** In every state of every run a socket
    whose client is not verified has a timer running, `MsgParse` sees packets only after
    `OnRecvVerifyMsg` has returned true and `AddToManager` was called, once, and a stopped task
    hears nothing. -/
theorem unverified_confined (oneLoop : Bool) {s : Task} (hs : (system oneLoop).Reachable s) :
    Confined s := by
  have h := sound_of_reachable hs
  refine ⟨fun hidle hsocket hv => ?_, h.premature, ?_, h.heard⟩
  · rcases h.watched hsocket hv with hw | hw | hw
    · exact .inl hw
    · exact .inr hw
    · simp [hidle] at hw
  · have hverifying := h.verifying
    omega

/-- A task whose client has not said anything -/
def begunTask : Task := Task.fresh.beginProcess true 7

theorem unverified_confined_timeout : Confined { begunTask with
    verifyTimer := .idle, closeTimer := .pending } := by
  have hfresh : (system false).Reachable .fresh := .init rfl
  have hbegun : (system false).Reachable begunTask :=
    .step hfresh trivial (@Step.beginProcess false .fresh true 7 rfl)
  have hwait : Step false begunTask .checkVerified { begunTask with
      verifyTimer := .idle, closeTimer := .pending } := .checkVerified rfl rfl
  exact unverified_confined false (.step hbegun trivial hwait)

end ReechatBase.TcpServerTask
