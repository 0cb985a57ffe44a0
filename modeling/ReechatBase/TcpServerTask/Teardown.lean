import ReechatBase.TcpServerTask.Confinement

/-!
# Tearing down a server task

A stop resets both timers but leaves `verified_client_` and `last_hello_time_` as they were, and a
close callback that has been posted cannot be taken back.

Main result: `teardown_safe_iff`, for the runs in which that does no harm.
-/

namespace ReechatBase.TcpServerTask

open Lib EventWatcher

variable {oneLoop : Bool} {s t : Task} {l : Label}

/-- No null timer was dereferenced, and no close callback of a stopped task has called
    `RemoveFromManager`. -/
def Safe (s : Task) : Prop := s.crashed = false ∧ s.late = false

/-- The steps that a stopped task survives: no close callback runs, and no tick finds a verified
    client that has not said hello for 30 seconds. -/
def RespectsStop (s : Task) (l : Label) : Prop :=
  s.stopped = true → l ≠ .run ∧ ∀ time, l = .scheduleEvent time → ¬ s.TimedOut time

/-- Only a task that was stopped has a verified client and no timers. -/
theorem Sound.stopped_of_absent (h : Sound s) (hc : s.closeTimer = .absent)
    (hv : s.verified = true) : s.stopped = true := by
  have hnone : s.socket = false := h.attached.closeTimer.mp hc
  by_contra hopen
  cases hb : s.begun with
  | false => simp [(h.attached.fresh hb).2.1] at hv
  | true => simp [h.attached.active.mpr ⟨hb, by simpa using hopen⟩] at hnone

/-- What a step adds to `late`. -/
theorem late_iff_of_step (h : Sound s) (hst : Step oneLoop s l t) :
    t.late = true ↔ s.late = true ∨ s.stopped = true ∧ l = .run := by
  cases hst with
  | run _ _ => simp [Task.onCloseEvent, Task.stopProcess, Task.call]
  | inline hsig _ =>
    -- a stopped task has cleared the signals
    have hopen : s.stopped = false := (h.attached.active.mp (h.attached.signals ▸ hsig)).2
    simp [Task.onCloseEvent, Task.stopProcess, Task.call, hopen]
  | @beginProcess socket _ _ => cases socket <;> simp [Task.beginProcess]
  | scheduleEvent =>
    unfold Task.scheduleEvent
    split <;> simp [Task.asyncWaitClose]
  | packet _ _ =>
    unfold Task.onInternalPacket
    split <;> simp [Task.call]
  | checkVerified _ _ =>
    unfold Task.onCheckVerified
    split <;> simp [Task.asyncWaitClose]
  | _ => simp [Task.stopProcess, Task.stopProcessV2, Task.call, Task.accept, Task.release,
      Task.markStopped]

/-- What a step adds to `crashed`. -/
theorem crashed_iff_of_step (h : Sound s) (hst : Step oneLoop s l t) : t.crashed = true ↔
    s.crashed = true ∨ s.stopped = true ∧ ∃ time, l = .scheduleEvent time ∧ s.TimedOut time := by
  cases hst with
  | @scheduleEvent time =>
    unfold Task.scheduleEvent
    split
    · next htime =>
      -- `ScheduleEvent` does not ask whether `close_timer_` is still there
      have habsent : s.closeTimer = .absent ↔ s.stopped = true := by
        refine ⟨fun hc => h.stopped_of_absent hc htime.2.1, fun hs => h.attached.closeTimer.mpr ?_⟩
        by_contra hsocket
        simp [(h.attached.active.mp (by simpa using hsocket)).2] at hs
      simp [Task.asyncWaitClose, habsent, htime]
    · next htime => simp [htime]
  | checkVerified _ hpending =>
    -- the timer that fires belongs to a task that was not stopped
    have hsocket : s.socket = true := by simpa [hpending] using h.attached.verifyTimer
    have hclose : s.closeTimer ≠ .absent := fun hc => by
      simp [h.attached.closeTimer.mp hc] at hsocket
    unfold Task.onCheckVerified
    split <;> simp [Task.asyncWaitClose, hclose]
  | @beginProcess socket _ _ => cases socket <;> simp [Task.beginProcess]
  | packet _ _ =>
    unfold Task.onInternalPacket
    split <;> simp [Task.call]
  | _ => simp [Task.onCloseEvent, Task.stopProcess, Task.stopProcessV2, Task.call, Task.accept,
      Task.release, Task.markStopped]

/-- **Tearing down is safe and final** exactly in the runs whose steps a stopped task survives. -/
theorem teardown_safe_iff (oneLoop : Bool) {π : List (Label × Task)}
    (hrun : (system oneLoop).IsRun .fresh π) :
    Lts.Always Safe .fresh π ↔ Lts.Meets RespectsStop .fresh π := by
  refine Lts.always_iff_meets (I := fun s => Sound s ∧ Safe s) (fun _ h => h.2)
    (fun s l t h hok hst => ⟨h.1.step hst, ?_⟩) (fun s l t h hno hst hsafe => hno fun hs => ?_)
    ⟨.init, rfl, rfl⟩ hrun
  · -- the step meets the condition
    obtain ⟨hsound, hcrashed, hlate⟩ := h
    constructor
    · by_contra hcrash
      have hcrash := (crashed_iff_of_step hsound hst).mp (by simpa using hcrash)
      obtain ⟨hs, time, hl, htime⟩ := hcrash.resolve_left (by simp [hcrashed])
      exact (hok hs).2 time hl htime
    · by_contra hrem
      have hrem := (late_iff_of_step hsound hst).mp (by simpa using hrem)
      obtain ⟨hs, hl⟩ := hrem.resolve_left (by simp [hlate])
      exact (hok hs).1 hl
  · -- the stopped task is safe behind the step
    constructor
    · rintro hl
      have hlate := (late_iff_of_step h.1 hst).mpr (.inr ⟨hs, hl⟩)
      simp [hsafe.2] at hlate
    · rintro time hl htime
      have hcrash := (crashed_iff_of_step h.1 hst).mpr (.inr ⟨hs, time, hl, htime⟩)
      simp [hsafe.1] at hcrash

/-- A task whose client was verified, at the time `StopProcess` has returned -/
def stoppedTask : Task :=
  Task.markStopped (Task.release { begunTask with verified := true, accepted := true, added := 1 })

/-- The client is verified, the task is stopped, and a tick follows five seconds later. -/
def stopRun : List (Label × Task) :=
  [(.beginProcess true 7, begunTask), (.packet, begunTask.call .onRecvVerifyMsg),
    (.ret true, begunTask.accept),
    (.ret true, { begunTask with verified := true, accepted := true, added := 1 }),
    (.stopProcessV2 false, stoppedTask), (.scheduleEvent 5007, stoppedTask)]

theorem isRun_stopRun : (system false).IsRun .fresh stopRun :=
  ⟨.beginProcess rfl, .packet rfl rfl, .verified rfl, .addToManager rfl, .stopProcessV2Alone rfl,
    .scheduleEvent, trivial⟩

theorem teardown_safe_iff_stopped : Lts.Always Safe .fresh stopRun := by
  refine (teardown_safe_iff false isRun_stopRun).mpr
    ⟨nofun, nofun, nofun, nofun, nofun, fun _ => ⟨nofun, ?_⟩, trivial⟩
  -- the client said hello five seconds before
  rintro time hl
  obtain rfl : 5007 = time := by simpa using hl
  decide

/-- **A tick after the stop.** The client has said hello at 7 ms and the task is stopped; a tick 31
    seconds later finds the client verified and silent, and calls `AsyncWait` of the null
    `close_timer_`. -/
theorem tick_dereferences_null : ∃ π : List (Label × Task), (system false).IsRun .fresh π ∧
    ¬ Lts.Always Safe .fresh π := by
  let crashed : Task := stoppedTask.scheduleEvent 31007
  have htick : Step false stoppedTask (.scheduleEvent 31007) crashed := .scheduleEvent
  refine ⟨[(.beginProcess true 7, begunTask), (.packet, begunTask.call .onRecvVerifyMsg),
      (.ret true, begunTask.accept),
      (.ret true, { begunTask with verified := true, accepted := true, added := 1 }),
      (.stopProcessV2 false, stoppedTask), (.scheduleEvent 31007, crashed)],
    ⟨.beginProcess rfl, .packet rfl rfl, .verified rfl, .addToManager rfl, .stopProcessV2Alone rfl,
      htick, trivial⟩, fun h => ?_⟩
  exact absurd (Lts.lastState_of_always h).1 (by decide)

end ReechatBase.TcpServerTask
