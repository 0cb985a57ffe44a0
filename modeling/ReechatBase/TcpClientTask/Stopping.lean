import ReechatBase.TcpClientTask.Connections

/-!
# Stopping a client task

`StopProcess` clears the signals of the socket it holds, and its timer. What has been posted
already, or comes from a socket given up earlier, still reaches the task.

Main result: `stop_final_iff`, for the runs in which a stopped task stays silent.
-/

namespace ReechatBase.TcpClientTask

open Lib EventWatcher

variable {oneLoop : Bool} {s t u : Task} {l : Label}

/-- Once the task is stopped, it does not connect, and it calls none of the hooks that tell the
    subclass about the connection. -/
def Silent (s : Task) : Prop := s.late = false

/-- The step calls such a hook: a connect signal runs, or a hook returns to a method that goes on to
    another one. -/
def Announces (s : Task) : Label → Prop
  | .run .onConnected _ => True
  | .inline .onConnected _ => True
  | .ret _ _ => ∃ f ∈ s.stack.head?,
      f = .onConnectOpen ∨ f = .onConnectError ∨ ∃ i, f = .onRecvVerifyMsg i
  | _ => False

/-- The steps that keep a stopped task silent: they call no such hook, and a close signal or a hello
    timeout does not find the budget used up. -/
def RespectsStop (s : Task) (l : Label) : Prop :=
  s.stopped = true → ¬ Announces s l ∧ (Tries s l → ¬ s.Exhausted)

theorem not_announces_of_tries (h : Tries s l) : ¬ Announces s l := by
  intro hann
  match l, h, hann with
  | .ret _ _, ⟨time, first, hhead, _⟩, ⟨f, hf, hann⟩ =>
    obtain rfl : f = .onSendHelloMsg time first := by simpa [hhead] using hf.symm
    simp at hann

theorem exhausted_behind (h : Behind s u) : u.Exhausted ↔ s.Exhausted := by
  obtain ⟨⟨_, _, _, rfl⟩, _⟩ := h
  rfl

theorem late_tryReconnectServerInner (s : Task) :
    s.tryReconnectServerInner.late = true ↔ s.late = true ∨ s.stopped = true ∧ s.Exhausted := by
  by_cases hex : s.Exhausted
  · rw [tryReconnectServerInner_of_exhausted hex]
    simp [Task.callOpen, Task.lose, hex]
  · rw [tryReconnectServerInner_of_not_exhausted hex]
    simp [Task.reconnect, Task.closeSocket, Task.lose, hex]

/-- What a step adds to `late`. -/
theorem late_iff_of_step (h : Sound s) (hst : Step oneLoop s l t) : t.late = true ↔
    s.late = true ∨ s.stopped = true ∧ (Announces s l ∨ Tries s l ∧ s.Exhausted) := by
  by_cases htries : Tries s l
  · -- `OnConnectError` is then the only hook that can be called
    obtain ⟨u, hu, rfl⟩ := exists_behind_of_tries hst htries
    have hex := exhausted_behind hu
    obtain ⟨⟨_, _, _, rfl⟩, _⟩ := hu
    simp [late_tryReconnectServerInner, hex, htries, not_announces_of_tries htries]
  · simp only [htries, false_and, or_false]
    cases hst with
    | beginProcess hb _ =>
      simp [Task.connectToServer, Task.callOpen, Announces, (h.connected.fresh hb).2]
    | fire _ htimer =>
      -- the timer of a stopped task is gone
      have hopen : s.stopped = false := by
        by_contra hs
        simp [(h.connected.stopped (by simpa using hs)).2] at htimer
      simp [Task.connectToServer, Task.callOpen, Announces, hopen]
    | scheduleEvent _ _ =>
      -- `SignalOnSendHelloMsg` tells nothing about the connection
      rcases scheduleEvent_of_not_tries htries with heq | ⟨first, heq⟩ <;> rw [heq] <;>
        simp [Announces, Task.call]
    | @run sig i _ _ =>
      cases sig with
      | onConnected => simp [Task.signal, Task.onConnectEvent, Task.callOpen, Announces]
      | onCloseEvent => exact absurd trivial htries
    | @inline sig i _ _ _ _ =>
      cases sig with
      | onConnected => simp [Task.signal, Task.onConnectEvent, Task.callOpen, Announces]
      | onCloseEvent => exact absurd trivial htries
    | packet _ _ _ =>
      unfold Task.onInternalPacket
      split <;> simp [Task.call, Announces]
    | onSendHelloMsg hstack =>
      rw [checkHelloTime_of_not_tries hstack htries]
      simp [Task.helloSent, Announces, hstack]
    -- these hooks return into a method that calls the next one
    | verified hstack | notVerified hstack | onConnectOpen hstack | onConnectError hstack =>
      simp [Task.callOpen, Announces, hstack]
    | beginConnect hstack | addToManager hstack | msgParse hstack | onSendVerifyMsg hstack
    | removeFromManager hstack =>
      simp [Task.markStopped, Task.stopProcess, Task.closeSocket, Task.endConnectEvent, Announces,
        hstack]
    | _ => simp [Task.call, Announces]

/-- **Stopping is final** exactly in the runs whose steps keep a stopped task silent. -/
theorem stop_final_iff (oneLoop : Bool) {π : List (Label × Task)}
    (hrun : (system oneLoop).IsRun .fresh π) :
    Lts.Always Silent .fresh π ↔ Lts.Meets RespectsStop .fresh π := by
  refine Lts.always_iff_meets (I := fun s => Sound s ∧ Silent s) (fun _ h => h.2)
    (fun s l t h hok hst => ⟨h.1.step hst, ?_⟩) (fun s l t h hno hst hsilent => ?_)
    ⟨.init, rfl⟩ hrun
  · -- the step meets the condition
    have hsilent : s.late = false := h.2
    by_contra hlate
    have hlate := (late_iff_of_step h.1 hst).mp (by simpa [Silent] using hlate)
    simp only [hsilent, Bool.false_eq_true, false_or] at hlate
    obtain ⟨hstopped, hann | ⟨htries, hex⟩⟩ := hlate
    · exact (hok hstopped).1 hann
    · exact (hok hstopped).2 htries hex
  · -- it does not
    have hlate : t.late = true := (late_iff_of_step h.1 hst).mpr (.inr ?_)
    · simp [Silent, hlate] at hsilent
    · unfold RespectsStop at hno
      tauto

/-- A task that is stopped while it connects -/
def stoppedTask : Task := { begunTask with stack := [] }.stopProcess.markStopped

/-- It is stopped, and the first hello is due. -/
def stopRun : List (Label × Task) :=
  [(.beginProcess, begunTask), (.ret true 0, { begunTask with stack := [] }),
    (.stopProcess, { begunTask with stack := [.removeFromManager] }), (.ret true 0, stoppedTask),
    (.scheduleEvent 5, { stoppedTask with stack := [.onSendHelloMsg 5 true] })]

theorem stop_final_iff_scheduled : Lts.Always Silent .fresh stopRun := by
  have hrun : (system false).IsRun .fresh stopRun :=
    ⟨.beginProcess rfl nofun, .beginConnect rfl, .stopProcess rfl nofun, .removeFromManager rfl,
      .scheduleEvent rfl nofun, trivial⟩
  exact (stop_final_iff false hrun).mpr
    ⟨nofun, nofun, nofun, nofun, fun _ => ⟨id, fun h => absurd rfl h.1⟩, trivial⟩

/-- `SignalOnConnected` was posted before the task was stopped, and runs after that. -/
theorem stopped_task_opens : ∃ π : List (Label × Task), (system false).IsRun .fresh π ∧
    ¬ Lts.Always Silent .fresh π := by
  let posted : Task := { begunTask with stack := [], posts := [(.onConnected, 0)] }
  let stopped : Task := posted.stopProcess.markStopped
  let opened : Task := { stopped with posts := [] }.signal .onConnected
  have hopen : Step false stopped (.run .onConnected 0) opened := .run rfl (by decide)
  refine ⟨[(.beginProcess, begunTask), (.ret true 0, { begunTask with stack := [] }),
      (.post .onConnected 0, posted), (.stopProcess, { posted with stack := [.removeFromManager] }),
      (.ret true 0, stopped), (.run .onConnected 0, opened)],
    ⟨.beginProcess rfl nofun, .beginConnect rfl, .post (by decide) nofun, .stopProcess rfl nofun,
      .removeFromManager rfl, hopen, trivial⟩, fun h => ?_⟩
  exact absurd (Lts.lastState_of_always h) nofun

end ReechatBase.TcpClientTask
