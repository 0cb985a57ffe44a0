import ReechatBase.TcpClientTask.Basic

/-!
# The connections of a client task

In every run, whatever the hooks do and whether or not callbacks run inside one another, a task
that was begun and not stopped holds a socket or waits for its timer, and never both; and it has
closed every socket but the one it holds, once.

Main result: `never_stuck_never_leaks`.
-/

namespace ReechatBase.TcpClientTask

open Lib EventWatcher

variable {oneLoop : Bool} {s t : Task} {l : Label} {f : Frame} {i : ℕ} {time : ℤ}

/-! ## What `TryReconnectServerInner` does -/

/-- `TryReconnectServerInner` would find the budget used up. -/
def Task.Exhausted (s : Task) : Prop :=
  0 < s.maxReconnectTimes ∧ s.maxReconnectTimes ≤ s.connectRound + 1

/-- `connect_round_` behind the test in `TryReconnectServerInner` -/
def Task.nextRound (s : Task) : ℤ :=
  if 0 < s.maxReconnectTimes then s.connectRound + 1 else s.connectRound

theorem tryReconnectServerInner_of_exhausted (h : s.Exhausted) : s.tryReconnectServerInner =
    { s.lose with connectRound := s.connectRound + 1, errors := s.errors + 1 }.callOpen
      .onConnectError := by
  unfold Task.tryReconnectServerInner
  simp [Task.lose, h.1, h.2]

theorem tryReconnectServerInner_of_not_exhausted (h : ¬ s.Exhausted) : s.tryReconnectServerInner =
    { s.lose with connectRound := s.nextRound }.reconnect := by
  unfold Task.tryReconnectServerInner Task.nextRound
  by_cases hmax : 0 < s.maxReconnectTimes
  · have hround : ¬ s.maxReconnectTimes ≤ s.connectRound + 1 := fun hle => h ⟨hmax, hle⟩
    simp [Task.lose, hmax, hround]
  · simp [Task.lose, hmax]

/-- The step calls `TryReconnectServerInner`. -/
def Tries (s : Task) : Label → Prop
  | .run .onCloseEvent _ => True
  | .inline .onCloseEvent _ => True
  | .scheduleEvent time =>
    s.lastScheduleTime ≠ 0 ∧ time - s.lastScheduleTime < 10000 ∧ s.HelloTimeout time
  | .ret _ _ => ∃ time first, s.stack.head? = some (.onSendHelloMsg time first) ∧
      s.HelloTimeout time
  | _ => False

/-- `u` differs from `s` only in the calls in progress: one may have returned. -/
structure Behind (s u : Task) : Prop where
  eq : ∃ stack posts time,
    u = { s with stack := stack, posts := posts, lastScheduleTime := time }
  stack : u.stack = s.stack ∨ ∃ time first, s.stack = .onSendHelloMsg time first :: u.stack

theorem exists_behind_of_tries (hst : Step oneLoop s l t) (h : Tries s l) :
    ∃ u, Behind s u ∧ t = u.tryReconnectServerInner := by
  cases hst with
  | scheduleEvent _ _ =>
    -- neither hello is due, so that `ScheduleEvent` goes straight on to `CheckHelloTime`
    obtain ⟨hfirst, hnext, htimeout⟩ := h
    refine ⟨s, ⟨⟨s.stack, s.posts, s.lastScheduleTime, rfl⟩, .inl rfl⟩, ?_⟩
    simp [Task.scheduleEvent, Task.checkHelloTime, hfirst, htimeout, Int.not_le.mpr hnext]
  | @run sig i _ _ =>
    cases sig with
    | onConnected => cases h
    | onCloseEvent =>
      exact ⟨{ s with posts := s.posts.erase (.onCloseEvent, i) }, ⟨⟨_, _, _, rfl⟩, .inl rfl⟩, rfl⟩
  | @inline sig i _ _ _ _ =>
    cases sig with
    | onConnected => cases h
    | onCloseEvent => exact ⟨s, ⟨⟨s.stack, s.posts, s.lastScheduleTime, rfl⟩, .inl rfl⟩, rfl⟩
  | @onSendHelloMsg time first rest b now hstack =>
    obtain ⟨time', first', hhead, htimeout⟩ := h
    obtain ⟨rfl, rfl⟩ : time = time' ∧ first = first' := by simpa [hstack] using hhead
    -- `CheckHelloTime` runs behind the user's `SignalOnSendHelloMsg`
    refine ⟨{ s with stack := rest }.helloSent time first b,
      ⟨⟨rest, s.posts, _, rfl⟩, .inr ⟨time, first, hstack⟩⟩, ?_⟩
    exact if_pos htimeout
  | _ => simp_all [Tries]

theorem scheduleEvent_of_not_tries (h : ¬ Tries s (.scheduleEvent time)) :
    s.scheduleEvent time = s ∨
      ∃ first, s.scheduleEvent time = s.call (.onSendHelloMsg time first) := by
  unfold Task.scheduleEvent
  split
  · exact .inr ⟨true, rfl⟩
  · rename_i hfirst
    split
    · exact .inr ⟨false, rfl⟩
    · rename_i hnext
      exact .inl (if_neg fun htimeout => h ⟨hfirst, by omega, htimeout⟩)

theorem checkHelloTime_of_not_tries {first b : Bool} {rest : List Frame} {now : ℤ}
    (hstack : s.stack = .onSendHelloMsg time first :: rest) (h : ¬ Tries s (.ret b now)) :
    ({ s with stack := rest }.helloSent time first b).checkHelloTime time =
      { s with stack := rest }.helloSent time first b := by
  refine if_neg fun htimeout => h ⟨time, first, ?_, htimeout⟩
  simp [hstack]

/-! ## The invariant -/

/-- What the task knows of its connections. -/
def Task.connection (s : Task) : Bool × Bool × Option ℕ × Timer × ℕ × List ℕ :=
  (s.begun, s.stopped, s.socket, s.timer, s.created, s.closes)

/-- How socket, timer and the calls of `CloseConnection` belong together. -/
structure Connected (s : Task) : Prop where
  fresh : s.begun = false → s.socket = none ∧ s.stopped = false
  stopped : s.stopped = true → s.socket = none ∧ s.timer = .absent
  running : s.begun = true → s.stopped = false →
    s.timer ≠ .absent ∧ (s.socket = none ↔ s.timer = .pending)
  current : ∀ i, s.socket = some i → i < s.created
  closes : ∀ i, s.closes.count i = if i < s.created ∧ s.socket ≠ some i then 1 else 0

namespace Connected

theorem init : Connected .fresh where
  fresh _ := ⟨rfl, rfl⟩
  stopped := nofun
  running := nofun
  current := nofun
  closes i := by simp [Task.fresh]

/-- A step that does not concern the connections. -/
theorem of_eq (h : Connected s) (heq : t.connection = s.connection) : Connected t := by
  obtain ⟨hfresh, hstopped, hrunning, hcurrent, hcloses⟩ := h
  simp only [Task.connection, Prod.mk.injEq] at heq
  obtain ⟨hb, hs, hsocket, htimer, hcreated, hcl⟩ := heq
  rw [← hb] at hfresh hrunning
  rw [← hs] at hfresh hstopped hrunning
  rw [← hsocket] at hfresh hstopped hrunning hcurrent hcloses
  rw [← htimer] at hstopped hrunning
  rw [← hcreated] at hcurrent hcloses
  rw [← hcl] at hcloses
  exact ⟨hfresh, hstopped, hrunning, hcurrent, hcloses⟩

/-- The timer is pending only while there is no socket. -/
theorem socket_of_pending (h : Connected s) (htimer : s.timer = .pending) : s.socket = none := by
  cases hs : s.stopped with
  | true => exact (h.stopped hs).1
  | false =>
    cases hb : s.begun with
    | false => exact (h.fresh hb).1
    | true => exact (h.running hb hs).2.mpr htimer

/-- `ConnectToServer` is entered without a socket. -/
theorem connectToServer (h : Connected s) (hbegun : t.begun = true) (hstopped : t.stopped = false)
    (htimer : t.timer = .idle) (hsocket : s.socket = none) (hcreated : t.created = s.created)
    (hcloses : t.closes = s.closes) : Connected t.connectToServer where
  fresh hb := by simp [Task.connectToServer, Task.callOpen, hbegun] at hb
  stopped hs := by simp [Task.connectToServer, Task.callOpen, hstopped] at hs
  running _ _ := by simp [Task.connectToServer, Task.callOpen, htimer]
  current i hi := by
    simp only [Task.connectToServer, Task.callOpen, Option.some.injEq] at hi ⊢
    omega
  closes i := by
    have hcount := h.closes i
    simp only [Task.connectToServer, Task.callOpen, hcloses, hcreated, hcount, hsocket]
    by_cases hi : i = s.created
    · -- the socket that was made, which nothing has closed
      simp [hi]
    · have : i < s.created + 1 ↔ i < s.created := by omega
      simp [this, Ne.symm hi]

/-- The socket in `tcp_socket_` is closed, once. -/
theorem count_closeSocket (h : Connected s) (i : ℕ) :
    s.closeSocket.closes.count i = if i < s.created then 1 else 0 := by
  have hcount := h.closes i
  simp only [Task.closeSocket, List.count_append, hcount]
  cases hs : s.socket with
  | none => simp
  | some j =>
    have hj := h.current j hs
    by_cases hij : j = i
    · -- the one in `tcp_socket_` was not closed before
      subst hij
      simp [hj]
    · simp [hij]

theorem stopProcess (h : Connected s) (hbegun : s.begun = true) :
    Connected s.stopProcess.markStopped where
  fresh hb := by simp [Task.markStopped, Task.stopProcess, Task.closeSocket, hbegun] at hb
  stopped _ := ⟨rfl, rfl⟩
  running _ hs := by simp [Task.markStopped] at hs
  current := nofun
  closes i := by
    simpa [Task.markStopped, Task.stopProcess, Task.closeSocket] using h.count_closeSocket i

theorem reconnect (h : Connected s) (hbegun : s.begun = true) : Connected s.reconnect where
  fresh hb := by simp [Task.reconnect, Task.closeSocket, hbegun] at hb
  stopped hs := by simp [Task.reconnect, Task.closeSocket, (h.stopped hs).2]
  running _ hs := by simp [Task.reconnect, Task.closeSocket, (h.running hbegun hs).1]
  current := nofun
  closes i := by simpa [Task.reconnect, Task.closeSocket] using h.count_closeSocket i

theorem tryReconnectServerInner (h : Connected s) (hbegun : s.begun = true) :
    Connected s.tryReconnectServerInner := by
  by_cases hex : s.Exhausted
  · -- only the user is called here; `StopProcess` comes when the signal returns
    rw [tryReconnectServerInner_of_exhausted hex]
    exact h.of_eq rfl
  · rw [tryReconnectServerInner_of_not_exhausted hex]
    have hlose : Connected { s.lose with connectRound := s.nextRound } := h.of_eq rfl
    exact hlose.reconnect hbegun

theorem signal (h : Connected s) (hbegun : s.begun = true) (sig : Signal) :
    Connected (s.signal sig) := by
  cases sig with
  | onConnected => exact h.of_eq rfl
  | onCloseEvent => exact h.tryReconnectServerInner hbegun

theorem checkHelloTime (h : Connected s) (hbegun : s.begun = true) (time : ℤ) :
    Connected (s.checkHelloTime time) := by
  unfold Task.checkHelloTime
  -- the time-out of the hello, or nothing
  split
  · exact h.tryReconnectServerInner hbegun
  · exact h

theorem scheduleEvent (h : Connected s) (hbegun : s.begun = true) (time : ℤ) :
    Connected (s.scheduleEvent time) := by
  unfold Task.scheduleEvent
  split
  · exact h.of_eq rfl
  · split
    · exact h.of_eq rfl
    · exact h.checkHelloTime hbegun time

end Connected

/-! ## Before `BeginProcess` -/

/-- Before `BeginProcess` there is nothing that could call the task. -/
def Untouched (s : Task) : Prop :=
  s.begun = false → s.stack = [] ∧ s.posts = [] ∧ s.created = 0 ∧ s.timer = .absent

namespace Untouched

theorem init : Untouched .fresh := fun _ => ⟨rfl, rfl, rfl, rfl⟩

theorem of_begun (h : t.begun = true) : Untouched t := fun hb => by simp [h] at hb

theorem begun_of_stack (h : Untouched s) {rest : List Frame} (hstack : s.stack = f :: rest) :
    s.begun = true := by
  by_contra hb
  simp [(h (by simpa using hb)).1] at hstack

theorem begun_of_posts (h : Untouched s) {sig : Signal} (hmem : (sig, i) ∈ s.posts) :
    s.begun = true := by
  by_contra hb
  simp [(h (by simpa using hb)).2.1] at hmem

theorem begun_of_created (h : Untouched s) (hi : i < s.created) : s.begun = true := by
  by_contra hb
  simp [(h (by simpa using hb)).2.2.1] at hi

theorem begun_of_pending (h : Untouched s) (htimer : s.timer = .pending) : s.begun = true := by
  by_contra hb
  simp [(h (by simpa using hb)).2.2.2] at htimer

end Untouched

/-- What only `BeginProcess` and `ConnectToServer` change. -/
def Task.origin (s : Task) : Bool × ℕ := (s.begun, s.created)

theorem origin_tryReconnectServerInner (s : Task) :
    s.tryReconnectServerInner.origin = s.origin := by
  by_cases hex : s.Exhausted
  · rw [tryReconnectServerInner_of_exhausted hex]
    rfl
  · rw [tryReconnectServerInner_of_not_exhausted hex]
    rfl

theorem origin_checkHelloTime (s : Task) (time : ℤ) :
    (s.checkHelloTime time).origin = s.origin := by
  unfold Task.checkHelloTime
  split
  · exact origin_tryReconnectServerInner s
  · rfl

theorem origin_scheduleEvent (s : Task) (time : ℤ) : (s.scheduleEvent time).origin = s.origin := by
  unfold Task.scheduleEvent
  split
  · rfl
  · split
    · rfl
    · exact origin_checkHelloTime s time

theorem origin_signal (s : Task) (sig : Signal) : (s.signal sig).origin = s.origin := by
  cases sig with
  | onConnected => rfl
  | onCloseEvent => exact origin_tryReconnectServerInner s

theorem origin_onInternalPacket (s : Task) (i : ℕ) : (s.onInternalPacket i).origin = s.origin := by
  unfold Task.onInternalPacket
  split <;> rfl

/-- A step other than `BeginProcess` and the timer makes no socket. -/
theorem origin_of_step (hst : Step oneLoop s l t) (hbegin : l ≠ .beginProcess) (hfire : l ≠ .fire) :
    t.origin = s.origin := by
  cases hst with
  | beginProcess _ _ => exact absurd rfl hbegin
  | fire _ _ => exact absurd rfl hfire
  | scheduleEvent _ _ => exact origin_scheduleEvent _ _
  | run _ _ => exact origin_signal _ _
  | inline _ _ _ _ => exact origin_signal _ _
  | packet _ _ _ => exact origin_onInternalPacket _ _
  | onSendHelloMsg _ => exact origin_checkHelloTime _ _
  | _ => rfl

theorem begun_of_origin (h : t.origin = s.origin) (hb : s.begun = true) : t.begun = true :=
  (congrArg Prod.fst h).trans hb

/-- The two invariants of every run. -/
structure Sound (s : Task) : Prop where
  connected : Connected s
  untouched : Untouched s

namespace Sound

theorem init : Sound .fresh := ⟨.init, .init⟩

theorem step (h : Sound s) (hst : Step oneLoop s l t) : Sound t := by
  obtain ⟨hc, hu⟩ := h
  cases hst with
  | setMaxReconnectTimes _ => exact ⟨hc.of_eq rfl, hu⟩
  | setCheckHello _ => exact ⟨hc.of_eq rfl, hu⟩
  | beginProcess hb _ =>
    refine ⟨hc.connectToServer rfl (hc.fresh hb).2 rfl (hc.fresh hb).1 rfl rfl, .of_begun rfl⟩
  | stopProcess hb _ => exact ⟨hc.of_eq rfl, .of_begun hb⟩
  | scheduleEvent hb _ =>
    exact ⟨hc.scheduleEvent hb _, .of_begun (begun_of_origin (origin_scheduleEvent _ _) hb)⟩
  | onRecvHelloMsg hb _ => exact ⟨hc.of_eq rfl, .of_begun hb⟩
  | post hi _ => exact ⟨hc.of_eq rfl, .of_begun (hu.begun_of_created hi)⟩
  | @run sig i hstack hmem =>
    have hb := hu.begun_of_posts hmem
    have hrun : Connected { s with posts := s.posts.erase (sig, i) } := hc.of_eq rfl
    exact ⟨hrun.signal hb sig, .of_begun (begun_of_origin (origin_signal _ _) hb)⟩
  | @inline sig i _ _ hi _ =>
    have hb := hu.begun_of_created hi
    exact ⟨hc.signal hb sig, .of_begun (begun_of_origin (origin_signal _ _) hb)⟩
  | packet _ hi _ =>
    have hb := hu.begun_of_created hi
    -- before the verification the user is asked, behind it the packet is handed on
    unfold Task.onInternalPacket
    split
    · exact ⟨hc.of_eq rfl, .of_begun hb⟩
    · exact ⟨hc.of_eq rfl, .of_begun hb⟩
  | fire _ htimer =>
    have hb := hu.begun_of_pending htimer
    -- `StopProcess` has deleted the timer
    have hstopped : s.stopped = false := by
      by_contra hs
      simp [(hc.stopped (by simpa using hs)).2] at htimer
    exact ⟨hc.connectToServer hb hstopped rfl (hc.socket_of_pending htimer) rfl rfl, .of_begun hb⟩
  | @removeFromManager rest b now hstack =>
    have hb := hu.begun_of_stack hstack
    have hret : Connected { s with stack := rest } := hc.of_eq rfl
    exact ⟨hret.stopProcess hb, .of_begun hb⟩
  | @onSendHelloMsg time first rest b now hstack =>
    have hb := hu.begun_of_stack hstack
    have hret : Connected ({ s with stack := rest }.helloSent time first b) := hc.of_eq rfl
    exact ⟨hret.checkHelloTime hb time, .of_begun (begun_of_origin (origin_checkHelloTime _ _) hb)⟩
  | beginConnect hstack | verified hstack | notVerified hstack | addToManager hstack
  | msgParse hstack | onConnectOpen hstack | onSendVerifyMsg hstack | onConnectError hstack =>
    exact ⟨hc.of_eq rfl, .of_begun (hu.begun_of_stack hstack)⟩

theorem of_reachable (h : (system oneLoop).Reachable s) : Sound s :=
  h.invariant (fun _ hs => hs ▸ init) fun _ _ _ hI hst => hI.step hst

end Sound

/-! ## The result -/

/-- `ConnectToServer`, which makes a socket, is entered without one. -/
theorem socket_of_created (h : Sound s) (hst : Step oneLoop s l t) (hnew : s.created < t.created) :
    s.socket = none := by
  by_cases hbegin : l = .beginProcess
  · subst hbegin
    cases hst with
    | beginProcess hb _ => exact (h.connected.fresh hb).1
  · by_cases hfire : l = .fire
    · subst hfire
      cases hst with
      | fire _ htimer => exact h.connected.socket_of_pending htimer
    · -- no other step makes a socket
      have hkeep : t.created = s.created := congrArg Prod.snd (origin_of_step hst hbegin hfire)
      omega

/-- A task that is in its first `BeginConnect` -/
def begunTask : Task := { Task.fresh with begun := true, timer := .idle }.connectToServer

/-- The first connection is lost, and the timer has fired for the second one. -/
def reconnectedTask : Task :=
  let waiting : Task := Task.signal { begunTask with stack := [] } .onCloseEvent
  { { waiting with timer := .idle }.connectToServer with stack := [] }

end ReechatBase.TcpClientTask
