import ReechatBase.TcpClientTask.Connections

/-!
# Which connection a client task has verified

`verified_` is one flag for all the connections of a task, and a socket that
`TryReconnectServerInner` has given up still calls `SignalReadPacket`.

Main result: `verified_belongs_iff`, for the runs in which a packet of such a socket is neither
verified nor parsed, and a verified task is not stopped. `belongs_of_current` says what is enough
for that in terms of what happens around the task.
-/

namespace ReechatBase.TcpClientTask

open Lib EventWatcher

variable {oneLoop : Bool} {s t u : Task} {l : Label}

/-- `MsgParse` was only given packets of sockets that `OnRecvVerifyMsg` has accepted, and
    `verified_` is true only while `tcp_socket_` holds such a socket. -/
def Belongs (s : Task) : Prop :=
  (s.verified = true → ∃ i, s.socket = some i ∧ i ∈ s.verifiedBy) ∧ s.stray = false

/-- The steps that keep this: a packet that comes while `verified_` is true is of an accepted
    socket; one that `OnRecvVerifyMsg` accepts finds its own socket, or one accepted before, in
    `tcp_socket_`; and `StopProcess` goes on behind `RemoveFromManager` only while `verified_` is
    false. -/
def RespectsVerification (s : Task) : Label → Prop
  | .packet i => s.verified = true → i ∈ s.verifiedBy
  | .ret value _ => ∀ f ∈ s.stack.head?,
      (f = .removeFromManager → s.verified = false) ∧
        ∀ i, f = .onRecvVerifyMsg i → value = true →
          ∃ j, s.socket = some j ∧ (j = i ∨ j ∈ s.verifiedBy)
  | _ => True

namespace Belongs

theorem init : Belongs .fresh := ⟨nofun, rfl⟩

/-- What the property speaks about. -/
def parts (s : Task) : Bool × Option ℕ × List ℕ × Bool :=
  (s.verified, s.socket, s.verifiedBy, s.stray)

theorem of_eq (h : Belongs s) (heq : parts t = parts s) : Belongs t := by
  simp only [parts, Prod.mk.injEq] at heq
  obtain ⟨hverified, hsocket, hby, hstray⟩ := heq
  unfold Belongs
  rw [hverified, hsocket, hby, hstray]
  exact h

theorem not_verified (h : Belongs s) (hsocket : s.socket = none) : s.verified = false := by
  by_contra hv
  obtain ⟨i, hi, _⟩ := h.1 (by simpa using hv)
  simp [hsocket] at hi

/-- `TryReconnectServerInner` clears the flag, or leaves everything to `StopProcess`. -/
theorem tryReconnectServerInner (h : Belongs s) : Belongs s.tryReconnectServerInner := by
  by_cases hex : s.Exhausted
  · rw [tryReconnectServerInner_of_exhausted hex]
    exact h.of_eq rfl
  · rw [tryReconnectServerInner_of_not_exhausted hex]
    -- `verified_ = false` before the socket is given up
    exact ⟨nofun, h.2⟩

theorem connectToServer (h : Belongs s) (hsocket : s.socket = none) {timer : Timer} {begun : Bool} :
    Belongs { s with begun := begun, timer := timer }.connectToServer := by
  have hv := h.not_verified hsocket
  refine ⟨fun hv' => ?_, h.2⟩
  simp [Task.connectToServer, Task.callOpen, hv] at hv'

end Belongs

theorem respectsVerification_of_tries (h : Tries s l) : RespectsVerification s l := by
  match l, h with
  | .run _ _, _ => exact trivial
  | .inline _ _, _ => exact trivial
  | .scheduleEvent _, _ => exact trivial
  | .ret _ _, ⟨time, first, hhead, _⟩ =>
    intro f hf
    obtain rfl : f = .onSendHelloMsg time first := by simpa [hhead] using hf.symm
    exact ⟨nofun, nofun⟩

/-- A hook returns that has nothing to do with the verification. -/
theorem respectsVerification_ret {f : Frame} {rest : List Frame} {b : Bool} {now : ℤ}
    (hstack : s.stack = f :: rest) (hremove : f ≠ .removeFromManager)
    (hverify : ∀ i, f ≠ .onRecvVerifyMsg i) : RespectsVerification s (.ret b now) := by
  intro g hg
  obtain rfl : g = f := by simpa [hstack] using hg.symm
  exact ⟨fun heq => absurd heq hremove, fun i heq => absurd heq (hverify i)⟩

/-- A step that meets the condition keeps the property, and another one breaks it. -/
theorem belongs_iff_of_step (hsound : Sound s) (h : Belongs s) (hst : Step oneLoop s l t) :
    Belongs t ↔ RespectsVerification s l := by
  by_cases htries : Tries s l
  · obtain ⟨u, hu, rfl⟩ := exists_behind_of_tries hst htries
    have hparts : Belongs.parts u = Belongs.parts s := by
      obtain ⟨⟨_, _, _, rfl⟩, _⟩ := hu
      rfl
    exact iff_of_true (h.of_eq hparts).tryReconnectServerInner
      (respectsVerification_of_tries htries)
  · cases hst with
    | beginProcess hb _ =>
      -- no socket is there, so that the flag is false
      exact iff_of_true (h.connectToServer (hsound.connected.fresh hb).1) trivial
    | fire _ htimer =>
      exact iff_of_true (h.connectToServer (hsound.connected.socket_of_pending htimer)) trivial
    | scheduleEvent _ _ =>
      refine iff_of_true ?_ trivial
      rcases scheduleEvent_of_not_tries htries with heq | ⟨first, heq⟩ <;> rw [heq]
      · exact h
      · exact h.of_eq rfl
    | @run sig i _ _ =>
      cases sig with
      | onConnected => exact iff_of_true (h.of_eq rfl) trivial
      | onCloseEvent => exact absurd trivial htries
    | @inline sig i _ _ _ _ =>
      cases sig with
      | onConnected => exact iff_of_true (h.of_eq rfl) trivial
      | onCloseEvent => exact absurd trivial htries
    | @packet i _ _ _ =>
      unfold Task.onInternalPacket
      split
      · rename_i hv
        -- it is parsed
        constructor
        · intro hb _
          have hstray := hb.2
          simp only [Task.call, h.2, Bool.false_or, decide_eq_false_iff_not, not_not] at hstray
          exact hstray
        · intro hok
          refine ⟨h.1, ?_⟩
          simp [Task.call, h.2, hok hv]
      · rename_i hv
        exact iff_of_true (h.of_eq rfl) fun hv' => absurd hv' hv
    | removeFromManager hstack =>
      -- `StopProcess` clears `tcp_socket_` and leaves `verified_`
      constructor
      · intro hb f hf
        obtain rfl : f = .removeFromManager := by simpa [hstack] using hf.symm
        refine ⟨fun _ => ?_, by simp⟩
        exact hb.not_verified rfl
      · intro hok
        have hv : s.verified = false := (hok .removeFromManager (by simp [hstack])).1 rfl
        refine ⟨fun hv' => ?_, h.2⟩
        simp [Task.markStopped, Task.stopProcess, Task.closeSocket, hv] at hv'
    | @verified i rest now hstack =>
      -- the flag is set for the packet's socket, whichever `tcp_socket_` holds
      constructor
      · intro hb f hf
        obtain rfl : f = .onRecvVerifyMsg i := by simpa [hstack] using hf.symm
        refine ⟨by simp, fun j hj _ => ?_⟩
        obtain rfl : i = j := by simpa using hj
        simpa [Task.callOpen] using hb.1 rfl
      · intro hok
        obtain ⟨j, hj, hmem⟩ := (hok (.onRecvVerifyMsg i) (by simp [hstack])).2 i rfl rfl
        exact ⟨fun _ => ⟨j, hj, List.mem_cons.mpr hmem⟩, h.2⟩
    | @notVerified i rest now hstack =>
      refine iff_of_true (h.of_eq rfl) fun f hf => ?_
      obtain rfl : f = .onRecvVerifyMsg i := by simpa [hstack] using hf.symm
      exact ⟨by simp, by simp⟩
    | onSendHelloMsg hstack =>
      rw [checkHelloTime_of_not_tries hstack htries]
      exact iff_of_true (h.of_eq rfl) (respectsVerification_ret hstack (by simp) (by simp))
    | beginConnect hstack | addToManager hstack | msgParse hstack | onConnectOpen hstack
    | onSendVerifyMsg hstack | onConnectError hstack =>
      exact iff_of_true (h.of_eq rfl) (respectsVerification_ret hstack (by simp) (by simp))
    | _ => exact iff_of_true (h.of_eq rfl) trivial

/-- **The verification belongs to its connection** exactly in the runs whose steps respect it. -/
theorem verified_belongs_iff (oneLoop : Bool) {π : List (Label × Task)}
    (hrun : (system oneLoop).IsRun .fresh π) :
    Lts.Always Belongs .fresh π ↔ Lts.Meets RespectsVerification .fresh π :=
  Lts.always_iff_meets (I := fun s => Sound s ∧ Belongs s) (fun _ h => h.2)
    (fun _ _ _ h hok hst => ⟨h.1.step hst, (belongs_iff_of_step h.1 h.2 hst).mpr hok⟩)
    (fun _ _ _ h hno hst hb => hno ((belongs_iff_of_step h.1 h.2 hst).mp hb))
    ⟨.init, .init⟩ hrun

/-- What happens around the task lets the flag belong to its connection: packets come from the
    socket in `tcp_socket_` only, that socket is not given up while `OnRecvVerifyMsg` looks at its
    packet, and `StopProcess` is not called while `verified_` is true. -/
def Current (s : Task) : Label → Prop
  | .packet i => s.socket = some i
  | .ret value _ => ∀ f ∈ s.stack.head?,
      (f = .removeFromManager → s.verified = false) ∧
        ∀ i, f = .onRecvVerifyMsg i → value = true → s.socket = some i
  | _ => True

theorem Belongs.respects_of_current (h : Belongs s) (hok : Current s l) :
    RespectsVerification s l := by
  match l, hok with
  | .packet i, hi =>
    -- the socket in `tcp_socket_` is the one that was accepted
    intro hv
    obtain ⟨j, hj, hmem⟩ := h.1 hv
    obtain rfl : i = j := Option.some.inj (hi.symm.trans hj)
    exact hmem
  | .ret value now, hret =>
    intro f hf
    obtain ⟨hremove, hverify⟩ := hret f hf
    exact ⟨hremove, fun i hfi hvalue => ⟨i, hverify i hfi hvalue, .inl rfl⟩⟩
  | .setMaxReconnectTimes _, _ | .setCheckHello _, _ | .beginProcess, _ | .stopProcess, _
  | .scheduleEvent _, _ | .onRecvHelloMsg _, _ | .post _ _, _ | .run _ _, _ | .inline _ _, _
  | .fire, _ => exact trivial

/-- No packet of a socket that was given up, and no stop of a verified task: the verification
    belongs to its connection. -/
theorem belongs_of_current (oneLoop : Bool) {π : List (Label × Task)}
    (hrun : (system oneLoop).IsRun .fresh π) (hok : Lts.Meets Current .fresh π) :
    Lts.Always Belongs .fresh π := by
  refine Lts.always_of_meets (I := fun s => Sound s ∧ Belongs s) (fun _ h => h.2) ?_ ⟨.init, .init⟩
    hrun hok
  intro s l t ⟨hsound, hbelongs⟩ hok hst
  have hrespects := hbelongs.respects_of_current hok
  exact ⟨hsound.step hst, (belongs_iff_of_step hsound hbelongs hst).mpr hrespects⟩

/-- The first packet of a connection is accepted, the second one parsed. -/
def verifiedRun : List (Label × Task) :=
  let begun : Task := { begunTask with stack := [] }
  let accepted : Task := { begun with verified := true, verifiedBy := [0] }
  [(.beginProcess, begunTask), (.ret true 0, begun),
    (.packet 0, begun.onInternalPacket 0), (.ret true 0, accepted.callOpen .addToManager),
    (.ret true 0, accepted), (.packet 0, accepted.onInternalPacket 0)]

theorem verified_belongs_iff_accepted : Lts.Always Belongs .fresh verifiedRun := by
  have hrun : (system false).IsRun .fresh verifiedRun :=
    ⟨.beginProcess rfl nofun, .beginConnect rfl, .packet rfl (by decide) nofun, .verified rfl,
      .addToManager rfl, .packet rfl (by decide) nofun, trivial⟩
  refine (verified_belongs_iff false hrun).mpr ⟨trivial, ?_, nofun, ?_, ?_, ?_, trivial⟩
  · exact respectsVerification_ret rfl nofun nofun
  · intro f hf
    obtain rfl : Frame.onRecvVerifyMsg 0 = f := Option.some.inj hf
    refine ⟨nofun, fun i hi _ => ⟨0, rfl, .inl ?_⟩⟩
    simpa using hi
  · exact respectsVerification_ret rfl nofun nofun
  · exact fun _ => .head _

/-- A socket is given up after a hello timeout, while a packet of it waits. The packet is verified,
    and what the next connection sends is parsed unverified. -/
theorem stale_packet_verifies : ∃ π : List (Label × Task), (system false).IsRun .fresh π ∧
    ¬ Lts.Always Belongs .fresh π := by
  let begun : Task := { begunTask with stack := [] }
  let posted : Task := { begun with posts := [(.onConnected, 0)] }
  let opened : Task := begun.endConnectEvent 1
  let timedOut : Task := (opened.helloSent 30002 true true).checkHelloTime 30002
  let stale : Task := { timedOut with verified := true, verifiedBy := [0] }
  let fired : Task := { stale with timer := .idle }.connectToServer
  let next : Task := { fired with stack := [] }
  have hrun : Step false posted (.run .onConnected 0) (begun.signal .onConnected) :=
    .run rfl (by decide)
  refine ⟨[(.beginProcess, begunTask), (.ret true 0, begun), (.post .onConnected 0, posted),
      (.run .onConnected 0, begun.signal .onConnected),
      (.ret true 0, begun.callOpen .onSendVerifyMsg), (.ret true 1, opened),
      (.scheduleEvent 30002, opened.call (.onSendHelloMsg 30002 true)), (.ret true 0, timedOut),
      (.packet 0, timedOut.onInternalPacket 0), (.ret true 0, stale.callOpen .addToManager),
      (.ret true 0, stale), (.fire, fired), (.ret true 0, next),
      (.packet 1, next.onInternalPacket 1)],
    ⟨.beginProcess rfl nofun, .beginConnect rfl, .post (by decide) nofun, hrun,
      .onConnectOpen rfl, .onSendVerifyMsg rfl, .scheduleEvent rfl nofun, .onSendHelloMsg rfl,
      .packet rfl (by decide) nofun, .verified rfl, .addToManager rfl, .fire rfl rfl,
      .beginConnect rfl, .packet rfl (by decide) nofun, trivial⟩, fun h => ?_⟩
  have hlast : Belongs (next.onInternalPacket 1) := Lts.lastState_of_always h
  exact absurd hlast.2 (by decide)

end ReechatBase.TcpClientTask
