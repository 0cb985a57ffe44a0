import ReechatBase.TcpSocket.Quiescence

/-!
# Handing an accepted socket to its task

`AcceptConnection` arms the reading of the new socket before `TcpServerTask::BeginProcess` sets
`SignalReadPacket`, and the worker consumes a frame whether or not somebody listens.

- `handedOver_of_attended`: in a run in which the worker gets to a frame only when
  `SignalReadPacket` is set, the task gets every frame, once and in order;
- `attended_of_near`: all runs of a socket that is accepted on the thread of one of its loops are
  of this kind;
- `exists_lost`: on any other thread a frame may be lost, `frame_lost` being such a run;
- `handed_over_iff`: so the accepting thread decides.
-/

namespace ReechatBase.TcpSocket

open Lib Lib.Prog Lib.Framing RingBuffer Wrapper

namespace Wrapper

/-- **Nothing is lost** up to a configuration: the task has got the first frames of the stream, each
    once and in order, and at rest all those that were read; nothing is consumed before
    `SignalReadPacket` is set. -/
structure HandedOver (o : ByteOrder) (stream : List UInt8) (c : Config sig State Party Status) :
    Prop where
  delivered_isPrefix : c.shared.rcv.delivered <+: (framing o).parse stream
  delivered_eq : c.prog .net = ret .idle → c.prog .worker = ret .idle →
    ¬ c.shared.ProcessQueued →
    c.shared.rcv.delivered = (framing o).parse (stream.take c.shared.rcv.taken)
  unconsumed : ¬ c.shared.Handled → c.shared.rcv.ring.consumed = 0

section Handover

variable {shS shR : PowShape} {o : ByteOrder} {ndebug : Bool} {host : Party → ℕ}
  {stream : List UInt8} {c : Config sig State Party Status}

/-- No party has a say in what the peer sends. -/
theorem arrived_of_sem {a : sig.Act} {s t : State} {r : sig.Res a}
    (h : Sem shS shR ndebug host a s r t) : t.rcv.arrived = s.rcv.arrived := by
  cases h with
  | rcv h => cases h <;> rfl
  | _ => rfl

theorem arrived_of_reachable
    (hc : ((wrapper shS shR o ndebug host).lts (Accepting stream)).Reachable c) :
    c.shared.rcv.arrived = stream := by
  refine hc.invariant (I := fun c => c.shared.rcv.arrived = stream) ?_ ?_
  · rintro _ ⟨arrS, arrR, countS, countR, rfl⟩
    rfl
  · rintro d i _ hI (⟨_, hsem⟩ | _)
    · exact (arrived_of_sem hsem).trans hI
    · exact hI

theorem attended_of_safe {E : Setting} (hnear : E.near) {i : Party} {a : sig.Act} {s : State}
    (h : safe E i a s) : Attended i a s := by
  unfold Attended
  split
  · exact h hnear
  · exact h.2 hnear
  · trivial

/-- On the thread of one of its loops, the socket is handed over before the worker gets to a
    frame. -/
theorem attended_of_near
    (hnear : host .acceptor = host .net ∨ host .acceptor = host .worker)
    (hc : ((wrapper shS shR o ndebug host).lts (Accepting stream)).Reachable c) :
    ((wrapper shS shR o ndebug host).lts (Accepting stream)).ReachableBy
      (Threads.Permits Attended) c := by
  let E : Setting := ⟨shS, shR, o, ndebug, host, False, _, id⟩
  have hinit : ∀ d, Accepting stream d → E.Init stream d := by
    intro d hd
    refine ⟨hd.init, fun _ => ?_⟩
    obtain ⟨arrS, arrR, countS, countR, rfl⟩ := hd
    rfl
  -- of the outline the guarantees are used, not what it says at rest
  have hholds : ∀ d, ((wrapper shS shR o ndebug host).lts (Accepting stream)).Reachable d →
      (outline E).Holds E.threads d := fun d hd =>
    wrapper_holds hinit (hd.mono fun _ _ _ _ _ _ => False.elim)
  refine (Threads.Outline.reachableBy_safe hholds hc).mono fun d i hok a k hi => ?_
  exact attended_of_safe hnear (hok a k hi)

/-- Handing over loses no frame in a run in which the worker gets to `if (SignalReadPacket)` or to
    `ConsumeSeriesReadLen` only when `SignalReadPacket` is set. -/
theorem handedOver_of_attended
    (hc : ((wrapper shS shR o ndebug host).lts (Accepting stream)).ReachableBy
      (Threads.Permits Attended) c) : HandedOver o stream c := by
  let E : Setting := ⟨shS, shR, o, ndebug, host, True, False, False.elim⟩
  -- the outline that tracks what is delivered
  have h : (outline E).Holds E.threads c :=
    wrapper_holds (fun _ hinit => ⟨hinit.init, False.elim⟩)
      (hc.mono fun _ _ hok a k hi _ => hok a k hi)
  have hinv : Inv E c.shared := h.inv
  have harrived : c.shared.rcv.arrived = stream := arrived_of_reachable hc.reachable
  have hpublished : c.shared.rcv.ring.published <+: stream :=
    harrived ▸ hinv.published.trans (List.take_prefix _ _)
  refine ⟨?_, fun hnet hworker hqueue => ?_, hinv.unhandled trivial⟩
  · exact (hinv.delivered trivial).trans (Format.parse_isPrefix hpublished)
  · have hidle : NetIdle c.shared := h.idle _ hnet
    have hthrough : Through E c.shared := h.idle _ hworker
    -- `arrived` is the stream in every run, since no party writes it
    have hread : c.shared.rcv.ring.published = stream.take c.shared.rcv.taken :=
      harrived ▸ hidle.view.published
    obtain ⟨ds, hdel, hds, -⟩ := hthrough.eq_parse (hidle.noticed.resolve_right hqueue)
    rw [hdel trivial, hds, hread]

/-- When the network loop is at rest and the ring is drained, everything read is consumed. -/
theorem consumed_of_drained
    (hc : ((wrapper shS shR o ndebug host).lts (Accepting stream)).Reachable c)
    (hnet : c.prog .net = ret .idle) (hdrained : c.shared.rcv.ring.mem.size = 0) :
    c.shared.rcv.ring.consumed = (stream.take c.shared.rcv.taken).length := by
  let E : Setting := ⟨shS, shR, o, ndebug, host, False, False, False.elim⟩
  have h : (outline E).Holds E.threads c :=
    wrapper_holds (fun _ hinit => ⟨hinit.init, False.elim⟩)
      (hc.mono fun _ _ _ _ _ _ => False.elim)
  have hcoh : Coherent shR c.shared.rcv.ring := h.inv.receiving
  have hidle : NetIdle c.shared := h.idle _ hnet
  have hread : c.shared.rcv.ring.published = stream.take c.shared.rcv.taken :=
    arrived_of_reachable hc ▸ hidle.view.published
  have hsize := hcoh.size_eq
  have hle := hcoh.consumed_le
  rw [← hread]
  omega

end Handover

/-! ## A frame that nobody listens for -/

section Lost

variable {shS shR : PowShape} {o : ByteOrder} {ndebug : Bool} {host : Party → ℕ} {chunk : ℕ}

/-- A program on the receiving half, run alone. -/
theorem run_rcvActs {α : Type} (p : Prog recvSig α) (s : State) :
    (p.lift rcvActs).run (exec shS shR ndebug host chunk) s =
      (p.run (Receiver.exec shR ndebug chunk) s.rcv).map fun vx =>
        (vx.1, { s with rcv := vx.2 }) := by
  refine run_lift (L := receiver) (fun a t => ?_) p s
  exact Option.map_map _ _ _

theorem run_readOnce {s : State} {x : Receiver} (hstate : s.rcv.ctrl.state = .connected)
    (hhost : host .acceptor = host .net → s.phase = .handed)
    (hrun : (onReadEvent shR.toShape).run (Receiver.exec shR ndebug chunk) s.rcv = some ((), x)) :
    (readOnce shR.toShape).run (exec shS shR ndebug host chunk) s =
      some (.idle, { s with rcv := x }) := by
  have hfire : exec shS shR ndebug host chunk .fireRead s = some ((), s) := if_pos ⟨hstate, hhost⟩
  have hlift := @run_rcvActs shS shR ndebug host chunk _ (onReadEvent shR.toShape) s
  rw [hrun] at hlift
  show (exec shS shR ndebug host chunk .fireRead s).bind _ = _
  rw [hfire]
  exact (run_bind_of_eq hlift).trans rfl

theorem run_processRound {s : State} {x : Receiver} {again : Bool}
    (hrun : (tryProcessBufferedData shR.toShape o).run (Receiver.exec shR ndebug chunk) s.rcv =
      some (again, x)) :
    (processRound shR.toShape o).run (exec shS shR ndebug host chunk) s =
      some (if again then .processing else .idle, { s with rcv := x }) := by
  have hlift := @run_rcvActs shS shR ndebug host chunk _ (tryProcessBufferedData shR.toShape o) s
  rw [hrun] at hlift
  rw [processRound, run_bind_of_eq hlift]
  rfl

theorem run_beginProcess {s : State} {x : Receiver} {again : Bool} (hqueued : s.ProcessQueued)
    (hhost : host .acceptor = host .worker → s.phase = .handed)
    (hrun : (tryProcessBufferedData shR.toShape o).run (Receiver.exec shR ndebug chunk)
      { s.rcv with runStart := s.rcv.ring.published } = some (again, x)) :
    (beginProcess shR.toShape o).run (exec shS shR ndebug host chunk) s =
      some (if again then .processing else .idle,
        { s with processTaken := s.processTaken + 1, rcv := x }) := by
  have htake : exec shS shR ndebug host chunk .takeProcess s = some ((), { s with
      processTaken := s.processTaken + 1,
      rcv := { s.rcv with runStart := s.rcv.ring.published } }) := if_pos ⟨hqueued, hhost⟩
  show (exec shS shR ndebug host chunk .takeProcess s).bind _ = _
  rw [htake]
  exact run_processRound hrun

/-- The frame of one byte. -/
def oneFrame (o : ByteOrder) : List UInt8 :=
  o.header 1 ++ [65]

theorem parse_oneFrame (o : ByteOrder) : (framing o).parse (oneFrame o) = [oneFrame o] := by
  cases o <;> rfl

theorem length_oneFrame (o : ByteOrder) : (oneFrame o).length = 3 := by
  cases o <;> rfl

/-- The header at the front of the array. -/
theorem run_payloadLength_oneFrame {m : Mem} {n : UInt32} {arr : ℕ → UInt8}
    (hread : m.readCount = 0) (hdata : m.dataArr = Cyclic.storeAt arr 0 (oneFrame o))
    (hn : 2 ≤ n) :
    (payloadLength shR.toShape o n).run (RingBuffer.exec ndebug) m = some (1, m) := by
  have hhead : m.readCount.toNat % shR.cap = 0 := by simp [hread]
  have hlen := length_oneFrame o
  have h₀ : m.dataArr 0 = (oneFrame o)[0] := by
    rw [hdata]
    exact Cyclic.storeAt_of_inside (i := 0) (j := 0) _
  have h₁ : m.dataArr (0 + 1) = (oneFrame o)[1] := by
    rw [hdata]
    exact Cyclic.storeAt_of_inside (i := 0) (j := 1) _
  have hvalue : o.value (oneFrame o)[0] (oneFrame o)[1] = 1 := by
    cases o with
    | little => exact (by decide : ByteOrder.little.value 1 0 = 1)
    | big => exact (by decide : ByteOrder.big.value 0 1 = 1)
  rw [payloadLength, if_pos hn, run_bind_of_eq (run_currentSeriesReadHead m), hhead]
  simp only [run_loadByte, run_ret, h₀, h₁, hvalue]

theorem run_ifReadPacket_unset (p : Prog recvSig Unit) {s : Receiver}
    (hunset : s.ctrl.hasReadPacket = false) :
    (ifReadPacket p).run (Receiver.exec shR ndebug chunk) s = some ((), s) := by
  have htest : (testReadPacket.lift recvCtrl).run (Receiver.exec shR ndebug chunk) s =
      some (false, s) := by
    rw [← hunset]
    rfl
  exact run_bind_of_eq htest

/-- A round of the deframer that finds the frame and `SignalReadPacket` unset. -/
theorem run_tryProcess_unset {s : Receiver} {arr : ℕ → UInt8}
    (hunset : s.ctrl.hasReadPacket = false) (hroom : 4 ≤ shR.cap)
    (hread : s.ring.mem.readCount = 0) (hwrite : s.ring.mem.writeCount = 3)
    (hdata : s.ring.mem.dataArr = Cyclic.storeAt arr 0 (oneFrame o)) :
    ∃ x, x.mem.size = 0 ∧
      (tryProcessBufferedData shR.toShape o).run (Receiver.exec shR ndebug chunk) s =
        some (true, { s with ring := x }) := by
  have hcount : s.ring.mem.writeCount - s.ring.mem.readCount = 3 := by
    rw [hread, hwrite]
    decide
  have hthree : s.ring.mem.size = (3 : UInt32).toNat := congrArg UInt32.toNat hcount
  have hsize : s.ring.mem.size = 3 := hthree
  have hseries : seriesLen shR.cap (s.ring.mem.readCount.toNat % shR.cap) s.ring.mem.size = 3 := by
    simp only [hread, hsize, seriesLen, UInt32.toNat_zero, Nat.zero_mod]
    omega
  -- the whole frame lies in one piece
  have havail := @run_availableRead shR ndebug s.ring.mem
  rw [hsize, if_pos (by simp; omega), hcount] at havail
  obtain ⟨x₁, hx₁, h₁⟩ := @run_onReceiver_of_mem shR ndebug _ chunk _ _ _ _ havail
  obtain ⟨k, hspan, hk⟩ := @run_availableSeriesRead shR ndebug s.ring.mem (by omega)
  obtain rfl : k = 3 := UInt32.toNat_inj.mp (hk.trans hseries)
  rw [← hx₁] at hspan
  obtain ⟨x₂, hx₂, h₂⟩ :=
    @run_onReceiver_of_mem shR ndebug _ chunk _ { s with ring := x₁ } _ _ hspan
  have hlen := @run_payloadLength_oneFrame shR o ndebug x₂.mem 3 arr (by rw [hx₂, hx₁, hread])
    (by rw [hx₂, hx₁, hdata]) (by decide)
  obtain ⟨x₃, hx₃, h₃⟩ :=
    @run_onReceiver_of_mem shR ndebug _ chunk _ { s with ring := x₂ } _ _ hlen
  -- nobody listens, and the frame is consumed all the same
  have hx₃mem : x₃.mem = s.ring.mem := by rw [hx₃, hx₂, hx₁]
  have hconsume := @run_consumeSeriesReadLen shR ndebug x₃.mem 3 (by rw [hx₃mem, hseries]; rfl)
  obtain ⟨x₄, hx₄, h₄⟩ :=
    @run_onReceiver_of_mem shR ndebug _ chunk _ { s with ring := x₃ } _ _ hconsume
  have h₅ : (handOverInPlace shR.toShape 3).run (Receiver.exec shR ndebug chunk)
      { s with ring := x₃ } = some ((), { s with ring := x₄ }) :=
    (run_bind_of_eq (run_ifReadPacket_unset (s := { s with ring := x₃ }) _ hunset)).trans h₄
  refine ⟨x₄, by rw [hx₄, hx₃mem, Mem.size_addRead _ hthree.ge, hthree, Nat.sub_self], ?_⟩
  rw [tryProcessBufferedData, run_bind_of_eq h₁, run_bind_of_eq h₂, if_neg (by decide),
    run_bind_of_eq h₃, if_neg (by decide)]
  simp only
  rw [if_neg (by decide), if_pos (by decide)]
  exact run_bind_of_eq h₅

/-- A round of the deframer on a drained ring. -/
theorem run_tryProcess_drained {s : Receiver} (hdrained : s.ring.mem.size = 0) :
    ∃ x, x.mem = s.ring.mem ∧
      (tryProcessBufferedData shR.toShape o).run (Receiver.exec shR ndebug chunk) s =
        some (false, { s with ring := x }) := by
  have hcap := shR.cap_pos
  have hzero : s.ring.mem.writeCount - s.ring.mem.readCount = 0 := UInt32.toNat_inj.mp hdrained
  have havail := @run_availableRead shR ndebug s.ring.mem
  rw [hdrained, if_pos (by simp [hcap]), hzero] at havail
  obtain ⟨x₁, hx₁, h₁⟩ := @run_onReceiver_of_mem shR ndebug _ chunk _ _ _ _ havail
  obtain ⟨k, hspan, -⟩ := @run_availableSeriesRead shR ndebug s.ring.mem (by omega)
  rw [← hx₁] at hspan
  obtain ⟨x₂, hx₂, h₂⟩ :=
    @run_onReceiver_of_mem shR ndebug _ chunk _ { s with ring := x₁ } _ _ hspan
  refine ⟨x₂, by rw [hx₂, hx₁], ?_⟩
  rw [tryProcessBufferedData, run_bind_of_eq h₁, run_bind_of_eq h₂, if_pos (by decide)]
  rfl

/-- **A frame is lost** on every assignment of threads on which neither loop runs on the accepting
    thread: the network loop reads the frame and the worker loop consumes it between
    `AcceptConnection` and `TcpServerTask::BeginProcess`. -/
theorem exists_lost (o : ByteOrder) (ndebug : Bool) (hroom : 4 ≤ shR.cap)
    (hnet : host .acceptor ≠ host .net) (hworker : host .acceptor ≠ host .worker) :
    (∃ c, ((wrapper shS shR o ndebug host).lts (Accepting (oneFrame o))).Reachable c ∧
      ¬ c.shared.Handled ∧ c.shared.rcv.ring.consumed = 3) ∧
    ∃ c, ((wrapper shS shR o ndebug host).lts (Accepting (oneFrame o))).Reachable c ∧
      (∀ i, c.prog i = ret .idle) ∧ ¬ c.shared.ProcessQueued ∧ ¬ c.shared.Broken ∧
      c.shared.rcv.ctrl.state = .connected ∧ c.shared.phase = .handed ∧ c.shared.Handled ∧
      c.shared.rcv.taken = 3 ∧ c.shared.rcv.delivered = [] := by
  have hlen := length_oneFrame o
  let s₀ : State :=
    .start (fun _ => 0) (fun _ => 0) 0 0 ⟨.closed, false, false, []⟩ .waiting (oneFrame o)
  have h₀ : ((wrapper shS shR o ndebug host).lts (Accepting (oneFrame o))).Reachable
      ⟨fun _ => ret .idle, s₀⟩ := .init ⟨_, _, _, _, rfl⟩
  -- `AcceptConnection` has returned, `TcpServerTask::BeginProcess` has not begun
  let s₁ : State := { s₀.setCtrl ⟨.connected, false, false, []⟩ with phase := .handing }
  have h₁ := reachable_of_begin rfl .acceptAndHandOver h₀
  have h₂ := @reachable_of_tick _ _ _ _ _ shR.cap _ .acceptor _ _ _ _ _ _ rfl rfl h₁
  have h₃ := @reachable_of_next _ _ _ _ _ shR.cap _ _ _ .idle _ _ s₁ _ rfl .beginConnection rfl h₂
  -- the network loop reads the frame
  obtain ⟨x, n, hn, hx, hread⟩ := @run_onReadEvent_all shR ndebug s₁.rcv rfl ⟨rfl, rfl⟩ rfl
    (hlen ▸ Nat.succ_pos 2) (hlen.trans_le (Nat.le_of_succ_le hroom))
  obtain rfl : n = 3 := UInt32.toNat_inj.mp (hn.trans hlen)
  let ctrl : Ctrl := ⟨.connected, false, false, [.queueTryProcess]⟩
  let s₂ : State := { s₁ with rcv := { s₁.rcv with ring := x, taken := 3, ctrl := ctrl } }
  have hreadOnce : (readOnce shR.toShape).run (exec shS shR ndebug host shR.cap) s₁ =
      some (.idle, s₂) := run_readOnce rfl (fun h => absurd h hnet) hread
  have h₄ := reachable_of_next rfl .readOnce hreadOnce h₃
  -- the worker loop consumes it, and finds nothing more
  obtain ⟨y, hy, hfirst⟩ := @run_tryProcess_unset shR o ndebug shR.cap
    { s₂.rcv with runStart := x.published } _ rfl hroom (by rw [hx]; rfl) (by rw [hx]; rfl)
    (by rw [hx]; rfl)
  let s₃ : State := { s₂ with
    processTaken := 1, rcv := { s₂.rcv with ring := y, runStart := x.published } }
  have hbegin : (beginProcess shR.toShape o).run (exec shS shR ndebug host shR.cap) s₂ =
      some (.processing, s₃) :=
    run_beginProcess (show s₂.ProcessQueued from Nat.one_pos) (fun h => absurd h hworker) hfirst
  have h₅ := reachable_of_next rfl .beginProcess hbegin h₄
  obtain ⟨z, hz, hlast⟩ := @run_tryProcess_drained shR o ndebug shR.cap s₃.rcv hy
  let s₄ : State := { s₃ with rcv := { s₃.rcv with ring := z } }
  have hround : (processRound shR.toShape o).run (exec shS shR ndebug host shR.cap) s₃ =
      some (.idle, s₄) := run_processRound hlast
  have h₆ := reachable_of_next rfl .processRound hround h₅
  have h₇ := @reachable_of_rest _ _ _ _ _ shR.cap _ .acceptor _ _ _ .idle _ rfl rfl h₆
  refine ⟨⟨_, h₆, Bool.false_ne_true, ?_⟩, _, h₇, ?_, Nat.lt_irrefl 1, ?_, rfl, rfl, rfl, rfl,
    rfl⟩
  · rw [consumed_of_drained h₆ rfl (hz ▸ hy)]
    exact (List.length_take_of_le hlen.ge).trans rfl
  · rintro (_ | _ | _ | _) <;> rfl
  · exact (by decide : Effect.eventDelRead ∉ [Effect.queueTryProcess])

end Lost

/-- Every party on a thread of its own. -/
def apart : Party → ℕ
  | .acceptor => 0
  | .producer => 1
  | .net => 2
  | .worker => 3

/-- A socket that is yet to be accepted, whose peer sends one frame. -/
def accepting : State :=
  .start (fun _ => 0) (fun _ => 0) 0 0 ⟨.closed, false, false, []⟩ .waiting [1, 0, 65]

end Wrapper

/-! ## Main result -/

end ReechatBase.TcpSocket
