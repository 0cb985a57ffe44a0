import ReechatBase.TcpSocket.Wakeups

/-!
# No stranded work

When the producer and both loops are at rest and none of the functors of a socket is queued, nothing
waits for a wakeup that will not come:

- the sender ring is empty, or `socket_write_event_` is registered;
- the receiver ring holds no complete frame with a legal header at its front.
-/

namespace ReechatBase.TcpSocket

open Lib Lib.Prog Lib.Framing RingBuffer Wrapper

namespace Wrapper

section Quiescence

variable {E : Setting} {s : State}

/-- What the network loop leaves in the sender ring is announced by a registered event. -/
theorem NetIdle.settled_of_quiet (h : NetIdle s) (hinv : Inv E s) (hposted : s.Posted)
    (hqueue : ¬ s.WriteQueued) (hopen : ¬ s.Broken) :
    s.sndRing.mem.size = 0 ∨ s.Registered := by
  have hstart : s.writeStart = s.sndRing.published := hposted.resolve_right hqueue
  -- the network loop has sent everything, or waits for the event, or has found an error
  rcases h.settled with hsent | hreg | hbroken
  · apply Or.inl
    rw [hinv.sending.size_eq, ← hstart]
    exact Nat.sub_eq_zero_of_le hsent
  · exact .inr hreg
  · exact absurd hbroken hopen

/-- The worker has parsed everything that was published. -/
theorem Through.eq_parse (h : Through E s) (hstart : s.rcv.runStart = s.rcv.ring.published) :
    ∃ ds, (E.tracked → s.rcv.delivered = ds) ∧ ds = (framing E.o).parse s.rcv.ring.published ∧
      s.rcv.ring.consumed = ds.flatten.length := by
  obtain ⟨V, r, ds, hring, hdel, hds, hV⟩ := h
  obtain rfl : V = s.rcv.ring.published :=
    hring.published.1.eq_of_length_le (hstart ▸ hV.length_le)
  exact ⟨ds, hdel, hds, hring.consumed⟩

/-- No complete frame is left in the receiver ring. -/
theorem Through.next_eq_none (h : Through E s) (hinv : Inv E s) (hnoticed : s.Noticed)
    (hqueue : ¬ s.ProcessQueued) : (framing E.o).next (s.rcv.ring.mem.content E.shR) = none := by
  obtain ⟨ds, -, hds, hcons⟩ := h.eq_parse (hnoticed.resolve_right hqueue)
  -- what is left in the ring is what `parse` has left
  rw [hinv.receiving.content_eq, hcons, hds]
  exact Format.next_unparsed _ _

end Quiescence

end Wrapper

/-! ## Main result -/

/-- **No stranded work.** However the producer and the loops are interleaved, and whatever they
    have in progress on other threads: once they are at rest with no functor queued, on a
    connection that is not broken, nothing is left that no event will bring them back to. -/
theorem no_stranded_work (shS shR : PowShape) (o : ByteOrder) (ndebug : Bool)
    (host : Party → ℕ) (stream : List UInt8) {c : Config Wrapper.sig Wrapper.State Party Status}
    (hc : ((wrapper shS shR o ndebug host).lts (Wrapper.Init stream)).Reachable c)
    (hproducer : c.prog .producer = ret .idle) (hnet : c.prog .net = ret .idle)
    (hworker : c.prog .worker = ret .idle) (hwrite : ¬ c.shared.WriteQueued)
    (hprocess : ¬ c.shared.ProcessQueued) (hopen : ¬ c.shared.Broken) :
    (c.shared.sndRing.mem.size = 0 ∨ c.shared.Registered) ∧
      (framing o).next (c.shared.rcv.ring.mem.content shR) = none := by
  let E : Setting := ⟨shS, shR, o, ndebug, host, False, False, False.elim⟩
  -- nothing is asked of the runs: neither that frames are tracked nor that a loop is near
  have h : (outline E).Holds E.threads c :=
    wrapper_holds (fun _ hinit => ⟨hinit, False.elim⟩) (hc.mono fun _ _ _ _ _ _ => False.elim)
  have hinv : Inv E c.shared := h.inv
  have hidle : NetIdle c.shared := h.idle _ hnet
  have hposted : c.shared.Posted := h.idle _ hproducer
  have hthrough : Through E c.shared := h.idle _ hworker
  constructor
  · exact hidle.settled_of_quiet hinv hposted hwrite hopen
  · exact hthrough.next_eq_none hinv hidle.noticed hprocess

/-- A connected socket whose peer sends one frame. -/
def Wrapper.connected : Wrapper.State :=
  .start (fun _ => 0) (fun _ => 0) 0 0 ⟨.connected, true, true, []⟩ .handed [1, 0, 65]

/-- A message that the network does not take yet, and a frame that is handed over. -/
theorem no_stranded_work_one : ∃ c : Config Wrapper.sig Wrapper.State Party Status,
    c.shared.sndRing.mem.size = 3 ∧ c.shared.rcv.delivered = [[1, 0, 65]] ∧
    (c.shared.sndRing.mem.size = 0 ∨ c.shared.Registered) ∧
    (framing .little).next (c.shared.rcv.ring.mem.content eight) = none := by
  have h₀ : ((wrapper eight eight .little false fun _ => 0).lts
      (Wrapper.Init [1, 0, 65])).Reachable ⟨fun _ => ret .idle, Wrapper.connected⟩ :=
    .init ⟨_, _, _, _, _, _, rfl, rfl⟩
  have h₁ := @Wrapper.reachable_of_next _ _ _ _ _ 0 _ _ _ .idle _ _ _ _ rfl
    (.sendData [7, 7, 65] 3 rfl) rfl h₀
  have h₂ := @Wrapper.reachable_of_next _ _ _ _ _ 0 _ _ _ (.writing 3) _ _ _ _ rfl .runWrite rfl h₁
  have h₃ := @Wrapper.reachable_of_next _ _ _ _ _ 0 _ _ _ .idle _ _ _ _ rfl (.writeRound _) rfl h₂
  have h₄ := @Wrapper.reachable_of_next _ _ _ _ _ 3 _ _ _ .idle _ _ _ _ rfl .readOnce rfl h₃
  have h₅ := @Wrapper.reachable_of_next _ _ _ _ _ 3 _ _ _ .processing _ _ _ _ rfl .beginProcess
    rfl h₄
  have h₆ := @Wrapper.reachable_of_next _ _ _ _ _ 3 _ _ _ .idle _ _ _ _ rfl .processRound rfl h₅
  exact ⟨_, rfl, rfl, no_stranded_work eight eight .little false (fun _ => 0) [1, 0, 65] h₆ rfl rfl
    rfl (by decide) (by decide) (by decide)⟩

end ReechatBase.TcpSocket
