import ReechatBase.TcpSocket.Sender
import ReechatBase.TcpSocket.Deframer

/-!
# Two sockets joined by a connection

A sending and a receiving socket, joined by a reliable FIFO byte stream, as a system of four
interleaved threads: the producer that calls `SendData`, the network thread of the sender, the
network thread of the receiver and the worker of the receiver. Any of them may move between any
two actions of another.

Main result: `end_to_end`. The frames handed to the receiver's `SignalReadPacket` are at every
moment a prefix of the messages that `SendData` has accepted, with their headers, and all of them
when nothing is left on the way.
-/

namespace ReechatBase.TcpSocket

open Lib Lib.Prog Lib.Framing RingBuffer

/-! ## The system -/

namespace Link

/-- The four threads. -/
inductive Party where
  | producer
  | senderNet
  | receiverNet
  | worker
  deriving DecidableEq

/-- Where a thread stands between two programs. -/
inductive Status where
  | idle
  /-- Inside the loop of `TryWriteBufferToSocket`, with `available_read` -/
  | writing (available : UInt32)
  /-- Inside the loop of `TryProcessBufferedDataInWorkLoop` -/
  | processing

/-- The actions: those of the two sockets, and the producer calling `SendData` and receiving its
    result. -/
inductive Act where
  | snd (a : SendAct)
  | rcv (a : RecvAct)
  | call (m : Message)
  | finish (m : Message) (ok : Bool)

def sig : Signature where
  Act := Act
  Res
    | .snd a => sendSig.Res a
    | .rcv a => recvSig.Res a
    | .call _ => Unit
    | .finish _ _ => Unit

/-- The two sockets, the call of `SendData` in progress, and the messages for which it has
    returned true. What has been sent is what arrives. -/
structure State where
  ring : Shared
  ctrl : Ctrl
  rcv : Receiver
  calling : Option Message
  returned : List Message

/-- The sending socket. -/
def sender : Lens State Sender where
  get s := ⟨s.ring, s.ctrl, s.rcv.arrived⟩
  set x s := { s with ring := x.ring, ctrl := x.ctrl, rcv := { s.rcv with arrived := x.sent } }
  get_set _ _ := rfl
  set_get _ := rfl
  set_set _ _ _ := rfl

/-- The receiving socket. -/
def receiver : Lens State Receiver where
  get := State.rcv
  set x s := { s with rcv := x }
  get_set _ _ := rfl
  set_get _ := rfl
  set_set _ _ _ := rfl

def sndActs : Embedding sendSig sig where
  act := .snd
  res _ r := r

def rcvActs : Embedding recvSig sig where
  act := .rcv
  res _ r := r

/-- The effect of an action; the rings of the two sockets may differ. -/
inductive Sem (shS shR : PowShape) (ndebug : Bool) :
    (a : sig.Act) → State → sig.Res a → State → Prop
  | snd {a : SendAct} {s : State} {r : sendSig.Res a} {x : Sender} :
      SendSem shS ndebug a (sender.get s) r x → Sem shS shR ndebug (.snd a) s r (sender.set x s)
  | rcv {a : RecvAct} {s : State} {r : recvSig.Res a} {x : Receiver} :
      RecvSem shR ndebug a s.rcv r x → Sem shS shR ndebug (.rcv a) s r (receiver.set x s)
  | call {m : Message} {s : State} :
      Sem shS shR ndebug (.call m) s () { s with calling := some m }
  | finish {m : Message} {ok : Bool} {s : State} :
      Sem shS shR ndebug (.finish m ok) s () { s with
        calling := none, returned := if ok then s.returned ++ [m] else s.returned }

section Programs

variable (shS shR : Shape) (o : ByteOrder)

/-- The producer passes a message to `SendData`. -/
def produce (m : Message) : Prog sig Status :=
  act (S := sig) (Act.call m) fun _ => do
    let ok ← (sendData shS o m.bytes m.len).lift sndActs
    act (S := sig) (Act.finish m ok) fun _ => ret .idle

/-- A run of `TryWriteBufferToSocket` begins. -/
def beginWrite : Prog sig Status := do
  let available ← (tryWriteBegin shS).lift sndActs
  ret (.writing available)

/-- A round of its loop. -/
def writeRound (available : UInt32) : Prog sig Status := do
  let next ← (tryWriteRound shS available).lift sndActs
  match next with
  | some available' => ret (.writing available')
  | none => ret .idle

/-- A readable callback of the receiver. -/
def readOnce : Prog sig Status := do
  (onReadEvent shR).lift rcvActs
  ret .idle

def ofDeframer : Deframer.Status → Status
  | .idle => .idle
  | .again => .processing

/-- A run of `TryProcessBufferedDataInWorkLoop` begins. -/
def beginProcess : Prog sig Status := do
  let status ← (Deframer.runWorker shR o).lift rcvActs
  ret (ofDeframer status)

/-- A further round of its loop. -/
def processRound : Prog sig Status := do
  let status ← (Deframer.round shR o).lift rcvActs
  ret (ofDeframer status)

/-- What a thread may do next. -/
inductive Next : Party → Status → Prog sig Status → Prop
  | produce (m : Message) : Next .producer .idle (produce shS o m)
  | beginWrite : Next .senderNet .idle (beginWrite shS)
  | writeRound (available : UInt32) :
      Next .senderNet (.writing available) (writeRound shS available)
  | readOnce : Next .receiverNet .idle (readOnce shR)
  | beginProcess : Next .worker .idle (beginProcess shR o)
  | processRound : Next .worker .processing (processRound shR o)

end Programs

end Link

open Link

def link (shS shR : PowShape) (o : ByteOrder) (ndebug : Bool) :
    Threads Link.sig Link.State Party Link.Status where
  sem _ := Link.Sem shS shR ndebug
  next := Link.Next shS.toShape shR.toShape o

/-- Two sockets with empty rings, whatever their counters, and nothing on the way. -/
def Link.State.start (arrS arrR : ℕ → UInt8) (countS countR : UInt32) (ctrlS ctrlR : Ctrl) :
    Link.State where
  ring := ⟨⟨arrS, countS, countS⟩, [], 0⟩
  ctrl := ctrlS
  rcv := .start arrR countR ctrlR []
  calling := none
  returned := []

/-- Initially all threads are idle and the receiver's `SignalReadPacket` is set. -/
def Link.Init (c : Config Link.sig Link.State Party Link.Status) : Prop :=
  ∃ (arrS arrR : ℕ → UInt8) (countS countR : UInt32) (ctrlS ctrlR : Ctrl),
    ctrlR.hasReadPacket = true ∧
    c = ⟨fun _ => ret .idle, .start arrS arrR countS countR ctrlS ctrlR⟩

/-! ## The proof outline -/

namespace Link

variable {shS shR : PowShape} {o : ByteOrder} {ndebug : Bool}

/-- The stream of the messages `ms`, with their headers. -/
def stream (o : ByteOrder) (ms : List Message) : List UInt8 :=
  (ms.map fun m => m.frame o).flatten

/-- The invariant: both sockets are well, and the sender has published the messages accepted:
    those for which `SendData` has returned true, and possibly the one in progress. -/
structure Inv (shS shR : PowShape) (o : ByteOrder) (s : State) : Prop where
  sending : (sender.get s).Inv shS
  receiving : s.rcv.Inv shR o
  framed : s.ring.published = stream o s.returned ∨
    ∃ m, s.calling = some m ∧ s.ring.published = stream o (s.returned ++ [m])

/-- What each thread relies on. -/
def rely (shR : PowShape) (o : ByteOrder) (ndebug : Bool) : Party → State → State → Prop
  | .producer, s, t =>
    WriterRely s.ring t.ring ∧ t.calling = s.calling ∧ t.returned = s.returned
  | .senderNet, s, t => ReaderRely s.ring t.ring ∧ t.rcv.arrived = s.rcv.arrived
  | .receiverNet, s, t => NetRely s.rcv t.rcv
  | .worker, s, t => (workerDisc shR o ndebug False False).rely s.rcv t.rcv

/-- What each thread guarantees. -/
def guar (shR : PowShape) (o : ByteOrder) (ndebug : Bool) : Party → State → State → Prop
  | .producer, s, t => ReaderRely s.ring t.ring ∧ t.rcv = s.rcv
  | .senderNet, s, t => (WriterRely s.ring t.ring ∧ t.calling = s.calling ∧
      t.returned = s.returned) ∧ s.rcv.arrived <+: t.rcv.arrived ∧
      t.rcv = { s.rcv with arrived := t.rcv.arrived }
  | .receiverNet, s, t => (t.ring = s.ring ∧ t.calling = s.calling ∧ t.returned = s.returned) ∧
      (netDisc shR o ndebug).guar s.rcv t.rcv
  | .worker, s, t => (t.ring = s.ring ∧ t.calling = s.calling ∧ t.returned = s.returned) ∧
      (workerDisc shR o ndebug False False).guar s.rcv t.rcv

/-- When each thread may perform an action. -/
def safe (shS shR : PowShape) : Party → sig.Act → State → Prop
  | .producer, .snd (.ring a), s => writerSafe shS True a s.ring
  | .senderNet, .snd (.ring a), s => readerSafe shS True a s.ring
  | .receiverNet, .rcv (.ring a), s => writerSafe shR True a s.rcv.ring
  | .worker, .rcv (.ring a), s => readerSafe shR False a s.rcv.ring
  | _, _, _ => True

/-- What holds between two programs of a thread. -/
def idle (shS : PowShape) (o : ByteOrder) : Party → Status → State → Prop
  | .producer, _, s => s.calling = none ∧ s.ring.published = stream o s.returned
  | .senderNet, .writing available, s => Sending shS available (sender.get s)
  | .senderNet, _, s => SendIdle (sender.get s)
  | .receiverNet, _, s => NetView s.rcv
  | .worker, .idle, s => Deframer.Through o s.rcv
  | .worker, _, s => Deframer.Between o s.rcv

theorem compat {i j : Party} (hij : i ≠ j) {s t : State} (h : guar shR o ndebug i s t) :
    rely shR o ndebug j s t := by
  cases i with
  | producer =>
    obtain ⟨hring, hrcv⟩ := h
    cases j with
    | producer => exact absurd rfl hij
    | senderNet => exact ⟨hring, congrArg _ hrcv⟩
    | receiverNet =>
      rw [rely, hrcv]
      exact .refl _
    | worker =>
      rw [rely, hrcv]
      exact (workerDisc shR o ndebug False False).rely_refl _
  | senderNet =>
    obtain ⟨hring, harr, hrcv⟩ := h
    cases j with
    | producer => exact hring
    | senderNet => exact absurd rfl hij
    | receiverNet =>
      rw [rely, hrcv]
      exact ⟨.refl _, rfl, harr⟩
    | worker =>
      rw [rely, hrcv]
      exact ⟨⟨.refl _, rfl, rfl⟩, .refl _ _⟩
  | receiverNet =>
    obtain ⟨⟨hring, hcall, hret⟩, hnet, harr⟩ := h
    cases j with
    | producer => exact ⟨hring ▸ WriterRely.refl s.ring, hcall, hret⟩
    | senderNet => exact ⟨hring ▸ ReaderRely.refl s.ring, harr⟩
    | receiverNet => exact absurd rfl hij
    | worker => exact ⟨hnet, hnet.ring.published, False.elim⟩
  | worker =>
    obtain ⟨⟨hring, hcall, hret⟩, hwork, harr⟩ := h
    cases j with
    | producer => exact ⟨hring ▸ WriterRely.refl s.ring, hcall, hret⟩
    | senderNet => exact ⟨hring ▸ ReaderRely.refl s.ring, harr⟩
    | receiverNet => exact hwork
    | worker => exact absurd rfl hij

def outline (shS shR : PowShape) (o : ByteOrder) (ndebug : Bool) :
    Threads.Outline (S := sig) (σ := State) (ι := Party) (ρ := Status) where
  inv := Inv shS shR o
  rely := rely shR o ndebug
  guar := guar shR o ndebug
  safe := safe shS shR
  idle := idle shS o
  rely_refl := by
    rintro (_ | _ | _ | _) s
    · exact ⟨.refl _, rfl, rfl⟩
    · exact ⟨.refl _, rfl⟩
    · exact NetRely.refl _
    · exact (workerDisc shR o ndebug False False).rely_refl _
  rely_trans := by
    rintro (_ | _ | _ | _) s t u h h'
    · exact ⟨h.1.trans h'.1, h'.2.1.trans h.2.1, h'.2.2.trans h.2.2⟩
    · exact ⟨h.1.trans h'.1, h'.2.trans h.2⟩
    · exact NetRely.trans h h'
    · exact (workerDisc shR o ndebug False False).rely_trans h h'
  compat _ _ hij _ _ _ _ h := compat hij h

/-- The discipline of a thread of the system. -/
abbrev disc (shS shR : PowShape) (o : ByteOrder) (ndebug : Bool) (i : Party) :
    Discipline sig State :=
  (outline shS shR o ndebug).disc (link shS shR o ndebug) i

/-! ### The receiver's threads -/

theorem within_worker :
    Within (workerDisc shR o ndebug False False) (disc shS shR o ndebug .worker) rcvActs
      receiver where
  sem := by
    intro a t r u hsem
    cases hsem with
    | rcv hsem => exact ⟨_, hsem, rfl⟩
  safe a _ hsafe := by
    cases a with
    | ring a => exact hsafe
    | _ => trivial
  rely _ _ h := h
  inv _ h := h.receiving

theorem within_receiverNet :
    Within (netDisc shR o ndebug) (disc shS shR o ndebug .receiverNet) rcvActs receiver where
  sem := by
    intro a t r u hsem
    cases hsem with
    | rcv hsem => exact ⟨_, hsem, rfl⟩
  safe a _ hsafe := by
    cases a with
    | ring a => exact hsafe
    | _ => trivial
  rely _ _ h := h
  inv _ h := h.receiving

/-- A step of the receiver that lets nothing arrive keeps the invariant of the system. -/
theorem Inv.setReceiver {s : State} (h : Inv shS shR o s) {x : Receiver} (hx : x.Inv shR o)
    (harr : x.arrived = s.rcv.arrived) : Inv shS shR o (receiver.set x s) where
  sending := by
    refine ⟨h.sending.coherent, ?_⟩
    show x.arrived <+: s.ring.published
    rw [harr]
    exact h.sending.sent
  receiving := hx
  framed := h.framed

/-- A program of the worker in the system. -/
theorem wp_worker {α : Type} {p : Prog recvSig α} {Q : α → Receiver → Prop} {s : State}
    (h : wp (workerDisc shR o ndebug False False) p Q s.rcv) :
    wp (disc shS shR o ndebug .worker) (p.lift rcvActs) (fun a t => Q a t.rcv) s := by
  refine wp_mono (fun _ _ _ h => h.1) (wp_lift within_worker (P := fun _ => True)
    (fun _ _ _ _ _ => trivial) ?_ h trivial)
  exact fun t x _ hinv hx hg => ⟨hinv.setReceiver hx hg.2, ⟨⟨rfl, rfl, rfl⟩, hg⟩, trivial⟩

/-- A program of the receiver's network thread in the system. -/
theorem wp_receiverNet {α : Type} {p : Prog recvSig α} {Q : α → Receiver → Prop} {s : State}
    (h : wp (netDisc shR o ndebug) p Q s.rcv) :
    wp (disc shS shR o ndebug .receiverNet) (p.lift rcvActs) (fun a t => Q a t.rcv) s := by
  refine wp_mono (fun _ _ _ h => h.1) (wp_lift within_receiverNet (P := fun _ => True)
    (fun _ _ _ _ _ => trivial) ?_ h trivial)
  exact fun t x _ hinv hx hg => ⟨hinv.setReceiver hx hg.2, ⟨⟨rfl, rfl, rfl⟩, hg⟩, trivial⟩

/-! ### The sender's threads -/

theorem within_senderNet :
    Within (sendNetDisc shS ndebug) (disc shS shR o ndebug .senderNet) sndActs sender where
  sem := by
    rintro a t r _ ⟨h⟩
    exact ⟨_, h, rfl⟩
  safe a _ hsafe := by
    cases a with
    | ring a => exact hsafe
    | _ => trivial
  rely _ _ h := h
  inv _ h := h.sending

/-- A program of the sender's network thread in the system. What it sends arrives. -/
theorem wp_senderNet {α : Type} {p : Prog sendSig α} {Q : α → Sender → Prop} {s : State}
    (h : wp (sendNetDisc shS ndebug) p Q (sender.get s)) :
    wp (disc shS shR o ndebug .senderNet) (p.lift sndActs) (fun a t => Q a (sender.get t)) s := by
  refine wp_mono (fun _ _ _ h => h.1) (wp_lift within_senderNet (P := fun _ => True)
    (fun _ _ _ _ _ => trivial) ?_ h trivial)
  rintro t x - hinv hx ⟨hring, hsent⟩
  -- the receiver has only more to read
  have hrcv : Receiver.Inv shR o { t.rcv with arrived := x.sent } :=
    ⟨hinv.receiving.coherent, hinv.receiving.taken_le.trans hsent.length_le,
      hinv.receiving.published.trans (hsent.take _), hinv.receiving.delivered,
      hinv.receiving.hasReadPacket⟩
  refine ⟨⟨hx, hrcv, ?_⟩, ⟨⟨hring, rfl, rfl⟩, hsent, rfl⟩, trivial⟩
  -- the network thread publishes nothing
  show x.ring.published = _ ∨ ∃ m, _ ∧ x.ring.published = _
  rw [show x.ring.published = t.ring.published from hring.published]
  exact hinv.framed

theorem within_producer (goal : List UInt8) :
    Within (producerDisc shS ndebug goal) (disc shS shR o ndebug .producer) sndActs sender where
  sem := by
    rintro a t r _ ⟨h⟩
    exact ⟨_, h, rfl⟩
  safe a _ hsafe := by
    cases a with
    | ring a => exact hsafe
    | _ => trivial
  rely _ _ h := h.1
  inv _ h := h.sending

/-- A program of the producer in the system, within a call of `SendData`. -/
theorem wp_producer {α : Type} {p : Prog sendSig α} {Q : α → Sender → Prop} {s : State}
    {m : Message} {ms : List Message} (hcall : s.calling = some m) (hret : s.returned = ms)
    (h : wp (producerDisc shS ndebug (stream o (ms ++ [m]))) p Q (sender.get s)) :
    wp (disc shS shR o ndebug .producer) (p.lift sndActs)
      (fun a t => Q a (sender.get t) ∧ t.calling = some m ∧ t.returned = ms) s := by
  refine wp_lift (within_producer _) (P := fun t => t.calling = some m ∧ t.returned = ms)
    (fun t u ht htu _ => ⟨htu.2.1.trans ht.1, htu.2.2.trans ht.2⟩) ?_ h ⟨hcall, hret⟩
  rintro t x ht hinv hx ⟨hring, hsent, hpub⟩
  have harr : x.sent = t.rcv.arrived := hsent
  have hrcv : ({ t.rcv with arrived := x.sent } : Receiver) = t.rcv := by rw [harr]
  refine ⟨⟨hx, ?_, ?_⟩, ⟨hring, hrcv⟩, ht⟩
  · -- the producer does not send, so the receiver is as it was
    show Receiver.Inv shR o { t.rcv with arrived := x.sent }
    rw [hrcv]
    exact hinv.receiving
  · rcases hpub with hsame | hgoal
    · show x.ring.published = _ ∨ ∃ m, _ ∧ x.ring.published = _
      rw [show x.ring.published = t.ring.published from hsame]
      exact hinv.framed
    · -- the message in progress has been published
      exact .inr ⟨m, ht.1, by rw [show (sender.set x t).returned = ms from ht.2]; exact hgoal⟩

/-! ### The programs of the threads -/

theorem stream_append (ms : List Message) (m : Message) :
    stream o (ms ++ [m]) = stream o ms ++ m.frame o := by
  simp [stream]

/-- One call of `SendData`. -/
theorem wp_produce {s : State} (m : Message) (hidle : idle shS o .producer .idle s) :
    wp (disc shS shR o ndebug .producer) (produce shS.toShape o m) (idle shS o .producer) s := by
  intro t hst ht
  refine ⟨trivial, ?_⟩
  rintro _ _ ⟨⟩
  have hpub : t.ring.published = stream o t.returned := by
    rw [hst.1.published, hidle.2, hst.2.2]
  refine ⟨⟨ht.sending, ht.receiving, .inl hpub⟩, ⟨.refl _, rfl⟩, ?_⟩
  have hview : WriterView shS t.ring.published t.ring.mem.writeCount t.ring.mem.dataArr 0 t.ring :=
    WriterView.of_coherent ht.sending.coherent
  rw [hpub] at hview
  have hsend : wp (producerDisc shS ndebug (stream o (t.returned ++ [m])))
      (sendData shS.toShape o m.bytes m.len)
      (fun ok x => x.ring.published = if ok then stream o t.returned ++ m.frame o
        else stream o t.returned) (sender.get { t with calling := some m }) := by
    rw [stream_append]
    exact wp_sendData m hview
  refine wp_seq (wp_producer (s := { t with calling := some m }) rfl rfl hsend) ?_
  rintro ok u _ ⟨hpub', hcall, hret⟩ v hv hinv
  refine ⟨trivial, ?_⟩
  rintro _ _ ⟨⟩
  -- the call returns what it has done to the stream
  have hresult : v.ring.published =
      stream o (if ok then v.returned ++ [m] else v.returned) := by
    rw [hv.1.published, hv.2.2, hret]
    refine Eq.trans hpub' ?_
    cases ok with
    | true => exact (stream_append _ _).symm
    | false => rfl
  refine ⟨⟨hinv.sending, hinv.receiving, .inl hresult⟩, ⟨.refl _, rfl⟩, fun x hx _ => ⟨hx.2.1, ?_⟩⟩
  rw [hx.1.published, hx.2.2]
  exact hresult

theorem wp_beginWrite {s : State} (hidle : SendIdle (sender.get s)) :
    wp (disc shS shR o ndebug .senderNet) (beginWrite shS.toShape) (idle shS o .senderNet) s :=
  wp_seq (wp_senderNet (wp_tryWriteBegin hidle)) fun _ _ _ h _ hu _ =>
    h.of_rely (within_senderNet.rely _ _ hu)

theorem wp_writeRound {s : State} {available : UInt32}
    (hidle : Sending shS available (sender.get s)) :
    wp (disc shS shR o ndebug .senderNet) (writeRound shS.toShape available)
      (idle shS o .senderNet) s := by
  refine wp_seq (wp_senderNet (wp_tryWriteRound hidle)) ?_
  rintro (_ | available') t _ h u hu _
  · exact SendIdle.of_rely h (within_senderNet.rely _ _ hu)
  · exact Sending.of_rely h (within_senderNet.rely _ _ hu)

theorem wp_readOnce {s : State} (hidle : NetView s.rcv) :
    wp (disc shS shR o ndebug .receiverNet) (readOnce shR.toShape) (idle shS o .receiverNet) s :=
  wp_seq (wp_receiverNet (wp_onReadEvent hidle)) fun _ _ _ h _ hu _ => NetView.of_rely h hu

/-- What the worker knows after a program of the deframer. -/
theorem wp_ofDeframer {s : State} {p : Prog recvSig Deframer.Status}
    (h : wp (workerDisc shR o ndebug False False) p (Deframer.idle o .worker) s.rcv) :
    wp (disc shS shR o ndebug .worker) (p.lift rcvActs >>= fun status => ret (ofDeframer status))
      (idle shS o .worker) s := by
  refine wp_seq (wp_worker h) ?_
  rintro status t _ hpost u hu _
  -- the other threads may have moved before the result is returned
  have hrely : (workerDisc shR o ndebug False False).rely t.rcv u.rcv := hu
  cases status with
  | idle => exact Deframer.Through.of_rely hpost hrely
  | again => exact Deframer.Between.of_rely hpost hrely

theorem outline_next {i : Party} {v : Status} {p : Prog sig Status} {s : State}
    (hidle : idle shS o i v s) (hp : Next shS.toShape shR.toShape o i v p) :
    wp (disc shS shR o ndebug i) p (idle shS o i) s := by
  cases hp with
  | produce m => exact wp_produce m hidle
  | beginWrite => exact wp_beginWrite hidle
  | writeRound available => exact wp_writeRound hidle
  | readOnce => exact wp_readOnce hidle
  | beginProcess => exact wp_ofDeframer (Deframer.wp_runWorker (Deframer.Through.between hidle))
  | processRound => exact wp_ofDeframer (Deframer.wp_round hidle)

theorem outline_init {c : Config sig State Party Status} (hc : Link.Init c) :
    (outline shS shR o ndebug).Holds (link shS shR o ndebug) c := by
  obtain ⟨arrS, arrR, countS, countR, ctrlS, ctrlR, hset, rfl⟩ := hc
  have hparse : (framing o).parse [] = [] := rfl
  have hcoherent : ∀ (sh : PowShape) (arr : ℕ → UInt8) (count : UInt32),
      Coherent sh ⟨⟨arr, count, count⟩, [], 0⟩ := by
    intro sh arr count
    refine ⟨le_rfl, ?_, ?_, ?_⟩ <;> simp [Mem.size, Mem.content]
  have hrcv : Receiver.Inv shR o (.start arrR countR ctrlR []) :=
    ⟨hcoherent _ _ _, Nat.zero_le _, List.nil_prefix, List.nil_prefix, hset⟩
  refine ⟨⟨⟨hcoherent _ _ _, List.nil_prefix⟩, hrcv, .inl rfl⟩, ?_⟩
  -- all four parties are idle, on empty rings
  rintro (_ | _ | _ | _) t hst _
  · exact ⟨hst.2.1, by rw [hst.1.published, hst.2.2]; rfl⟩
  · exact SendIdle.of_rely (s := sender.get (.start arrS arrR countS countR ctrlS ctrlR)) rfl
      (within_senderNet.rely _ _ hst)
  · exact NetView.of_rely ⟨Nat.zero_le _, rfl⟩ hst
  · have hrely : (workerDisc shR o ndebug False False).rely (.start arrR countR ctrlR []) t.rcv :=
      hst
    refine Deframer.Through.of_rely ⟨[], countR, ?_, List.prefix_rfl⟩ hrely
    rw [hparse]
    exact ⟨⟨.refl _ _, rfl, rfl⟩, rfl, rfl⟩

theorem holds {c : Config sig State Party Status}
    (hc : ((link shS shR o ndebug).lts Link.Init).Reachable c) :
    (outline shS shR o ndebug).Holds (link shS shR o ndebug) c :=
  (outline shS shR o ndebug).sound (fun _ => outline_init)
    (fun _ _ _ _ _ hidle hp => outline_next hidle hp) hc

/-- The stream of messages is parsed into the messages with their headers. -/
theorem parse_stream (ms : List Message) :
    (framing o).parse (stream o ms) = ms.map fun m => m.frame o := by
  refine Format.parse_flatten fun f hf => ?_
  obtain ⟨m, _, rfl⟩ := List.mem_map.mp hf
  exact m.isFrame o

/-- What has been handed over stays handed over. -/
theorem delivered_of_sem {a : sig.Act} {s t : State} {r : sig.Res a}
    (h : Sem shS shR ndebug a s r t) : s.rcv.delivered <+: t.rcv.delivered := by
  cases h with
  | snd h => exact List.prefix_rfl
  | rcv h =>
    cases h with
    | signalReadPacket => exact List.prefix_append _ _
    | _ => exact List.prefix_rfl
  | call => exact List.prefix_rfl
  | finish => exact List.prefix_rfl

theorem delivered_of_reachable {c d : Config sig State Party Status}
    (hd : ((link shS shR o ndebug).lts (· = c)).Reachable d) :
    c.shared.rcv.delivered <+: d.shared.rcv.delivered := by
  refine hd.invariant (I := fun d => c.shared.rcv.delivered <+: d.shared.rcv.delivered) ?_ ?_
  · rintro _ rfl
    exact List.prefix_rfl
  · rintro d i _ hI (⟨_, hsem⟩ | _)
    · exact hI.trans (delivered_of_sem hsem)
    · exact hI

/-- What is reached from a reachable configuration is reachable. -/
theorem reachable_trans {c d : Config sig State Party Status}
    (hc : ((link shS shR o ndebug).lts Link.Init).Reachable c)
    (hd : ((link shS shR o ndebug).lts (· = c)).Reachable d) :
    ((link shS shR o ndebug).lts Link.Init).Reachable d := by
  refine hd.invariant ?_ fun _ _ _ h hst => .step h trivial hst
  rintro _ rfl
  exact hc

/-- The frames handed over are messages accepted, in their order. -/
theorem delivered_isPrefix {c : Config sig State Party Status}
    (hc : ((link shS shR o ndebug).lts Link.Init).Reachable c) :
    c.shared.rcv.delivered <+:
      (c.shared.returned ++ c.shared.calling.toList).map fun m => m.frame o := by
  have hinv : Inv shS shR o c.shared := (holds hc).inv
  -- everything handed over was published by the receiver, hence sent, hence published by the sender
  have hpub : c.shared.rcv.ring.published <+: c.shared.ring.published :=
    (hinv.receiving.published.trans (List.take_prefix _ _)).trans hinv.sending.sent
  have hdel := hinv.receiving.delivered.trans (Format.parse_isPrefix hpub)
  rcases hinv.framed with hret | ⟨m, hcall, hret⟩
  · rw [hret, parse_stream] at hdel
    rw [List.map_append]
    exact hdel.trans (List.prefix_append _ _)
  · rw [hret, parse_stream] at hdel
    rwa [hcall]

/-- Nothing is lost: when the threads rest and the rings and the wire are empty, everything
    published by the sender has been parsed by the receiver. -/
theorem delivered_eq_parse {c : Config sig State Party Status}
    (hc : ((link shS shR o ndebug).lts Link.Init).Reachable c) (hidle : ∀ i, c.prog i = ret .idle)
    (hsnd : c.shared.ring.mem.size = 0) (hwire : c.shared.rcv.taken = c.shared.rcv.arrived.length)
    (hrcv : c.shared.rcv.ring.mem.size = 0) :
    c.shared.rcv.delivered = (framing o).parse c.shared.ring.published := by
  have h := holds hc
  have hinv : Inv shS shR o c.shared := h.inv
  have hsent : c.shared.rcv.arrived = c.shared.ring.published := by
    have hsendIdle : SendIdle (sender.get c.shared) := h.idle _ (hidle .senderNet)
    have hlen : c.shared.rcv.arrived.length = c.shared.ring.consumed := hsendIdle
    have hsize := hinv.sending.coherent.size_eq
    refine hinv.sending.sent.eq_of_length_le ?_
    show c.shared.ring.published.length ≤ c.shared.rcv.arrived.length
    have hmem : (sender.get c.shared).ring.mem.size = 0 := hsnd
    have hring : (sender.get c.shared).ring = c.shared.ring := rfl
    rw [hmem, hring] at hsize
    omega
  have hread : c.shared.rcv.ring.published = c.shared.rcv.arrived := by
    have hnet : NetView c.shared.rcv := h.idle _ (hidle .receiverNet)
    rw [hnet.published, hwire, List.take_length]
  obtain ⟨V, r, hview, -⟩ : Deframer.Through o c.shared.rcv := h.idle _ (hidle .worker)
  -- the parse of what the worker has seen covers everything that was published
  have hall : c.shared.rcv.ring.published.length ≤ V.length := by
    have hsize := hinv.receiving.coherent.size_eq
    have hcons := hview.ring.consumed
    have hle := ((framing o).flatten_parse_isPrefix V).length_le
    omega
  have hV : V = c.shared.rcv.ring.published := hview.ring.published.1.eq_of_length_le hall
  rw [hview.delivered, hV, hread, hsent]

/-! ### Particular runs -/

/-- Actions performed alone, where `::send` and `::read` take at most `chunk` bytes. -/
def exec (shS shR : PowShape) (ndebug : Bool) (chunk : ℕ) : Exec sig State
  | .snd a, s =>
    (Sender.exec shS ndebug chunk a (sender.get s)).map fun rx => (rx.1, sender.set rx.2 s)
  | .rcv a, s =>
    (Receiver.exec shR ndebug chunk a s.rcv).map fun rx => (rx.1, receiver.set rx.2 s)
  | .call m, s => some ((), { s with calling := some m })
  | .finish m ok, s => some ((), { s with
      calling := none, returned := if ok then s.returned ++ [m] else s.returned })

theorem sem_of_exec {chunk : ℕ} {a : sig.Act} {s t : State} {r : sig.Res a}
    (h : exec shS shR ndebug chunk a s = some (r, t)) : Sem shS shR ndebug a s r t := by
  cases a with
  | snd a =>
    obtain ⟨⟨r', x⟩, hx, heq⟩ := Option.map_eq_some_iff.mp h
    cases heq
    exact .snd (Sender.sem_of_exec hx)
  | rcv a =>
    obtain ⟨⟨r', x⟩, hx, heq⟩ := Option.map_eq_some_iff.mp h
    cases heq
    exact .rcv (TcpSocket.sem_of_exec hx)
  | call m =>
    cases h
    exact .call
  | finish m ok =>
    cases h
    exact .finish

/-- A thread begins a program and is not interrupted in it. -/
theorem reachable_of_next {chunk : ℕ} {i : Party} {v w : Status} {p : Prog sig Status}
    {s t : State} {f : Party → Prog sig Status} (hi : f i = ret v)
    (hnext : Next shS.toShape shR.toShape o i v p)
    (hrun : p.run (exec shS shR ndebug chunk) s = some (w, t))
    (hc : ((link shS shR o ndebug).lts Link.Init).Reachable ⟨f, s⟩) :
    ((link shS shR o ndebug).lts Link.Init).Reachable ⟨Function.update f i (ret w), t⟩ := by
  have hbegun := Lts.ReachableBy.step hc trivial (.next hi hnext)
  have hrest := Threads.reachable_of_run (T := link shS shR o ndebug)
    (fun _ _ _ _ h => sem_of_exec h) hrun (Function.update_self i p f) hbegun
  rwa [Function.update_idem] at hrest

end Link

/-! ## Main result -/

/-- **End-to-end framing.** However the four threads are interleaved, the frames handed over by
    the receiver are a prefix of the messages for which `SendData` has returned true, possibly
    followed by the one whose call is in progress, each with its header; that one is handed over
    only if its call, once it ends, returns true. When no run is in progress and nothing is left
    in the rings and on the wire, they are all of them. -/
theorem end_to_end (shS shR : PowShape) (o : ByteOrder) (ndebug : Bool)
    {c : Config Link.sig Link.State Party Link.Status}
    (hc : ((link shS shR o ndebug).lts Link.Init).Reachable c) :
    (c.shared.rcv.delivered <+:
      (c.shared.returned ++ c.shared.calling.toList).map fun m => m.frame o) ∧
    (∀ d, ((link shS shR o ndebug).lts (· = c)).Reachable d → d.shared.calling = none →
      c.shared.rcv.delivered <+: d.shared.returned.map fun m => m.frame o) ∧
    ((∀ i, c.prog i = ret .idle) → c.shared.ring.mem.size = 0 →
      c.shared.rcv.taken = c.shared.rcv.arrived.length → c.shared.rcv.ring.mem.size = 0 →
      c.shared.rcv.delivered = c.shared.returned.map fun m => m.frame o) := by
  refine ⟨Link.delivered_isPrefix hc, fun d hd hcall => ?_, fun hidle hsnd hwire hrcv => ?_⟩
  · -- a later call that has returned is among the messages accepted
    have hprefix := Link.delivered_isPrefix (Link.reachable_trans hc hd)
    rw [hcall, Option.toList_none, List.append_nil] at hprefix
    exact (Link.delivered_of_reachable hd).trans hprefix
  · -- at rest the producer is between two calls, and all its bytes are parsed
    have hprefix : c.shared.calling = none ∧
        c.shared.ring.published = Link.stream o c.shared.returned :=
      (Link.holds hc).idle _ (hidle .producer)
    rw [Link.delivered_eq_parse hc hidle hsnd hwire hrcv, hprefix.2, Link.parse_stream]

/-- A message with one byte of payload. -/
def oneByte : Message := ⟨[7, 7, 65], by decide, by decide⟩

/-- Two connected sockets; the counters of the receiver are about to wrap. -/
def Link.connected : Link.State :=
  .start (fun _ => 0) (fun _ => 0) 0 0xFFFFFFFF ⟨.connected, true, true, []⟩
    ⟨.connected, true, true, []⟩

/-- One message sent, taken by the network in two pieces, and handed over. -/
theorem end_to_end_one : ∃ c : Config Link.sig Link.State Party Link.Status,
    c.shared.rcv.delivered = [[1, 0, 65]] ∧
    c.shared.rcv.delivered = c.shared.returned.map fun m => m.frame .little := by
  have h₀ : ((link eight eight .little false).lts Link.Init).Reachable
      ⟨fun _ => ret .idle, Link.connected⟩ := .init ⟨_, _, _, _, _, _, rfl, rfl⟩
  have h₁ := @Link.reachable_of_next _ _ _ _ 2 _ _ .idle _ _ _ _ rfl (.produce oneByte) rfl h₀
  have h₂ := @Link.reachable_of_next _ _ _ _ 2 _ _ (.writing 3) _ _ _ _ rfl .beginWrite rfl h₁
  have h₃ := @Link.reachable_of_next _ _ _ _ 2 _ _ (.writing 1) _ _ _ _ rfl (.writeRound _) rfl h₂
  have h₄ := @Link.reachable_of_next _ _ _ _ 2 _ _ (.writing 0) _ _ _ _ rfl (.writeRound _) rfl h₃
  have h₅ := @Link.reachable_of_next _ _ _ _ 2 _ _ .idle _ _ _ _ rfl (.writeRound _) rfl h₄
  have h₆ := @Link.reachable_of_next _ _ _ _ 2 _ _ .idle _ _ _ _ rfl .readOnce rfl h₅
  have h₇ := @Link.reachable_of_next _ _ _ _ 2 _ _ .idle _ _ _ _ rfl .readOnce rfl h₆
  have h₈ := @Link.reachable_of_next _ _ _ _ 2 _ _ .processing _ _ _ _ rfl .beginProcess rfl h₇
  have h₉ := @Link.reachable_of_next _ _ _ _ 2 _ _ .idle _ _ _ _ rfl .processRound rfl h₈
  refine ⟨_, rfl, (end_to_end eight eight .little false h₉).2.2 ?_ rfl rfl rfl⟩
  rintro (_ | _ | _ | _) <;> rfl

end ReechatBase.TcpSocket
