import ReechatBase.TcpSocket.Sender
import ReechatBase.TcpSocket.Deframer

/-!
# A TcpSocketWrapper among its threads

One `TcpSocketWrapper` with everything that moves it: the thread that accepts the connection and
hands it to its task, the producer that sends, the network loop and the worker loop. Any of them may
move between any two actions of another.

A functor that is queued on a loop, and a libevent callback that is due, is a program that the loop
may begin. A functor that `RunInLoop` runs at once, on the loop's own thread, is one that is taken
as soon as it is queued. The queues and the registration of `socket_write_event_` are read off the
effects of the socket so far.
-/

namespace ReechatBase.TcpSocket

open Lib Lib.Prog RingBuffer

/-- Whether `socket_write_event_` is registered after these effects. -/
def writeRegistered (effects : List Effect) : Bool :=
  effects.foldl (fun registered e => match e with
    | .eventAddWrite => true
    | .eventDelWrite => false
    | _ => registered) false

namespace Wrapper

/-! ## The system -/

/-- The parties. Several of them may share one thread. -/
inductive Party where
  | acceptor
  | producer
  | net
  | worker
  deriving DecidableEq

/-- Where a party stands between two programs. -/
inductive Status where
  | idle
  /-- Inside the loop of `TryWriteBufferToSocket`, with `available_read` -/
  | writing (available : UInt32)
  /-- Inside the loop of `TryProcessBufferedDataInWorkLoop` -/
  | processing

/-- How far the socket has been handed to its task. -/
inductive Phase where
  /-- `AcceptConnection` has not been called -/
  | waiting
  /-- Between `AcceptConnection` and the end of `TcpServerTask::BeginProcess` -/
  | handing
  /-- The task has the socket -/
  | handed
  deriving DecidableEq

/-- The actions: those of the two halves of the socket, the steps of handing it over, and what the
    loops do to begin a program. -/
inductive Act where
  | snd (a : SendAct)
  | rcv (a : RecvAct)
  /-- `AcceptConnection` makes the socket and posts `BeginProcessInNetworkLoop` -/
  | accept
  /-- `TcpServerTask::BeginProcess` sets `SignalReadPacket` -/
  | setReadPacket
  /-- `TcpServerTask::BeginProcess` sets `SignalOnCloseEvent` -/
  | setOnCloseEvent
  /-- `TcpServerTask::BeginProcess` returns -/
  | handOver
  /-- The connection is established, or the attempt fails -/
  | establish
  /-- The network loop takes a queued `TryWriteBufferToSocket` -/
  | takeWrite
  /-- libevent fires `socket_write_event_`, which is no longer registered then -/
  | fireWrite
  /-- libevent fires `socket_read_event_` -/
  | fireRead
  /-- The worker loop takes a queued `TryProcessBufferedDataInWorkLoop` -/
  | takeProcess

def sig : Signature where
  Act := Act
  Res
    | .snd a => sendSig.Res a
    | .rcv a => recvSig.Res a
    | .establish => Bool
    | _ => Unit

/-- The socket. `writeTaken` and `processTaken` count the functors that the loops have taken,
    `firedAt` is the number of effects when `socket_write_event_` was set or fired last, and
    `writeStart` is what had been published when `TryWriteBufferToSocket` was begun last. -/
structure State where
  sndRing : Shared
  sent : List UInt8
  rcv : Receiver
  phase : Phase
  writeTaken : ℕ
  processTaken : ℕ
  firedAt : ℕ
  writeStart : List UInt8

namespace State

/-- What the socket has done to libevent and to its loops. -/
def effects (s : State) : List Effect := s.rcv.ctrl.effects

/-- New members other than the rings. -/
def setCtrl (s : State) (c : Ctrl) : State := { s with rcv := { s.rcv with ctrl := c } }

/-- A `TryWriteBufferToSocket` functor is queued. -/
def WriteQueued (s : State) : Prop := s.writeTaken < s.effects.count .runTryWrite

/-- A `TryProcessBufferedDataInWorkLoop` functor is queued. -/
def ProcessQueued (s : State) : Prop := s.processTaken < s.effects.count .queueTryProcess

/-- `socket_write_event_` is registered. -/
def Registered (s : State) : Prop := writeRegistered (s.effects.drop s.firedAt) = true

/-- `OnErrorEvent` or the illegal-length branch of the decoder has run; both begin with
    `event_del(socket_read_event_)`. -/
def Broken (s : State) : Prop := .eventDelRead ∈ s.effects

end State

/-- The sending half. -/
def sender : Lens State Sender where
  get s := ⟨s.sndRing, s.rcv.ctrl, s.sent⟩
  set x s := { s with sndRing := x.ring, sent := x.sent, rcv := { s.rcv with ctrl := x.ctrl } }
  get_set _ _ := rfl
  set_get _ := rfl
  set_set _ _ _ := rfl

/-- The receiving half. -/
def receiver : Lens State Receiver where
  get := State.rcv
  set x s := { s with rcv := x }
  get_set _ _ := rfl
  set_get _ := rfl
  set_set _ _ _ := rfl

def sndActs : Embedding sendSig sig where
  act := .snd
  res _ r := r

def rcvActs : Embedding recvSig sig where
  act := .rcv
  res _ r := r

/-- The effect of an action, where the parties run on the threads `host`. A thread runs one callback
    at a time: a loop on the accepting thread does not get to the socket before the accepting
    callback has returned. -/
inductive Sem (shS shR : PowShape) (ndebug : Bool) (host : Party → ℕ) :
    (a : sig.Act) → State → sig.Res a → State → Prop
  | snd {a : SendAct} {s : State} {r : sendSig.Res a} {x : Sender} :
      SendSem shS ndebug a (sender.get s) r x →
      Sem shS shR ndebug host (.snd a) s r (sender.set x s)
  | rcv {a : RecvAct} {s : State} {r : recvSig.Res a} {x : Receiver} :
      RecvSem shR ndebug a s.rcv r x → Sem shS shR ndebug host (.rcv a) s r (receiver.set x s)
  | accept {s : State} : s.phase = .waiting →
      Sem shS shR ndebug host .accept s () { s with phase := .handing }
  | setReadPacket {s : State} : Sem shS shR ndebug host .setReadPacket s ()
      (s.setCtrl { s.rcv.ctrl with hasReadPacket := true })
  | setOnCloseEvent {s : State} : Sem shS shR ndebug host .setOnCloseEvent s ()
      (s.setCtrl { s.rcv.ctrl with hasOnCloseEvent := true })
  | handOver {s : State} : Sem shS shR ndebug host .handOver s () { s with phase := .handed }
  | established {s : State} : s.phase ≠ .waiting → s.rcv.ctrl.state ≠ .connected →
      Sem shS shR ndebug host .establish s true
        { s.setCtrl { s.rcv.ctrl with state := .connected } with firedAt := s.effects.length }
  | failed {s : State} : s.phase ≠ .waiting → s.rcv.ctrl.state ≠ .connected →
      Sem shS shR ndebug host .establish s false s
  | takeWrite {s : State} : s.WriteQueued → Sem shS shR ndebug host .takeWrite s ()
      { s with writeTaken := s.writeTaken + 1, writeStart := s.sndRing.published }
  | fireWrite {s : State} : s.Registered → Sem shS shR ndebug host .fireWrite s ()
      { s with firedAt := s.effects.length, writeStart := s.sndRing.published }
  | fireRead {s : State} : s.rcv.ctrl.state = .connected →
      (host .acceptor = host .net → s.phase = .handed) → Sem shS shR ndebug host .fireRead s () s
  | takeProcess {s : State} : s.ProcessQueued →
      (host .acceptor = host .worker → s.phase = .handed) →
      Sem shS shR ndebug host .takeProcess s () { s with
        processTaken := s.processTaken + 1, rcv := { s.rcv with runStart := s.rcv.ring.published } }

section Programs

variable (shS shR : Shape) (o : ByteOrder)

/-- `AcceptConnection` followed by `TcpServerTask::BeginProcess`. -/
def acceptAndHandOver : Prog sig Status :=
  act (S := sig) Act.accept fun _ => act (S := sig) Act.setReadPacket fun _ =>
    act (S := sig) Act.setOnCloseEvent fun _ => act (S := sig) Act.handOver fun _ => ret .idle

/-- How both tasks send: to a connected socket only. -/
def ifConnected (p : Prog sendSig Bool) : Prog sendSig Bool := do
  let state ← loadState.lift sendCtrl
  if state = .connected then p else ret false

/-- The producer sends. -/
def produce (p : Prog sendSig Bool) : Prog sig Status := do
  let _ ← (ifConnected p).lift sndActs
  ret .idle

/-- `BeginProcessInNetworkLoop` for an accepted socket, `OnConnection` for a connecting one. -/
def beginConnection : Prog sig Status :=
  act (S := sig) Act.establish fun (ok : Bool) => do
    if ok then
      ret .idle
    else
      (onErrorEvent.lift recvCtrl).lift rcvActs
      ret .idle

/-- A run of `TryWriteBufferToSocket`, as a functor or from `OnWriteEvent`, up to its loop. -/
def beginWrite (begin : Act) : Prog sig Status :=
  act (S := sig) begin fun _ => do
    let available ← (tryWriteBegin shS).lift sndActs
    ret (.writing available)

/-- A round of its loop. -/
def writeRound (available : UInt32) : Prog sig Status := do
  let next ← (tryWriteRound shS available).lift sndActs
  match next with
  | some available' => ret (.writing available')
  | none => ret .idle

/-- A readable callback. -/
def readOnce : Prog sig Status :=
  act (S := sig) Act.fireRead fun _ => do
    (onReadEvent shR).lift rcvActs
    ret .idle

/-- A round of the loop of `TryProcessBufferedDataInWorkLoop`. -/
def processRound : Prog sig Status := do
  let again ← (tryProcessBufferedData shR o).lift rcvActs
  ret (if again then .processing else .idle)

/-- The first round of a run of `TryProcessBufferedDataInWorkLoop`. -/
def beginProcess : Prog sig Status :=
  act (S := sig) Act.takeProcess fun _ => processRound shR o

/-- What a party may do next. -/
inductive Next : Party → Status → Prog sig Status → Prop
  | acceptAndHandOver : Next .acceptor .idle acceptAndHandOver
  | sendData (data : List UInt8) (len : UInt64) : data.length = len.toNat →
      Next .producer .idle (produce (sendData shS o data len))
  | sendDataWithHead (buff : List UInt8) :
      Next .producer .idle (produce (sendDataWithHead shS buff))
  | beginConnection : Next .net .idle beginConnection
  | runWrite : Next .net .idle (beginWrite shS .takeWrite)
  | eventWrite : Next .net .idle (beginWrite shS .fireWrite)
  | writeRound (available : UInt32) : Next .net (.writing available) (writeRound shS available)
  | readOnce : Next .net .idle (readOnce shR)
  | beginProcess : Next .worker .idle (beginProcess shR o)
  | processRound : Next .worker .processing (processRound shR o)

end Programs

end Wrapper

open Wrapper

/-- The socket and its parties, on the threads `host`. -/
def wrapper (shS shR : PowShape) (o : ByteOrder) (ndebug : Bool) (host : Party → ℕ) :
    Threads Wrapper.sig Wrapper.State Party Wrapper.Status where
  sem _ := Wrapper.Sem shS shR ndebug host
  next := Wrapper.Next shS.toShape shR.toShape o

namespace Wrapper

/-- A socket with empty rings, whatever their counters, whose peer will send `stream`. -/
def State.start (arrS arrR : ℕ → UInt8) (countS countR : UInt32) (ctrl : Ctrl) (phase : Phase)
    (stream : List UInt8) : State where
  sndRing := ⟨⟨arrS, countS, countS⟩, [], 0⟩
  sent := []
  rcv := .start arrR countR ctrl stream
  phase := phase
  writeTaken := 0
  processTaken := 0
  firedAt := 0
  writeStart := []

/-- All parties are idle and nothing has happened to the socket yet. -/
def Init (stream : List UInt8) (c : Config sig State Party Status) : Prop :=
  ∃ arrS arrR countS countR ctrl phase, ctrl.effects = [] ∧
    c = ⟨fun _ => ret .idle, .start arrS arrR countS countR ctrl phase stream⟩

/-- The socket is yet to be accepted; its members are as the constructor leaves them. -/
def Accepting (stream : List UInt8) (c : Config sig State Party Status) : Prop :=
  ∃ arrS arrR countS countR,
    c = ⟨fun _ => ret .idle,
      .start arrS arrR countS countR ⟨.closed, false, false, []⟩ .waiting stream⟩

theorem Accepting.init {stream : List UInt8} {c : Config sig State Party Status}
    (h : Accepting stream c) : Init stream c := by
  obtain ⟨arrS, arrR, countS, countR, rfl⟩ := h
  exact ⟨arrS, arrR, countS, countR, _, _, rfl, rfl⟩

/-! ### Particular runs -/

instance (s : State) : Decidable s.WriteQueued :=
  inferInstanceAs (Decidable (_ < _))

instance (s : State) : Decidable s.ProcessQueued :=
  inferInstanceAs (Decidable (_ < _))

instance (s : State) : Decidable s.Registered :=
  inferInstanceAs (Decidable (_ = _))

instance (s : State) : Decidable s.Broken :=
  inferInstanceAs (Decidable (_ ∈ _))

variable {shS shR : PowShape} {o : ByteOrder} {ndebug : Bool} {host : Party → ℕ} {chunk : ℕ}

/-- Actions performed alone, where connections succeed and `::send` and `::read` take at most
    `chunk` bytes. -/
def exec (shS shR : PowShape) (ndebug : Bool) (host : Party → ℕ) (chunk : ℕ) : Exec sig State
  | .snd a, s =>
    (Sender.exec shS ndebug chunk a (sender.get s)).map fun rx => (rx.1, sender.set rx.2 s)
  | .rcv a, s =>
    (Receiver.exec shR ndebug chunk a s.rcv).map fun rx => (rx.1, receiver.set rx.2 s)
  | .accept, s =>
    if s.phase = .waiting then some ((), { s with phase := .handing }) else none
  | .setReadPacket, s => some ((), s.setCtrl { s.rcv.ctrl with hasReadPacket := true })
  | .setOnCloseEvent, s => some ((), s.setCtrl { s.rcv.ctrl with hasOnCloseEvent := true })
  | .handOver, s => some ((), { s with phase := .handed })
  | .establish, s =>
    if s.phase ≠ .waiting ∧ s.rcv.ctrl.state ≠ .connected then
      some (true, { s.setCtrl { s.rcv.ctrl with state := .connected } with
        firedAt := s.effects.length })
    else none
  | .takeWrite, s =>
    if s.WriteQueued then
      some ((), { s with writeTaken := s.writeTaken + 1, writeStart := s.sndRing.published })
    else none
  | .fireWrite, s =>
    if s.Registered then
      some ((), { s with firedAt := s.effects.length, writeStart := s.sndRing.published })
    else none
  | .fireRead, s =>
    if s.rcv.ctrl.state = .connected ∧ (host .acceptor = host .net → s.phase = .handed) then
      some ((), s)
    else none
  | .takeProcess, s =>
    if s.ProcessQueued ∧ (host .acceptor = host .worker → s.phase = .handed) then
      some ((), { s with processTaken := s.processTaken + 1, rcv := { s.rcv with
        runStart := s.rcv.ring.published } })
    else none

theorem sem_of_exec {a : sig.Act} {s t : State} {r : sig.Res a}
    (h : exec shS shR ndebug host chunk a s = some (r, t)) : Sem shS shR ndebug host a s r t := by
  cases a with
  | snd a =>
    obtain ⟨⟨r', x⟩, hx, heq⟩ := Option.map_eq_some_iff.mp h
    cases heq
    exact .snd (Sender.sem_of_exec hx)
  | rcv a =>
    obtain ⟨⟨r', x⟩, hx, heq⟩ := Option.map_eq_some_iff.mp h
    cases heq
    exact .rcv (TcpSocket.sem_of_exec hx)
  | accept =>
    obtain ⟨hphase, heq⟩ := Option.ite_none_right_eq_some.mp h
    cases heq
    exact .accept hphase
  | setReadPacket =>
    cases h
    exact .setReadPacket
  | setOnCloseEvent =>
    cases h
    exact .setOnCloseEvent
  | handOver =>
    cases h
    exact .handOver
  | establish =>
    obtain ⟨⟨hphase, hstate⟩, heq⟩ := Option.ite_none_right_eq_some.mp h
    cases heq
    exact .established hphase hstate
  | takeWrite =>
    obtain ⟨hqueued, heq⟩ := Option.ite_none_right_eq_some.mp h
    cases heq
    exact .takeWrite hqueued
  | fireWrite =>
    obtain ⟨hreg, heq⟩ := Option.ite_none_right_eq_some.mp h
    cases heq
    exact .fireWrite hreg
  | fireRead =>
    obtain ⟨⟨hstate, hhost⟩, heq⟩ := Option.ite_none_right_eq_some.mp h
    cases heq
    exact .fireRead hstate hhost
  | takeProcess =>
    obtain ⟨⟨hqueued, hhost⟩, heq⟩ := Option.ite_none_right_eq_some.mp h
    cases heq
    exact .takeProcess hqueued hhost

/-- A party begins a program. -/
theorem reachable_of_begin {init : Config sig State Party Status → Prop} {i : Party} {v : Status}
    {p : Prog sig Status} {s : State} {f : Party → Prog sig Status} (hi : f i = ret v)
    (hnext : Next shS.toShape shR.toShape o i v p)
    (hc : ((wrapper shS shR o ndebug host).lts init).Reachable ⟨f, s⟩) :
    ((wrapper shS shR o ndebug host).lts init).Reachable ⟨Function.update f i p, s⟩ :=
  .step hc trivial (.next hi hnext)

/-- An action of a program, performed alone. -/
theorem reachable_of_tick {init : Config sig State Party Status → Prop} {i : Party}
    {a : sig.Act} {k : sig.Res a → Prog sig Status} {s t : State} {r : sig.Res a}
    {f : Party → Prog sig Status} (hi : f i = act a k)
    (hexec : exec shS shR ndebug host chunk a s = some (r, t))
    (hc : ((wrapper shS shR o ndebug host).lts init).Reachable ⟨f, s⟩) :
    ((wrapper shS shR o ndebug host).lts init).Reachable ⟨Function.update f i (k r), t⟩ :=
  .step hc trivial (.act hi (sem_of_exec hexec))

/-- The rest of a program, not interrupted. -/
theorem reachable_of_rest {init : Config sig State Party Status → Prop} {i : Party}
    {p : Prog sig Status} {s t : State} {w : Status} {f : Party → Prog sig Status} (hi : f i = p)
    (hrun : p.run (exec shS shR ndebug host chunk) s = some (w, t))
    (hc : ((wrapper shS shR o ndebug host).lts init).Reachable ⟨f, s⟩) :
    ((wrapper shS shR o ndebug host).lts init).Reachable ⟨Function.update f i (ret w), t⟩ :=
  Threads.reachable_of_run (T := wrapper shS shR o ndebug host)
    (fun _ _ _ _ h => sem_of_exec h) hrun hi hc

/-- A party begins a program and is not interrupted in it. -/
theorem reachable_of_next {init : Config sig State Party Status → Prop} {i : Party}
    {v w : Status} {p : Prog sig Status} {s t : State} {f : Party → Prog sig Status}
    (hi : f i = ret v) (hnext : Next shS.toShape shR.toShape o i v p)
    (hrun : p.run (exec shS shR ndebug host chunk) s = some (w, t))
    (hc : ((wrapper shS shR o ndebug host).lts init).Reachable ⟨f, s⟩) :
    ((wrapper shS shR o ndebug host).lts init).Reachable ⟨Function.update f i (ret w), t⟩ := by
  have hrest := reachable_of_rest (Function.update_self i p f) hrun (reachable_of_begin hi hnext hc)
  rwa [Function.update_idem] at hrest

end Wrapper

end ReechatBase.TcpSocket
