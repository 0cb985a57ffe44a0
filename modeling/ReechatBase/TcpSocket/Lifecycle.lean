import ReechatBase.TcpSocket.Basic
import ReechatBase.Lib.Transition

/-!
# The life of a TcpSocketWrapper

The rest of `TcpSocketWrapper` (`tcp_socket_wrapper.cpp`) around its data path, as a transition
system: how a client socket connects and an accepted one begins, what libevent calls back, how the
socket is closed, and what is posted to the two loops. The system calls may have any outcome, the
user may call the socket at any time, and functors and callbacks run in any order.

A step goes from one system call or one call of a user's signal to the next. The rings appear as
the bytes in them.

A callback that libevent makes after `OnDestroySocket` has deleted its argument goes on here as if
the argument were still there.
-/

namespace ReechatBase.TcpSocket

open Lib

/-! ## Events -/

inductive Callback where
  | onConnection
  | onReadEvent
  | onWriteEvent
  deriving DecidableEq

/-- A `struct event` -/
structure Event where
  /-- What `event_set` has registered; an event that it was not called for has no event base -/
  callback : Option Callback
  /-- Whether the argument registered is not null -/
  hasArg : Bool
  added : Bool
  deriving DecidableEq

namespace Event

/-- After `memset` -/
def zero : Event := ⟨none, false, false⟩

/-- `event_set`, `event_base_set` -/
def set (callback : Callback) (hasArg : Bool) : Event := ⟨some callback, hasArg, false⟩

/-- `event_add` fails without an event base. -/
def add (e : Event) : Event := { e with added := e.callback.isSome }

/-- `event_del` -/
def del (e : Event) : Event := { e with added := false }

@[simp] theorem added_set {callback : Callback} {hasArg : Bool} :
    (set callback hasArg).added = false := rfl

@[simp] theorem added_del {e : Event} : e.del.added = false := rfl

end Event

/-! ## The state -/

inductive Kind where
  /-- It was given `BeginConnect` -/
  | client
  /-- It comes from `AcceptConnection` -/
  | accepted
  deriving DecidableEq

/-- What does not change in the life of a socket. -/
structure Setup where
  kind : Kind
  /-- `worker_loop_ == network_loop_` -/
  oneLoop : Bool
  /-- Whether `__APPLE__` is defined -/
  apple : Bool
  order : ByteOrder

/-- Where a function that the network loop runs stands. `failed` is whether it has called
    `OnErrorEvent`, `calling` whether it is inside the user's `SignalOnCloseEvent`. -/
inductive NetPc where
  /-- In `ConnectServerInNetworkLoop`, before `setsockopt` -/
  | sockopt
  /-- Before `::connect` -/
  | connect (failed calling : Bool)
  /-- Behind `::connect` -/
  | arm (failed calling : Bool)
  /-- In `TryReadDataFromSocket`, before `::read` -/
  | reading
  /-- In the loop of `TryWriteBufferToSocket` -/
  | writing
  deriving DecidableEq

namespace NetPc

/-- In `ConnectServerInNetworkLoop` -/
def starting : NetPc → Bool
  | sockopt | connect _ _ | arm _ _ => true
  | reading | writing => false

def failed : NetPc → Bool
  | connect failed _ | arm failed _ => failed
  | _ => false

def calling : NetPc → Bool
  | connect _ calling | arm _ calling => calling
  | _ => false

end NetPc

/-- The members of the socket; the functors posted that did not run; and what the results speak
    about: the calls of `SignalOnCloseEvent`, whether `OnErrorEvent` or
    `CloseConnectionInNetworkLoop` has set `CS_CLOSED` since the socket was started, and whether an
    event was added or `SignalOnConnected` posted after that. -/
structure Socket where
  state : ConnState
  /-- Whether `ConnectServerInNetworkLoop` or `BeginProcessInNetworkLoop` has been entered -/
  started : Bool
  readEvent : Event
  writeEvent : Event
  /-- Whether `share_this_helper_` is not null -/
  helper : Bool
  hasOnConnected : Bool
  hasOnCloseEvent : Bool
  /-- The bytes in `sender_buffer_` -/
  unsent : ℕ
  /-- The bytes in `receiver_buffer_` -/
  received : List UInt8
  /-- The functions that the network loop is in, the innermost first -/
  net : List NetPc
  /-- Whether the worker loop is in `TryProcessBufferedDataInWorkLoop` -/
  processing : Bool
  /-- `TryWriteBufferToSocket` -/
  writePosts : ℕ
  /-- `CloseConnectionInNetworkLoop` -/
  closePosts : ℕ
  /-- `TryProcessBufferedDataInWorkLoop` -/
  processPosts : ℕ
  /-- `SignalOnConnected` -/
  onConnectedPosts : ℕ
  /-- `SignalOnCloseEvent` -/
  onCloseEventPosts : ℕ
  /-- `OnDestroySocket` -/
  destroyPosts : ℕ
  invoked : ℕ
  closed : Bool
  late : Bool

/-- After the constructor and, for a client, `BeginConnect` -/
def Socket.fresh (p : Setup) : Socket where
  state := .closed
  started := false
  readEvent := .zero
  writeEvent := .zero
  helper := p.kind = .client
  hasOnConnected := false
  hasOnCloseEvent := false
  unsent := 0
  received := []
  net := []
  processing := false
  writePosts := 0
  closePosts := 0
  processPosts := 0
  onConnectedPosts := 0
  onCloseEventPosts := 0
  destroyPosts := 0
  invoked := 0
  closed := false
  late := false

/-! ## The functions -/

namespace Socket

variable (s : Socket)

/-- The network loop can run a functor: it is in no function of the socket, or the user's
    `SignalOnCloseEvent` has been called from there and calls the socket. -/
def CanRun : Prop := ∀ pc ∈ s.net.head?, pc.calling = true

/-- `event_add(socket_read_event_)` -/
def addRead : Socket := { s with readEvent := s.readEvent.add, late := s.late || s.closed }

/-- `event_add(socket_write_event_)` -/
def addWrite : Socket := { s with writeEvent := s.writeEvent.add, late := s.late || s.closed }

/-- `event_del` of both events -/
def delEvents : Socket := { s with readEvent := s.readEvent.del, writeEvent := s.writeEvent.del }

/-- `state_ = rtc::Socket::CS_CLOSED` -/
def setClosed : Socket := { s with state := .closed, closed := s.closed || s.started }

/-- `SignalOnCloseEvent()` -/
def signalOnCloseEvent : Socket := { s with invoked := s.invoked + 1 }

/-- `worker_loop_->RunInLoop(SignalOnCloseEvent)`; `now` is whether it runs at once. -/
def runOnCloseEvent (now : Bool) : Socket :=
  if now then s.signalOnCloseEvent
  else { s with onCloseEventPosts := s.onCloseEventPosts + 1 }

/-- `worker_loop_->RunInLoop(SignalOnConnected)` -/
def runOnConnected (now : Bool) : Socket :=
  { s with
    onConnectedPosts := if now then s.onConnectedPosts else s.onConnectedPosts + 1
    late := s.late || s.closed }

/-- `TcpSocketWrapper::OnDestroySocket`. -/
def onDestroySocket : Socket := { s with helper := false }

/-- `worker_loop_->RunInLoop(OnDestroySocket)` -/
def runOnDestroySocket (now : Bool) : Socket :=
  if now then s.onDestroySocket else { s with destroyPosts := s.destroyPosts + 1 }

/-- `TcpSocketWrapper::OnErrorEvent`. -/
def onErrorEvent (now : Bool) : Socket :=
  let s := s.delEvents.setClosed
  if s.hasOnCloseEvent then s.runOnCloseEvent now else s

/-- The branch of `TryProcessBufferedDataInWorkLoop` for an illegal payload length. -/
def illegalLength : Socket :=
  let s := s.delEvents
  if s.hasOnCloseEvent then s.signalOnCloseEvent else s

/-- `TcpSocketWrapper::CloseConnectionInNetworkLoop`. -/
def closeConnectionInNetworkLoop (now : Bool) : Socket :=
  s.setClosed.delEvents.runOnDestroySocket now

/-- `TcpSocketWrapper::ClientConnected`. -/
def clientConnected (now : Bool) : Socket :=
  let s := s.addRead
  let s := { s with writeEvent := .set .onWriteEvent s.helper, state := .connected }
  if s.hasOnConnected then s.runOnConnected now else s

/-- `TcpSocketWrapper::BeginProcessInNetworkLoop`, when the descriptor could be made
    nonblocking. -/
def beginProcess : Socket :=
  let s := { s with state := .connected, helper := true }
  let s := { s with readEvent := .set .onReadEvent s.helper }.addRead
  { s with writeEvent := .set .onWriteEvent s.helper }

/-- The calls of `event_set` in `ConnectServerInNetworkLoop` -/
def setEvents : Socket :=
  { s with
    writeEvent := .set .onConnection s.helper
    readEvent := .set .onReadEvent s.helper }

/-- The end of `ConnectServerInNetworkLoop`, behind `::connect` -/
def arm : Socket := { s with state := .connecting }.addWrite

/-! ### What they change -/

theorem onErrorEvent_eq (now : Bool) : s.onErrorEvent now = { s.delEvents.setClosed with
    invoked := s.invoked + (now && s.hasOnCloseEvent).toNat
    onCloseEventPosts := s.onCloseEventPosts + (!now && s.hasOnCloseEvent).toNat } := by
  unfold onErrorEvent
  cases h : s.hasOnCloseEvent <;> cases now <;>
    simp [runOnCloseEvent, signalOnCloseEvent, delEvents, setClosed, h]

theorem illegalLength_eq : s.illegalLength = { s.delEvents with
    invoked := s.invoked + s.hasOnCloseEvent.toNat } := by
  unfold illegalLength
  cases h : s.hasOnCloseEvent <;> simp [signalOnCloseEvent, delEvents, h]

theorem closeConnectionInNetworkLoop_eq (now : Bool) :
    s.closeConnectionInNetworkLoop now = { s.delEvents.setClosed with
      helper := s.helper && !now, destroyPosts := s.destroyPosts + (!now).toNat } := by
  unfold closeConnectionInNetworkLoop
  cases now <;> simp [runOnDestroySocket, onDestroySocket, delEvents, setClosed]

theorem clientConnected_eq (now : Bool) : s.clientConnected now = { s.addRead with
    writeEvent := .set .onWriteEvent s.helper, state := .connected
    onConnectedPosts := s.onConnectedPosts + (!now && s.hasOnConnected).toNat } := by
  unfold clientConnected
  cases h : s.hasOnConnected <;> cases now <;> simp [runOnConnected, addRead, h]

/-! ### Their programs -/

/-- The part of the socket that the programs of the data path act on -/
def ctrl (hasReadPacket : Bool) : Ctrl where
  state := s.state
  hasReadPacket := hasReadPacket
  hasOnCloseEvent := s.hasOnCloseEvent
  effects := []

/-- An effect of such a program, on the socket -/
def perform (now : Bool) (s : Socket) : Effect → Socket
  | .eventDelRead => { s with readEvent := s.readEvent.del }
  | .eventDelWrite => { s with writeEvent := s.writeEvent.del }
  | .eventAddWrite => s.addWrite
  | .queueTryProcess => { s with processPosts := s.processPosts + 1 }
  | .runTryWrite => { s with writePosts := s.writePosts + 1 }
  | .postOnCloseEvent => s.runOnCloseEvent now
  | .signalOnCloseEvent => s.signalOnCloseEvent

/-- The program `onErrorEvent` of the data path has the effects of `Socket.onErrorEvent`. -/
theorem onErrorEvent_program (hasReadPacket now : Bool) :
    ∃ c, TcpSocket.onErrorEvent.run (fun a c => some (Ctrl.exec a c)) (s.ctrl hasReadPacket) =
        some ((), c) ∧ c.state = .closed ∧
      s.onErrorEvent now = c.effects.foldl (perform now) s.setClosed := by
  cases h : s.hasOnCloseEvent
  · refine ⟨⟨.closed, hasReadPacket, false, [.eventDelRead, .eventDelWrite]⟩, ?_, rfl, ?_⟩
    · simp only [ctrl, h]
      rfl
    · simp [onErrorEvent_eq, h, perform, delEvents, setClosed]
  · refine ⟨⟨.closed, hasReadPacket, true, [.eventDelRead, .eventDelWrite, .postOnCloseEvent]⟩,
      ?_, rfl, ?_⟩
    · simp only [ctrl, h]
      rfl
    · cases now <;> simp [onErrorEvent_eq, h, perform, delEvents, setClosed, runOnCloseEvent,
        signalOnCloseEvent]

/-- The program `illegalLength` of the data path has the effects of `Socket.illegalLength`. -/
theorem illegalLength_program (hasReadPacket now : Bool) :
    ∃ c, TcpSocket.illegalLength.run (fun a c => some (Ctrl.exec a c)) (s.ctrl hasReadPacket) =
        some ((), c) ∧ c.state = s.state ∧
      s.illegalLength = c.effects.foldl (perform now) s := by
  cases h : s.hasOnCloseEvent
  · refine ⟨⟨s.state, hasReadPacket, false, [.eventDelRead, .eventDelWrite]⟩, ?_, rfl, ?_⟩
    · simp only [ctrl, h]
      rfl
    · simp [illegalLength_eq, h, perform, delEvents]
  · refine ⟨⟨s.state, hasReadPacket, true, [.eventDelRead, .eventDelWrite, .signalOnCloseEvent]⟩,
      ?_, rfl, ?_⟩
    · simp only [ctrl, h]
      rfl
    · simp [illegalLength_eq, h, perform, delEvents, signalOnCloseEvent]

end Socket

/-- The header at the front announces an empty payload. -/
def IllegalHeader (o : ByteOrder) (bytes : List UInt8) : Prop :=
  2 ≤ bytes.length ∧ (framing o).payloadLen (bytes.take 2) = 0

/-! ## The steps -/

/-- What `OnConnection` finds. -/
inductive ConnectEvent where
  /-- `EV_WRITE`, and `SO_ERROR` is 0 -/
  | connected
  /-- `EV_WRITE`, and `SO_ERROR` is not 0 -/
  | error
  /-- `EV_TIMEOUT` -/
  | timeout
  /-- Both -/
  | other
  deriving DecidableEq

namespace Lifecycle

/-- `ok` is whether the call succeeds, or fails with `EINPROGRESS` or `EINTR`; `now` whether
    `RunInLoop` of the worker loop runs its functor at once. -/
inductive Label where
  /-- The user sets or clears `SignalOnConnected` and `SignalOnCloseEvent` -/
  | setSignals (hasOnConnected hasOnCloseEvent : Bool)
  /-- `SendData` or `SendDataWithHead` puts `n` bytes into the ring -/
  | sendData (n : ℕ)
  | closeConnection
  /-- `ConnectServerInNetworkLoop` with the outcomes of its system calls -/
  | socket (ok now : Bool)
  | sockopt (ok now : Bool)
  | connect (ok now : Bool)
  | arm
  | beginProcess (ok now : Bool)
  | onConnection (e : ConnectEvent) (now : Bool)
  | onReadEvent
  | onWriteEvent
  /-- A callback of the event with a null argument -/
  | nullArg (e : Callback)
  | tryWrite
  | read (r : ReadResult) (now : Bool)
  | send (r : SendResult) (now : Bool)
  /-- The loop of `TryWriteBufferToSocket` finds nothing to send -/
  | written
  | close (now : Bool)
  | process
  /-- A round of the loop of `TryProcessBufferedDataInWorkLoop` -/
  | round
  | runOnCloseEvent
  | runOnConnected
  | runOnDestroySocket

variable (p : Setup)

/-- The steps of a socket. -/
inductive Step : Socket → Label → Socket → Prop where
  -- the user
  | setSignals {s b c} :
      Step s (.setSignals b c) { s with hasOnConnected := b, hasOnCloseEvent := c }
  | sendData {s n} :
      Step s (.sendData n) { s with unsent := s.unsent + n, writePosts := s.writePosts + 1 }
  | closeConnection {s} :
      Step s .closeConnection { s with closePosts := s.closePosts + 1 }
  -- ConnectServerInNetworkLoop
  | socket {s now} : p.kind = .client → s.started = false → s.net = [] →
      Step s (.socket true now) { s with
        started := true, net := [if p.apple then .sockopt else .connect false false] }
  | noSocket {s now} : p.kind = .client → s.started = false → s.net = [] →
      (now = true → p.oneLoop = true) →
      Step s (.socket false now) ({ s with started := true }.onErrorEvent now)
  | sockopt {s rest now} : s.net = .sockopt :: rest →
      Step s (.sockopt true now) { s with net := .connect false false :: rest }
  | sockoptFails {s rest now} : s.net = .sockopt :: rest →
      (now = true → p.oneLoop = true) →
      Step s (.sockopt false now) ({ s with
        net := .connect true (now && s.hasOnCloseEvent) :: rest }.onErrorEvent now)
  | connect {s failed calling rest now} : s.net = .connect failed calling :: rest →
      Step s (.connect true now) { s.setEvents with net := .arm failed false :: rest }
  | connectFails {s failed calling rest now} : s.net = .connect failed calling :: rest →
      (now = true → p.oneLoop = true) →
      Step s (.connect false now) ({ s.setEvents with
        net := .arm true (now && s.hasOnCloseEvent) :: rest }.onErrorEvent now)
  | arm {s failed calling rest} : s.net = .arm failed calling :: rest →
      Step s .arm { s.arm with net := rest }
  -- BeginProcessInNetworkLoop
  | beginProcess {s now} : p.kind = .accepted → s.started = false → s.net = [] →
      Step s (.beginProcess true now) { s with started := true }.beginProcess
  | beginProcessFails {s now} : p.kind = .accepted → s.started = false → s.net = [] →
      (now = true → p.oneLoop = true) →
      Step s (.beginProcess false now) ({ s with started := true }.onErrorEvent now)
  -- callbacks; the write event is not persistent
  | connected {s now} : s.net = [] → s.writeEvent = ⟨some .onConnection, true, true⟩ →
      (now = true → p.oneLoop = true) →
      Step s (.onConnection .connected now)
        ({ s with writeEvent := s.writeEvent.del }.clientConnected now)
  | connectError {s now} : s.net = [] → s.writeEvent = ⟨some .onConnection, true, true⟩ →
      (now = true → p.oneLoop = true) →
      Step s (.onConnection .error now)
        ({ s with writeEvent := s.writeEvent.del }.onErrorEvent now)
  | timeout {s now} : s.net = [] → s.writeEvent = ⟨some .onConnection, true, true⟩ →
      (now = true → p.oneLoop = true) →
      Step s (.onConnection .timeout now)
        ({ s with writeEvent := s.writeEvent.del }.onErrorEvent now)
  | otherEvent {s now} : s.net = [] → s.writeEvent = ⟨some .onConnection, true, true⟩ →
      Step s (.onConnection .other now) { s with writeEvent := s.writeEvent.del }
  | onReadEvent {s} : s.net = [] → s.readEvent = ⟨some .onReadEvent, true, true⟩ →
      Step s .onReadEvent { s with net := if s.state = .connected then [.reading] else [] }
  | onWriteEvent {s} : s.net = [] → s.writeEvent = ⟨some .onWriteEvent, true, true⟩ →
      Step s .onWriteEvent { s with writeEvent := s.writeEvent.del, net := [.writing] }
  | nullArgRead {s c} : s.net = [] → s.readEvent = ⟨some c, false, true⟩ →
      Step s (.nullArg c) s
  | nullArgWrite {s c} : s.net = [] → s.writeEvent = ⟨some c, false, true⟩ →
      Step s (.nullArg c) { s with writeEvent := s.writeEvent.del }
  -- TryReadDataFromSocket, which returns behind `OnErrorEvent`
  | readData {s rest b now} : s.net = .reading :: rest → b.bytes ≠ [] →
      Step s (.read (.data b) now) { s with
        received := s.received ++ b.bytes, processPosts := s.processPosts + 1, net := rest }
  | readAgain {s rest now} : s.net = .reading :: rest →
      Step s (.read .again now) { s with net := rest }
  | readEof {s rest now} : s.net = .reading :: rest → (now = true → p.oneLoop = true) →
      Step s (.read .eof now) ({ s with net := rest }.onErrorEvent now)
  | readError {s rest now} : s.net = .reading :: rest → (now = true → p.oneLoop = true) →
      Step s (.read .error now) ({ s with net := rest }.onErrorEvent now)
  -- TryWriteBufferToSocket
  | tryWrite {s} : s.CanRun → 0 < s.writePosts →
      Step s .tryWrite { s with writePosts := s.writePosts - 1, net := .writing :: s.net }
  | sent {s rest n now} : s.net = .writing :: rest → 0 < s.unsent → n.toNat ≤ s.unsent →
      Step s (.send (.sent n) now) { s with unsent := s.unsent - n.toNat }
  | sendAgain {s rest now} : s.net = .writing :: rest → 0 < s.unsent →
      Step s (.send .again now) { s.addWrite with net := rest }
  | sendError {s rest now} : s.net = .writing :: rest → 0 < s.unsent →
      (now = true → p.oneLoop = true) →
      Step s (.send .error now) ({ s with net := rest }.onErrorEvent now)
  | written {s rest} : s.net = .writing :: rest → s.unsent = 0 →
      Step s .written { s with net := rest }
  -- CloseConnectionInNetworkLoop
  | close {s now} : s.CanRun → 0 < s.closePosts → (now = true → p.oneLoop = true) →
      Step s (.close now)
        ({ s with closePosts := s.closePosts - 1 }.closeConnectionInNetworkLoop now)
  -- TryProcessBufferedDataInWorkLoop
  | process {s} : s.processing = false → 0 < s.processPosts →
      Step s .process { s with processing := true, processPosts := s.processPosts - 1 }
  | frame {s f} : s.processing = true → (framing p.order).next s.received = some f →
      Step s .round { s with received := s.received.drop f.length }
  | illegal {s} : s.processing = true → IllegalHeader p.order s.received →
      Step s .round { s.illegalLength with processing := false }
  | incomplete {s} : s.processing = true → ¬ IllegalHeader p.order s.received →
      (framing p.order).next s.received = none →
      Step s .round { s with processing := false }
  -- the remaining functors of the worker loop
  | runOnCloseEvent {s} : 0 < s.onCloseEventPosts →
      Step s .runOnCloseEvent
        { s with onCloseEventPosts := s.onCloseEventPosts - 1 }.signalOnCloseEvent
  | runOnConnected {s} : 0 < s.onConnectedPosts →
      Step s .runOnConnected { s with onConnectedPosts := s.onConnectedPosts - 1 }
  | runOnDestroySocket {s} : 0 < s.destroyPosts →
      Step s .runOnDestroySocket { s with destroyPosts := s.destroyPosts - 1 }.onDestroySocket

end Lifecycle

/-- The life of a socket. -/
def lifecycle (p : Setup) : Lts Socket Lifecycle.Label where
  init s := s = .fresh p
  step := Lifecycle.Step p

end ReechatBase.TcpSocket
