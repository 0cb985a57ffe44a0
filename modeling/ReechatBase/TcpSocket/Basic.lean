import ReechatBase.RingBuffer.Basic
import ReechatBase.Lib.Framing

/-!
# The data path of TcpSocketWrapper

The member functions of `TcpSocketWrapper` (`tcp_socket_wrapper.cpp`) that move bytes between the
user, the two rings and the socket, as programs of atomic actions. An action is one action on a
ring, one system call, one access to the remaining members, or one call of a user's signal.

A `while` loop is given by its body, which returns whether the loop goes round again.
-/

namespace ReechatBase.TcpSocket

open Lib Lib.Prog RingBuffer

/-! ## Headers -/

/-- The byte order of the host. -/
inductive ByteOrder where
  | little
  | big
  deriving DecidableEq

/-- The two bytes of a `uint16_t` in memory. -/
def ByteOrder.header : ByteOrder → UInt16 → List UInt8
  | .little, v => [v.toUInt8, (v / 256).toUInt8]
  | .big, v => [(v / 256).toUInt8, v.toUInt8]

/-- The `uint16_t` that two bytes in memory stand for. -/
def ByteOrder.value : ByteOrder → UInt8 → UInt8 → UInt16
  | .little, b₀, b₁ => b₀.toUInt16 + b₁.toUInt16 * 256
  | .big, b₀, b₁ => b₀.toUInt16 * 256 + b₁.toUInt16

/-- The frame format of the connection: a `uint16_t` in host order, then as many bytes of
    payload. -/
def framing (o : ByteOrder) : Framing.Format UInt8 where
  headerLen := 2
  headerLen_pos := by decide
  payloadLen
    | b₀ :: b₁ :: _ => (o.value b₀ b₁).toNat
    | _ => 0

/-! ## Members other than the rings -/

/-- `rtc::Socket::ConnState` -/
inductive ConnState where
  | closed
  | connecting
  | connected
  deriving DecidableEq

/-- What a socket does to libevent, to the other loop and to its user. -/
inductive Effect where
  | eventDelRead
  | eventDelWrite
  | eventAddWrite
  /-- `worker_loop_->QueueInLoop(TryProcessBufferedDataInWorkLoop)` -/
  | queueTryProcess
  /-- `network_loop_->RunInLoop(TryWriteBufferToSocket)` -/
  | runTryWrite
  /-- `worker_loop_->RunInLoop(SignalOnCloseEvent)` -/
  | postOnCloseEvent
  /-- `SignalOnCloseEvent()` -/
  | signalOnCloseEvent
  deriving DecidableEq

/-- The members other than the rings, and the effects so far. -/
structure Ctrl where
  state : ConnState
  /-- Whether `SignalReadPacket` is set -/
  hasReadPacket : Bool
  /-- Whether `SignalOnCloseEvent` is set -/
  hasOnCloseEvent : Bool
  effects : List Effect

inductive CtrlAct where
  | loadState
  | storeState (state : ConnState)
  | testReadPacket
  | testOnCloseEvent
  | effect (e : Effect)

def ctrlSig : Signature where
  Act := CtrlAct
  Res
    | .loadState => ConnState
    | .testReadPacket => Bool
    | .testOnCloseEvent => Bool
    | _ => Unit

def Ctrl.exec : (a : ctrlSig.Act) → Ctrl → ctrlSig.Res a × Ctrl
  | .loadState, c => (c.state, c)
  | .storeState state, c => ((), { c with state := state })
  | .testReadPacket, c => (c.hasReadPacket, c)
  | .testOnCloseEvent, c => (c.hasOnCloseEvent, c)
  | .effect e, c => ((), { c with effects := c.effects ++ [e] })

def loadState : Prog ctrlSig ConnState := act CtrlAct.loadState ret

def testReadPacket : Prog ctrlSig Bool := act CtrlAct.testReadPacket ret

def testOnCloseEvent : Prog ctrlSig Bool := act CtrlAct.testOnCloseEvent ret

def effect (e : Effect) : Prog ctrlSig Unit := act (CtrlAct.effect e) ret

def storeState (state : ConnState) : Prog ctrlSig Unit := act (CtrlAct.storeState state) ret

/-- `TcpSocketWrapper::OnErrorEvent`. -/
def onErrorEvent : Prog ctrlSig Unit := do
  effect .eventDelRead
  effect .eventDelWrite
  storeState .closed
  let set ← testOnCloseEvent
  if set then
    effect .postOnCloseEvent
  else
    ret ()

/-- The branch of `TryProcessBufferedDataInWorkLoop` for an illegal payload length. -/
def illegalLength : Prog ctrlSig Unit := do
  effect .eventDelRead
  effect .eventDelWrite
  let set ← testOnCloseEvent
  if set then
    effect .signalOnCloseEvent
  else
    ret ()

/-! ## Receiving -/

/-- The outcomes of `::read`. -/
inductive ReadResult where
  /-- The bytes it has put into the buffer -/
  | data (b : Block)
  /-- It returns 0 -/
  | eof
  /-- It fails with `EAGAIN` or `EINTR` -/
  | again
  /-- It fails otherwise -/
  | error

/-- The actions of the receiving half of a socket. -/
inductive RecvAct where
  | ring (a : RingBuffer.Act)
  | ctrl (a : CtrlAct)
  | read (len : UInt32)
  /-- `SignalReadPacket(bytes)` -/
  | signalReadPacket (bytes : List UInt8)
  /-- A run of `TryProcessBufferedDataInWorkLoop` begins -/
  | beginRun

def recvSig : Signature where
  Act := RecvAct
  Res
    | .ring a => RingBuffer.sig.Res a
    | .ctrl a => ctrlSig.Res a
    | .read _ => ReadResult
    | .signalReadPacket _ => Unit
    | .beginRun => Unit

def recvRing : Embedding RingBuffer.sig recvSig where
  act := .ring
  res _ r := r

def recvCtrl : Embedding ctrlSig recvSig where
  act := .ctrl
  res _ r := r

def read (len : UInt32) : Prog recvSig ReadResult := act (RecvAct.read len) ret

def signalReadPacket (bytes : List UInt8) : Prog recvSig Unit :=
  act (RecvAct.signalReadPacket bytes) ret

section Receiving

variable {α : Type}

/-- A program on `receiver_buffer_`. -/
def onReceiver (p : Prog RingBuffer.sig α) : Prog recvSig α := p.lift recvRing

variable (sh : Shape) (o : ByteOrder)

/-- `TcpSocketWrapper::TryReadDataFromSocket`. `::read` stores the bytes at the write head. -/
def tryReadDataFromSocket : Prog recvSig Unit := do
  let available ← onReceiver (availableSeriesWrite sh)
  let head ← onReceiver (currentSeriesWriteHead sh)
  let result ← read available
  match result with
  | .eof => onErrorEvent.lift recvCtrl
  | .again => ret ()
  | .error => onErrorEvent.lift recvCtrl
  | .data b => do
    onReceiver (storeBytes head b.bytes)
    onReceiver (consumeSeriesWriteLen sh b.len)
    (effect .queueTryProcess).lift recvCtrl

/-- `TcpSocketWrapper::OnReadEvent`. -/
def onReadEvent : Prog recvSig Unit := do
  let state ← loadState.lift recvCtrl
  if state = .connected then
    tryReadDataFromSocket sh
  else
    ret ()

/-- The payload length in the header at the read head, which may be split by the end of the
    array. -/
def payloadLength (availableSeriesRead : UInt32) : Prog RingBuffer.sig UInt16 :=
  if availableSeriesRead ≥ 2 then do
    let head ← currentSeriesReadHead sh
    let b₀ ← loadByte head
    let b₁ ← loadByte (head + 1)
    ret (o.value b₀ b₁)
  else do
    let head ← currentSeriesReadHead sh
    let b₀ ← loadByte head
    let b₁ ← loadByte dataHead
    ret (o.value b₀ b₁)

/-- `if (SignalReadPacket)` -/
def ifReadPacket (p : Prog recvSig Unit) : Prog recvSig Unit := do
  let set ← testReadPacket.lift recvCtrl
  if set then p else ret ()

/-- A frame that lies in one piece is handed over in place. -/
def handOverInPlace (msgLen : UInt32) : Prog recvSig Unit := do
  ifReadPacket do
    let head ← onReceiver (currentSeriesReadHead sh)
    let bytes ← onReceiver (loadBytes head msgLen.toNat)
    signalReadPacket bytes
  onReceiver (consumeSeriesReadLen sh msgLen)

/-- A frame that is cut by the end of the array is put together in `scope_buffer`. -/
def handOverCopied (availableSeriesRead msgLen : UInt32) : Prog recvSig Unit := do
  let head ← onReceiver (currentSeriesReadHead sh)
  let front ← onReceiver (loadBytes head availableSeriesRead.toNat)
  onReceiver (consumeSeriesReadLen sh availableSeriesRead)
  let remainLen := msgLen - availableSeriesRead
  let head ← onReceiver (currentSeriesReadHead sh)
  let back ← onReceiver (loadBytes head remainLen.toNat)
  onReceiver (consumeSeriesReadLen sh remainLen)
  ifReadPacket (signalReadPacket (front ++ back))

/-- The body of the loop of `TcpSocketWrapper::TryProcessBufferedDataInWorkLoop`. -/
def tryProcessBufferedData : Prog recvSig Bool := do
  let availableRead ← onReceiver (availableRead sh)
  let availableSeriesRead ← onReceiver (availableSeriesRead sh)
  if availableRead < 2 then
    ret false
  else
    let payloadLen ← onReceiver (payloadLength sh o availableSeriesRead)
    if payloadLen.toNat > 65535 ∨ payloadLen.toNat ≤ 0 then
      illegalLength.lift recvCtrl
      ret false
    else
      let msgLen := payloadLen.toUInt32 + 2
      if availableRead < msgLen then
        ret false
      else if availableSeriesRead ≥ msgLen then
        handOverInPlace sh msgLen
        ret true
      else
        handOverCopied sh availableSeriesRead msgLen
        ret true

end Receiving

/-! ## Sending -/

/-- The outcomes of `::send`. -/
inductive SendResult where
  /-- It has taken this many bytes -/
  | sent (n : UInt32)
  /-- It fails with `EAGAIN` or `EINTR` -/
  | again
  /-- It fails otherwise -/
  | error

/-- The actions of the sending half of a socket. -/
inductive SendAct where
  | ring (a : RingBuffer.Act)
  | ctrl (a : CtrlAct)
  | send (bytes : List UInt8)

def sendSig : Signature where
  Act := SendAct
  Res
    | .ring a => RingBuffer.sig.Res a
    | .ctrl a => ctrlSig.Res a
    | .send _ => SendResult

def sendRing : Embedding RingBuffer.sig sendSig where
  act := .ring
  res _ r := r

def sendCtrl : Embedding ctrlSig sendSig where
  act := .ctrl
  res _ r := r

section Sending

variable {α : Type}

/-- A program on `sender_buffer_`. -/
def onSender (p : Prog RingBuffer.sig α) : Prog sendSig α := p.lift sendRing

def send (bytes : List UInt8) : Prog sendSig SendResult := act (SendAct.send bytes) ret

variable (sh : Shape) (o : ByteOrder)

/-- `TcpSocketWrapper::SendData`. The length without the header is written over the first two
    bytes. -/
def sendData (data : List UInt8) (len : UInt64) : Prog sendSig Bool :=
  if len > 65537 then
    ret false
  else do
    let available ← onSender (availableWrite sh)
    if available.toUInt64 < len + 2 then
      ret false
    else
      let content := o.header (len - 2).toUInt16 ++ data.drop 2
      let _ ← onSender (writeContent sh content len.toUInt32)
      (effect .runTryWrite).lift sendCtrl
      ret true

/-- `TcpSocketWrapper::SendDataWithHead`. The result of `WriteContent` is not looked at. -/
def sendDataWithHead (buff : List UInt8) : Prog sendSig Bool := do
  let _ ← onSender (writeContent sh buff (UInt32.ofNat buff.length))
  (effect .runTryWrite).lift sendCtrl
  ret true

/-- The load before the loop of `TcpSocketWrapper::TryWriteBufferToSocket`. -/
def tryWriteBegin : Prog sendSig UInt32 :=
  onSender (availableSeriesRead sh)

/-- One round of the loop of `TcpSocketWrapper::TryWriteBufferToSocket`, with the value of
    `available_read`. It returns the next value, or `none` when the function returns. -/
def tryWriteRound (availableRead : UInt32) : Prog sendSig (Option UInt32) :=
  if availableRead > 0 then do
    let head ← onSender (currentSeriesReadHead sh)
    let bytes ← onSender (loadBytes head availableRead.toNat)
    let result ← send bytes
    match result with
    | .error => do
      onErrorEvent.lift sendCtrl
      ret none
    | .again => do
      (effect .eventAddWrite).lift sendCtrl
      ret none
    | .sent n => do
      onSender (consumeSeriesReadLen sh n)
      let available ← onSender (availableSeriesRead sh)
      ret (some available)
  else
    ret none

end Sending

end ReechatBase.TcpSocket
