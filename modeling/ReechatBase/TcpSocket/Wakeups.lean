import ReechatBase.TcpSocket.Wrapper

/-!
# Work that is left is announced

Each side of a `TcpSocketWrapper` looks at a ring, finds nothing, and stops; the other side must
have announced whatever it publishes after that last look. This file states what each party
guarantees to the others while it works, and verifies every program of the socket against it.

- `Posted`, `Noticed`: what is published after the other side's run began is announced by a queued
  functor;
- `Roused`: what `TryWriteBufferToSocket` leaves behind is announced by a registered event;
- `wrapper_holds`: the proof outline of the system.
-/

namespace ReechatBase.TcpSocket

open Lib Lib.Prog Lib.Framing RingBuffer

/-! ## Announcements -/

theorem writeRegistered_append (es : List Effect) (e : Effect) :
    writeRegistered (es ++ [e]) = match e with
      | .eventAddWrite => true
      | .eventDelWrite => false
      | _ => writeRegistered es := by
  rw [writeRegistered, List.foldl_append]
  cases e <;> rfl

namespace Wrapper

namespace State

/-- `SignalReadPacket` is set. -/
def Handled (s : State) : Prop := s.rcv.ctrl.hasReadPacket = true

/-- Whatever was published after `TryWriteBufferToSocket` was begun has been posted. -/
def Posted (s : State) : Prop := s.writeStart = s.sndRing.published ∨ s.WriteQueued

/-- Whatever was published after `TryProcessBufferedDataInWorkLoop` was begun has been queued. -/
def Noticed (s : State) : Prop := s.rcv.runStart = s.rcv.ring.published ∨ s.ProcessQueued

/-- The network loop will come back to the sender ring, or the connection is broken. -/
def Roused (s : State) : Prop := s.Registered ∨ s.Broken

/-- The connection has been established. -/
def Begun (s : State) : Prop := s.rcv.ctrl.state = .connected ∨ s.Broken

variable {s : State} {c : Ctrl}

theorem WriteQueued.setCtrl (h : s.WriteQueued) (hc : s.effects <+: c.effects) :
    (s.setCtrl c).WriteQueued :=
  Nat.lt_of_lt_of_le h (hc.sublist.count_le _)

theorem ProcessQueued.setCtrl (h : s.ProcessQueued) (hc : s.effects <+: c.effects) :
    (s.setCtrl c).ProcessQueued :=
  Nat.lt_of_lt_of_le h (hc.sublist.count_le _)

theorem Broken.setCtrl (h : s.Broken) (hc : s.effects <+: c.effects) : (s.setCtrl c).Broken :=
  hc.subset h

theorem Begun.setCtrl (h : s.Begun) (hc : s.effects <+: c.effects)
    (hstate : c.state = s.rcv.ctrl.state) : (s.setCtrl c).Begun :=
  h.imp hstate.trans (·.setCtrl hc)

/-- Only `event_del` takes the registration away. -/
theorem Roused.setCtrl (h : s.Roused) (hfired : s.firedAt ≤ s.effects.length) {e : Effect}
    (hc : c.effects = s.effects ++ [e]) (he : e = .eventDelWrite → s.Broken) :
    (s.setCtrl c).Roused := by
  have hpre : s.effects <+: c.effects := hc ▸ List.prefix_append _ _
  rcases h with hreg | hbroken
  · by_cases hdel : e = .eventDelWrite
    · exact .inr ((he hdel).setCtrl hpre)
    · refine .inl ?_
      have hreg : writeRegistered (s.effects.drop s.firedAt) = true := hreg
      show writeRegistered (c.effects.drop s.firedAt) = true
      rw [hc, List.drop_append_of_le_length hfired, writeRegistered_append]
      split
      · rfl
      · exact absurd rfl hdel
      · exact hreg
  · exact .inr (hbroken.setCtrl hpre)

/-- A registered event. -/
theorem registered_setCtrl (hfired : s.firedAt ≤ s.effects.length)
    (hc : c.effects = s.effects ++ [.eventAddWrite]) : (s.setCtrl c).Registered := by
  show writeRegistered (c.effects.drop s.firedAt) = true
  rw [hc, List.drop_append_of_le_length hfired, writeRegistered_append]

end State

/-! ## What the parties guarantee to each other -/

/-- The worker gets to a frame, that is to `if (SignalReadPacket)` or to `ConsumeSeriesReadLen`,
    only when `SignalReadPacket` is set. -/
def Attended : Party → sig.Act → State → Prop
  | .worker, .rcv (.ctrl .testReadPacket), s => s.Handled
  | .worker, .rcv (.ring (.addReadCount _)), s => s.Handled
  | _, _, _ => True

/-- What the development fixes: the rings, the threads of the parties, and the runs it is about. -/
structure Setting where
  shS : PowShape
  shR : PowShape
  o : ByteOrder
  ndebug : Bool
  host : Party → ℕ
  /-- The runs are confined to attended actions -/
  tracked : Prop
  /-- The socket is accepted on the thread of one of its loops -/
  near : Prop
  shares : near → host .acceptor = host .net ∨ host .acceptor = host .worker

/-- The system in a setting. -/
def Setting.threads (E : Setting) : Threads sig State Party Status :=
  (wrapper E.shS E.shR E.o E.ndebug E.host).restrict fun i a s => E.tracked → Attended i a s

/-- The invariant. -/
structure Inv (E : Setting) (s : State) : Prop where
  sending : Coherent E.shS s.sndRing
  receiving : Coherent E.shR s.rcv.ring
  taken_le : s.rcv.taken ≤ s.rcv.arrived.length
  published : s.rcv.ring.published <+: s.rcv.arrived.take s.rcv.taken
  writeTaken_le : s.writeTaken ≤ s.effects.count .runTryWrite
  processTaken_le : s.processTaken ≤ s.effects.count .queueTryProcess
  firedAt_le : s.firedAt ≤ s.effects.length
  writeStart : s.writeStart <+: s.sndRing.published
  /-- Nothing is sent before the connection is established -/
  begun : s.Begun ∨ s.sndRing.published = []
  handed : E.near → s.phase = .handed → s.Handled
  queued : E.near → E.host .acceptor = E.host .net → 0 < s.effects.count .queueTryProcess →
    s.Handled
  delivered : E.tracked → s.rcv.delivered <+: (framing E.o).parse s.rcv.ring.published
  unhandled : E.tracked → ¬ s.Handled → s.rcv.ring.consumed = 0

structure AcceptorStable (s t : State) : Prop where
  phase : t.phase = s.phase
  handled : s.Handled → t.Handled

structure ProducerStable (s t : State) : Prop where
  ring : WriterRely s.sndRing t.sndRing
  posted : s.Posted → t.Posted
  begun : s.Begun → t.Begun

structure NetStable (s t : State) : Prop where
  sending : ReaderRely s.sndRing t.sndRing
  receiving : NetRely s.rcv t.rcv
  writeStart : t.writeStart = s.writeStart
  effects : s.effects <+: t.effects
  roused : s.Roused → t.Roused
  noticed : s.Noticed → t.Noticed
  handled : s.Handled → t.Handled

structure WorkerStable (s t : State) : Prop where
  receiving : WorkerRely s.rcv t.rcv
  effects : s.effects <+: t.effects
  handled : s.Handled → t.Handled

/-- What each party relies on. -/
def rely : Party → State → State → Prop
  | .acceptor => AcceptorStable
  | .producer => ProducerStable
  | .net => NetStable
  | .worker => WorkerStable

/-- A party guarantees what the others rely on. -/
def guar (i : Party) (s t : State) : Prop := ∀ j, i ≠ j → rely j s t

/-- What the network loop owes the other parties. -/
theorem guar_net {s t : State} (hacceptor : AcceptorStable s t) (hproducer : ProducerStable s t)
    (hworker : WorkerStable s t) : guar .net s t := by
  rintro (_ | _ | _ | _) hij
  · exact hacceptor
  · exact hproducer
  · exact absurd rfl hij
  · exact hworker

/-- What the worker loop owes them. -/
theorem guar_worker {s t : State} (hacceptor : AcceptorStable s t) (hproducer : ProducerStable s t)
    (hnet : NetStable s t) : guar .worker s t := by
  rintro (_ | _ | _ | _) hij
  · exact hacceptor
  · exact hproducer
  · exact hnet
  · exact absurd rfl hij

/-- When each party may perform an action. -/
def safe (E : Setting) : Party → sig.Act → State → Prop
  | .producer, .snd (.ring a), s => writerSafe E.shS True a s.sndRing
  | .net, .snd (.ring a), s => readerSafe E.shS True a s.sndRing
  | .net, .rcv (.ring a), s => writerSafe E.shR True a s.rcv.ring
  | .worker, .rcv (.ring a), s =>
    readerSafe E.shR False a s.rcv.ring ∧ (E.near → Attended .worker (.rcv (.ring a)) s)
  | .worker, .rcv (.ctrl a), s => E.near → Attended .worker (.rcv (.ctrl a)) s
  | _, _, _ => True

/-- What the network loop knows between two programs. -/
structure NetIdle (s : State) : Prop where
  view : NetView s.rcv
  noticed : s.Noticed
  /-- What was published when it began to send is sent, or it will come back -/
  settled : s.writeStart.length ≤ s.sndRing.consumed ∨ s.Roused

/-- What it knows apart from the sender ring while it sends. -/
structure Writing (start : List UInt8) (s : State) : Prop where
  writeStart : s.writeStart = start
  view : NetView s.rcv
  noticed : s.Noticed

/-- What the worker knows apart from the receiver ring, when it has cut the frames `ds`. -/
structure Cut (E : Setting) (start : List UInt8) (ds : List (List UInt8)) (s : State) : Prop where
  runStart : s.rcv.runStart = start
  delivered : E.tracked → s.rcv.delivered = ds
  attended : E.near → s.Handled

/-- Between two rounds of the worker: the frames cut are a part of the parse that ends where it
    stands. -/
def Between (E : Setting) (s : State) : Prop :=
  ∃ start V r ds, ReaderView False V r ds.flatten.length s.rcv.ring ∧ Cut E start ds s ∧
    ds <+: (framing E.o).parse V ∧ start <+: V

/-- After a run of the worker: the parse was through for what it had seen. -/
def Through (E : Setting) (s : State) : Prop :=
  ∃ V r ds, ReaderView False V r ds.flatten.length s.rcv.ring ∧
    (E.tracked → s.rcv.delivered = ds) ∧ ds = (framing E.o).parse V ∧ s.rcv.runStart <+: V

/-- What holds between two programs of a party. -/
def idle (E : Setting) : Party → Status → State → Prop
  | .acceptor, _, _ => True
  | .producer, _, s => s.Posted
  | .net, .writing available, s => ∃ start,
    SendRules.Sending E.shS State.sndRing (fun _ => Writing start) start available s
  | .net, _, s => NetIdle s
  | .worker, .processing, s => Between E s
  | .worker, _, s => Through E s

def outline (E : Setting) :
    Threads.Outline (S := sig) (σ := State) (ι := Party) (ρ := Status) where
  inv := Inv E
  rely := rely
  guar := guar
  safe := safe E
  idle := idle E
  rely_refl := by
    rintro (_ | _ | _ | _) s
    · exact ⟨rfl, id⟩
    · exact ⟨.refl _, id, id⟩
    · exact ⟨.refl _, .refl _, rfl, List.prefix_rfl, id, id, id⟩
    · exact ⟨.refl _, List.prefix_rfl, id⟩
  rely_trans := by
    rintro (_ | _ | _ | _) s t u h h'
    · exact ⟨h'.phase.trans h.phase, h'.handled ∘ h.handled⟩
    · exact ⟨h.ring.trans h'.ring, h'.posted ∘ h.posted, h'.begun ∘ h.begun⟩
    · exact ⟨h.sending.trans h'.sending, h.receiving.trans h'.receiving,
        h'.writeStart.trans h.writeStart, h.effects.trans h'.effects, h'.roused ∘ h.roused,
        h'.noticed ∘ h.noticed, h'.handled ∘ h.handled⟩
    · exact ⟨h.receiving.trans h'.receiving, h.effects.trans h'.effects, h'.handled ∘ h.handled⟩
  compat i j hij _ _ _ _ h := h j hij

/-- The discipline of a party. -/
abbrev disc (E : Setting) (i : Party) : Discipline sig State :=
  (outline E).disc E.threads i

/-- Its programs of the sending half. -/
abbrev sndDisc (E : Setting) (i : Party) : Discipline sendSig State :=
  (disc E i).comap sndActs

/-- Its programs of the receiving half. -/
abbrev rcvDisc (E : Setting) (i : Party) : Discipline recvSig State :=
  (disc E i).comap rcvActs

/-! ## Steps on the members other than the rings -/

section Members

variable {E : Setting} {i : Party} {s t : State} {c : Ctrl}

theorem Inv.setCtrl (h : Inv E s) (heff : s.effects <+: c.effects)
    (hhandled : s.Handled → c.hasReadPacket = true) (hbegun : s.Begun → (s.setCtrl c).Begun)
    (hqueued : c.effects.count .queueTryProcess = s.effects.count .queueTryProcess ∨
      (E.near → E.host .acceptor = E.host .net → s.Handled)) : Inv E (s.setCtrl c) where
  sending := h.sending
  receiving := h.receiving
  taken_le := h.taken_le
  published := h.published
  writeTaken_le := h.writeTaken_le.trans (heff.sublist.count_le _)
  processTaken_le := h.processTaken_le.trans (heff.sublist.count_le _)
  firedAt_le := h.firedAt_le.trans heff.length_le
  writeStart := h.writeStart
  begun := h.begun.imp_left hbegun
  handed hnear hphase := hhandled (h.handed hnear hphase)
  queued hnear hhost hpos := by
    refine hhandled ?_
    -- nothing was queued, or the acceptor shares the thread and has set the callback
    rcases hqueued with hsame | hset
    · exact h.queued hnear hhost (hsame ▸ hpos)
    · exact hset hnear hhost
  delivered := h.delivered
  unhandled htracked hunset := h.unhandled htracked fun hset => hunset (hhandled hset)

/-- What a party does to the members other than the rings disturbs the others no more than this. -/
theorem guar_setCtrl (heff : s.effects <+: c.effects)
    (hhandled : s.Handled → c.hasReadPacket = true) (hbegun : s.Begun → (s.setCtrl c).Begun)
    (hroused : i ≠ .net → s.Roused → (s.setCtrl c).Roused) : guar i s (s.setCtrl c) := by
  intro j hij
  cases j with
  | acceptor => exact ⟨rfl, hhandled⟩
  | producer => exact ⟨.refl _, fun h => h.imp_right (·.setCtrl heff), hbegun⟩
  | net =>
    exact ⟨.refl _, ⟨.refl _, rfl, List.prefix_rfl⟩, rfl, heff, hroused hij,
      fun h => h.imp_right (·.setCtrl heff), hhandled⟩
  | worker => exact ⟨⟨.refl _, rfl, rfl⟩, heff, hhandled⟩

/-- The programs of a party on these members. -/
def members (E : Setting) (i : Party) : Discipline ctrlSig State :=
  (disc E i).via
    (fun a s r t => r = (Ctrl.exec a s.rcv.ctrl).1 ∧ t = s.setCtrl (Ctrl.exec a s.rcv.ctrl).2)
    fun a s => E.near → Attended i (.rcv (.ctrl a)) s

theorem wp_sndMembers {α : Type} {p : Prog ctrlSig α} {Q : α → State → Prop}
    (h : wp (members E i) p Q s) : wp (sndDisc E i) (p.lift sendCtrl) Q s := by
  refine wp_of_via ?_ ?_ h
  · intro a t r u hsem
    obtain ⟨_, rfl, -, hsem⟩ := hsem
    cases hsem with
    | snd hsem =>
      cases hsem
      exact ⟨rfl, rfl⟩
  · intro a t _
    cases i <;> trivial

theorem wp_rcvMembers {α : Type} {p : Prog ctrlSig α} {Q : α → State → Prop}
    (h : wp (members E i) p Q s) : wp (rcvDisc E i) (p.lift recvCtrl) Q s := by
  refine wp_of_via ?_ ?_ h
  · intro a t r u hsem
    obtain ⟨_, rfl, -, hsem⟩ := hsem
    cases hsem with
    | rcv hsem =>
      cases hsem
      exact ⟨rfl, rfl⟩
  · intro a t hsafe
    cases i with
    | worker => exact hsafe
    | _ => trivial

end Members

/-! ## The producer -/

theorem setSndRing_sndRing (s : State) : { s with sndRing := s.sndRing } = s := rfl

/-- The sender ring as a part of the state. -/
def sndRingPart : Lens State Shared where
  get := State.sndRing
  set x s := { s with sndRing := x }
  get_set _ _ := rfl
  set_get := setSndRing_sndRing
  set_set _ _ _ := rfl

theorem sndRing_sem {E : Setting} {i : Party} {a : RingBuffer.Act} {t u : State}
    {r : sendSig.Res (sendRing.act a)} (h : (sndDisc E i).sem (sendRing.act a) t r u) :
    ∃ x, Shared.exec E.shS E.ndebug a (sndRingPart.get t) = some (sendRing.res a r, x) ∧
      u = sndRingPart.set x t := by
  obtain ⟨_, rfl, -, hsem⟩ := h
  cases hsem with
  | snd hsem =>
    cases hsem with
    | ring hexec => exact ⟨_, hexec, rfl⟩

theorem Inv.setSndRing {E : Setting} {s : State} (h : Inv E s) {x : Shared}
    (hx : Coherent E.shS x) (hpub : s.sndRing.published <+: x.published)
    (hbegun : s.Begun ∨ x.published = s.sndRing.published) : Inv E { s with sndRing := x } where
  sending := hx
  receiving := h.receiving
  taken_le := h.taken_le
  published := h.published
  writeTaken_le := h.writeTaken_le
  processTaken_le := h.processTaken_le
  firedAt_le := h.firedAt_le
  writeStart := h.writeStart.trans hpub
  begun := by
    rcases hbegun with hbegun | hsame
    · exact .inl hbegun
    · exact h.begun.imp_right hsame.trans
  handed := h.handed
  queued := h.queued
  delivered := h.delivered
  unhandled := h.unhandled

/-- The receiver ring as a part of the state. -/
def rcvRingPart : Lens State Shared where
  get s := s.rcv.ring
  set x s := { s with rcv := { s.rcv with ring := x } }
  get_set _ _ := rfl
  set_get _ := rfl
  set_set _ _ _ := rfl

theorem rcvRing_sem {E : Setting} {i : Party} {a : RingBuffer.Act} {t u : State}
    {r : recvSig.Res (recvRing.act a)} (h : (rcvDisc E i).sem (recvRing.act a) t r u) :
    ∃ x, Shared.exec E.shR E.ndebug a (rcvRingPart.get t) = some (recvRing.res a r, x) ∧
      u = rcvRingPart.set x t := by
  obtain ⟨_, rfl, -, hsem⟩ := h
  cases hsem with
  | rcv hsem =>
    cases hsem with
    | ring hexec => exact ⟨_, hexec, rfl⟩

theorem Inv.setRcvRing {E : Setting} {s : State} (h : Inv E s) {x : Shared}
    (hx : Coherent E.shR x) (hgrown : s.rcv.ring.published <+: x.published)
    (hpub : x.published <+: s.rcv.arrived.take s.rcv.taken)
    (hconsumed : E.tracked → ¬ s.Handled → x.consumed = s.rcv.ring.consumed) :
    Inv E { s with rcv := { s.rcv with ring := x } } where
  sending := h.sending
  receiving := hx
  taken_le := h.taken_le
  published := hpub
  writeTaken_le := h.writeTaken_le
  processTaken_le := h.processTaken_le
  firedAt_le := h.firedAt_le
  writeStart := h.writeStart
  begun := h.begun
  handed := h.handed
  queued := h.queued
  delivered htracked := (h.delivered htracked).trans (Format.parse_isPrefix hgrown)
  unhandled htracked hunset := (hconsumed htracked hunset).trans (h.unhandled htracked hunset)

section Producer

variable {E : Setting} {s t : State} {P : List UInt8}

/-- What the producer knows within a call that began when `P` had been published. -/
structure Calling (P : List UInt8) (s : State) : Prop where
  begun : s.Begun
  grown : P <+: s.sndRing.published
  posted : s.sndRing.published = P → s.Posted

theorem Calling.of_rely (h : Calling P s) (hst : ProducerStable s t) : Calling P t where
  begun := hst.begun h.begun
  grown := hst.ring.published ▸ h.grown
  posted hP := hst.posted (h.posted (hst.ring.published ▸ hP))

/-- A program of the writer in the producer. -/
theorem wp_producer_ring {α : Type} {goal : List UInt8} {p : Prog RingBuffer.sig α}
    {Q : α → Shared → Prop} (hs : Calling P s)
    (h : wp (writerDisc E.shS E.ndebug True goal) p Q s.sndRing) :
    wp (sndDisc E .producer) (onSender p) (fun a t => Q a t.sndRing ∧ Calling P t) s := by
  refine wp_lift_act (L := sndRingPart) (P := Calling P) (fun _ _ _ _ h => sndRing_sem h)
    ?_ (fun _ h => h.sending) (fun _ _ _ h => h) ?_ ?_ h hs
  · exact fun _ _ hst => ProducerStable.ring hst
  · exact fun _ _ hcall hst _ => hcall.of_rely hst
  rintro a t r x hcall hinv - - hx ⟨hguar, -⟩
  refine ⟨hinv.setSndRing hx hguar.published (.inl hcall.begun), ?_, hcall.begun,
    hcall.grown.trans hguar.published, fun hP => ?_⟩
  · rintro (_ | _ | _ | _) hij
    · -- what the other parties rely on, one after the other
      exact ⟨rfl, id⟩
    · exact absurd rfl hij
    · exact ⟨hguar, .refl _, rfl, List.prefix_rfl, id, id, id⟩
    · exact ⟨.refl _, List.prefix_rfl, id⟩
  · -- what has been published since the call began is still nothing
    have hle : t.sndRing.published.length ≤ P.length := by
      rw [← hP]
      exact hguar.published.length_le
    have hsame : t.sndRing.published = P := (hcall.grown.eq_of_length_le hle).symm
    refine (hcall.posted hsame).imp_left fun hstart => ?_
    exact hstart.trans (hsame.trans hP.symm)

/-- `RunInLoop(TryWriteBufferToSocket)` posts whatever has been published. -/
theorem wp_runTryWrite : wp (sndDisc E .producer) ((effect .runTryWrite).lift sendCtrl)
    (fun _ t => t.Posted) s := by
  refine wp_sndMembers fun t _ ht => ⟨fun _ => trivial, ?_⟩
  rintro _ _ ⟨rfl, rfl⟩
  have heff : t.effects <+: t.effects ++ [Effect.runTryWrite] := List.prefix_append _ _
  refine ⟨ht.setCtrl heff id (·.setCtrl heff rfl) (.inl ?_), ?_, fun u hu _ => hu.posted (.inr ?_)⟩
  · show (t.effects ++ [Effect.runTryWrite]).count Effect.queueTryProcess = _
    simp
  · exact guar_setCtrl heff id (·.setCtrl heff rfl) fun _ h => h.setCtrl ht.firedAt_le rfl nofun
  · show t.writeTaken < (t.effects ++ [Effect.runTryWrite]).count Effect.runTryWrite
    have hle := ht.writeTaken_le
    simp
    omega

/-- Writing a buffer and posting it. -/
theorem wp_writeAndPost {w : UInt32} {arr : ℕ → UInt8} {free : ℕ} (content : List UInt8)
    {len : UInt32} (hlen : len.toNat ≤ content.length)
    (hview : WriterView E.shS P w arr free s.sndRing) (hs : Calling P s) :
    wp (sndDisc E .producer) (do
        let _ ← onSender (writeContent E.shS.toShape content len)
        (effect .runTryWrite).lift sendCtrl
        ret true)
      (fun _ t => t.Posted) s := by
  let b : Block := ⟨content.take len.toNat, len, List.length_take_of_le hlen⟩
  rw [← writeContent_take]
  refine wp_seq (wp_producer_ring hs (wp_writeContent hview b)) fun _ t _ _ => ?_
  refine wp_seq wp_runTryWrite fun _ u _ hposted => ?_
  exact fun v hv _ => ProducerStable.posted hv hposted

theorem wp_sendData (data : List UInt8) {len : UInt64} (hlen : data.length = len.toNat)
    (hinv : Inv E s) (hbegun : s.Begun) (hs : s.Posted) :
    wp (sndDisc E .producer) (sendData E.shS.toShape E.o data len) (fun _ t => t.Posted) s := by
  have hcall : Calling s.sndRing.published s := ⟨hbegun, List.prefix_rfl, fun _ => hs⟩
  rw [sendData]
  split
  · -- a length that is refused publishes nothing
    exact fun t hst _ => ProducerStable.posted hst hs
  · next hshort =>
    have hquery : wp (writerDisc E.shS E.ndebug True []) (availableWrite E.shS.toShape) _
        s.sndRing := wp_availableWrite (WriterView.of_coherent hinv.sending)
    refine wp_seq (wp_producer_ring hcall hquery) ?_
    rintro n t _ ⟨⟨_, hview⟩, hcall⟩
    split
    · -- nor does a message that finds no room
      exact fun u hu _ => ProducerStable.posted hu (hcall.posted hview.published)
    · have hlen32 : len.toUInt32.toNat = len.toNat := by
        rw [gt_iff_lt, UInt64.lt_iff_toNat_lt] at hshort
        have hmax : (65537 : UInt64).toNat = 65537 := rfl
        rw [UInt64.toNat_toUInt32, Nat.mod_eq_of_lt (by omega)]
      -- the header and the payload are as long as `len` says
      refine wp_writeAndPost _ ?_ hview hcall
      have hheader : (E.o.header (len - 2).toUInt16).length = 2 := by cases E.o <;> rfl
      rw [hlen32, List.length_append, hheader, List.length_drop]
      omega

theorem wp_sendDataWithHead (buff : List UInt8) (hinv : Inv E s) (hbegun : s.Begun)
    (hs : s.Posted) :
    wp (sndDisc E .producer) (sendDataWithHead E.shS.toShape buff) (fun _ t => t.Posted) s := by
  refine wp_writeAndPost buff ?_ (WriterView.of_coherent hinv.sending)
    ⟨hbegun, List.prefix_rfl, fun _ => hs⟩
  rw [UInt32.toNat_ofNat']
  exact Nat.mod_le _ _

/-- **One call of the producer** leaves nothing unannounced. -/
theorem wp_produce {p : Prog sendSig Bool}
    (hp : ∀ t, Inv E t → t.Begun → t.Posted →
      wp (sndDisc E .producer) p (fun _ u => u.Posted) t) (hs : s.Posted) :
    wp (disc E .producer) (produce p) (idle E .producer) s := by
  have hcall : wp (sndDisc E .producer) (ifConnected p) (fun _ t => t.Posted) s := by
    -- `SendData` looks at `state_` first; what it finds may be out of date at the next step
    have hload : wp (sndDisc E .producer) (loadState.lift sendCtrl)
        (fun state t => t.Posted ∧ (state = .connected → t.Begun)) s := by
      refine wp_sndMembers fun t hst ht => ⟨fun _ => trivial, ?_⟩
      rintro _ _ ⟨rfl, rfl⟩
      refine ⟨ht, fun j _ => (outline E).rely_refl j t, fun u hu _ => ?_⟩
      exact ⟨ProducerStable.posted hu (ProducerStable.posted hst hs),
        fun h => ProducerStable.begun hu (.inl h)⟩
    refine wp_seq hload ?_
    rintro state t ht ⟨hposted, hbegun⟩
    split
    · -- a producer that finds `CS_CONNECTED` finds a socket that has begun
      next hconn => exact hp t ht (hbegun hconn) hposted
    · exact fun u hu _ => ProducerStable.posted hu hposted
  refine wp_seq (wp_of_comap hcall) fun _ t _ hposted => ?_
  exact fun u hu _ => ProducerStable.posted hu hposted

end Producer

/-! ## The network loop -/

section Net

variable {E : Setting} {s t : State} {start : List UInt8}

theorem NetIdle.of_rely (h : NetIdle s) (hst : NetStable s t) : NetIdle t where
  view := h.view.of_rely hst.receiving
  noticed := hst.noticed h.noticed
  settled := by
    rw [hst.writeStart, hst.sending.consumed]
    exact h.settled.imp_right hst.roused

theorem Writing.of_rely (h : Writing start s) (hst : NetStable s t) : Writing start t :=
  ⟨hst.writeStart.trans h.writeStart, h.view.of_rely hst.receiving, hst.noticed h.noticed⟩

/-! ### Members other than the rings -/

/-- An effect of the network loop. When it queues `TryProcessBufferedDataInWorkLoop` on the
    accepting thread, the socket must have been handed over. -/
theorem wp_effect_net {e : Effect} {P : State → Prop} (he : e ≠ .queueTryProcess ∨
      (E.near → E.host .acceptor = E.host .net → s.Handled))
    (hP : ∀ t, NetStable s t → Inv E t → P (t.setCtrl (Ctrl.exec (.effect e) t.rcv.ctrl).2))
    (hstable : ∀ t u, P t → NetStable t u → P u) :
    wp (members E .net) (effect e) (fun _ => P) s := by
  refine fun t hst ht => ⟨fun _ => trivial, ?_⟩
  rintro _ _ ⟨rfl, rfl⟩
  have heff : t.effects <+: t.effects ++ [e] := List.prefix_append _ _
  refine ⟨ht.setCtrl heff id (·.setCtrl heff rfl) ?_, ?_, fun u hu _ => ?_⟩
  · refine he.imp (fun hne => ?_) fun hset hnear hhost => NetStable.handled hst (hset hnear hhost)
    show (t.effects ++ [e]).count Effect.queueTryProcess = _
    rw [List.count_append, List.count_singleton, if_neg (by simpa using hne), Nat.add_zero]
  · exact guar_setCtrl heff id (·.setCtrl heff rfl) fun h => absurd rfl h
  · exact hstable _ u (hP t hst ht) hu

/-- What the network loop knows while it closes the connection. -/
structure Failing (s : State) : Prop where
  view : NetView s.rcv
  noticed : s.Noticed
  broken : s.Broken

theorem Failing.of_rely (h : Failing s) (hst : NetStable s t) : Failing t :=
  ⟨h.view.of_rely hst.receiving, hst.noticed h.noticed, hst.effects.subset h.broken⟩

theorem Failing.setCtrl (h : Failing s) {c : Ctrl} (hc : s.effects <+: c.effects) :
    Failing (s.setCtrl c) :=
  ⟨⟨h.view.taken_le, h.view.published⟩, h.noticed.imp_right (·.setCtrl hc), h.broken.setCtrl hc⟩

theorem Failing.idle (h : Failing s) : NetIdle s :=
  ⟨h.view, h.noticed, .inr (.inr h.broken)⟩

/-- `OnErrorEvent`. -/
theorem wp_onErrorEvent (hview : NetView s.rcv) (hnoticed : s.Noticed) :
    wp (members E .net) onErrorEvent (fun _ => NetIdle) s := by
  refine wp_seq (R := fun _ => Failing)
    (wp_effect_net (.inl (by decide)) ?_ fun _ _ h => h.of_rely) ?_
  · intro t hst _
    have heff : t.effects <+: t.effects ++ [Effect.eventDelRead] := List.prefix_append _ _
    have hview := hview.of_rely hst.receiving
    exact ⟨⟨hview.taken_le, hview.published⟩, (hst.noticed hnoticed).imp_right (·.setCtrl heff),
      List.mem_append_right _ (List.mem_singleton_self _)⟩
  intro _ t _ hfail
  -- behind the first effect the connection counts as broken, and stays so
  have hmore : ∀ {e : Effect} {t : State}, e ≠ .queueTryProcess → Failing t →
      wp (members E .net) (effect e) (fun _ => Failing) t := fun he hfail =>
    wp_effect_net (.inl he) (fun u hu _ => (hfail.of_rely hu).setCtrl (List.prefix_append _ _))
      fun _ _ h => h.of_rely
  refine wp_seq (hmore (by decide) hfail) fun _ t _ hfail => ?_
  have hclose : wp (members E .net) (storeState .closed) (fun _ => Failing) t := by
    refine fun u hu hinv => ⟨fun _ => trivial, ?_⟩
    rintro _ _ ⟨rfl, rfl⟩
    have hfail := hfail.of_rely hu
    have heff : u.effects <+: u.effects := List.prefix_rfl
    have hnew : Failing (u.setCtrl { u.rcv.ctrl with state := .closed }) := hfail.setCtrl heff
    have hbegun : u.Begun → State.Begun _ := fun _ => .inr hnew.broken
    exact ⟨hinv.setCtrl heff id hbegun (.inl rfl), guar_setCtrl heff id hbegun fun _ h => h,
      fun v hv _ => hnew.of_rely hv⟩
  refine wp_seq hclose fun _ t _ hfail => ?_
  have htest : wp (members E .net) testOnCloseEvent (fun _ => Failing) t := by
    refine fun u hu hinv => ⟨fun _ => trivial, ?_⟩
    rintro _ _ ⟨rfl, rfl⟩
    exact ⟨hinv, fun j _ => (outline E).rely_refl j u,
      fun v hv _ => (hfail.of_rely hu).of_rely hv⟩
  refine wp_seq htest fun set t _ hfail => ?_
  split
  · exact wp_mono (fun _ _ _ h => h.idle) (hmore (by decide) hfail)
  · exact fun u hu _ => (hfail.of_rely hu).idle

/-! ### TryWriteBufferToSocket -/

/-- A program of the reader of the sender ring. -/
theorem wp_net_sndRing {α : Type} {p : Prog RingBuffer.sig α} {Q : α → Shared → Prop}
    (hs : Writing start s) (h : wp (readerDisc E.shS E.ndebug True False) p Q s.sndRing) :
    wp (sndDisc E .net) (onSender p) (fun a t => Q a t.sndRing ∧ Writing start t) s := by
  refine wp_lift_act (L := sndRingPart) (P := Writing start) (fun _ _ _ _ h => sndRing_sem h)
    ?_ (fun _ h => h.sending) (fun _ _ _ h => h) ?_ ?_ h hs
  · exact fun _ _ hst => ⟨NetStable.sending hst, (NetStable.sending hst).published, False.elim⟩
  · exact fun _ _ hw hst _ => hw.of_rely hst
  intro a t r x hw hinv _ _ hx hguar
  -- the reader publishes nothing, so that what was to be sent stays the same
  have hpub : x.published = t.sndRing.published := hguar.published
  refine ⟨hinv.setSndRing hx (hpub ▸ List.prefix_rfl) (.inr hpub), ?_,
    ⟨hw.writeStart, hw.view, hw.noticed⟩⟩
  exact guar_net ⟨rfl, id⟩ ⟨hguar, fun h => h.imp_left (·.trans hpub.symm), id⟩
    ⟨.refl _, List.prefix_rfl, id⟩

/-- The rules of a round of `TryWriteBufferToSocket` begun when `start` had been published. -/
theorem sendRules_wrapper (E : Setting) (start : List UInt8) :
    SendRules E.shS E.ndebug (sndDisc E .net) State.sndRing (fun _ => Writing start) NetIdle
      start where
  rely hst := ⟨NetStable.sending hst, (NetStable.sending hst).published, False.elim⟩
  stable h hst := h.of_rely hst
  stable_done h hst := h.of_rely hst
  onSender hw h := wp_net_sndRing hw h
  send := by
    intro V r c s bytes hring hw _ _ t hst ht
    have hring := hring.of_readerRely (NetStable.sending hst)
    have hw := hw.of_rely hst
    refine ⟨trivial, ?_⟩
    rintro _ u ⟨result, rfl, -, hsem⟩
    -- `::send` touches nothing but what has been sent
    obtain ⟨⟨sent, rfl⟩, hbound⟩ : (∃ sent, u = { t with sent := sent }) ∧
        ∀ n, (result : SendResult) = .sent n → n.toNat ≤ bytes.length := by
      cases hsem with
      | snd hsem =>
        cases hsem with
        | sendTake _ hle =>
          refine ⟨⟨_, rfl⟩, fun m hm => ?_⟩
          cases hm
          exact hle
        | sendAgain => exact ⟨⟨_, rfl⟩, fun _ hm => by cases hm⟩
        | sendError => exact ⟨⟨_, rfl⟩, fun _ hm => by cases hm⟩
    refine ⟨{ ht with }, ?_, fun v hv _ => ?_⟩
    · exact guar_net ⟨rfl, id⟩ ⟨.refl _, id, id⟩ ⟨.refl _, List.prefix_rfl, id⟩
    · have hv : NetStable { t with sent := sent } v := hv
      have hringv : ReaderView False V r c v.sndRing := hring.of_readerRely hv.sending
      have hwv : Writing start v :=
        Writing.of_rely (s := { t with sent := sent }) ⟨hw.writeStart, hw.view, hw.noticed⟩ hv
      rcases (result : SendResult) with n | _ | _
      · exact ⟨hbound n rfl, hringv, hwv⟩
      · exact ⟨hringv, hwv⟩
      · exact ⟨hringv, hwv⟩
  onErrorEvent hring hw := wp_sndMembers (wp_onErrorEvent hw.view hw.noticed)
  eventAddWrite := by
    intro V r c s hring hw
    refine wp_sndMembers (wp_effect_net (.inl (by decide)) ?_ fun _ _ h => h.of_rely)
    intro t hst ht
    have hw := hw.of_rely hst
    have heff : t.effects <+: t.effects ++ [Effect.eventAddWrite] := List.prefix_append _ _
    exact ⟨⟨hw.view.taken_le, hw.view.published⟩, hw.noticed.imp_right (·.setCtrl heff),
      .inr (.inl (State.registered_setCtrl ht.firedAt_le rfl))⟩
  finished hstart hring hw := by
    refine ⟨hw.view, hw.noticed, .inl ?_⟩
    -- the reader has passed everything that was published when the function began
    rw [hw.writeStart, hring.consumed]
    exact hstart.length_le

/-- The first look at the sender ring. -/
theorem wp_firstLook (hw : Writing s.sndRing.published s) :
    wp (disc E .net) (do
        let available ← (tryWriteBegin E.shS.toShape).lift sndActs
        ret (.writing available))
      (idle E .net) s := by
  have hrules := sendRules_wrapper E s.sndRing.published
  refine wp_seq (wp_of_comap (hrules.wp_loadAvailable List.prefix_rfl
    (⟨.refl _ _, rfl, rfl⟩ : ReaderView False s.sndRing.published _ s.sndRing.consumed s.sndRing)
    hw)) ?_
  exact fun available t _ h u hu _ => ⟨_, hrules.sending_of_rely h hu⟩

/-- `TryWriteBufferToSocket` begins: what has been published by now is what it is to send. -/
theorem wp_beginWrite {begin : Act} (hbegin : begin = .takeWrite ∨ begin = .fireWrite)
    (hs : NetIdle s) : wp (disc E .net) (beginWrite E.shS.toShape begin) (idle E .net) s := by
  intro t hst ht
  have hidle := hs.of_rely hst
  refine ⟨by rcases hbegin with rfl | rfl <;> trivial, ?_⟩
  rintro _ u ⟨-, hsem⟩
  obtain ⟨taken, fired, rfl, htaken, hfired⟩ : ∃ taken fired,
      u = { t with writeTaken := taken, firedAt := fired, writeStart := t.sndRing.published } ∧
      taken ≤ t.effects.count .runTryWrite ∧ fired ≤ t.effects.length := by
    rcases hbegin with rfl | rfl
    · cases hsem with
      | takeWrite hqueued => exact ⟨_, _, rfl, hqueued, ht.firedAt_le⟩
    · cases hsem with
      | fireWrite _ => exact ⟨_, _, rfl, ht.writeTaken_le, le_rfl⟩
  refine ⟨{ ht with
    writeTaken_le := htaken, firedAt_le := hfired, writeStart := List.prefix_rfl }, ?_,
    wp_firstLook ⟨rfl, hidle.view, hidle.noticed⟩⟩
  -- `writeStart` is what was published: the producer has nothing unannounced left
  exact guar_net ⟨rfl, id⟩ ⟨.refl _, fun _ => .inl rfl, id⟩ ⟨.refl _, List.prefix_rfl, id⟩

/-- **One round of `TryWriteBufferToSocket`**: when the function returns, what it was to send is
    sent, or it will be called again. -/
theorem wp_writeRound {available : UInt32} (hs : idle E .net (.writing available) s) :
    wp (disc E .net) (writeRound E.shS.toShape available) (idle E .net) s := by
  obtain ⟨start, hsending⟩ := hs
  have hrules := sendRules_wrapper E start
  refine wp_seq (wp_of_comap (hrules.wp_tryWriteRound hsending)) ?_
  rintro (_ | available') t _ h u hu _
  · exact NetIdle.of_rely h hu
  · exact ⟨start, hrules.sending_of_rely h hu⟩

/-! ### TryReadDataFromSocket -/

/-- What the network loop knows apart from the receiver ring while it reads, if `P` had been
    published when it began and it has read `goal` from the socket by now. -/
structure Reading (E : Setting) (P goal : List UInt8) (s : State) : Prop where
  entitled : Entitled goal.length goal s.rcv
  grown : P <+: s.rcv.ring.published
  noticed : s.rcv.ring.published = P → s.Noticed
  settled : s.writeStart.length ≤ s.sndRing.consumed ∨ s.Roused
  handled : E.near → E.host .acceptor = E.host .net → s.Handled

variable {P goal : List UInt8}

theorem Reading.of_rely (h : Reading E P goal s) (hst : NetStable s t) : Reading E P goal t where
  entitled := h.entitled.of_rely hst.receiving
  grown := hst.receiving.ring.published ▸ h.grown
  noticed hP := hst.noticed (h.noticed (hst.receiving.ring.published ▸ hP))
  settled := by
    rw [hst.writeStart, hst.sending.consumed]
    exact h.settled.imp_right hst.roused
  handled hnear hhost := hst.handled (h.handled hnear hhost)

theorem Reading.idle (h : Reading E P P s) (hpub : s.rcv.ring.published = P) : NetIdle s :=
  ⟨.of_entitled h.entitled hpub rfl, h.noticed hpub, h.settled⟩

/-- A program of the writer of the receiver ring. -/
theorem wp_net_rcvRing {α : Type} {p : Prog RingBuffer.sig α} {Q : α → Shared → Prop}
    (hs : Reading E P goal s) (h : wp (writerDisc E.shR E.ndebug True goal) p Q s.rcv.ring) :
    wp (rcvDisc E .net) (onReceiver p) (fun a t => Q a t.rcv.ring ∧ Reading E P goal t) s := by
  refine wp_lift_act (L := rcvRingPart) (P := Reading E P goal) (fun _ _ _ _ h => rcvRing_sem h)
    ?_ (fun _ h => h.receiving) (fun _ _ _ h => h) ?_ ?_ h hs
  · exact fun _ _ hst => (NetStable.receiving hst).ring
  · exact fun _ _ hr hst _ => hr.of_rely hst
  rintro a t r x hr hinv - - hx ⟨hguar, hpub⟩
  -- published is what it was, or all that was read from the socket
  have hgoal : x.published <+: t.rcv.arrived.take t.rcv.taken := by
    rcases hpub with hsame | hgoal
    · exact hsame ▸ hinv.published
    · rw [hgoal, hr.entitled.taken]
      exact hr.entitled.goal
  refine ⟨hinv.setRcvRing hx hguar.published hgoal fun _ _ => hguar.consumed, ?_,
    ⟨hr.entitled.taken, hr.entitled.taken_le, hr.entitled.goal⟩, hr.grown.trans hguar.published,
    fun hP => ?_, hr.settled, hr.handled⟩
  · exact guar_net ⟨rfl, id⟩ ⟨.refl _, id, id⟩ ⟨⟨hguar, rfl, rfl⟩, List.prefix_rfl, id⟩
  · -- what has been published since is still nothing
    have hle : t.rcv.ring.published.length ≤ P.length := by
      rw [← hP]
      exact hguar.published.length_le
    have hsame : t.rcv.ring.published = P := (hr.grown.eq_of_length_le hle).symm
    refine (hr.noticed hsame).imp_left fun hstart => ?_
    exact hstart.trans (hsame.trans hP.symm)

/-- `::read` in the network loop. -/
theorem wp_read_net {w : UInt32} {arr : ℕ → UInt8} {free : ℕ} {len : UInt32}
    (hring : WriterView E.shR P w arr free s.rcv.ring) (hs : Reading E P P s) :
    wp (rcvDisc E .net) (read len) (fun result t =>
      WriterView E.shR P w arr free t.rcv.ring ∧ match result with
      | .data b => b.len.toNat ≤ len.toNat ∧ Reading E P (P ++ b.bytes) t
      | _ => Reading E P P t) s := by
  intro t hst ht
  have hview := hring.of_rely (NetStable.receiving hst).ring
  have hr := hs.of_rely hst
  have hsame : guar .net t t := fun j _ => (outline E).rely_refl j t
  refine ⟨trivial, ?_⟩
  rintro _ u ⟨result, rfl, -, hsem⟩
  cases hsem with
  | rcv hsem =>
    cases hsem with
    | @readData _ _ b hpos hle hbytes =>
      have havail := length_read hbytes
      -- the bytes taken are those that the ring is to publish next
      have hnew : Reading E P (P ++ b.bytes)
          { t with rcv := { t.rcv with taken := t.rcv.taken + b.len.toNat } } :=
        ⟨hr.entitled.read havail hbytes rfl rfl, hr.grown, hr.noticed, hr.settled, hr.handled⟩
      rw [List.length_drop] at havail
      have htaken := ht.taken_le
      refine ⟨{ ht with
        taken_le := show t.rcv.taken + b.len.toNat ≤ t.rcv.arrived.length by omega
        published := ht.published.trans (List.take_prefix_take_left (Nat.le_add_right _ _)) },
        ?_, fun v hv _ => ⟨hview.of_rely (NetStable.receiving hv).ring, hle, hnew.of_rely hv⟩⟩
      exact guar_net ⟨rfl, id⟩ ⟨.refl _, id, id⟩ ⟨⟨.refl _, rfl, rfl⟩, List.prefix_rfl, id⟩
    | _ =>
      exact ⟨ht, hsame, fun v hv _ => ⟨hview.of_rely (NetStable.receiving hv).ring, hr.of_rely hv⟩⟩

/-- The rules of a run of `TryReadDataFromSocket` begun when `P` had been published. -/
theorem readRules_wrapper (E : Setting) (P : List UInt8) :
    ReadRules E.shR E.ndebug (rcvDisc E .net) (fun s => s.rcv.ring) (Reading E P) NetIdle P where
  stable_done h hst := h.of_rely hst
  onReceiver hr h := wp_net_rcvRing hr h
  read hview hr := wp_read_net hview hr
  onErrorEvent hpub hr :=
    wp_rcvMembers (wp_onErrorEvent (.of_entitled hr.entitled hpub rfl) (hr.noticed hpub))
  queueTryProcess := by
    intro goal s hpub hr
    refine wp_rcvMembers (wp_effect_net (.inr hr.handled) ?_ fun _ _ h => h.of_rely)
    intro t hst ht
    have hr := hr.of_rely hst
    have hview : NetView t.rcv :=
      .of_entitled hr.entitled ((NetStable.receiving hst).ring.published.trans hpub) rfl
    refine ⟨⟨hview.taken_le, hview.published⟩, .inr ?_,
      hr.settled.imp_right (·.setCtrl ht.firedAt_le rfl nofun)⟩
    -- the functor that was just queued is not taken yet
    show t.processTaken < (t.effects ++ [Effect.queueTryProcess]).count Effect.queueTryProcess
    have hle := ht.processTaken_le
    simp
    omega
  nothing hpub hr := hr.idle hpub

/-- **One readable callback**: what it publishes is queued. -/
theorem wp_readOnce (hs : NetIdle s) :
    wp (disc E .net) (readOnce E.shR.toShape) (idle E .net) s := by
  intro t hst ht
  have hidle := hs.of_rely hst
  refine ⟨trivial, ?_⟩
  rintro _ _ ⟨-, hsem⟩
  cases hsem with
  | fireRead hconn hhost =>
    refine ⟨ht, fun j _ => (outline E).rely_refl j t, ?_⟩
    have hlen : t.rcv.ring.published.length = t.rcv.taken := by
      rw [hidle.view.published, List.length_take_of_le hidle.view.taken_le]
    -- all that was read has been published
    have hr : Reading E t.rcv.ring.published t.rcv.ring.published t :=
      ⟨⟨hlen.symm, hlen ▸ hidle.view.taken_le, by rw [hlen, ← hidle.view.published]⟩,
        List.prefix_rfl, fun _ => hidle.noticed, hidle.settled,
        fun hnear hsame => ht.handed hnear (hhost hsame)⟩
    have hload : wp (rcvDisc E .net) (loadState.lift recvCtrl)
        (fun _ u => Reading E t.rcv.ring.published t.rcv.ring.published u ∧
          u.rcv.ring.published = t.rcv.ring.published) t := by
      refine wp_rcvMembers fun u hu hinv => ⟨fun _ => trivial, ?_⟩
      rintro _ _ ⟨rfl, rfl⟩
      refine ⟨hinv, fun j _ => (outline E).rely_refl j u, fun v hv _ => ?_⟩
      have huv : NetStable t v := (outline E).rely_trans .net hu hv
      exact ⟨hr.of_rely huv, huv.receiving.ring.published⟩
    have hrun : wp (rcvDisc E .net) (onReadEvent E.shR.toShape) (fun _ => NetIdle) t := by
      refine wp_seq hload fun state u hinv ⟨hr, hpub⟩ => ?_
      split
      · have hview := WriterView.of_coherent hinv.receiving
        rw [hpub] at hview
        exact (readRules_wrapper E _).wp_tryReadDataFromSocket hview hr
      · exact fun v hv _ => (hr.idle hpub).of_rely hv
    exact wp_seq (wp_of_comap hrun) fun _ u _ h v hv _ => NetIdle.of_rely h hv

/-! ### Establishing the connection -/

theorem wp_beginConnection (hs : NetIdle s) :
    wp (disc E .net) beginConnection (idle E .net) s := by
  intro t hst ht
  have hidle := hs.of_rely hst
  refine ⟨trivial, ?_⟩
  rintro _ _ ⟨-, hsem⟩
  cases hsem with
  | established hphase hclosed =>
    have hinv : Inv E (t.setCtrl { t.rcv.ctrl with state := .connected }) :=
      ht.setCtrl List.prefix_rfl id (fun _ => .inl rfl) (.inl rfl)
    -- nothing has been sent yet, so there is nothing to come back for
    have hsettled : t.writeStart.length ≤ t.sndRing.consumed ∨ t.Broken := by
      rcases ht.begun with (hconn | hbroken) | hnone
      · exact absurd hconn hclosed
      · exact .inr hbroken
      · have hle := ht.writeStart.length_le
        rw [hnone] at hle
        exact .inl (hle.trans (Nat.zero_le _))
    have hnew : NetIdle { t.setCtrl { t.rcv.ctrl with state := .connected } with
        firedAt := t.effects.length } :=
      ⟨⟨hidle.view.taken_le, hidle.view.published⟩, hidle.noticed, hsettled.imp_right .inr⟩
    refine ⟨{ hinv with firedAt_le := le_rfl }, ?_, fun u hu _ => hnew.of_rely hu⟩
    exact guar_net ⟨rfl, id⟩ ⟨.refl _, id, fun _ => .inl rfl⟩
      ⟨⟨.refl _, rfl, rfl⟩, List.prefix_rfl, id⟩
  | failed hphase hclosed =>
    -- `OnErrorEvent` of a socket that never was connected
    refine ⟨ht, fun j _ => (outline E).rely_refl j t, ?_⟩
    refine wp_seq (wp_of_comap (wp_rcvMembers (wp_onErrorEvent hidle.view hidle.noticed))) ?_
    exact fun _ u _ h v hv _ => NetIdle.of_rely h hv

end Net

/-! ## The worker loop -/

/-- Only one action on a ring consumes. -/
theorem consumed_of_exec {sh : PowShape} {ndebug : Bool} {a : RingBuffer.Act} {x y : Shared}
    {r : RingBuffer.sig.Res a} (h : Shared.exec sh ndebug a x = some (r, y)) :
    (∃ n, a = .addReadCount n) ∨ y.consumed = x.consumed := by
  obtain ⟨⟨r', m⟩, -, heq⟩ := Option.map_eq_some_iff.mp h
  cases a with
  | addReadCount n => exact .inl ⟨n, rfl⟩
  | _ =>
    cases heq
    exact .inr rfl

section Worker

variable {E : Setting} {s t : State} {start V : List UInt8} {r : UInt32} {c : ℕ}
  {ds : List (List UInt8)}

theorem Cut.of_rely (h : Cut E start ds s) (hst : WorkerStable s t) : Cut E start ds t where
  runStart := hst.receiving.runStart.trans h.runStart
  delivered htracked := hst.receiving.delivered.trans (h.delivered htracked)
  attended hnear := hst.handled (h.attended hnear)

/-- What the worker knows during a round: where it stands in the ring, and the rest. -/
structure Standing (E : Setting) (start V : List UInt8) (r : UInt32) (c : ℕ)
    (ds : List (List UInt8)) (s : State) : Prop where
  ring : ReaderView False V r c s.rcv.ring
  cut : Cut E start ds s

theorem workerRely_of_stable (hst : WorkerStable s t) {sh : PowShape} {ndebug : Bool}
    {strict : Prop} : (readerDisc sh ndebug strict False).rely s.rcv.ring t.rcv.ring :=
  ⟨hst.receiving.ring, hst.receiving.ring.published, False.elim⟩

theorem Standing.of_rely (h : Standing E start V r c ds s) (hst : WorkerStable s t) :
    Standing E start V r c ds t :=
  ⟨h.ring.of_readerRely hst.receiving.ring, h.cut.of_rely hst⟩

theorem Standing.setCtrl (h : Standing E start V r c ds s) {d : Ctrl}
    (hd : d.hasReadPacket = s.rcv.ctrl.hasReadPacket) :
    Standing E start V r c ds (s.setCtrl d) :=
  ⟨h.ring, h.cut.runStart, h.cut.delivered, fun hnear => hd.trans (h.cut.attended hnear)⟩

/-- A program of the reader of the receiver ring. -/
theorem wp_worker_ring {α : Type} {p : Prog RingBuffer.sig α} {Q : α → Shared → Prop}
    (hs : Cut E start ds s) (h : wp (readerDisc E.shR E.ndebug False False) p Q s.rcv.ring) :
    wp (rcvDisc E .worker) (onReceiver p) (fun a t => Q a t.rcv.ring ∧ Cut E start ds t) s := by
  refine wp_lift_act (L := rcvRingPart) (P := Cut E start ds) (fun _ _ _ _ h => rcvRing_sem h)
    ?_ (fun _ h => h.receiving) ?_ ?_ ?_ h hs
  · exact fun _ _ hst => workerRely_of_stable hst
  · intro a t hcut hsafe
    -- `ConsumeSeriesReadLen` is only called with `SignalReadPacket` set
    refine ⟨hsafe, fun hnear => ?_⟩
    cases a with
    | addReadCount n => exact hcut.attended hnear
    | _ => trivial
  · exact fun _ _ hcut hst _ => hcut.of_rely hst
  rintro a t r x hcut hinv ⟨_, -, hok, -⟩ hexec hx hguar
  have hpub : x.published = t.rcv.ring.published := hguar.published
  refine ⟨hinv.setRcvRing hx (hpub ▸ List.prefix_rfl) (hpub ▸ hinv.published) ?_, ?_,
    ⟨hcut.runStart, hcut.delivered, hcut.attended⟩⟩
  · -- frames are consumed only when `SignalReadPacket` is set
    intro htracked hunset
    rcases consumed_of_exec hexec with ⟨n, rfl⟩ | hsame
    · exact absurd (hok htracked) hunset
    · exact hsame
  · exact guar_worker ⟨rfl, id⟩ ⟨.refl _, id, id⟩
      ⟨.refl _, ⟨hguar, rfl, List.prefix_rfl⟩, rfl, List.prefix_rfl, id,
        fun h => h.imp_left (·.trans hpub.symm), id⟩

/-- An effect of the worker; it takes the registration of `socket_write_event_` away only after
    the connection is broken. -/
theorem wp_effect_worker {e : Effect} (he : e ≠ .queueTryProcess)
    (hdel : e = .eventDelWrite → s.Broken) (hs : Standing E start V r c ds s) :
    wp (members E .worker) (effect e)
      (fun _ t => Standing E start V r c ds t ∧ e ∈ t.effects) s := by
  refine fun t hst ht => ⟨fun _ => trivial, ?_⟩
  rintro _ _ ⟨rfl, rfl⟩
  have heff : t.effects <+: t.effects ++ [e] := List.prefix_append _ _
  have hnew : Standing E start V r c ds (t.setCtrl (Ctrl.exec (.effect e) t.rcv.ctrl).2) :=
    (hs.of_rely hst).setCtrl rfl
  refine ⟨ht.setCtrl heff id (·.setCtrl heff rfl) (.inl ?_), ?_, fun u hu _ => ?_⟩
  · show (t.effects ++ [e]).count Effect.queueTryProcess = _
    rw [List.count_append, List.count_singleton, if_neg (by simpa using he), Nat.add_zero]
  · exact guar_setCtrl heff id (·.setCtrl heff rfl) fun _ h =>
      h.setCtrl ht.firedAt_le rfl fun hw => (WorkerStable.effects hst).subset (hdel hw)
  · exact ⟨hnew.of_rely hu, (WorkerStable.effects hu).subset
      (List.mem_append_right _ (List.mem_singleton_self _))⟩

/-- The branch for an illegal payload length. -/
theorem wp_illegalLength (hs : Standing E start V r c ds s) :
    wp (members E .worker) illegalLength (fun _ => Standing E start V r c ds) s := by
  refine wp_seq (wp_effect_worker (by decide) nofun hs) fun _ t _ ⟨hs, hbroken⟩ => ?_
  refine wp_seq (wp_effect_worker (by decide) (fun _ => hbroken) hs) fun _ t _ ⟨hs, _⟩ => ?_
  have htest : wp (members E .worker) testOnCloseEvent (fun _ => Standing E start V r c ds) t := by
    refine fun u hu hinv => ⟨fun _ => trivial, ?_⟩
    rintro _ _ ⟨rfl, rfl⟩
    exact ⟨hinv, fun j _ => (outline E).rely_refl j u, fun v hv _ => (hs.of_rely hu).of_rely hv⟩
  refine wp_seq htest fun set t _ hs => ?_
  split
  · exact wp_mono (fun _ _ _ h => h.1) (wp_effect_worker (by decide) nofun hs)
  · exact fun u hu _ => hs.of_rely hu

/-- The rules of a round of the worker, in a run begun when `start` had been published. -/
theorem cutRules_wrapper (E : Setting) (start : List UInt8) :
    CutRules E.shR E.o E.ndebug False False (rcvDisc E .worker) (fun s => s.rcv.ring)
      (Cut E start) where
  rely hst := workerRely_of_stable hst
  stable h hst := h.of_rely hst
  onReceiver hcut h := wp_worker_ring hcut h
  illegalLength hring hcut := by
    refine wp_mono ?_ (wp_rcvMembers (wp_illegalLength ⟨hring, hcut⟩))
    exact fun _ t _ h => ⟨h.ring, h.cut⟩
  testReadPacket := by
    intro V r c ds s hring hcut t hst ht
    have hs : Standing E start V r c ds t := Standing.of_rely ⟨hring, hcut⟩ hst
    refine ⟨fun hnear => hs.cut.attended hnear, ?_⟩
    rintro _ u ⟨set, rfl, hok, hsem⟩
    cases hsem with
    | rcv hsem =>
      cases hsem
      refine ⟨ht, fun j _ => (outline E).rely_refl j t, fun v hv _ => ?_⟩
      have hv' := hs.of_rely hv
      refine ⟨hv'.ring, hv'.cut, fun hunset ds' => ⟨hv'.cut.runStart, fun htracked => ?_,
        hv'.cut.attended⟩⟩
      -- the runs in question only look when it is set
      exact absurd (hunset.symm.trans (hok htracked)) Bool.false_ne_true
  signalReadPacket := by
    intro V r c ds s f hring hcut hf t hst ht
    have hs : Standing E start V r c ds t := Standing.of_rely ⟨hring, hcut⟩ hst
    refine ⟨trivial, ?_⟩
    rintro _ u ⟨_, rfl, -, hsem⟩
    cases hsem with
    | rcv hsem =>
      cases hsem
      have hnew : Standing E start V r c (ds ++ [f])
          { t with rcv := { t.rcv with delivered := t.rcv.delivered ++ [f] } } := by
        refine ⟨hs.ring, hs.cut.runStart, fun htracked => ?_, hs.cut.attended⟩
        exact congrArg (· ++ [f]) (hs.cut.delivered htracked)
      refine ⟨{ ht with delivered := fun htracked => ?_ }, ?_, fun v hv _ => ?_⟩
      · show t.rcv.delivered ++ [f] <+: (framing E.o).parse t.rcv.ring.published
        rw [hs.cut.delivered htracked]
        exact hf.trans (Format.parse_isPrefix hs.ring.published.1)
      · exact guar_worker ⟨rfl, id⟩ ⟨.refl _, id, id⟩
          ⟨.refl _, ⟨.refl _, rfl, List.prefix_rfl⟩, rfl, List.prefix_rfl, id, id, id⟩
      · exact ⟨(hnew.of_rely hv).ring, (hnew.of_rely hv).cut⟩

/-- **One round of the worker.** -/
theorem wp_processRound (hs : Between E s) :
    wp (disc E .worker) (processRound E.shR.toShape E.o) (idle E .worker) s := by
  obtain ⟨start, V, r, ds, hring, hcut, hds, hV⟩ := hs
  have hround := (cutRules_wrapper E start).wp_tryProcessBufferedData hring hcut rfl hds False.elim
  refine wp_seq (wp_of_comap hround) ?_
  rintro again t _ ⟨V', r', ds', hV', hring, hcut, hds', hagain⟩ u hu _
  have hu' : Standing E start V' r' ds'.flatten.length ds' u := Standing.of_rely ⟨hring, hcut⟩ hu
  cases again with
  -- the loop goes on from behind the frame
  | true => exact ⟨start, V', r', ds', hu'.ring, hu'.cut, hds', hV.trans hV'.1⟩
  | false =>
    -- it ends when no complete frame is left in what it has seen
    have hall : ds' = (framing E.o).parse V' := by simpa using hagain
    exact ⟨V', r', ds', hu'.ring, hu'.cut.delivered, hall, hu'.cut.runStart ▸ hV.trans hV'.1⟩

/-- A run of the worker begins. -/
theorem wp_beginProcess (hs : Through E s) :
    wp (disc E .worker) (beginProcess E.shR.toShape E.o) (idle E .worker) s := by
  obtain ⟨V, r, ds, hring, hdel, hds, -⟩ := hs
  intro t hst ht
  refine ⟨trivial, ?_⟩
  rintro _ _ ⟨-, hsem⟩
  cases hsem with
  | takeProcess hqueued hhost =>
    have hring := hring.of_readerRely (WorkerStable.receiving hst).ring
    have hdel : E.tracked → t.rcv.delivered = ds := fun htracked =>
      (WorkerStable.receiving hst).delivered.trans (hdel htracked)
    -- on the accepting thread the loop gets here only after the socket has been handed over
    have hset : E.near → t.Handled := by
      intro hnear
      rcases E.shares hnear with hnet | hworker
      · exact ht.queued hnear hnet (Nat.zero_lt_of_lt hqueued)
      · exact ht.handed hnear (hhost hworker)
    have hparse : ds <+: (framing E.o).parse t.rcv.ring.published :=
      hds ▸ Format.parse_isPrefix hring.published.1
    -- the run begins with everything that is published by now
    refine ⟨{ ht with processTaken_le := hqueued }, ?_, wp_processRound ⟨t.rcv.ring.published,
      t.rcv.ring.published, r, ds, ⟨.refl _ _, hring.readCount, hring.consumed⟩,
      ⟨rfl, hdel, hset⟩, hparse, List.prefix_rfl⟩⟩
    exact guar_worker ⟨rfl, id⟩ ⟨.refl _, id, id⟩
      ⟨.refl _, ⟨.refl _, rfl, List.prefix_rfl⟩, rfl, List.prefix_rfl, id, fun _ => .inl rfl, id⟩

end Worker

/-! ## The accepting thread -/

section Acceptor

variable {E : Setting} {s t : State}

/-- A step of the accepting thread that changes the phase only. -/
theorem guar_phase (phase : Phase) : guar .acceptor t { t with phase := phase } := by
  rintro (_ | _ | _ | _) hij
  · exact absurd rfl hij
  · exact ⟨.refl _, id, id⟩
  · exact ⟨.refl _, .refl _, rfl, List.prefix_rfl, id, id, id⟩
  · exact ⟨.refl _, List.prefix_rfl, id⟩

/-- `TcpServerTask::BeginProcess` returns with `SignalReadPacket` set. -/
theorem wp_handOver (hs : s.Handled) :
    wp (disc E .acceptor) (act (S := sig) Act.handOver fun _ => ret .idle) (idle E .acceptor)
      s := by
  refine fun t hst ht => ⟨trivial, ?_⟩
  have hset : t.Handled := AcceptorStable.handled hst hs
  rintro _ _ ⟨-, hsem⟩
  cases hsem with
  | handOver =>
    exact ⟨{ ht with handed := fun _ _ => hset }, guar_phase _, fun _ _ _ => trivial⟩

theorem wp_acceptAndHandOver :
    wp (disc E .acceptor) acceptAndHandOver (idle E .acceptor) s := by
  refine fun t _ ht => ⟨trivial, ?_⟩
  rintro _ _ ⟨-, hsem⟩
  cases hsem with
  | accept hphase =>
    refine ⟨{ ht with handed := fun _ => nofun }, guar_phase _, ?_⟩
    -- from here on the network loop may read and the worker may run
    refine fun u _ hu => ⟨trivial, ?_⟩
    rintro _ _ ⟨-, hsem⟩
    cases hsem with
    | setReadPacket =>
      refine ⟨hu.setCtrl List.prefix_rfl (fun _ => rfl) id (.inl rfl),
        guar_setCtrl List.prefix_rfl (fun _ => rfl) id fun _ h => h, ?_⟩
      refine fun v hv hinv => ⟨trivial, ?_⟩
      have hset : v.Handled := AcceptorStable.handled hv rfl
      rintro _ _ ⟨-, hsem⟩
      cases hsem with
      | setOnCloseEvent =>
        exact ⟨hinv.setCtrl List.prefix_rfl id id (.inl rfl),
          guar_setCtrl List.prefix_rfl id id fun _ h => h, wp_handOver hset⟩

end Acceptor

/-! ## The system -/

section System

variable {E : Setting}

theorem outline_next {i : Party} {v : Status} {p : Prog sig Status} {s : State}
    (hidle : idle E i v s) (hp : Next E.shS.toShape E.shR.toShape E.o i v p) :
    wp (disc E i) p (idle E i) s := by
  cases hp with
  | acceptAndHandOver => exact wp_acceptAndHandOver
  | sendData data len hlen =>
    exact wp_produce (fun t ht hbegun => wp_sendData data hlen ht hbegun) hidle
  | sendDataWithHead buff =>
    exact wp_produce (fun t ht hbegun => wp_sendDataWithHead buff ht hbegun) hidle
  | beginConnection => exact wp_beginConnection hidle
  | runWrite => exact wp_beginWrite (.inl rfl) hidle
  | eventWrite => exact wp_beginWrite (.inr rfl) hidle
  | writeRound available => exact wp_writeRound hidle
  | readOnce => exact wp_readOnce hidle
  | beginProcess => exact wp_beginProcess hidle
  | processRound => exact wp_processRound hidle

/-- How a run begins. Where the accepting thread shares a loop, the socket is yet to be
    accepted. -/
def Setting.Init (E : Setting) (stream : List UInt8) (c : Config sig State Party Status) : Prop :=
  Wrapper.Init stream c ∧ (E.near → c.shared.phase = .waiting)

theorem outline_init {stream : List UInt8} {c : Config sig State Party Status}
    (hc : E.Init stream c) : (outline E).Holds E.threads c := by
  obtain ⟨⟨arrS, arrR, countS, countR, ctrl, phase, heff, rfl⟩, hphase⟩ := hc
  have hcoherent : ∀ (sh : PowShape) (arr : ℕ → UInt8) (count : UInt32),
      Coherent sh ⟨⟨arr, count, count⟩, [], 0⟩ := by
    intro sh arr count
    refine ⟨le_rfl, ?_, ?_, ?_⟩ <;> simp [Mem.size, Mem.content]
  refine ⟨⟨hcoherent _ _ _, hcoherent _ _ _, Nat.zero_le _, List.nil_prefix, Nat.zero_le _,
    Nat.zero_le _, Nat.zero_le _, List.prefix_rfl, .inr rfl, ?_, ?_, fun _ => List.nil_prefix,
    fun _ _ => rfl⟩, ?_⟩
  · -- a socket that is yet to be accepted was not handed over
    intro hnear hhanded
    exact absurd ((hphase hnear).symm.trans hhanded) (by decide)
  · intro _ _ hpos
    -- and nothing was queued
    have hnone : ctrl.effects.count .queueTryProcess = 0 := by rw [heff, List.count_nil]
    exact absurd hpos (hnone ▸ Nat.lt_irrefl 0)
  · rintro (_ | _ | _ | _) t hst _
    · exact trivial
    · exact ProducerStable.posted hst (.inl rfl)
    · have hidle : NetIdle (.start arrS arrR countS countR ctrl phase stream) :=
        ⟨⟨Nat.zero_le _, rfl⟩, .inl rfl, .inl le_rfl⟩
      exact hidle.of_rely hst
    · have hst : WorkerStable (.start arrS arrR countS countR ctrl phase stream) t := hst
      have hview : ReaderView False [] countR 0
          (State.start arrS arrR countS countR ctrl phase stream).rcv.ring :=
        ⟨.refl _ _, rfl, rfl⟩
      refine ⟨[], countR, [], hview.of_readerRely hst.receiving.ring,
        fun _ => hst.receiving.delivered, rfl, ?_⟩
      exact hst.receiving.runStart ▸ List.nil_prefix

/-- **Nothing is left unannounced**: the proof outline describes every run, or where frames are
    tracked every run by attended actions. -/
theorem wrapper_holds {stream : List UInt8} {init : Config sig State Party Status → Prop}
    (hinit : ∀ c, init c → E.Init stream c) {c : Config sig State Party Status}
    (hc : ((wrapper E.shS E.shR E.o E.ndebug E.host).lts init).ReachableBy
      (Threads.Permits fun i a s => E.tracked → Attended i a s) c) :
    (outline E).Holds E.threads c :=
  (outline E).sound (fun c h => outline_init (hinit c h))
    (fun _ _ _ _ _ hidle hp => outline_next hidle hp) (Threads.reachable_restrict hc)

end System

end Wrapper

end ReechatBase.TcpSocket
