import ReechatBase.TcpSocket.Closing

/-!
# Who holds a TcpSocketWrapper

A `TcpSocketWrapper` is held by its users, by every functor and callback that is under way in it,
and by itself: `share_this_helper_` points to an object with a `shared_ptr` to the wrapper, and the
same pointer is the argument of its events. Only `OnDestroySocket` deletes that object.

The constructor leaves the pointer uninitialised, and an accepted socket sets it in
`BeginProcessInNetworkLoop` only. `CloseConnection` may overtake that functor: on the network loop's
own thread `RunInLoop` runs `CloseConnectionInNetworkLoop` at once. What `OnDestroySocket` deletes
then, or behind a failed `BeginProcessInNetworkLoop`, is undefined. The model takes a pointer that
was not set for null, and the results about references leave such runs out (`Initialised`).

- `argument_alive_iff`: libevent never holds an argument that was deleted, exactly in the runs in
  which no event is added behind `OnDestroySocket` and none is left to it;
- `destroyed_iff`: once nothing is under way and no user is left, the wrapper has been destroyed
  exactly if `CloseConnection` was called, or an accepted socket has failed to begin;
- `unowned_untouched`: where `CS_CLOSED` is final and no close overtakes the start, nothing runs in
  a wrapper that was destroyed, and no callback gets a deleted argument.
-/

namespace ReechatBase.TcpSocket

open Lib Lifecycle

/-! ## The arguments of the events -/

namespace Event

variable {e : Event}

/-- libevent holds the argument, which is not null. -/
def live (e : Event) : Bool := e.added && e.hasArg

/-- An argument is registered with a callback. -/
def Wf (e : Event) : Prop := e.hasArg = true → e.callback.isSome = true

@[simp] theorem live_del : e.del.live = false := rfl

@[simp] theorem live_set {callback : Callback} {hasArg : Bool} :
    (set callback hasArg).live = false := rfl

theorem Wf.set {callback : Callback} {hasArg : Bool} : (Event.set callback hasArg).Wf :=
  fun _ => rfl

theorem Wf.del (h : e.Wf) : e.del.Wf := h

theorem Wf.add (h : e.Wf) : e.add.Wf := h

theorem Wf.live_add (h : e.Wf) (harg : e.hasArg = true) : e.add.live = true := by
  simp [live, Event.add, h harg, harg]

theorem hasArg_of_live (h : e.live = true) : e.hasArg = true := by
  rw [live, Bool.and_eq_true] at h
  exact h.2

theorem hasArg_of_live_add (h : e.add.live = true) : e.hasArg = true := by
  have harg : e.add.hasArg = true := hasArg_of_live h
  exact harg

theorem live_eq_false (h : e.added = false) : e.live = false := by
  simp [live, h]

end Event

/-- What libevent may call a callback with is not deleted. -/
def ArgumentAlive (s : Socket) : Prop :=
  s.readEvent.live = true ∨ s.writeEvent.live = true → s.helper = true

/-- The steps that leave no deleted argument to libevent: `socket_write_event_` is added only while
    its argument is not deleted, and `OnDestroySocket` runs only while no event is added. -/
def Guarded (s : Socket) : Label → Prop
  | .arm => s.writeEvent.hasArg = true → s.helper = true
  | .send .again _ => s.writeEvent.hasArg = true → s.helper = true
  | .runOnDestroySocket => s.readEvent.live = false ∧ s.writeEvent.live = false
  | _ => True

section Arguments

variable {p : Setup} {s t : Socket} {l : Label} {now : Bool}

/-- What such steps keep. -/
structure Sound (s : Socket) : Prop where
  alive : ArgumentAlive s
  readWf : s.readEvent.Wf
  writeWf : s.writeEvent.Wf

namespace Sound

theorem fresh (p : Setup) : Sound (.fresh p) where
  alive h := by simp [Socket.fresh, Event.live, Event.zero] at h
  readWf h := by cases h
  writeWf h := by cases h

/-- A step that adds no event and does not delete the argument. -/
theorem of_eq (h : Sound s) (hread : t.readEvent = s.readEvent)
    (hwrite : t.writeEvent = s.writeEvent) (hhelper : t.helper = s.helper) : Sound t := by
  obtain ⟨halive, hr, hw⟩ := h
  refine ⟨fun hlive => ?_, hread ▸ hr, hwrite ▸ hw⟩
  rw [hread, hwrite] at hlive
  rw [hhelper]
  exact halive hlive

/-- A step that leaves both events out of libevent. -/
theorem of_dead (hr : t.readEvent.Wf) (hw : t.writeEvent.Wf) (hread : t.readEvent.live = false)
    (hwrite : t.writeEvent.live = false) : Sound t := by
  refine ⟨fun hlive => ?_, hr, hw⟩
  simp [hread, hwrite] at hlive

/-- The write event fires. -/
theorem delWrite (h : Sound s) : Sound { s with writeEvent := s.writeEvent.del } := by
  refine ⟨fun hlive => h.alive ?_, h.readWf, h.writeWf.del⟩
  apply Or.inl
  simpa using hlive

theorem addWrite (h : Sound s) (harg : s.writeEvent.hasArg = true → s.helper = true) :
    Sound s.addWrite := by
  refine ⟨fun hlive => ?_, h.readWf, h.writeWf.add⟩
  rcases hlive with hlive | hlive
  · exact h.alive (.inl hlive)
  · exact harg (Event.hasArg_of_live_add hlive)

theorem onErrorEvent (hr : s.readEvent.Wf) (hw : s.writeEvent.Wf) :
    Sound (s.onErrorEvent now) := by
  rw [Socket.onErrorEvent_eq]
  exact of_dead hr.del hw.del rfl rfl

theorem step (h : Sound s) (hok : Guarded s l) (hst : Step p s l t) : Sound t := by
  cases hst with
  | noSocket _ _ _ _ => exact onErrorEvent h.readWf h.writeWf
  | sockoptFails _ _ => exact onErrorEvent h.readWf h.writeWf
  | connect _ => exact of_dead .set .set rfl rfl
  | connectFails _ _ => exact onErrorEvent .set .set
  | arm _ => exact (h.addWrite hok).of_eq rfl rfl rfl
  | beginProcess _ _ _ => exact ⟨fun _ => rfl, Event.Wf.set.add, .set⟩
  | beginProcessFails _ _ _ _ => exact onErrorEvent h.readWf h.writeWf
  | connected _ hevent _ =>
    -- the event that fires was added with the argument
    have halive : s.helper = true := by
      apply h.alive
      simp [hevent, Event.live]
    rw [Socket.clientConnected_eq]
    exact ⟨fun _ => halive, h.readWf.add, .set⟩
  | connectError _ _ _ => exact onErrorEvent h.readWf h.writeWf.del
  | timeout _ _ _ => exact onErrorEvent h.readWf h.writeWf.del
  | otherEvent _ _ => exact h.delWrite
  | onWriteEvent _ _ => exact h.delWrite.of_eq rfl rfl rfl
  | nullArgWrite _ _ => exact h.delWrite
  | readEof _ _ => exact onErrorEvent h.readWf h.writeWf
  | readError _ _ => exact onErrorEvent h.readWf h.writeWf
  | sendAgain _ _ => exact (h.addWrite hok).of_eq rfl rfl rfl
  | sendError _ _ _ => exact onErrorEvent h.readWf h.writeWf
  | close _ _ _ =>
    rw [Socket.closeConnectionInNetworkLoop_eq]
    exact of_dead h.readWf.del h.writeWf.del rfl rfl
  | illegal _ _ =>
    rw [Socket.illegalLength_eq]
    exact of_dead h.readWf.del h.writeWf.del rfl rfl
  | runOnDestroySocket _ => exact of_dead h.readWf h.writeWf hok.1 hok.2
  | _ => exact h.of_eq rfl rfl rfl

/-- `socket_write_event_` is added behind `OnDestroySocket`. -/
theorem not_alive_addWrite (h : Sound s)
    (hno : ¬ (s.writeEvent.hasArg = true → s.helper = true)) : ¬ ArgumentAlive s.addWrite := by
  intro halive
  rw [Classical.not_imp] at hno
  have hhelper : s.helper = true := halive (.inr (h.writeWf.live_add hno.1))
  exact hno.2 hhelper

/-- Any other step leaves a deleted argument to libevent. -/
theorem not_alive_of_not_guarded (h : Sound s) (hno : ¬ Guarded s l) (hst : Step p s l t) :
    ¬ ArgumentAlive t := by
  intro halive
  cases hst with
  | arm _ => exact h.not_alive_addWrite hno halive
  | sendAgain _ _ => exact h.not_alive_addWrite hno halive
  | runOnDestroySocket _ =>
    apply hno
    constructor
    · by_contra hlive
      rw [Bool.not_eq_false] at hlive
      cases halive (.inl hlive)
    · by_contra hlive
      rw [Bool.not_eq_false] at hlive
      cases halive (.inr hlive)
  | _ => exact hno trivial

end Sound

/-- **No deleted argument.** In every run, libevent holds no argument that `OnDestroySocket` has
    deleted, exactly if all steps of the run are guarded. -/
theorem argument_alive_iff (p : Setup) {π : List (Label × Socket)}
    (hrun : (lifecycle p).IsRun (.fresh p) π) :
    Lts.Always ArgumentAlive (.fresh p) π ↔ Lts.Meets Guarded (.fresh p) π :=
  Lts.always_iff_meets (I := Sound) (fun _ h => h.alive) (fun _ _ _ h hok hst => h.step hok hst)
    (fun _ _ _ h hno hst => h.not_alive_of_not_guarded hno hst) (.fresh p) hrun

end Arguments

/-- An accepted socket is closed and sent to afterwards; the kernel's buffer is full. -/
def resendRun : List (Label × Socket) :=
  let begun : Socket := { Socket.fresh acceptedSetup with started := true }.beginProcess
  let closed : Socket := { begun with closePosts := 0 }.closeConnectionInNetworkLoop false
  let destroyed : Socket := { closed with destroyPosts := 0 }.onDestroySocket
  let writing : Socket := { destroyed with unsent := 4, writePosts := 0, net := [.writing] }
  [(.beginProcess true false, begun), (.closeConnection, { begun with closePosts := 1 }),
    (.close false, closed), (.runOnDestroySocket, destroyed),
    (.sendData 4, { destroyed with unsent := 4, writePosts := 1 }), (.tryWrite, writing),
    (.send .again false, { writing.addWrite with net := [] })]

theorem argument_alive_iff_resend :
    ¬ Lts.Always ArgumentAlive (.fresh acceptedSetup) resendRun := by
  have hrun : (lifecycle acceptedSetup).IsRun (.fresh acceptedSetup) resendRun :=
    ⟨.beginProcess rfl rfl rfl, .closeConnection,
      .close (.of_nil rfl) Nat.one_pos (fun h => by cases h), .runOnDestroySocket Nat.one_pos,
      .sendData, .tryWrite (.of_nil rfl) Nat.one_pos, .sendAgain rfl (Nat.succ_pos 3), trivial⟩
  rw [argument_alive_iff acceptedSetup hrun]
  rintro ⟨-, -, -, -, -, -, hsend, -⟩
  cases hsend rfl

/-! ## The references -/

/-- A wrapper with its users' references to it, and whether `CloseConnection` was called -/
structure Owned where
  socket : Socket
  users : ℕ
  closeCalled : Bool

namespace Owned

variable (s : Owned)

/-- The reference count of the wrapper: its users, `share_this_helper_`, the functor that starts
    it, the functors posted, and the functions under way on both loops. -/
def refs : ℕ :=
  s.users + s.socket.helper.toNat + (!s.socket.started).toNat + s.socket.writePosts +
    s.socket.closePosts + s.socket.processPosts + s.socket.destroyPosts + s.socket.net.length +
    s.socket.processing.toNat

/-- Nothing is under way in a socket that was started, nor posted by it, and it has no user. -/
structure Quiet : Prop where
  users : s.users = 0
  started : s.socket.started = true
  net : s.socket.net = []
  processing : s.socket.processing = false
  writePosts : s.socket.writePosts = 0
  closePosts : s.socket.closePosts = 0
  processPosts : s.socket.processPosts = 0
  destroyPosts : s.socket.destroyPosts = 0

/-- A wrapper without a reference has been destroyed. -/
theorem refs_eq_zero_iff : s.refs = 0 ↔ s.Quiet ∧ s.socket.helper = false := by
  constructor
  · intro h
    simp only [refs, Nat.add_eq_zero_iff, Bool.toNat_eq_zero, Bool.not_eq_false',
      List.length_eq_zero_iff] at h
    obtain ⟨⟨⟨⟨⟨⟨⟨⟨husers, hhelper⟩, hstarted⟩, hwrite⟩, hclose⟩, hprocess⟩, hdestroy⟩, hnet⟩,
      hprocessing⟩ := h
    exact ⟨⟨husers, hstarted, hnet, hprocessing, hwrite, hclose, hprocess, hdestroy⟩, hhelper⟩
  · rintro ⟨h, hhelper⟩
    simp [refs, h.users, h.started, h.net, h.processing, h.writePosts, h.closePosts,
      h.processPosts, h.destroyPosts, hhelper]

end Owned

namespace Ownership

inductive Label where
  | life (l : Lifecycle.Label)
  /-- A user copies its reference -/
  | share
  /-- A user gives its reference up -/
  | drop

/-- What the socket does on its own account needs no user; a user calls it through a reference. -/
def Permitted (s : Owned) : Lifecycle.Label → Prop
  | .setSignals _ _ => 0 < s.users
  | .sendData _ => 0 < s.users
  | .closeConnection => 0 < s.users
  | _ => True

def isCloseConnection : Lifecycle.Label → Bool
  | .closeConnection => true
  | _ => false

inductive Step (p : Setup) : Owned → Label → Owned → Prop where
  | life {s l u} : Permitted s l → Lifecycle.Step p s.socket l u →
      Step p s (.life l) { s with
        socket := u, closeCalled := s.closeCalled || isCloseConnection l }
  | share {s} : 0 < s.users → Step p s .share { s with users := s.users + 1 }
  | drop {s} : 0 < s.users → Step p s .drop { s with users := s.users - 1 }

/-- The steps of the wrapper respect a close. -/
def Respects (s : Owned) : Label → Prop
  | .life l => RespectsClose s.socket l
  | _ => True

/-- `OnDestroySocket` deletes a pointer that was set: by `BeginConnect`, or by
    `BeginProcessInNetworkLoop`, which registers the read event with it. -/
def Initialised (p : Setup) (s : Owned) : Label → Prop
  | .life (.close true) | .life .runOnDestroySocket =>
    p.kind = .accepted → s.socket.readEvent.callback ≠ none
  | _ => True

end Ownership

/-- A wrapper with its references; the user that made it holds the first one. -/
def ownership (p : Setup) : Lts Owned Ownership.Label where
  init s := s = ⟨.fresh p, 1, false⟩
  step := Ownership.Step p

/-! ### When it is destroyed -/

/-- The reference that the wrapper holds to itself; `called` is whether `CloseConnection` was
    called. -/
structure Cycle (p : Setup) (called : Bool) (s : Socket) : Prop where
  uncalled : called = false → s.closePosts = 0 ∧ s.destroyPosts = 0
  /-- It is there from the start of the socket to `OnDestroySocket`. -/
  kept : called = false → s.helper = true ∨ p.kind = .accepted ∧ s.readEvent.callback = none
  /-- Once `OnDestroySocket` has deleted it, it is not made anew. -/
  closing : called = true → 0 < s.closePosts ∨ 0 < s.destroyPosts ∨
    s.helper = false ∧ (p.kind = .accepted → s.started = true)
  /-- An accepted socket makes it in `BeginProcessInNetworkLoop`. -/
  unbegun : p.kind = .accepted → s.readEvent.callback = none → s.helper = false
  begun : p.kind = .accepted → s.readEvent.callback ≠ none → s.started = true
  accepted : p.kind = .accepted → ∀ pc ∈ s.net, pc.starting = false

namespace Cycle

variable {p : Setup} {s t : Socket} {l : Label} {now called : Bool}

theorem fresh (p : Setup) : Cycle p false (.fresh p) where
  uncalled _ := ⟨rfl, rfl⟩
  kept _ := by
    cases hkind : p.kind with
    | client => exact .inl (by simp [Socket.fresh, hkind])
    | accepted => exact .inr ⟨rfl, rfl⟩
  closing h := by cases h
  unbegun hkind _ := by simp [Socket.fresh, hkind]
  begun _ hsome := absurd rfl hsome
  accepted _ pc hpc := by cases hpc

/-- A step that leaves the reference, and what will delete it. -/
theorem of_eq (h : Cycle p called s) (hclose : t.closePosts = s.closePosts)
    (hdestroy : t.destroyPosts = s.destroyPosts) (hhelper : t.helper = s.helper)
    (hcallback : t.readEvent.callback = s.readEvent.callback)
    (hstarted : s.started = true → t.started = true)
    (hnet : p.kind = .accepted → ∀ pc ∈ t.net, pc ∈ s.net ∨ pc.starting = false) :
    Cycle p called t where
  uncalled hc := by
    rw [hclose, hdestroy]
    exact h.uncalled hc
  kept hc := by
    rw [hhelper, hcallback]
    exact h.kept hc
  closing hc := by
    rw [hclose, hdestroy, hhelper]
    exact (h.closing hc).imp id (Or.imp id fun hgone => ⟨hgone.1, hstarted ∘ hgone.2⟩)
  unbegun hkind hnone := by
    rw [hhelper]
    exact h.unbegun hkind (hcallback ▸ hnone)
  begun hkind hsome := hstarted (h.begun hkind (hcallback ▸ hsome))
  accepted hkind pc hpc := by
    rcases hnet hkind pc hpc with hmem | hpc
    · exact h.accepted hkind pc hmem
    · exact hpc

/-- `OnErrorEvent` leaves all that. -/
theorem onErrorEvent (h : Cycle p called s) : Cycle p called (s.onErrorEvent now) := by
  rw [Socket.onErrorEvent_eq]
  exact h.of_eq rfl rfl rfl rfl id fun _ _ hpc => .inl hpc

theorem delWrite (h : Cycle p called s) :
    Cycle p called { s with writeEvent := s.writeEvent.del } :=
  h.of_eq rfl rfl rfl rfl id fun _ _ hpc => .inl hpc

/-- The socket is started, and posts nothing. -/
theorem start (h : Cycle p called s) : Cycle p called { s with started := true } :=
  h.of_eq rfl rfl rfl rfl (fun _ => rfl) fun _ _ hpc => .inl hpc

/-- The innermost function of the network loop returns. -/
theorem ret (h : Cycle p called s) {pc : NetPc} {rest : List NetPc} (hnet : s.net = pc :: rest) :
    Cycle p called { s with net := rest } := by
  refine h.of_eq rfl rfl rfl rfl id ?_
  intro _ q hq
  rw [hnet]
  exact .inl (List.mem_cons_of_mem pc hq)

/-- An accepted socket is not in `ConnectServerInNetworkLoop`. -/
theorem client_of_starting (h : Cycle p called s) (pc : NetPc) (hmem : pc ∈ s.net)
    (hpc : pc.starting = true) : p.kind = .client := by
  cases hkind : p.kind with
  | client => rfl
  | accepted => simp [h.accepted hkind pc hmem] at hpc

/-- What is only asked of accepted sockets -/
theorem of_client (h : Cycle p called s) (hkind : p.kind = .client)
    (hclose : t.closePosts = s.closePosts) (hdestroy : t.destroyPosts = s.destroyPosts)
    (hhelper : t.helper = s.helper) (hstarted : s.started = true → t.started = true) :
    Cycle p called t where
  uncalled hc := by
    rw [hclose, hdestroy]
    exact h.uncalled hc
  kept hc := by
    rw [hhelper]
    rcases h.kept hc with hhelper | ⟨hacc, -⟩
    · exact .inl hhelper
    · simp [hkind] at hacc
  closing hc := by
    rw [hclose, hdestroy, hhelper]
    exact (h.closing hc).imp id (Or.imp id fun hgone => ⟨hgone.1, hstarted ∘ hgone.2⟩)
  unbegun hacc := by simp [hkind] at hacc
  begun hacc := by simp [hkind] at hacc
  accepted hacc := by simp [hkind] at hacc

/-- `share_this_helper_` of an accepted socket -/
theorem beginProcess (h : Cycle p called s) (hkind : p.kind = .accepted)
    (hs : s.started = false) : Cycle p called { s with started := true }.beginProcess where
  uncalled := h.uncalled
  kept _ := .inl rfl
  closing hc := by
    rcases h.closing hc with hpos | hpos | ⟨-, hst⟩
    · exact .inl hpos
    · exact .inr (.inl hpos)
    · -- a socket whose pointer was deleted is not started again
      simp [hst hkind] at hs
  unbegun _ hnone := by cases hnone
  begun _ _ := rfl
  accepted := h.accepted

/-- Something of `CloseConnection` is posted. -/
theorem called_of_pos (h : Cycle p called s) (hpos : 0 < s.closePosts ∨ 0 < s.destroyPosts) :
    called = true := by
  by_contra hc
  obtain ⟨hclose, hdestroy⟩ := h.uncalled (by simpa using hc)
  omega

/-- `CloseConnectionInNetworkLoop`, which `CloseConnection` has posted -/
theorem close (h : Cycle p called s) (hpos : 0 < s.closePosts)
    (hset : now = true → p.kind = .accepted → s.readEvent.callback ≠ none) :
    Cycle p called
      ({ s with closePosts := s.closePosts - 1 }.closeConnectionInNetworkLoop now) := by
  have hcalled : called = true := h.called_of_pos (.inl hpos)
  rw [Socket.closeConnectionInNetworkLoop_eq]
  refine ⟨fun hc => by simp [hcalled] at hc, fun hc => by simp [hcalled] at hc,
    fun _ => .inr ?_, fun hkind hnone => ?_, h.begun, h.accepted⟩
  · cases now with
    | false => exact .inl (Nat.succ_pos _)
    | true => exact .inr ⟨by simp, fun hkind => h.begun hkind (hset rfl hkind)⟩
  · have hhelper : s.helper = false := h.unbegun hkind hnone
    simp [hhelper]

theorem onDestroySocket (h : Cycle p called s) (hpos : 0 < s.destroyPosts)
    (hset : p.kind = .accepted → s.readEvent.callback ≠ none) :
    Cycle p called { s with destroyPosts := s.destroyPosts - 1 }.onDestroySocket := by
  have hcalled : called = true := h.called_of_pos (.inr hpos)
  exact ⟨fun hc => by simp [hcalled] at hc, fun hc => by simp [hcalled] at hc,
    fun _ => .inr (.inr ⟨rfl, fun hkind => h.begun hkind (hset hkind)⟩), fun _ _ => rfl, h.begun,
    h.accepted⟩

/-- A function of the data path is entered. -/
theorem enter (h : Cycle p called s) (pc : NetPc) (hpc : pc.starting = false) :
    Cycle p called { s with net := pc :: s.net } := by
  refine h.of_eq rfl rfl rfl rfl id ?_
  intro _ q hq
  rcases List.mem_cons.mp hq with rfl | hq
  · exact .inr hpc
  · exact .inl hq

theorem closeConnection (h : Cycle p called s) :
    Cycle p true { s with closePosts := s.closePosts + 1 } where
  uncalled hc := by cases hc
  kept hc := by cases hc
  closing _ := .inl (Nat.succ_pos _)
  unbegun := h.unbegun
  begun := h.begun
  accepted := h.accepted

theorem step (h : Cycle p called s) (hl : Ownership.isCloseConnection l = false)
    (hset : l = .close true ∨ l = .runOnDestroySocket →
      p.kind = .accepted → s.readEvent.callback ≠ none)
    (hst : Step p s l t) : Cycle p called t := by
  cases hst with
  | closeConnection => cases hl
  | socket hkind _ _ => exact h.of_client hkind rfl rfl rfl fun _ => rfl
  | noSocket _ _ _ _ => exact h.start.onErrorEvent
  | sockopt hnet =>
    have hkind := h.client_of_starting .sockopt (by simp [hnet]) rfl
    exact h.of_client hkind rfl rfl rfl id
  | @sockoptFails rest b hnet _ =>
    have hkind := h.client_of_starting .sockopt (by simp [hnet]) rfl
    have hnext : Cycle p called { s with net := .connect true (b && s.hasOnCloseEvent) :: rest } :=
      h.of_client hkind rfl rfl rfl id
    exact hnext.onErrorEvent
  | @connect failed calling _ _ hnet =>
    have hkind := h.client_of_starting (.connect failed calling) (by simp [hnet]) rfl
    exact h.of_client hkind rfl rfl rfl id
  | @connectFails failed calling rest b hnet _ =>
    have hkind := h.client_of_starting (.connect failed calling) (by simp [hnet]) rfl
    have hnext : Cycle p called { s.setEvents with
        net := .arm true (b && s.hasOnCloseEvent) :: rest } :=
      h.of_client hkind rfl rfl rfl id
    exact hnext.onErrorEvent
  | @arm failed calling _ hnet =>
    have hkind := h.client_of_starting (.arm failed calling) (by simp [hnet]) rfl
    exact h.of_client hkind rfl rfl rfl id
  | beginProcess hkind hs _ => exact h.beginProcess hkind hs
  | beginProcessFails _ _ _ _ => exact h.start.onErrorEvent
  | connected _ _ _ =>
    rw [Socket.clientConnected_eq]
    exact h.of_eq rfl rfl rfl rfl id fun _ _ hpc => .inl hpc
  | connectError _ _ _ => exact h.delWrite.onErrorEvent
  | timeout _ _ _ => exact h.delWrite.onErrorEvent
  | onReadEvent _ _ =>
    -- `TryReadDataFromSocket` and `TryWriteBufferToSocket` start no socket
    refine h.of_eq rfl rfl rfl rfl id fun _ pc hpc => .inr ?_
    dsimp only at hpc
    split at hpc
    · rw [List.mem_singleton.mp hpc]
      rfl
    · cases hpc
  | onWriteEvent _ _ =>
    refine h.of_eq rfl rfl rfl rfl id fun _ pc hpc => .inr ?_
    rw [List.mem_singleton.mp hpc]
    rfl
  | readData hnet _ => exact (h.ret hnet).of_eq rfl rfl rfl rfl id fun _ _ hpc => .inl hpc
  | readAgain hnet => exact h.ret hnet
  | readEof hnet _ => exact (h.ret hnet).onErrorEvent
  | readError hnet _ => exact (h.ret hnet).onErrorEvent
  | tryWrite _ _ =>
    exact (h.enter .writing rfl).of_eq rfl rfl rfl rfl id fun _ _ hpc => .inl hpc
  | sendAgain hnet _ => exact (h.ret hnet).of_eq rfl rfl rfl rfl id fun _ _ hpc => .inl hpc
  | sendError hnet _ _ => exact (h.ret hnet).onErrorEvent
  | written hnet _ => exact h.ret hnet
  | close _ hpos _ => exact h.close hpos fun hnow => hset (.inl (by rw [hnow]))
  | illegal _ _ =>
    rw [Socket.illegalLength_eq]
    exact h.of_eq rfl rfl rfl rfl id fun _ _ hpc => .inl hpc
  | runOnDestroySocket hpos => exact h.onDestroySocket hpos (hset (.inr rfl))
  | _ => exact h.of_eq rfl rfl rfl rfl id fun _ _ hpc => .inl hpc

/-- A step of the wrapper, or of its users. -/
theorem own {s t : Owned} {k : Ownership.Label} (h : Cycle p s.closeCalled s.socket)
    (hset : Ownership.Initialised p s k) (hst : Ownership.Step p s k t) :
    Cycle p t.closeCalled t.socket := by
  cases hst with
  | share _ => exact h
  | drop _ => exact h
  | @life l _ hok hst =>
    cases hl : Ownership.isCloseConnection l with
    | true =>
      cases hst with
      | closeConnection =>
        -- the call of `CloseConnection` itself: its functor is posted
        simpa [Ownership.isCloseConnection] using h.closeConnection
      | _ => cases hl
    | false =>
      simp only [Bool.or_false]
      apply h.step hl _ hst
      rintro (rfl | rfl)
      · exact hset
      · exact hset

theorem of_reachable {s : Owned} (hs : (ownership p).ReachableBy (Ownership.Initialised p) s) :
    Cycle p s.closeCalled s.socket := by
  apply hs.invariant (I := fun s => Cycle p s.closeCalled s.socket)
  · rintro s rfl
    exact fresh p
  · exact fun s k t h hset hst => h.own hset hst

end Cycle

/-- **When a wrapper is destroyed.** In every run in which `OnDestroySocket` finds the pointer set,
    the reference count is 0 exactly if no user is left, nothing is under way or posted, and
    `CloseConnection` was called or an accepted socket has failed to begin. Without
    `CloseConnection` the wrapper holds itself for ever. -/
theorem destroyed_iff {p : Setup} {s : Owned}
    (hs : (ownership p).ReachableBy (Ownership.Initialised p) s) :
    s.refs = 0 ↔ s.Quiet ∧
      (s.closeCalled = true ∨ p.kind = .accepted ∧ s.socket.readEvent.callback = none) := by
  have h : Cycle p s.closeCalled s.socket := .of_reachable hs
  rw [Owned.refs_eq_zero_iff]
  apply and_congr_right
  intro hquiet
  constructor
  · intro hhelper
    cases hcalled : s.closeCalled with
    | true => exact .inl rfl
    | false =>
      rcases h.kept hcalled with hkept | hfailed
      · simp [hhelper] at hkept
      · exact .inr hfailed
  · rintro (hcalled | ⟨hkind, hnone⟩)
    · -- what `CloseConnection` has posted is done
      rcases h.closing hcalled with hpos | hpos | ⟨hhelper, -⟩
      · simp [hquiet.closePosts] at hpos
      · simp [hquiet.destroyPosts] at hpos
      · exact hhelper
    · exact h.unbegun hkind hnone

/-- An accepted socket whose user has dropped it without `CloseConnection` -/
def leaked : Owned :=
  ⟨{ Socket.fresh acceptedSetup with started := true }.beginProcess, 0, false⟩

/-- An accepted socket that is closed before it begins, while `OnDestroySocket` waits on the worker
    loop -/
def overtaken : Owned :=
  ⟨{ Socket.fresh acceptedSetup with closePosts := 0 }.closeConnectionInNetworkLoop false, 1, true⟩

theorem overtaken_reachable : (ownership acceptedSetup).ReachableBy
    (fun s k => Ownership.Respects s k ∧ Ownership.Initialised acceptedSetup s k) overtaken := by
  have hcall : Ownership.Step acceptedSetup ⟨.fresh acceptedSetup, 1, false⟩
      (.life .closeConnection) ⟨{ Socket.fresh acceptedSetup with closePosts := 1 }, 1, true⟩ :=
    .life Nat.one_pos .closeConnection
  have hclose : Ownership.Step acceptedSetup
      ⟨{ Socket.fresh acceptedSetup with closePosts := 1 }, 1, true⟩ (.life (.close false))
      overtaken := .life trivial (.close (.of_nil rfl) Nat.one_pos (fun h => by cases h))
  refine .step (.step (.init rfl) ?_ hcall) ?_ hclose
  all_goals exact ⟨trivial, trivial⟩

/-- It begins, and `OnDestroySocket` runs. -/
def gone : Owned :=
  ⟨{ { overtaken.socket with started := true }.beginProcess with
    destroyPosts := 0 }.onDestroySocket, 0, true⟩

/-- The socket that nobody has closed stays, the one that was closed early is destroyed. -/
theorem destroyed_iff_accepted : leaked.refs ≠ 0 ∧ gone.refs = 0 := by
  constructor
  · have hbegin : Ownership.Step acceptedSetup ⟨.fresh acceptedSetup, 1, false⟩
        (.life (.beginProcess true false)) ⟨leaked.socket, 1, false⟩ :=
      .life trivial (.beginProcess rfl rfl rfl)
    have hbegun : (ownership acceptedSetup).ReachableBy (Ownership.Initialised acceptedSetup)
        ⟨leaked.socket, 1, false⟩ := .step (.init rfl) (by exact trivial) hbegin
    have hleaked : (ownership acceptedSetup).ReachableBy (Ownership.Initialised acceptedSetup)
        leaked := hbegun.step (by exact trivial) (.drop Nat.one_pos)
    rw [Ne, destroyed_iff hleaked]
    rintro ⟨-, hcalled | ⟨-, hnone⟩⟩
    · cases hcalled
    · cases hnone
  · let begun : Socket := { overtaken.socket with started := true }.beginProcess
    have hbegin : Ownership.Step acceptedSetup overtaken (.life (.beginProcess true false))
        ⟨begun, 1, true⟩ := .life trivial (.beginProcess rfl rfl rfl)
    have hdestroy : Ownership.Step acceptedSetup ⟨begun, 1, true⟩ (.life .runOnDestroySocket)
        ⟨gone.socket, 1, true⟩ := .life trivial (.runOnDestroySocket Nat.one_pos)
    have hset : Ownership.Initialised acceptedSetup ⟨begun, 1, true⟩ (.life .runOnDestroySocket) :=
      fun _ hnone => by cases hnone
    have hgone : (ownership acceptedSetup).ReachableBy (Ownership.Initialised acceptedSetup) gone :=
      (((overtaken_reachable.mono fun _ _ h => h.2).step (by exact trivial) hbegin).step hset
        hdestroy).step (by exact trivial) (.drop Nat.one_pos)
    exact (destroyed_iff hgone).mpr ⟨⟨rfl, rfl, rfl, rfl, rfl, rfl, rfl, rfl⟩, .inl rfl⟩

/-- With one loop, `OnDestroySocket` runs in the close that overtakes the start, on a pointer that
    was never set. -/
theorem overtaken_uninitialised : ∃ s t, (ownership ⟨.accepted, true, false, .little⟩).Reachable s ∧
    (ownership ⟨.accepted, true, false, .little⟩).step s (.life (.close true)) t ∧
    ¬ Ownership.Initialised ⟨.accepted, true, false, .little⟩ s (.life (.close true)) := by
  let p : Setup := ⟨.accepted, true, false, .little⟩
  have hcall : Ownership.Step p ⟨.fresh p, 1, false⟩ (.life .closeConnection)
      ⟨{ Socket.fresh p with closePosts := 1 }, 1, true⟩ := .life Nat.one_pos .closeConnection
  refine ⟨_, _, .step (.init rfl) trivial hcall,
    .life trivial (.close (.of_nil rfl) Nat.one_pos fun _ => rfl), fun hset => ?_⟩
  exact hset rfl rfl

/-! ### What runs in it -/

section Untouched

variable {p : Setup} {s t : Socket} {l : Label} {now : Bool}

/-- The argument of the events is deleted, or about to be, in a closed socket only. -/
structure Retired (s : Socket) : Prop where
  destroying : 0 < s.destroyPosts → s.closed = true
  destroyed : s.helper = false →
    s.closed = true ∨ s.readEvent.hasArg = false ∧ s.writeEvent.hasArg = false

namespace Retired

theorem fresh (p : Setup) : Retired (.fresh p) where
  destroying h := by cases h
  destroyed _ := .inr ⟨rfl, rfl⟩

theorem of_eq (h : Retired s) (hdestroy : t.destroyPosts = s.destroyPosts)
    (hhelper : t.helper = s.helper) (hclosed : s.closed = true → t.closed = true)
    (hread : t.readEvent.hasArg = s.readEvent.hasArg ∨ t.readEvent.hasArg = s.helper)
    (hwrite : t.writeEvent.hasArg = s.writeEvent.hasArg ∨ t.writeEvent.hasArg = s.helper) :
    Retired t where
  destroying hpos := hclosed (h.destroying (hdestroy ▸ hpos))
  destroyed hgone := by
    rw [hhelper] at hgone
    rcases h.destroyed hgone with hc | ⟨hr, hw⟩
    · exact .inl (hclosed hc)
    · rw [hr, hgone, or_self] at hread
      rw [hw, hgone, or_self] at hwrite
      exact .inr ⟨hread, hwrite⟩

theorem onErrorEvent (h : Retired s) : Retired (s.onErrorEvent now) := by
  rw [Socket.onErrorEvent_eq]
  refine h.of_eq rfl rfl (fun hc => ?_) (.inl rfl) (.inl rfl)
  simp [Socket.setClosed, Socket.delEvents, hc]

theorem start (h : Retired s) : Retired { s with started := true } :=
  h.of_eq rfl rfl id (.inl rfl) (.inl rfl)

theorem delWrite (h : Retired s) : Retired { s with writeEvent := s.writeEvent.del } :=
  h.of_eq rfl rfl id (.inl rfl) (.inl rfl)

theorem setNet (h : Retired s) (net : List NetPc) : Retired { s with net := net } :=
  h.of_eq rfl rfl id (.inl rfl) (.inl rfl)

theorem setEvents (h : Retired s) (net : List NetPc) :
    Retired { s.setEvents with net := net } :=
  h.of_eq rfl rfl id (.inr rfl) (.inr rfl)

theorem step (h : Retired s) (hclose : ∀ b, l = .close b → s.started = true)
    (hst : Step p s l t) : Retired t := by
  cases hst with
  | noSocket _ _ _ _ => exact h.start.onErrorEvent
  | sockoptFails _ _ => exact (h.setNet _).onErrorEvent
  | connect _ => exact h.setEvents _
  | connectFails _ _ => exact (h.setEvents _).onErrorEvent
  | arm _ => exact h.of_eq rfl rfl id (.inl rfl) (.inl rfl)
  | beginProcess _ _ _ => exact ⟨h.destroying, fun hgone => by cases hgone⟩
  | beginProcessFails _ _ _ _ => exact h.start.onErrorEvent
  | connected _ _ _ =>
    rw [Socket.clientConnected_eq]
    exact h.of_eq rfl rfl id (.inl rfl) (.inr rfl)
  | connectError _ _ _ => exact h.delWrite.onErrorEvent
  | timeout _ _ _ => exact h.delWrite.onErrorEvent
  | readEof _ _ => exact (h.setNet _).onErrorEvent
  | readError _ _ => exact (h.setNet _).onErrorEvent
  | sendError _ _ _ => exact (h.setNet _).onErrorEvent
  | close _ _ _ =>
    -- a close behind the start is noticed in `closed`
    have hclosed : (s.closed || s.started) = true := by simp [hclose _ rfl]
    rw [Socket.closeConnectionInNetworkLoop_eq]
    exact ⟨fun _ => hclosed, fun _ => .inl hclosed⟩
  | illegal _ _ =>
    rw [Socket.illegalLength_eq]
    exact h.of_eq rfl rfl id (.inl rfl) (.inl rfl)
  | runOnDestroySocket hpos =>
    -- `OnDestroySocket` was posted by such a close
    have hclosed : s.closed = true := h.destroying hpos
    exact ⟨fun _ => hclosed, fun _ => .inl hclosed⟩
  | _ => exact h.of_eq rfl rfl id (.inl rfl) (.inl rfl)

end Retired

/-- The steps that respect a close are guarded. -/
theorem guarded_of_respectsClose (hordered : Ordered s) (hsettled : Settled s) (h : Retired s)
    (hok : RespectsClose s l) (hst : Step p s l t) : Guarded s l := by
  cases hst with
  | @arm failed calling _ hnet =>
    intro harg
    by_contra hgone
    -- no call has failed, so the socket is still open, and its object was not deleted
    have hfailed : failed = false := hok (.arm failed calling) (by simp [hnet])
    have hopen := hordered.open_of_starting (.arm failed calling) (by simp [hnet]) rfl hfailed
    rcases h.destroyed (by simpa using hgone) with hc | ⟨-, hnone⟩
    · simp [hopen] at hc
    · simp [harg] at hnone
  | sendAgain _ _ =>
    intro harg
    by_contra hgone
    rcases h.destroyed (by simpa using hgone) with hc | ⟨-, hnone⟩
    · -- on a closed socket the step would not respect the close
      exact hok ⟨hordered.started hc, (hsettled.closed hc).1⟩
    · simp [harg] at hnone
  | runOnDestroySocket hpos =>
    -- the close that has posted it has deleted both events
    obtain ⟨-, hread, hwrite⟩ := hsettled.closed (h.destroying hpos)
    exact ⟨Event.live_eq_false hread, Event.live_eq_false hwrite⟩
  | _ => exact trivial

end Untouched

namespace Ownership

/-- `CloseConnectionInNetworkLoop` runs behind the functor that starts the socket. -/
def Behind (s : Owned) : Label → Prop
  | .life (.close _) => s.socket.started = true
  | _ => True

/-- The steps of a wrapper that is closed in order -/
def Orderly (p : Setup) (s : Owned) (k : Label) : Prop :=
  Respects s k ∧ Behind s k ∧ Initialised p s k

/-- Whether the step uses the wrapper. The signals are posted as copies, and a callback with a null
    argument returns at once. -/
def touches : Lifecycle.Label → Bool
  | .runOnCloseEvent | .runOnConnected | .nullArg _ => false
  | _ => true

variable {p : Setup} {s t : Owned} {k : Label} {l : Lifecycle.Label}

/-- What holds where `CS_CLOSED` is final. -/
structure Sane (s : Socket) : Prop where
  ordered : Ordered s
  settled : Settled s
  sound : Sound s
  retired : Retired s

theorem Sane.of_reachable (hs : (ownership p).ReachableBy (Orderly p) s) : Sane s.socket := by
  apply hs.invariant (I := fun s => Sane s.socket)
  · rintro s rfl
    exact ⟨.fresh p, .fresh p, .fresh p, .fresh p⟩
  · rintro s k t h ⟨hok, hbehind, -⟩ hst
    cases hst with
    | share _ => exact h
    | drop _ => exact h
    | life _ hst =>
      have hguarded := guarded_of_respectsClose h.ordered h.settled h.retired hok hst
      refine ⟨h.ordered.step hst, h.settled.step h.ordered hok hst, h.sound.step hguarded hst, ?_⟩
      apply h.retired.step _ hst
      rintro b rfl
      exact hbehind

/-- A step that uses the wrapper finds it there. -/
theorem held (h : ArgumentAlive s.socket) (hst : (ownership p).step s (.life l) t)
    (huse : touches l = true) : 0 < s.refs := by
  apply Nat.pos_of_ne_zero
  intro hzero
  obtain ⟨hquiet, hgone⟩ := s.refs_eq_zero_iff.mp hzero
  have hnone : ∀ {callback : Callback}, s.socket.readEvent ≠ ⟨some callback, true, true⟩ ∧
      s.socket.writeEvent ≠ ⟨some callback, true, true⟩ := by
    intro callback
    constructor
    · intro hevent
      have halive : s.socket.helper = true := h (.inl (by simp [hevent, Event.live]))
      simp [hgone] at halive
    · intro hevent
      have halive : s.socket.helper = true := h (.inr (by simp [hevent, Event.live]))
      simp [hgone] at halive
  cases hst with
  | life hp hst =>
    cases hst with
    -- a user has a reference
    | setSignals => exact hp.ne' hquiet.users
    | sendData => exact hp.ne' hquiet.users
    | closeConnection => exact hp.ne' hquiet.users
    -- the functor that starts the socket has one
    | socket _ hs _ => simp [hquiet.started] at hs
    | noSocket _ hs _ _ => simp [hquiet.started] at hs
    | beginProcess _ hs _ => simp [hquiet.started] at hs
    | beginProcessFails _ hs _ _ => simp [hquiet.started] at hs
    -- the event's argument has one
    | connected _ hevent _ => exact hnone.2 hevent
    | connectError _ hevent _ => exact hnone.2 hevent
    | timeout _ hevent _ => exact hnone.2 hevent
    | otherEvent _ hevent => exact hnone.2 hevent
    | onReadEvent _ hevent => exact hnone.1 hevent
    | onWriteEvent _ hevent => exact hnone.2 hevent
    | nullArgRead _ _ => cases huse
    | nullArgWrite _ _ => cases huse
    -- the functors posted have one each
    | tryWrite _ hpos => exact hpos.ne' hquiet.writePosts
    | close _ hpos _ => exact hpos.ne' hquiet.closePosts
    | process _ hpos => exact hpos.ne' hquiet.processPosts
    | runOnDestroySocket hpos => exact hpos.ne' hquiet.destroyPosts
    | frame hprocessing _ => simp [hquiet.processing] at hprocessing
    | illegal hprocessing _ => simp [hquiet.processing] at hprocessing
    | incomplete hprocessing _ _ => simp [hquiet.processing] at hprocessing
    | runOnCloseEvent _ => cases huse
    | runOnConnected _ => cases huse
    -- so does what the network loop is in
    | sockopt hnet => simp [hquiet.net] at hnet
    | sockoptFails hnet _ => simp [hquiet.net] at hnet
    | connect hnet => simp [hquiet.net] at hnet
    | connectFails hnet _ => simp [hquiet.net] at hnet
    | arm hnet => simp [hquiet.net] at hnet
    | readData hnet _ => simp [hquiet.net] at hnet
    | readAgain hnet => simp [hquiet.net] at hnet
    | readEof hnet _ => simp [hquiet.net] at hnet
    | readError hnet _ => simp [hquiet.net] at hnet
    | sent hnet _ _ => simp [hquiet.net] at hnet
    | sendAgain hnet _ => simp [hquiet.net] at hnet
    | sendError hnet _ _ => simp [hquiet.net] at hnet
    | written hnet _ => simp [hquiet.net] at hnet

/-- **Nothing runs in a wrapper that was destroyed**, in the runs whose steps respect a close, where
    no close overtakes the start and `OnDestroySocket` finds the pointer set: a step that uses the
    wrapper finds a reference to it, and libevent holds no deleted argument. -/
theorem unowned_untouched (hs : (ownership p).ReachableBy (Orderly p) s)
    (hst : (ownership p).step s (.life l) t) (huse : touches l = true) :
    0 < s.refs ∧ ArgumentAlive s.socket := by
  have halive : ArgumentAlive s.socket := (Sane.of_reachable hs).sound.alive
  exact ⟨held halive hst huse, halive⟩

theorem unowned_untouched_accepted :
    0 < (Owned.mk leaked.socket 1 false).refs ∧ ArgumentAlive leaked.socket := by
  have hbegin : Lifecycle.Step acceptedSetup (.fresh acceptedSetup) (.beginProcess true false)
      leaked.socket := .beginProcess rfl rfl rfl
  have hlife : (ownership acceptedSetup).step ⟨.fresh acceptedSetup, 1, false⟩
      (.life (.beginProcess true false)) ⟨leaked.socket, 1, false⟩ := .life trivial hbegin
  have horderly : Orderly acceptedSetup ⟨.fresh acceptedSetup, 1, false⟩
      (.life (.beginProcess true false)) := ⟨trivial, trivial, trivial⟩
  have hbegun : (ownership acceptedSetup).ReachableBy (Orderly acceptedSetup)
      ⟨leaked.socket, 1, false⟩ := .step (.init rfl) horderly hlife
  have hread : (ownership acceptedSetup).step ⟨leaked.socket, 1, false⟩ (.life .onReadEvent)
      ⟨{ leaked.socket with net := [.reading] }, 1, false⟩ := .life trivial (.onReadEvent rfl rfl)
  exact unowned_untouched hbegun hread rfl

/-- A close that overtakes the start may leave a deleted argument to libevent: the socket begins
    while `OnDestroySocket` waits on the worker loop. -/
theorem overtaken_not_alive : ∃ s,
    (ownership acceptedSetup).ReachableBy
      (fun s k => Respects s k ∧ Initialised acceptedSetup s k) s ∧ ¬ ArgumentAlive s.socket := by
  let begun : Socket := { overtaken.socket with started := true }.beginProcess
  have hbegin : Ownership.Step acceptedSetup overtaken (.life (.beginProcess true false))
      ⟨begun, 1, true⟩ := .life trivial (.beginProcess rfl rfl rfl)
  have hdestroy : Ownership.Step acceptedSetup ⟨begun, 1, true⟩ (.life .runOnDestroySocket)
      ⟨{ begun with destroyPosts := 0 }.onDestroySocket, 1, true⟩ :=
    .life trivial (.runOnDestroySocket Nat.one_pos)
  have hset : Initialised acceptedSetup ⟨begun, 1, true⟩ (.life .runOnDestroySocket) :=
    fun _ hnone => by cases hnone
  refine ⟨_, (overtaken_reachable.step (by exact ⟨trivial, trivial⟩) hbegin).step
    (by exact ⟨trivial, hset⟩) hdestroy, fun halive => ?_⟩
  cases halive (.inl rfl)

end Ownership

end ReechatBase.TcpSocket
