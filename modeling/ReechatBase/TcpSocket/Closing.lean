import ReechatBase.TcpSocket.Lifecycle

/-!
# How a socket ends

Two questions about the end of a `TcpSocketWrapper`: whether `CS_CLOSED` is final, and how often
`SignalOnCloseEvent` is called. Neither holds of every run.

- `closed_final_iff`: a closed socket stays closed, and arms no event, exactly in the runs in which
  `ConnectServerInNetworkLoop` does not go on behind `OnErrorEvent` and `::send` does not report
  `EAGAIN` on a closed socket;
- `close_reported_once`: the end is reported at most once in the runs without such a failure in
  `ConnectServerInNetworkLoop` and without an error that is found after the end was reported.
-/

namespace ReechatBase.TcpSocket

open Lib Lifecycle

variable {p : Setup} {s t : Socket} {l : Label} {pc pc' : NetPc} {rest : List NetPc} {now : Bool}

/-! ## Where the network loop can stand -/

namespace NetPc

theorem starting_of_failed (h : pc.failed = true) : pc.starting = true := by
  cases pc <;> first | rfl | cases h

theorem starting_of_calling (h : pc.calling = true) : pc.starting = true := by
  cases pc <;> first | rfl | cases h

end NetPc

theorem Socket.CanRun.of_nil (hnet : s.net = []) : s.CanRun := by
  simp [Socket.CanRun, hnet]

/-- The functions that the network loop is in, and what has happened to the socket. -/
structure Ordered (s : Socket) : Prop where
  /-- A function is entered inside another one only from the user's `SignalOnCloseEvent` -/
  nested : ∀ pc ∈ s.net.tail, pc.calling = true
  calling : ∀ pc ∈ s.net, pc.calling = true → pc.failed = true
  failed : ∀ pc ∈ s.net, pc.failed = true → s.closed = true
  starting : ∀ pc ∈ s.net, pc.starting = true → s.started = true
  /-- In a closed socket `ConnectServerInNetworkLoop` has called `OnErrorEvent` -/
  closing : s.closed = true → ∀ pc ∈ s.net, pc.starting = true → pc.failed = true
  started : s.closed = true → s.started = true
  /-- `state_` is `CS_CLOSED` from the constructor to the end of `ConnectServerInNetworkLoop` -/
  unopened : s.started = true → s.state = .closed → s.closed = false →
    ∃ pc, s.net = [pc] ∧ pc.starting = true

namespace Ordered

theorem fresh (p : Setup) : Ordered (.fresh p) where
  nested := by simp [Socket.fresh]
  calling := by simp [Socket.fresh]
  failed := by simp [Socket.fresh]
  starting := by simp [Socket.fresh]
  closing := nofun
  started := nofun
  unopened := nofun

/-- A step of no function of the network loop. -/
theorem of_eq (h : Ordered s) (hnet : t.net = s.net) (hstarted : t.started = s.started)
    (hstate : t.state = .closed → s.state = .closed) (hclosed : t.closed = s.closed) :
    Ordered t := by
  obtain ⟨hnested, hcalling, hfailed, hstarting, hclosing, hs, hunopened⟩ := h
  rw [← hnet] at hnested hcalling hfailed hstarting hclosing hunopened
  rw [← hclosed] at hfailed hclosing hs hunopened
  rw [← hstarted] at hstarting hs hunopened
  exact ⟨hnested, hcalling, hfailed, hstarting, hclosing, hs,
    fun hs hst => hunopened hs (hstate hst)⟩

/-- The functions around the innermost one have failed, so that the socket is closed. -/
theorem failed_of_mem_rest (h : Ordered s) (hnet : s.net = pc :: rest) (hmem : pc' ∈ rest) :
    pc'.failed = true := by
  have hcalling : pc'.calling = true := h.nested pc' (by simpa [hnet] using hmem)
  exact h.calling pc' (by simp [hnet, hmem]) hcalling

/-- The innermost function goes on without an error. -/
theorem goOn (h : Ordered s) (hnet : s.net = pc :: rest) (hstarting : pc.starting = true)
    (hnet' : t.net = pc' :: rest) (hstarting' : pc'.starting = true)
    (hfailed : pc'.failed = pc.failed) (hcalling : pc'.calling = false)
    (hstarted : t.started = s.started) (hclosed : t.closed = s.closed) : Ordered t where
  nested q hq := h.nested q (by simpa [hnet, hnet'] using hq)
  calling q hq hc := by
    rw [hnet'] at hq
    rcases List.mem_cons.mp hq with rfl | hq
    · simp [hcalling] at hc
    · exact h.failed_of_mem_rest hnet hq
  failed q hq hf := by
    rw [hnet'] at hq
    rw [hclosed]
    rcases List.mem_cons.mp hq with rfl | hq
    · exact h.failed pc (by simp [hnet]) (hfailed ▸ hf)
    · exact h.failed q (by simp [hnet, hq]) hf
  starting q hq hs := by
    rw [hstarted]
    exact h.starting pc (by simp [hnet]) hstarting
  closing hc q hq hs := by
    rw [hnet'] at hq
    rcases List.mem_cons.mp hq with rfl | hq
    · rw [hfailed]
      exact h.closing (hclosed ▸ hc) pc (by simp [hnet]) hstarting
    · exact h.failed_of_mem_rest hnet hq
  started hc := by
    rw [hstarted]
    exact h.started (hclosed ▸ hc)
  unopened _ _ hc := by
    -- a function around it would have failed
    cases rest with
    | nil => exact ⟨pc', hnet', hstarting'⟩
    | cons q rest =>
      have hq := h.failed q (by simp [hnet]) (h.failed_of_mem_rest hnet (by simp))
      simp [hclosed, hq] at hc

/-- The innermost function returns. -/
theorem ret (h : Ordered s) (hnet : s.net = pc :: rest) (hnet' : t.net = rest)
    (hstate : pc.starting = false ∧ t.state = s.state ∨ t.state ≠ .closed)
    (hstarted : t.started = s.started) (hclosed : t.closed = s.closed) : Ordered t := by
  have hmem : ∀ q ∈ t.net, q ∈ s.net := fun q hq => by
    rw [hnet]
    exact List.mem_cons_of_mem pc (hnet' ▸ hq)
  have htail : ∀ q ∈ t.net.tail, q ∈ s.net.tail := fun q hq => by
    rw [hnet, List.tail_cons]
    exact List.mem_of_mem_tail (hnet' ▸ hq)
  refine ⟨fun q hq => h.nested q (htail q hq), fun q hq => h.calling q (hmem q hq),
    fun q hq => ?_, fun q hq => ?_, fun hc q hq => ?_, fun hc => ?_, fun hs hst hc => ?_⟩
  · rw [hclosed]
    exact h.failed q (hmem q hq)
  · rw [hstarted]
    exact h.starting q (hmem q hq)
  · exact h.closing (hclosed ▸ hc) q (hmem q hq)
  · rw [hstarted]
    exact h.started (hclosed ▸ hc)
  · rcases hstate with ⟨hpc, hstate⟩ | hstate
    · -- the only function is one of `ConnectServerInNetworkLoop`, so not the one that returns
      obtain ⟨q, hq, hqs⟩ := h.unopened (hstarted ▸ hs) (hstate ▸ hst) (hclosed ▸ hc)
      obtain rfl : pc = q := by simpa [hnet] using congrArg List.head? hq
      simp [hpc] at hqs
    · exact absurd hst hstate

theorem calling_of_canRun (h : Ordered s) (hrun : s.CanRun) (hmem : pc ∈ s.net) :
    pc.calling = true := by
  cases hnet : s.net with
  | nil => simp [hnet] at hmem
  | cons q rest =>
    rw [hnet] at hmem
    rcases List.mem_cons.mp hmem with rfl | hmem
    · exact hrun pc (by simp [hnet])
    · exact h.nested pc (by simp [hnet, hmem])

/-- The network loop enters a function of the data path. -/
theorem enter (h : Ordered s) (pc : NetPc) (hrun : s.CanRun) (hpc : pc.starting = false)
    (hnet : t.net = pc :: s.net) (hstarted : t.started = s.started) (hstate : t.state = s.state)
    (hclosed : t.closed = s.closed) : Ordered t := by
  have hcalling : ∀ q ∈ s.net, q.calling = true := fun q hq => h.calling_of_canRun hrun hq
  have hother : ∀ q ∈ t.net, q.starting = true → q ∈ s.net := fun q hq hqs => by
    rw [hnet] at hq
    rcases List.mem_cons.mp hq with rfl | hq
    · simp [hpc] at hqs
    · exact hq
  refine ⟨fun q hq => hcalling q (by simpa [hnet] using hq),
    fun q hq hc => h.calling q (hother q hq (NetPc.starting_of_calling hc)) hc,
    fun q hq hf => ?_, fun q hq hs => ?_, fun hc q hq hs => ?_, fun hc => ?_, fun hs hst hc => ?_⟩
  · rw [hclosed]
    exact h.failed q (hother q hq (NetPc.starting_of_failed hf)) hf
  · rw [hstarted]
    exact h.starting q (hother q hq hs) hs
  · exact h.closing (hclosed ▸ hc) q (hother q hq hs) hs
  · rw [hstarted]
    exact h.started (hclosed ▸ hc)
  · -- the only function is not inside the user's signal, so that none can be entered
    obtain ⟨q, hq, _⟩ := h.unopened (hstarted ▸ hs) (hstate ▸ hst) (hclosed ▸ hc)
    have hqf := h.calling q (by simp [hq]) (hcalling q (by simp [hq]))
    have := h.failed q (by simp [hq]) hqf
    simp [hclosed, this] at hc

/-- `OnErrorEvent` or `CloseConnectionInNetworkLoop` closes the socket. -/
theorem close (hnested : ∀ pc ∈ s.net.tail, pc.calling = true)
    (hcalling : ∀ pc ∈ s.net, pc.calling = true → pc.failed = true)
    (hfailed : ∀ pc ∈ s.net, pc.starting = true → pc.failed = true ∧ s.started = true)
    (hclosed : s.closed = true → s.started = true) (hnet : t.net = s.net)
    (hstarted : t.started = s.started) (hclosed' : t.closed = (s.closed || s.started)) :
    Ordered t where
  nested := hnet ▸ hnested
  calling := hnet ▸ hcalling
  failed q hq hf := by
    have hs := (hfailed q (hnet ▸ hq) (NetPc.starting_of_failed hf)).2
    simp [hclosed', hs]
  starting q hq hs := by
    rw [hstarted]
    exact (hfailed q (hnet ▸ hq) hs).2
  closing _ q hq hs := (hfailed q (hnet ▸ hq) hs).1
  started hc := by
    rw [hclosed', Bool.or_eq_true] at hc
    rw [hstarted]
    exact hc.elim hclosed id
  unopened hs _ hc := by
    rw [hstarted] at hs
    simp [hclosed', hs] at hc

/-- The socket is closed from a functor or a callback. -/
theorem closeFrom (h : Ordered s) (hrun : s.CanRun) (hnet : t.net = s.net)
    (hstarted : t.started = s.started) (hclosed : t.closed = (s.closed || s.started)) :
    Ordered t := by
  -- whatever the functor was called from waits for the user's signal, behind a failure
  refine close h.nested h.calling (fun q hq hs => ⟨?_, h.starting q hq hs⟩) h.started hnet hstarted
    hclosed
  exact h.calling q hq (h.calling_of_canRun hrun hq)

theorem open_of_starting (h : Ordered s) (pc : NetPc) (hmem : pc ∈ s.net)
    (hstarting : pc.starting = true) (hfailed : pc.failed = false) : s.closed = false := by
  by_contra hc
  simp [h.closing (by simpa using hc) pc hmem hstarting] at hfailed

theorem open_of_not_started (h : Ordered s) (hstarted : s.started = false) : s.closed = false := by
  by_contra hc
  simp [h.started (by simpa using hc)] at hstarted

/-- An error is found in the innermost function, which returns. -/
theorem fail (h : Ordered s) (hnet : s.net = pc :: rest) (hnet' : t.net = rest)
    (hstarted : t.started = s.started) (hclosed : t.closed = (s.closed || s.started)) :
    Ordered t := by
  have hmem : ∀ q ∈ rest, q ∈ s.net := fun q hq => hnet ▸ List.mem_cons_of_mem pc hq
  refine close (s := { s with net := rest }) (fun q hq => h.nested q ?_)
    (fun q hq => h.calling q (hmem q hq)) (fun q hq hs => ⟨?_, ?_⟩) h.started hnet' hstarted hclosed
  · rw [hnet, List.tail_cons]
    exact List.mem_of_mem_tail hq
  · exact h.failed_of_mem_rest hnet hq
  · exact h.starting q (hmem q hq) hs

/-- An error is found in `ConnectServerInNetworkLoop`, which goes on. -/
theorem failOn (h : Ordered s) (hnet : s.net = pc :: rest) (hstarting : pc.starting = true)
    (hnet' : t.net = pc' :: rest) (hfailed : pc'.failed = true) (hstarted : t.started = s.started)
    (hclosed : t.closed = (s.closed || s.started)) : Ordered t := by
  have hs : s.started = true := h.starting pc (by simp [hnet]) hstarting
  have hall : ∀ q ∈ pc' :: rest, q.failed = true := fun q hq => by
    rcases List.mem_cons.mp hq with rfl | hq
    · exact hfailed
    · exact h.failed_of_mem_rest hnet hq
  refine close (s := { s with net := pc' :: rest }) (fun q hq => h.nested q ?_)
    (fun q hq _ => hall q hq) (fun q hq _ => ⟨hall q hq, hs⟩) h.started hnet' hstarted hclosed
  simpa [hnet] using hq

/-- A socket is started, without an error. -/
theorem begin (h : Ordered s) (hstarted : s.started = false) (hstarted' : t.started = true)
    (hclosed : t.closed = s.closed) (hnet : ∀ pc ∈ t.net, pc.failed = false ∧ pc.calling = false)
    (hlength : t.net.tail = []) (hunopened : t.state = .closed →
      ∃ pc, t.net = [pc] ∧ pc.starting = true) : Ordered t := by
  have hopen : t.closed = false := hclosed.trans (h.open_of_not_started hstarted)
  refine ⟨by simp [hlength], fun q hq hc => ?_, fun q hq hf => ?_, fun _ _ _ => hstarted', ?_, ?_,
    fun _ hst _ => hunopened hst⟩
  · simp [(hnet q hq).2] at hc
  · simp [(hnet q hq).1] at hf
  · simp [hopen]
  · simp [hopen]

/-- The first function of a socket fails at once. -/
theorem failBegin (hnet : s.net = []) : Ordered ({ s with started := true }.onErrorEvent now) := by
  rw [Socket.onErrorEvent_eq]
  refine close (s := { s with started := true }) ?_ ?_ ?_ (fun _ => rfl) rfl rfl rfl
  all_goals simp [hnet]

theorem step (h : Ordered s) (hst : Step p s l t) : Ordered t := by
  cases hst with
  | socket _ hs _ =>
    -- `state_` stays `CS_CLOSED` while `::connect` is under way
    refine h.begin hs rfl rfl ?_ rfl fun _ => ⟨_, rfl, ?_⟩
    all_goals cases p.apple <;> simp [NetPc.failed, NetPc.calling, NetPc.starting]
  | noSocket _ _ hnet _ => exact failBegin hnet
  | beginProcessFails _ _ hnet _ => exact failBegin hnet
  | beginProcess _ hs hnet =>
    refine h.begin hs rfl rfl ?_ ?_ (fun hc => by cases hc)
    all_goals simp [Socket.beginProcess, Socket.addRead, hnet]
  | sockopt hnet => exact h.goOn hnet rfl rfl rfl rfl rfl rfl rfl
  | sockoptFails hnet _ =>
    rw [Socket.onErrorEvent_eq]
    exact h.failOn hnet rfl rfl rfl rfl rfl
  | connect hnet => exact h.goOn hnet rfl rfl rfl rfl rfl rfl rfl
  | connectFails hnet _ =>
    rw [Socket.onErrorEvent_eq]
    exact h.failOn hnet rfl rfl rfl rfl rfl
  | arm hnet => exact h.ret hnet rfl (.inr fun hc => by cases hc) rfl rfl
  | connected hnet _ _ =>
    rw [Socket.clientConnected_eq]
    exact h.of_eq rfl rfl (by simp) rfl
  | connectError hnet _ _ =>
    rw [Socket.onErrorEvent_eq]
    exact h.closeFrom (.of_nil hnet) rfl rfl rfl
  | timeout hnet _ _ =>
    rw [Socket.onErrorEvent_eq]
    exact h.closeFrom (.of_nil hnet) rfl rfl rfl
  | onReadEvent hnet _ =>
    -- `OnReadEvent` returns at once unless the socket is connected
    by_cases hstate : s.state = .connected
    · exact h.enter .reading (.of_nil hnet) rfl (by simp [hstate, hnet]) rfl rfl rfl
    · exact h.of_eq (by simp [hstate, hnet]) rfl id rfl
  | onWriteEvent hnet _ =>
    exact h.enter .writing (.of_nil hnet) rfl (by simp [hnet]) rfl rfl rfl
  | readData hnet _ => exact h.ret hnet rfl (.inl ⟨rfl, rfl⟩) rfl rfl
  | readAgain hnet => exact h.ret hnet rfl (.inl ⟨rfl, rfl⟩) rfl rfl
  | readEof hnet _ =>
    rw [Socket.onErrorEvent_eq]
    exact h.fail hnet rfl rfl rfl
  | readError hnet _ =>
    rw [Socket.onErrorEvent_eq]
    exact h.fail hnet rfl rfl rfl
  | tryWrite hrun _ => exact h.enter _ hrun rfl rfl rfl rfl rfl
  | sendAgain hnet _ => exact h.ret hnet rfl (.inl ⟨rfl, rfl⟩) rfl rfl
  | sendError hnet _ _ =>
    rw [Socket.onErrorEvent_eq]
    exact h.fail hnet rfl rfl rfl
  | written hnet _ => exact h.ret hnet rfl (.inl ⟨rfl, rfl⟩) rfl rfl
  | close hrun _ _ =>
    rw [Socket.closeConnectionInNetworkLoop_eq]
    exact h.closeFrom hrun rfl rfl rfl
  | illegal _ _ =>
    -- this error leaves `state_` as it is
    rw [Socket.illegalLength_eq]
    exact h.of_eq rfl rfl id rfl
  | _ => exact h.of_eq rfl rfl id rfl

end Ordered

/-! ## `CS_CLOSED` is final -/

/-- Once the socket is closed, it stays closed, no event of it is added, and `SignalOnConnected` is
    not posted. -/
def Final (s : Socket) : Prop :=
  s.closed = true → s.state = .closed ∧ s.readEvent.added = false ∧ s.writeEvent.added = false ∧
    s.late = false

/-- The steps that respect a close: `ConnectServerInNetworkLoop` goes on behind `::connect` only if
    it has not called `OnErrorEvent`, and `::send` does not return `EAGAIN` or `EINTR` on a socket
    that has started and whose `state_` is `CS_CLOSED`. -/
def RespectsClose (s : Socket) : Label → Prop
  | .arm => ∀ pc ∈ s.net.head?, pc.failed = false
  | .send .again _ => ¬ (s.started = true ∧ s.state = .closed)
  | _ => True

/-- What such steps keep. -/
structure Settled (s : Socket) : Prop where
  late : s.late = false
  closed : s.closed = true → s.state = .closed ∧ s.readEvent.added = false ∧
    s.writeEvent.added = false

namespace Settled

theorem fresh (p : Setup) : Settled (.fresh p) :=
  ⟨rfl, nofun⟩

theorem final (h : Settled s) : Final s := fun hc =>
  have ⟨hstate, hread, hwrite⟩ := h.closed hc
  ⟨hstate, hread, hwrite, h.late⟩

/-- A step that adds no event and leaves `state_`. -/
theorem of_eq (h : Settled s) (hclosed : t.closed = s.closed) (hstate : t.state = s.state)
    (hread : t.readEvent.added = true → s.readEvent.added = true)
    (hwrite : t.writeEvent.added = true → s.writeEvent.added = true) (hlate : t.late = s.late) :
    Settled t where
  late := hlate.trans h.late
  closed hc := by
    obtain ⟨hst, hr, hw⟩ := h.closed (hclosed ▸ hc)
    refine ⟨hstate.trans hst, ?_, ?_⟩
    · by_contra hne
      simp [hread (by simpa using hne)] at hr
    · by_contra hne
      simp [hwrite (by simpa using hne)] at hw

theorem of_open (hlate : t.late = false) (hclosed : t.closed = false) : Settled t where
  late := hlate
  closed hc := by simp [hclosed] at hc

theorem onErrorEvent (hlate : s.late = false) : Settled (s.onErrorEvent now) := by
  rw [Socket.onErrorEvent_eq]
  exact ⟨hlate, fun _ => ⟨rfl, rfl, rfl⟩⟩

theorem step (hordered : Ordered s) (h : Settled s) (hok : RespectsClose s l)
    (hst : Step p s l t) : Settled t := by
  cases hst with
  | socket _ _ _ => exact h.of_eq rfl rfl id id rfl
  | noSocket _ _ _ _ => exact onErrorEvent h.late
  | sockoptFails _ _ => exact onErrorEvent h.late
  | connect _ => exact h.of_eq rfl rfl (by simp [Socket.setEvents]) (by simp [Socket.setEvents]) rfl
  | connectFails _ _ => exact onErrorEvent h.late
  | @arm failed calling rest hnet =>
    -- no call failed, so `CS_CLOSED` is still the state of the constructor
    have hfailed : failed = false := hok (.arm failed calling) (by simp [hnet])
    have hopen := hordered.open_of_starting (.arm failed calling) (by simp [hnet]) rfl hfailed
    apply of_open
    · simp [Socket.arm, Socket.addWrite, h.late, hopen]
    · exact hopen
  | beginProcess _ hs _ =>
    have hopen := hordered.open_of_not_started hs
    apply of_open
    · simp [Socket.beginProcess, Socket.addRead, h.late, hopen]
    · exact hopen
  | beginProcessFails _ _ _ _ => exact onErrorEvent h.late
  | connected _ hevent _ =>
    -- a closed socket holds no event that could fire
    have hopen : s.closed = false := by
      by_contra hc
      have hadded := (h.closed (by simpa using hc)).2.2
      simp [hevent] at hadded
    rw [Socket.clientConnected_eq]
    apply of_open
    · simp [Socket.addRead, h.late, hopen]
    · exact hopen
  | connectError _ _ _ => exact onErrorEvent h.late
  | timeout _ _ _ => exact onErrorEvent h.late
  | otherEvent _ _ => exact h.of_eq rfl rfl id (by simp) rfl
  | onWriteEvent _ _ => exact h.of_eq rfl rfl id (by simp) rfl
  | nullArgWrite _ _ => exact h.of_eq rfl rfl id (by simp) rfl
  | readEof _ _ => exact onErrorEvent h.late
  | readError _ _ => exact onErrorEvent h.late
  | sendAgain _ _ =>
    -- the loop of `TryWriteBufferToSocket` does not look at `state_`; the step's condition does
    have hopen : s.closed = false := by
      by_contra hc
      have hc : s.closed = true := by simpa using hc
      exact hok ⟨hordered.started hc, (h.closed hc).1⟩
    apply of_open
    · simp [Socket.addWrite, h.late, hopen]
    · exact hopen
  | sendError _ _ _ => exact onErrorEvent h.late
  | close _ _ _ =>
    rw [Socket.closeConnectionInNetworkLoop_eq]
    exact ⟨h.late, fun _ => ⟨rfl, rfl, rfl⟩⟩
  | illegal _ _ =>
    rw [Socket.illegalLength_eq]
    exact h.of_eq rfl rfl (by simp [Socket.delEvents]) (by simp [Socket.delEvents]) rfl
  | _ => exact h.of_eq rfl rfl id id rfl

end Settled

/-- A step that does not respect a close brings a closed socket back to life. -/
theorem not_final_of_not_respectsClose (hordered : Ordered s) (hno : ¬ RespectsClose s l)
    (hst : Step p s l t) : ¬ Final t := by
  intro hfinal
  cases hst with
  | @arm failed calling rest hnet =>
    -- `state_` becomes `CS_CONNECTING` behind the failed call
    have hfailed : failed = true := by simpa [RespectsClose, hnet, NetPc.failed] using hno
    have hclosed := hordered.failed (.arm failed calling) (by simp [hnet]) hfailed
    cases (hfinal hclosed).1
  | sendAgain hnet _ =>
    obtain ⟨hstarted, hstate⟩ := not_not.mp hno
    have hclosed : s.closed = true := by
      by_contra hopen
      -- before the end of `ConnectServerInNetworkLoop` nothing is sent
      obtain ⟨pc, hone, hstarting⟩ := hordered.unopened hstarted hstate (by simpa using hopen)
      rw [hnet] at hone
      cases hone
      cases hstarting
    -- the write event is added to a closed socket
    have hlate := (hfinal hclosed).2.2.2
    simp [Socket.addWrite, hclosed] at hlate
  | _ => exact hno trivial

/-- **`CS_CLOSED` is final**, exactly in the runs whose steps respect a close. -/
theorem closed_final_iff (p : Setup) {π : List (Label × Socket)}
    (hrun : (lifecycle p).IsRun (.fresh p) π) :
    Lts.Always Final (.fresh p) π ↔ Lts.Meets RespectsClose (.fresh p) π :=
  Lts.always_iff_meets (I := fun s => Ordered s ∧ Settled s) (fun _ h => h.2.final)
    (fun _ _ _ h hok hst => ⟨h.1.step hst, h.2.step h.1 hok hst⟩)
    (fun _ _ _ h hno hst => not_final_of_not_respectsClose h.1 hno hst)
    ⟨.fresh p, .fresh p⟩ hrun

/-- A client on two loops -/
def clientSetup : Setup := ⟨.client, false, false, .little⟩

/-- A client whose `::connect` has succeeded or is in progress. -/
def connecting : Socket :=
  { { Socket.fresh clientSetup with started := true }.setEvents with net := [.arm false false] }.arm

/-- The client is closed while it has bytes to send. `TryWriteBufferToSocket`, posted before, runs
    behind the close, and its `::send` fails. -/
theorem closed_final_iff_sending : ∃ π : List (Label × Socket),
    π.map Prod.fst = [.socket true false, .connect true false, .arm, .onConnection .connected false,
      .sendData 4, .closeConnection, .close false, .tryWrite, .send .error false,
      .runOnDestroySocket] ∧
    (Lts.lastState (.fresh clientSetup) π).closed = true ∧
    Lts.Always Final (.fresh clientSetup) π := by
  let armed : Socket := { connecting with net := [] }
  let connected : Socket := { armed with writeEvent := armed.writeEvent.del }.clientConnected false
  let sending : Socket := { connected with unsent := 4, writePosts := 1 }
  let closed : Socket := { sending with closePosts := 0 }.closeConnectionInNetworkLoop false
  let failed : Socket := { closed with writePosts := 0 }.onErrorEvent false
  have hrun : (lifecycle clientSetup).IsRun (.fresh clientSetup)
      [(.socket true false, { Socket.fresh clientSetup with
          started := true, net := [.connect false false] }),
        (.connect true false, { { Socket.fresh clientSetup with started := true }.setEvents with
          net := [.arm false false] }),
        (.arm, armed), (.onConnection .connected false, connected), (.sendData 4, sending),
        (.closeConnection, { sending with closePosts := 1 }), (.close false, closed),
        (.tryWrite, { closed with writePosts := 0, net := [.writing] }),
        (.send .error false, failed),
        (.runOnDestroySocket, { failed with destroyPosts := 0 }.onDestroySocket)] :=
    ⟨.socket rfl rfl rfl, .connect rfl, .arm rfl, .connected rfl rfl nofun, .sendData,
      .closeConnection, .close (.of_nil rfl) Nat.one_pos nofun,
      .tryWrite (.of_nil rfl) Nat.one_pos, .sendError rfl (by decide) nofun,
      .runOnDestroySocket Nat.one_pos, trivial⟩
  refine ⟨_, rfl, rfl, (closed_final_iff clientSetup hrun).mpr ?_⟩
  -- no call has failed in front of `arm`; the other steps respect every close
  simp [Lts.Meets, RespectsClose, NetPc.failed]

/-- A client whose `::connect` is refused goes from `CS_CLOSED` to `CS_CONNECTING` and arms its
    write event. -/
theorem refused_client_revives : ∃ π : List (Label × Socket),
    (lifecycle clientSetup).IsRun (.fresh clientSetup) π ∧
      ¬ Lts.Always Final (.fresh clientSetup) π := by
  let refused : Socket := { { Socket.fresh clientSetup with started := true }.setEvents with
    net := [.arm true false] }.onErrorEvent false
  refine ⟨[(.socket true false, { Socket.fresh clientSetup with
        started := true, net := [.connect false false] }),
      (.connect false false, refused), (.arm, { refused.arm with net := [] })],
    ⟨.socket rfl rfl rfl, .connectFails rfl nofun, .arm rfl, trivial⟩, fun h => ?_⟩
  have hfinal : Final { refused.arm with net := [] } := Lts.lastState_of_always h
  cases (hfinal rfl).1

/-! ## The end is reported at most once -/

/-- The calls of `SignalOnCloseEvent`, made and posted -/
def Socket.reports (s : Socket) : ℕ := s.invoked + s.onCloseEventPosts

/-- Neither started nor through with `ConnectServerInNetworkLoop` -/
def Early (s : Socket) : Prop := s.started = false ∨ ∃ pc ∈ s.net, pc.starting = true

/-- The steps that report the end only once: with `SignalOnCloseEvent` set, `setsockopt` and
    `::connect` do not fail in `ConnectServerInNetworkLoop`, `::send` does not fail before the
    socket was started, and what is an error is not found after the end was reported; nor does
    `::send` return `EAGAIN` or `EINTR` then, while the write event still calls `OnConnection`. -/
def ReportsOnce (p : Setup) (s : Socket) : Label → Prop
  | .sockopt ok _ => s.hasOnCloseEvent = true → ok = true
  | .connect ok _ => s.hasOnCloseEvent = true → ok = true
  | .send .error _ => s.hasOnCloseEvent = true → s.started = true ∧ s.reports = 0
  | .send .again _ => s.writeEvent.callback = some .onConnection → s.reports = 0
  | .read .eof _ => s.hasOnCloseEvent = true → s.reports = 0
  | .read .error _ => s.hasOnCloseEvent = true → s.reports = 0
  | .round => s.hasOnCloseEvent = true → IllegalHeader p.order s.received → s.reports = 0
  | _ => True

/-- What such steps keep. -/
structure Once (s : Socket) : Prop where
  once : s.reports ≤ 1
  /-- No function is entered inside another one -/
  alone : s.net.tail = [] ∧ ∀ pc ∈ s.net, pc.calling = false
  early : Early s → s.reports = 0 ∧ s.readEvent.added = false ∧ s.received = [] ∧
    .reading ∉ s.net
  unset : s.started = false → s.writeEvent.callback = none ∧ s.writeEvent.added = false
  reported : s.reports ≠ 0 → s.readEvent.added = false ∧
    (s.writeEvent.added = true → s.writeEvent.callback ≠ some .onConnection)

namespace Once

theorem fresh (p : Setup) : Once (.fresh p) where
  once := by simp [Socket.reports, Socket.fresh]
  alone := by simp [Socket.fresh]
  early _ := by simp [Socket.reports, Socket.fresh, Event.zero]
  unset _ := ⟨rfl, rfl⟩
  reported := by simp [Socket.reports, Socket.fresh]

theorem not_early (hstarted : s.started = true) (hnet : ∀ pc ∈ s.net, pc.starting = false) :
    ¬ Early s := by
  rintro (hs | ⟨pc, hpc, hs⟩)
  · simp [hstarted] at hs
  · simp [hnet pc hpc] at hs

/-- A step that reports nothing and adds no event. -/
theorem of_le (h : Once s) (hreports : t.reports = s.reports)
    (halone : t.net.tail = [] ∧ ∀ pc ∈ t.net, pc.calling = false)
    (hearly : Early t → Early s ∧ .reading ∉ t.net ∧ (s.received = [] → t.received = []))
    (hread : t.readEvent.added = true → s.readEvent.added = true)
    (hwrite : t.writeEvent.added = true →
      s.writeEvent.added = true ∧ t.writeEvent.callback = s.writeEvent.callback)
    (hunset : t.started = false →
      s.started = false ∧ t.writeEvent.callback = s.writeEvent.callback) : Once t where
  once := hreports ▸ h.once
  alone := halone
  early he := by
    obtain ⟨hes, hreading, hreceived⟩ := hearly he
    obtain ⟨hr, hadded, hrec, _⟩ := h.early hes
    refine ⟨hreports.trans hr, ?_, hreceived hrec, hreading⟩
    by_contra hne
    simp [hread (by simpa using hne)] at hadded
  unset hs := by
    obtain ⟨hs, hcb⟩ := hunset hs
    -- before the start no event is set, so none can fire
    obtain ⟨hnone, hadded⟩ := h.unset hs
    refine ⟨hcb.trans hnone, ?_⟩
    by_contra hne
    simp [(hwrite (by simpa using hne)).1] at hadded
  reported hr := by
    obtain ⟨hadded, hcb⟩ := h.reported (hreports ▸ hr)
    refine ⟨?_, fun hw => ?_⟩
    · by_contra hne
      simp [hread (by simpa using hne)] at hadded
    · rw [(hwrite hw).2]
      exact hcb (hwrite hw).1

/-- A started socket whose end was not reported. -/
theorem of_unreported (hreports : t.reports = 0) (hearly : ¬ Early t)
    (halone : t.net.tail = [] ∧ ∀ pc ∈ t.net, pc.calling = false) : Once t where
  once := by simp [hreports]
  alone := halone
  early he := absurd he hearly
  unset hs := absurd (.inl hs) hearly
  reported hr := absurd hreports hr

theorem reports_onErrorEvent (s : Socket) (now : Bool) :
    (s.onErrorEvent now).reports = s.reports + s.hasOnCloseEvent.toNat := by
  rw [Socket.onErrorEvent_eq]
  cases now <;> simp [Socket.reports] <;> omega

/-- The end is reported through `OnErrorEvent`, for the first time if at all. -/
theorem onErrorEvent (honce : s.reports ≤ 1)
    (halone : s.net.tail = [] ∧ ∀ pc ∈ s.net, pc.calling = false)
    (hreport : s.hasOnCloseEvent = true → s.reports = 0 ∧ ¬ Early s)
    (hearly : Early s → s.reports = 0 ∧ s.received = [] ∧ .reading ∉ s.net)
    (hunset : s.started = false → s.writeEvent.callback = none) : Once (s.onErrorEvent now) := by
  have hreports := reports_onErrorEvent s now
  rw [Socket.onErrorEvent_eq] at hreports ⊢
  refine ⟨?_, halone, fun he => ⟨?_, rfl, (hearly he).2⟩, fun hs => ⟨hunset hs, rfl⟩,
    fun _ => ⟨rfl, nofun⟩⟩
  · -- one report more, unless nobody listens
    rw [hreports]
    cases hset : s.hasOnCloseEvent with
    | false => simpa using honce
    | true => simp [(hreport hset).1]
  · rw [hreports, (hearly he).1]
    cases hset : s.hasOnCloseEvent with
    | false => rfl
    | true => exact absurd he (hreport hset).2

theorem net_of_canRun (h : Once s) (hrun : s.CanRun) : s.net = [] := by
  cases hnet : s.net with
  | nil => rfl
  | cons pc rest =>
    have hcalling := hrun pc (by simp [hnet])
    simp [h.alone.2 pc (by simp [hnet])] at hcalling

theorem rest_eq_nil (h : Once s) (hnet : s.net = pc :: rest) : rest = [] := by
  simpa [hnet] using h.alone.1

theorem alone_of_nil (hnet : s.net = []) : s.net.tail = [] ∧ ∀ pc ∈ s.net, pc.calling = false := by
  simp [hnet]

theorem started_of_set (h : Once s) (hset : s.writeEvent.callback ≠ none) : s.started = true := by
  by_contra hs
  exact hset (h.unset (by simpa using hs)).1

/-- While the write event waits for `OnConnection`, the end was not reported. -/
theorem unreported_of_connecting (h : Once s)
    (hevent : s.writeEvent = ⟨some .onConnection, true, true⟩) : s.reports = 0 := by
  by_contra hr
  exact (h.reported hr).2 (by simp [hevent]) (by simp [hevent])

/-- A failure that only a socket without `SignalOnCloseEvent` may meet, in
    `ConnectServerInNetworkLoop`. -/
theorem failOn (h : Once s) (hnet : s.net = pc :: rest) (hstarting : pc.starting = true)
    (hstarted : t.started = true) (hunset : t.hasOnCloseEvent = false)
    (hnet' : t.net = pc' :: rest) (hcalling : pc'.calling = false) (hpc' : pc' ≠ .reading)
    (hreports : t.reports = s.reports) (hreceived : t.received = s.received) :
    Once (t.onErrorEvent now) := by
  obtain rfl := h.rest_eq_nil hnet
  have he := h.early (.inr ⟨pc, by simp [hnet], hstarting⟩)
  refine onErrorEvent (hreports ▸ h.once) ?_ (fun hset => ?_) (fun _ => ?_) (fun hs => ?_)
  · simp [hnet', hcalling]
  · simp [hunset] at hset
  · refine ⟨hreports.trans he.1, hreceived.trans he.2.2.1, ?_⟩
    simpa [hnet'] using Ne.symm hpc'
  · simp [hstarted] at hs

theorem started_of_early_nil (he : Early { s with net := [] }) : s.started = false := by
  rcases he with hs | ⟨pc, hpc, _⟩
  · exact hs
  · cases hpc

/-- An error that the innermost function finds, which returns. -/
theorem fail (h : Once s) (hnet : s.net = pc :: rest)
    (hreport : s.hasOnCloseEvent = true → s.started = true ∧ s.reports = 0) :
    Once ({ s with net := rest }.onErrorEvent now) := by
  obtain rfl := h.rest_eq_nil hnet
  refine onErrorEvent h.once (alone_of_nil rfl) (fun hset => ⟨(hreport hset).2, fun he => ?_⟩)
    (fun he => ?_) (fun hs => (h.unset hs).1)
  · -- with `SignalOnCloseEvent` set, the socket was started
    simp [started_of_early_nil he] at hreport
    simp [hreport] at hset
  · have he := h.early (.inl (started_of_early_nil he))
    exact ⟨he.1, he.2.2.1, nofun⟩

/-- The first function of a socket fails at once. -/
theorem failBegin (h : Once s) (hs : s.started = false) (hnet : s.net = []) :
    Once ({ s with started := true }.onErrorEvent now) := by
  have he := h.early (.inl hs)
  have hearly : ¬ Early { s with started := true } := not_early rfl (by simp [hnet])
  exact onErrorEvent h.once (alone_of_nil hnet) (fun _ => ⟨he.1, hearly⟩)
    (fun he => absurd he hearly) nofun

/-- `OnConnection` finds that the connection was not made. -/
theorem failConnection (h : Once s) (hnet : s.net = [])
    (hevent : s.writeEvent = ⟨some .onConnection, true, true⟩) :
    Once ({ s with writeEvent := s.writeEvent.del }.onErrorEvent now) := by
  have hstarted := h.started_of_set (by simp [hevent])
  have hearly : ¬ Early { s with writeEvent := s.writeEvent.del } :=
    not_early hstarted (by simp [hnet])
  refine onErrorEvent h.once (alone_of_nil hnet)
    (fun _ => ⟨h.unreported_of_connecting hevent, hearly⟩) (fun he => absurd he hearly)
    (fun hs => ?_)
  simp [hstarted] at hs

/-- `ConnectServerInNetworkLoop` goes on without an error. -/
theorem goOn (h : Once s) (hnet : s.net = pc :: rest) (hstarting : pc.starting = true)
    (hstarted : t.started = true) (hnet' : t.net = pc' :: rest)
    (hcalling : pc'.calling = false) (hpc' : pc' ≠ .reading) (hreports : t.reports = s.reports)
    (hreceived : t.received = s.received) (hread : t.readEvent.added = false) : Once t := by
  obtain rfl := h.rest_eq_nil hnet
  have he := h.early (.inr ⟨pc, by simp [hnet], hstarting⟩)
  refine ⟨hreports ▸ h.once, by simp [hnet', hcalling], fun _ => ⟨hreports.trans he.1, hread,
    hreceived.trans he.2.2.1, ?_⟩, fun hs => ?_, fun hr => ?_⟩
  · simpa [hnet'] using Ne.symm hpc'
  · simp [hstarted] at hs
  · exact absurd (hreports.trans he.1) hr

theorem started_of_not_early (h : ¬ Early s) : s.started = true := by
  by_contra hs
  exact h (.inl (by simpa using hs))

/-- Once bytes are read, the socket is past `ConnectServerInNetworkLoop`. -/
theorem not_early_of_reading (h : Once s) (hnet : s.net = .reading :: rest) : ¬ Early s := by
  intro he
  exact (h.early he).2.2.2 (by simp [hnet])

/-- A function of the data path begins or ends in a socket that is past
    `ConnectServerInNetworkLoop`. -/
theorem of_not_early (h : Once s) (hearly : ¬ Early t) (hreports : t.reports = s.reports)
    (halone : t.net.tail = [] ∧ ∀ pc ∈ t.net, pc.calling = false)
    (hread : t.readEvent.added = true → s.readEvent.added = true)
    (hwrite : t.writeEvent.added = true →
      s.writeEvent.added = true ∧ t.writeEvent.callback = s.writeEvent.callback) : Once t :=
  h.of_le hreports halone (fun he => absurd he hearly) hread hwrite
    (fun hs => absurd (.inl hs) hearly)

/-- `TryReadDataFromSocket` returns without an error. -/
theorem endReading (h : Once s) (hnet : s.net = .reading :: rest)
    (hreports : t.reports = s.reports) (hstarted : t.started = s.started) (hnet' : t.net = rest)
    (hread : t.readEvent = s.readEvent) (hwrite : t.writeEvent = s.writeEvent) : Once t := by
  have hstarted : t.started = true :=
    hstarted.trans (started_of_not_early (h.not_early_of_reading hnet))
  obtain rfl := h.rest_eq_nil hnet
  exact h.of_not_early (not_early hstarted (by simp [hnet'])) hreports (alone_of_nil hnet')
    (fun hr => hread ▸ hr) (fun hw => ⟨hwrite ▸ hw, by rw [hwrite]⟩)

/-- A step that leaves the events and the network loop. -/
theorem of_eq (h : Once s) (hreports : t.reports = s.reports) (hstarted : t.started = s.started)
    (hnet : t.net = s.net) (hread : t.readEvent = s.readEvent)
    (hwrite : t.writeEvent = s.writeEvent) (hreceived : s.received = [] → t.received = []) :
    Once t := by
  refine h.of_le hreports (hnet ▸ h.alone) (fun he => ?_) (fun hr => hread ▸ hr)
    (fun hw => ⟨hwrite ▸ hw, by rw [hwrite]⟩) (fun hs => ⟨hstarted ▸ hs, by rw [hwrite]⟩)
  have he : Early s := by
    rw [Early, hstarted, hnet] at he
    exact he
  refine ⟨he, ?_, hreceived⟩
  rw [hnet]
  exact (h.early he).2.2.2

theorem step (hordered : Ordered s) (h : Once s) (hok : ReportsOnce p s l)
    (hst : Step p s l t) : Once t := by
  cases hst with
  | socket _ hs hnet =>
    have he := h.early (.inl hs)
    refine ⟨h.once, ?_, fun _ => ⟨he.1, he.2.1, he.2.2.1, ?_⟩, by simp, fun hr => absurd he.1 hr⟩
    all_goals cases p.apple <;> simp [NetPc.calling]
  | noSocket _ hs hnet _ => exact h.failBegin hs hnet
  | beginProcessFails _ hs hnet _ => exact h.failBegin hs hnet
  | sockopt hnet =>
    have hstarted := hordered.starting .sockopt (by simp [hnet]) rfl
    have he := h.early (.inr ⟨.sockopt, by simp [hnet], rfl⟩)
    exact h.goOn hnet rfl hstarted rfl rfl (by simp) rfl rfl he.2.1
  | sockoptFails hnet _ =>
    have hstarted := hordered.starting .sockopt (by simp [hnet]) rfl
    -- the loop goes on behind `OnErrorEvent`, so the step may report nothing
    have hset : s.hasOnCloseEvent = false := by simpa [ReportsOnce] using hok
    refine h.failOn hnet rfl hstarted hset rfl ?_ (by simp) rfl rfl
    simp [NetPc.calling, hset]
  | @connect failed calling rest now hnet =>
    have hstarted := hordered.starting (.connect failed calling) (by simp [hnet]) rfl
    exact h.goOn hnet rfl hstarted rfl rfl (by simp) rfl rfl rfl
  | @connectFails failed calling rest now hnet _ =>
    have hstarted := hordered.starting (.connect failed calling) (by simp [hnet]) rfl
    have hset : s.hasOnCloseEvent = false := by simpa [ReportsOnce] using hok
    refine h.failOn hnet rfl hstarted hset rfl ?_ (by simp) rfl rfl
    simp [NetPc.calling, hset]
  | @arm failed calling rest hnet =>
    have hstarted := hordered.starting (.arm failed calling) (by simp [hnet]) rfl
    have he := h.early (.inr ⟨.arm failed calling, by simp [hnet], rfl⟩)
    obtain rfl := h.rest_eq_nil hnet
    exact of_unreported he.1 (not_early hstarted (by simp)) (alone_of_nil rfl)
  | beginProcess _ hs hnet =>
    have he := h.early (.inl hs)
    exact of_unreported he.1 (not_early rfl (by simp [Socket.beginProcess, Socket.addRead, hnet]))
      (alone_of_nil hnet)
  | connected hnet hevent _ =>
    have hstarted := h.started_of_set (by simp [hevent])
    rw [Socket.clientConnected_eq]
    exact of_unreported (h.unreported_of_connecting hevent)
      (not_early hstarted (by simp [Socket.addRead, hnet])) (alone_of_nil hnet)
  | connectError hnet hevent _ => exact h.failConnection hnet hevent
  | timeout hnet hevent _ => exact h.failConnection hnet hevent
  | otherEvent hnet hevent =>
    have hstarted := h.started_of_set (by simp [hevent])
    exact of_unreported (h.unreported_of_connecting hevent)
      (not_early hstarted (by simp [hnet])) (alone_of_nil hnet)
  | onReadEvent hnet hevent =>
    -- the read event fires only where it was added, behind the start
    have hearly : ¬ Early s := fun he => by
      have hadded := (h.early he).2.1
      simp [hevent] at hadded
    have hstarted := started_of_not_early hearly
    refine h.of_not_early (not_early hstarted fun pc hpc => ?_) rfl ?_ id (fun hw => ⟨hw, rfl⟩)
    · dsimp only at hpc
      split at hpc
      · obtain rfl := List.mem_singleton.mp hpc
        rfl
      · cases hpc
    · dsimp only
      split <;> simp [NetPc.calling]
  | onWriteEvent hnet hevent =>
    have hstarted := h.started_of_set (by simp [hevent])
    exact h.of_not_early (not_early hstarted (by simp [NetPc.starting])) rfl
      (by simp [NetPc.calling]) id (by simp)
  | nullArgWrite hnet hevent =>
    have hstarted := h.started_of_set (by simp [hevent])
    exact h.of_not_early (not_early hstarted (by simp [hnet])) rfl (alone_of_nil hnet) id (by simp)
  | readData hnet _ => exact h.endReading hnet rfl rfl rfl rfl rfl
  | readAgain hnet => exact h.endReading hnet rfl rfl rfl rfl rfl
  | readEof hnet _ =>
    have hstarted := started_of_not_early (h.not_early_of_reading hnet)
    exact h.fail hnet fun hset => ⟨hstarted, hok hset⟩
  | readError hnet _ =>
    have hstarted := started_of_not_early (h.not_early_of_reading hnet)
    exact h.fail hnet fun hset => ⟨hstarted, hok hset⟩
  | tryWrite hrun _ =>
    have hnet := h.net_of_canRun hrun
    refine h.of_le rfl (by simp [hnet, NetPc.calling]) (fun he => ?_) id (fun hw => ⟨hw, rfl⟩)
      (fun hs => ⟨hs, rfl⟩)
    -- `SendData` may be called before the socket starts: then it stays early
    rcases he with hs | ⟨pc, hpc, hstarting⟩
    · exact ⟨.inl hs, by simp [hnet], id⟩
    · obtain rfl : pc = .writing := by simpa [hnet] using hpc
      cases hstarting
  | sendAgain hnet _ =>
    obtain rfl := h.rest_eq_nil hnet
    refine ⟨h.once, alone_of_nil rfl, fun he => ?_, fun hs => ?_, fun hr => ⟨(h.reported hr).1, ?_⟩⟩
    · have he := h.early (.inl (started_of_early_nil he))
      exact ⟨he.1, he.2.1, he.2.2.1, by simp⟩
    · -- `event_add` fails before `event_set`
      obtain ⟨hnone, _⟩ := h.unset hs
      exact ⟨hnone, by simp [Socket.addWrite, Event.add, hnone]⟩
    · -- re-arming `OnConnection` behind a report is what `ReportsOnce` excludes
      intro _ hcb
      exact hr (hok hcb)
  | sendError hnet _ _ => exact h.fail hnet hok
  | written hnet _ =>
    obtain rfl := h.rest_eq_nil hnet
    refine h.of_le rfl (alone_of_nil rfl) (fun he => ⟨.inl (started_of_early_nil he), ?_, id⟩) id
      (fun hw => ⟨hw, rfl⟩) (fun hs => ⟨hs, rfl⟩)
    simp
  | close hrun _ _ =>
    have hnet := h.net_of_canRun hrun
    rw [Socket.closeConnectionInNetworkLoop_eq]
    refine h.of_le rfl (alone_of_nil hnet) (fun he => ⟨he, ?_, id⟩) ?_ ?_ (fun hs => ⟨hs, rfl⟩)
    all_goals simp [Socket.delEvents, Socket.setClosed, hnet]
  | frame _ _ => exact h.of_eq rfl rfl rfl rfl rfl (fun hr => by simp [hr])
  | illegal _ hillegal =>
    -- an early socket has read nothing, so it has no header either
    have hearly : ¬ Early s := fun he => by
      have hlength := hillegal.1
      simp [(h.early he).2.2.1] at hlength
    -- `SignalOnCloseEvent` is called at once here, not through `OnErrorEvent`
    rw [Socket.illegalLength_eq]
    refine ⟨?_, h.alone, fun he => absurd he hearly, fun hs => absurd (.inl hs) hearly,
      fun _ => ⟨rfl, by simp [Socket.delEvents]⟩⟩
    cases hset : s.hasOnCloseEvent with
    | false => exact h.once
    | true =>
      have hr := hok hset hillegal
      simp only [Socket.reports, Socket.delEvents, Bool.toNat_true] at hr ⊢
      omega
  | runOnCloseEvent hpos =>
    -- a posted report becomes one that is made
    refine h.of_eq ?_ rfl rfl rfl rfl id
    simp only [Socket.reports, Socket.signalOnCloseEvent]
    omega
  | _ => exact h.of_eq rfl rfl rfl rfl rfl id

end Once

/-- **The end is reported at most once** in a run whose steps all meet `ReportsOnce`. -/
theorem close_reported_once (p : Setup) {π : List (Label × Socket)}
    (hrun : (lifecycle p).IsRun (.fresh p) π) (hmeets : Lts.Meets (ReportsOnce p) (.fresh p) π) :
    Lts.Always (fun s => s.invoked ≤ 1) (.fresh p) π := by
  refine Lts.always_of_meets (I := fun s => Ordered s ∧ Once s) (fun s h => ?_)
    (fun _ _ _ h hok hst => ⟨h.1.step hst, h.2.step h.1 hok hst⟩) ⟨.fresh p, .fresh p⟩ hrun hmeets
  have hreports := h.2.once
  rw [Socket.reports] at hreports
  omega

/-- An accepted socket on two loops, with `SignalOnCloseEvent` set -/
def acceptedSetup : Setup := ⟨.accepted, false, false, .little⟩

def accepted : Socket :=
  { { Socket.fresh acceptedSetup with hasOnCloseEvent := true } with started := true }.beginProcess

/-- The first steps of an accepted socket, up to the report of a read that fails -/
def resetRun : List (Label × Socket) :=
  [(.setSignals false true, { Socket.fresh acceptedSetup with hasOnCloseEvent := true }),
    (.beginProcess true false, accepted),
    (.onReadEvent, { accepted with net := [.reading] }),
    (.read .error false, { accepted with net := [] }.onErrorEvent false),
    (.runOnCloseEvent, { { accepted with net := [] }.onErrorEvent false with
      onCloseEventPosts := 0 }.signalOnCloseEvent)]

theorem close_reported_once_reset : Lts.Always (fun s => s.invoked ≤ 1)
    (.fresh acceptedSetup) resetRun ∧ (Lts.lastState (.fresh acceptedSetup) resetRun).invoked = 1 :=
  ⟨close_reported_once acceptedSetup
    ⟨.setSignals, .beginProcess rfl rfl rfl, .onReadEvent rfl rfl, .readError rfl nofun,
      .runOnCloseEvent Nat.one_pos, trivial⟩
    ⟨trivial, trivial, trivial, fun _ => rfl, trivial, trivial⟩, rfl⟩

/-- `TryWriteBufferToSocket`, posted before the connection was reset, reports the end again. -/
theorem reset_reported_twice : ∃ π : List (Label × Socket),
    (lifecycle acceptedSetup).IsRun (.fresh acceptedSetup) π ∧
      ¬ Lts.Always (fun s => s.invoked ≤ 1) (.fresh acceptedSetup) π := by
  let sending : Socket := { accepted with unsent := 4, writePosts := 1 }
  let reset : Socket := sending.onErrorEvent false
  let failed : Socket := { reset with writePosts := 0 }.onErrorEvent false
  let once : Socket := { failed with onCloseEventPosts := 1 }.signalOnCloseEvent
  let twice : Socket := { once with onCloseEventPosts := 0 }.signalOnCloseEvent
  refine ⟨[(.setSignals false true, { Socket.fresh acceptedSetup with hasOnCloseEvent := true }),
      (.beginProcess true false, accepted), (.sendData 4, sending),
      (.onReadEvent, { sending with net := [.reading] }), (.read .error false, reset),
      (.tryWrite, { reset with writePosts := 0, net := [.writing] }), (.send .error false, failed),
      (.runOnCloseEvent, once), (.runOnCloseEvent, twice)],
    ⟨.setSignals, .beginProcess rfl rfl rfl, .sendData, .onReadEvent rfl rfl, .readError rfl nofun,
      .tryWrite (.of_nil rfl) Nat.one_pos, .sendError rfl (by decide) nofun,
      .runOnCloseEvent (by decide), .runOnCloseEvent (by decide), trivial⟩, fun h => ?_⟩
  have hinvoked : twice.invoked ≤ 1 := Lts.lastState_of_always h
  revert hinvoked
  decide

end ReechatBase.TcpSocket
