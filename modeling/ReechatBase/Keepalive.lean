import Mathlib.Algebra.Order.Group.Int
import ReechatBase.TcpClientTask.Connections
import ReechatBase.TcpServerTask.Basic

/-!
# Saying hello often enough

A `TcpClientTask` says hello every 10 seconds, and a `TcpServerTask` gives up a verified client that
has not done so for 30. Both only look at the clock when their `ScheduleEvent` is called, and a
hello takes its time to arrive. Here are the two of them over a connection that is not lost: the
`ScheduleEvent` of the client is called at least once in every `period`, and a hello arrives
after at most `delay`, in milliseconds of the one clock that both read. No time passes inside the
methods of the client and the hooks that they call.

Main result: `never_timed_out_iff`. The server never gives up its client exactly if `period` and
`delay` make up no more than 20001 milliseconds.
-/

namespace ReechatBase.Keepalive

open Lib

/-! ## The two tasks and the time -/

/-- What the program sees to, and its loops. -/
structure Setup where
  period : ℤ
  period_pos : 0 < period
  delay : ℤ
  delay_nonneg : 0 ≤ delay
  clientOneLoop : Bool
  serverOneLoop : Bool

structure Link where
  now : ℤ
  client : TcpClientTask.Task
  server : TcpServerTask.Task
  /-- When `ScheduleEvent` of the client was called last -/
  called : ℤ
  /-- When the hellos were sent that are on their way, the oldest first -/
  sent : List ℤ

inductive Label where
  | tick
  | client (l : TcpClientTask.Label)
  | server (l : TcpServerTask.Label)
  /-- A hello arrives -/
  | deliver

/-- The client reads the clock. -/
def ClientAt (now : ℤ) : TcpClientTask.Label → Prop
  | .scheduleEvent time => time = now
  | .onRecvHelloMsg time => time = now
  | .ret _ time => time = now
  | _ => True

/-- The server reads the clock. -/
def ServerAt (now : ℤ) : TcpServerTask.Label → Prop
  | .beginProcess _ time => time = now
  | .scheduleEvent time => time = now
  | .onRecvHelloMsg time => time = now
  | _ => True

/-- `OnSendHelloMsg` is what the client waits for. -/
def SendingHello (c : TcpClientTask.Task) : Prop :=
  ∃ time first rest, c.stack = .onSendHelloMsg time first :: rest

/-- The steps of the two tasks. -/
inductive Step (p : Setup) : Link → Label → Link → Prop where
  -- no method takes time
  | tick {s} : s.client.stack = [] → s.now < s.called + p.period →
      (∀ t ∈ s.sent, s.now < t + p.delay) → Step p s .tick { s with now := s.now + 1 }
  | schedule {s c} : TcpClientTask.Step p.clientOneLoop s.client (.scheduleEvent s.now) c →
      Step p s (.client (.scheduleEvent s.now)) { s with client := c, called := s.now }
  -- `OnSendHelloMsg` succeeds
  | sent {s c} : SendingHello s.client →
      TcpClientTask.Step p.clientOneLoop s.client (.ret true s.now) c →
      Step p s (.client (.ret true s.now)) { s with client := c, sent := s.sent ++ [s.now] }
  | client {s l c} : (∀ time, l ≠ .scheduleEvent time) →
      (SendingHello s.client → ∀ value time, l ≠ .ret value time) → ClientAt s.now l →
      TcpClientTask.Step p.clientOneLoop s.client l c →
      Step p s (.client l) { s with client := c }
  | server {s l u} : ServerAt s.now l → TcpServerTask.Step p.serverOneLoop s.server l u →
      Step p s (.server l) { s with server := u }
  | deliver {s t sent u} : s.sent = t :: sent →
      TcpServerTask.Step p.serverOneLoop s.server (.onRecvHelloMsg s.now) u →
      Step p s .deliver { s with server := u, sent := sent }

/-- The connection, from the `BeginProcess` of the server on. The client may have been used
    before. -/
def link (p : Setup) : Lts Link Label where
  init s := 0 < s.now ∧ s.client.stack = [] ∧ s.client.lastScheduleTime ≤ s.called ∧
    s.called ≤ s.now ∧ s.now ≤ s.called + p.period ∧
    s.server = TcpServerTask.Task.fresh.beginProcess true s.now ∧ s.sent = []
  step := Step p

/-! ## What the steps do to the times -/

/-- A call of `OnSendHelloMsg`, made at this time, is in progress. -/
def Sending (c : TcpClientTask.Task) (time : ℤ) : Prop :=
  ∃ first, .onSendHelloMsg time first ∈ c.stack

section Client

open TcpClientTask

variable {oneLoop : Bool} {s t : TcpClientTask.Task} {l : TcpClientTask.Label} {time : ℤ}

/-- The step leaves alone what `ScheduleEvent` is about. -/
structure SameHello (s t : TcpClientTask.Task) : Prop where
  lastScheduleTime_eq : t.lastScheduleTime = s.lastScheduleTime
  sending_iff : ∀ time, Sending t time ↔ Sending s time

theorem SameHello.of_stack {f : Frame} (hl : t.lastScheduleTime = s.lastScheduleTime)
    (hstack : t.stack = s.stack ∨ t.stack = f :: s.stack ∨ s.stack = f :: t.stack)
    (hf : ∀ time first, f ≠ .onSendHelloMsg time first) : SameHello s t := by
  refine ⟨hl, fun time => exists_congr fun first => ?_⟩
  have hne : Frame.onSendHelloMsg time first ≠ f := (hf time first).symm
  rcases hstack with h | h | h <;> simp [h, hne]

theorem SameHello.trans {u : TcpClientTask.Task} (h : SameHello s t) (h' : SameHello t u) :
    SameHello s u :=
  ⟨h'.lastScheduleTime_eq.trans h.lastScheduleTime_eq,
    fun time => (h'.sending_iff time).trans (h.sending_iff time)⟩

/-- A hook returns, and another one is called. -/
theorem SameHello.of_next {f g : Frame} {rest : List Frame}
    (hl : t.lastScheduleTime = s.lastScheduleTime) (hs : s.stack = f :: rest)
    (ht : t.stack = g :: rest) (hf : ∀ time first, f ≠ .onSendHelloMsg time first)
    (hg : ∀ time first, g ≠ .onSendHelloMsg time first) : SameHello s t :=
  SameHello.trans (t := { s with stack := rest }) (.of_stack rfl (.inr (.inr hs)) hf)
    (.of_stack hl (.inr (.inl ht)) hg)

theorem sameHello_tryReconnectServerInner (s : TcpClientTask.Task) :
    SameHello s s.tryReconnectServerInner := by
  by_cases h : s.Exhausted
  · rw [tryReconnectServerInner_of_exhausted h]
    exact .of_stack (f := .onConnectError) rfl (.inr (.inl rfl)) (by simp)
  · rw [tryReconnectServerInner_of_not_exhausted h]
    exact .of_stack (f := .onConnectError) rfl (.inl rfl) (by simp)

theorem sameHello_checkHelloTime (s : TcpClientTask.Task) (time : ℤ) :
    SameHello s (s.checkHelloTime time) := by
  unfold TcpClientTask.Task.checkHelloTime
  split
  · exact sameHello_tryReconnectServerInner s
  · exact ⟨rfl, fun _ => Iff.rfl⟩

theorem sameHello_signal (s : TcpClientTask.Task) (sig : Signal) : SameHello s (s.signal sig) := by
  cases sig with
  | onConnected => exact .of_stack (f := .onConnectOpen) rfl (.inr (.inl rfl)) (by simp)
  | onCloseEvent => exact sameHello_tryReconnectServerInner s

theorem sameHello_onInternalPacket (s : TcpClientTask.Task) (i : ℕ) :
    SameHello s (s.onInternalPacket i) := by
  unfold TcpClientTask.Task.onInternalPacket
  split
  · exact .of_stack (f := .msgParse) rfl (.inr (.inl rfl)) (by simp)
  · exact .of_stack (f := .onRecvVerifyMsg i) rfl (.inr (.inl rfl)) (by simp)

/-- Any step but `ScheduleEvent` and the return of `OnSendHelloMsg` -/
theorem sameHello_of_step (hst : TcpClientTask.Step oneLoop s l t)
    (hschedule : ∀ time, l ≠ .scheduleEvent time)
    (hsend : SendingHello s → ∀ value time, l ≠ .ret value time) : SameHello s t := by
  cases hst with
  | scheduleEvent => exact absurd rfl (hschedule _)
  | onSendHelloMsg hstack => exact absurd rfl (hsend ⟨_, _, _, hstack⟩ _ _)
  | beginProcess => exact .of_stack (f := .beginConnect _) rfl (.inr (.inl rfl)) (by simp)
  | fire => exact .of_stack (f := .beginConnect _) rfl (.inr (.inl rfl)) (by simp)
  | stopProcess => exact .of_stack (f := .removeFromManager) rfl (.inr (.inl rfl)) (by simp)
  | setMaxReconnectTimes => exact ⟨rfl, fun _ => Iff.rfl⟩
  | setCheckHello => exact ⟨rfl, fun _ => Iff.rfl⟩
  | onRecvHelloMsg => exact ⟨rfl, fun _ => Iff.rfl⟩
  | post => exact ⟨rfl, fun _ => Iff.rfl⟩
  | @run sig i =>
    have hpop : SameHello s { s with posts := s.posts.erase (sig, i) } := ⟨rfl, fun _ => Iff.rfl⟩
    exact hpop.trans (sameHello_signal _ sig)
  | @inline sig => exact sameHello_signal s sig
  | @packet i => exact sameHello_onInternalPacket s i
  | beginConnect hstack => exact .of_stack rfl (.inr (.inr hstack)) (by simp)
  | removeFromManager hstack => exact .of_stack rfl (.inr (.inr hstack)) (by simp)
  | verified hstack => exact .of_next rfl hstack rfl (by simp) (by simp)
  | notVerified hstack => exact .of_next rfl hstack rfl (by simp) (by simp)
  | addToManager hstack => exact .of_stack rfl (.inr (.inr hstack)) (by simp)
  | msgParse hstack => exact .of_stack rfl (.inr (.inr hstack)) (by simp)
  | onConnectOpen hstack => exact .of_next rfl hstack rfl (by simp) (by simp)
  | onSendVerifyMsg hstack => exact .of_stack rfl (.inr (.inr hstack)) (by simp)
  | onConnectError hstack => exact .of_next rfl hstack rfl (by simp) (by simp)

/-- `ScheduleEvent` says hello, unless less than 10 seconds have passed since the last time. -/
theorem scheduleEvent_cases (s : TcpClientTask.Task) (time : ℤ) :
    (∃ first, s.scheduleEvent time = s.call (.onSendHelloMsg time first)) ∨
      time - s.lastScheduleTime < 10000 ∧ SameHello s (s.scheduleEvent time) := by
  unfold TcpClientTask.Task.scheduleEvent
  by_cases hzero : s.lastScheduleTime = 0
  · exact .inl ⟨true, if_pos hzero⟩
  · by_cases hlong : time - s.lastScheduleTime ≥ 10000
    · exact .inl ⟨false, by rw [if_neg hzero, if_pos hlong]⟩
    · rw [if_neg hzero, if_neg hlong]
      exact .inr ⟨not_le.mp hlong, sameHello_checkHelloTime s time⟩

/-- `OnSendHelloMsg` returns true. -/
theorem helloSent_of_step {now : ℤ} (hst : TcpClientTask.Step oneLoop s (.ret true now) t)
    (hsend : SendingHello s) :
    ∃ time, Sending s time ∧ t.lastScheduleTime = time ∧
      ∀ time, Sending t time → Sending s time := by
  obtain ⟨time, first, rest, hstack⟩ := hsend
  cases hst with
  | onSendHelloMsg hstack' =>
    obtain ⟨hframe, rfl⟩ := List.cons.inj (hstack.symm.trans hstack')
    obtain ⟨rfl, rfl⟩ := Frame.onSendHelloMsg.inj hframe
    have hcheck := sameHello_checkHelloTime (TcpClientTask.Task.helloSent { s with stack := rest }
      time first true) time
    refine ⟨time, ⟨first, by simp [hstack]⟩, ?_, fun time' hsending => ?_⟩
    · rw [hcheck.lastScheduleTime_eq, TcpClientTask.Task.helloSent, if_neg (by simp)]
    · obtain ⟨first', hmem⟩ := (hcheck.sending_iff time').mp hsending
      exact ⟨first', hstack ▸ List.mem_cons_of_mem _ hmem⟩
  | _ hstack' => cases hstack.symm.trans hstack'

end Client

/-- Once begun, the server remembers a hello until the next one. -/
theorem lastHelloTime_of_step {oneLoop : Bool} {s t : TcpServerTask.Task} {l : TcpServerTask.Label}
    {now : ℤ} (hst : TcpServerTask.Step oneLoop s l t) (hat : ServerAt now l)
    (hbegun : s.begun = true) :
    t.begun = true ∧ (t.lastHelloTime = s.lastHelloTime ∨ t.lastHelloTime = now) := by
  cases hst with
  | beginProcess hnot => simp [hbegun] at hnot
  | onRecvHelloMsg => exact ⟨hbegun, .inr hat⟩
  | scheduleEvent =>
    unfold TcpServerTask.Task.scheduleEvent
    split <;> exact ⟨hbegun, .inl rfl⟩
  | packet =>
    unfold TcpServerTask.Task.onInternalPacket
    split <;> exact ⟨hbegun, .inl rfl⟩
  | checkVerified =>
    unfold TcpServerTask.Task.onCheckVerified
    split <;> exact ⟨hbegun, .inl rfl⟩
  | _ => exact ⟨hbegun, .inl rfl⟩

/-! ## Times with bounded gaps -/

/-- From `a` on, no two times that follow one another are more than `gap` apart. -/
def Spaced (gap : ℤ) : ℤ → List ℤ → Prop
  | _, [] => True
  | a, t :: l => t ≤ a + gap ∧ Spaced gap t l

theorem Spaced.concat {gap a t : ℤ} {l : List ℤ} (h : Spaced gap a l)
    (ht : t ≤ l.getLastD a + gap) : Spaced gap a (l ++ [t]) := by
  induction l generalizing a with
  | nil => exact ⟨ht, trivial⟩
  | cons b l ih =>
    rw [List.getLastD_cons] at ht
    exact ⟨h.1, ih h.2 ht⟩

/-! ## The invariant -/

/-- `a` is no later than the last hello that has arrived. From then on, hellos are sent at most
    `period` behind the 10 seconds of `ScheduleEvent`. -/
structure Paced (p : Setup) (s : Link) (a : ℤ) : Prop where
  arrived : a ≤ s.server.lastHelloTime
  spaced : Spaced (9999 + p.period) a s.sent
  last : s.client.lastScheduleTime ≤ s.sent.getLastD a
  due : s.now ≤ s.sent.getLastD a + (9999 + p.period)
  called : (∀ time, ¬ Sending s.client time) → s.called ≤ s.sent.getLastD a + 9999

structure Inv (p : Setup) (s : Link) : Prop where
  called : s.called ≤ s.now
  sending : ∀ time, Sending s.client time → time = s.now
  paced : ∃ a, Paced p s a
  inTime : ∀ t ∈ s.sent, t ≤ s.now ∧ s.now ≤ t + p.delay
  heard : s.server.lastHelloTime ≤ s.now
  begun : s.server.begun = true

namespace Inv

variable {p : Setup} {s t : Link}

theorem tick (hs : Inv p s) (hstack : s.client.stack = []) (hcalled : s.now < s.called + p.period)
    (hsent : ∀ t ∈ s.sent, s.now < t + p.delay) : Inv p { s with now := s.now + 1 } := by
  have hidle : ∀ time, ¬ Sending s.client time := by
    intro time h
    obtain ⟨first, hmem⟩ := h
    simp [hstack] at hmem
  obtain ⟨a, ha⟩ := hs.paced
  have hlast := ha.called hidle
  refine ⟨hs.called.trans (Int.le_add_one le_rfl), fun time h => absurd h (hidle time),
    ⟨a, ha.arrived, ha.spaced, ha.last, ?_, ha.called⟩, fun t ht => ?_,
    hs.heard.trans (Int.le_add_one le_rfl), hs.begun⟩
  · show s.now + 1 ≤ s.sent.getLastD a + (9999 + p.period)
    omega
  · have h₁ := hs.inTime t ht
    have h₂ := hsent t ht
    show t ≤ s.now + 1 ∧ s.now + 1 ≤ t + p.delay
    omega

theorem schedule (hs : Inv p s) {c : TcpClientTask.Task}
    (hst : TcpClientTask.Step p.clientOneLoop s.client (.scheduleEvent s.now) c) :
    Inv p { s with client := c, called := s.now } := by
  cases hst with
  | scheduleEvent =>
    obtain ⟨a, ha⟩ := hs.paced
    rcases scheduleEvent_cases s.client s.now with ⟨first, hcall⟩ | ⟨hshort, hsame⟩
    · -- the hello is on its way out
      have hsending : Sending (s.client.scheduleEvent s.now) s.now := by
        rw [hcall]
        exact ⟨first, List.mem_cons_self ..⟩
      refine ⟨le_rfl, fun time h => ?_, ⟨a, ha.arrived, ha.spaced, ?_, ha.due,
        fun h => absurd hsending (h s.now)⟩, hs.inTime, hs.heard, hs.begun⟩
      · obtain ⟨first', hmem⟩ := h
        rw [hcall] at hmem
        rcases List.mem_cons.mp hmem with heq | hmem
        · exact (TcpClientTask.Frame.onSendHelloMsg.inj heq).1
        · exact hs.sending time ⟨first', hmem⟩
      · rw [hcall]
        exact ha.last
    · refine ⟨le_rfl, fun time h => hs.sending time ((hsame.sending_iff time).mp h),
        ⟨a, ha.arrived, ha.spaced, hsame.lastScheduleTime_eq.trans_le ha.last, ha.due, fun _ => ?_⟩,
        hs.inTime, hs.heard, hs.begun⟩
      have hlast := ha.last
      show s.now ≤ s.sent.getLastD a + 9999
      omega

theorem sent (hs : Inv p s) {c : TcpClientTask.Task} (hsend : SendingHello s.client)
    (hst : TcpClientTask.Step p.clientOneLoop s.client (.ret true s.now) c) :
    Inv p { s with client := c, sent := s.sent ++ [s.now] } := by
  obtain ⟨time, htime, hlast, hrest⟩ := helloSent_of_step hst hsend
  obtain rfl := hs.sending time htime
  obtain ⟨a, ha⟩ := hs.paced
  have hlatest : (s.sent ++ [s.now]).getLastD a = s.now := by simp
  refine ⟨hs.called, fun time h => hs.sending time (hrest time h),
    ⟨a, ha.arrived, ha.spaced.concat ha.due, ?_, ?_, fun _ => ?_⟩, fun t ht => ?_, hs.heard,
    hs.begun⟩
  · rw [hlatest, hlast]
  · have hperiod := p.period_pos
    show s.now ≤ (s.sent ++ [s.now]).getLastD a + (9999 + p.period)
    rw [hlatest]
    omega
  · have hcalled := hs.called
    show s.called ≤ (s.sent ++ [s.now]).getLastD a + 9999
    rw [hlatest]
    omega
  · rcases List.mem_append.mp ht with ht | ht
    · exact hs.inTime t ht
    · rw [List.mem_singleton.mp ht]
      exact ⟨le_rfl, Int.le_add_of_nonneg_right p.delay_nonneg⟩

theorem client (hs : Inv p s) {c : TcpClientTask.Task}
    (hsame : SameHello s.client c) : Inv p { s with client := c } := by
  obtain ⟨a, ha⟩ := hs.paced
  refine ⟨hs.called, fun time h => hs.sending time ((hsame.sending_iff time).mp h),
    ⟨a, ha.arrived, ha.spaced, hsame.lastScheduleTime_eq.trans_le ha.last, ha.due, fun h => ?_⟩,
    hs.inTime, hs.heard, hs.begun⟩
  exact ha.called fun time hsending => h time ((hsame.sending_iff time).mpr hsending)

theorem server (hs : Inv p s) {l : TcpServerTask.Label} {u : TcpServerTask.Task}
    (hat : ServerAt s.now l) (hst : TcpServerTask.Step p.serverOneLoop s.server l u) :
    Inv p { s with server := u } := by
  obtain ⟨hbegun, htime⟩ := lastHelloTime_of_step hst hat hs.begun
  obtain ⟨a, ha⟩ := hs.paced
  have hheard := hs.heard
  have harrived := ha.arrived
  refine ⟨hs.called, hs.sending, ⟨a, ?_, ha.spaced, ha.last, ha.due, ha.called⟩, hs.inTime, ?_,
    hbegun⟩
  · show a ≤ u.lastHelloTime
    omega
  · show u.lastHelloTime ≤ s.now
    omega

theorem deliver (hs : Inv p s) {m : ℤ} {sent : List ℤ} {u : TcpServerTask.Task}
    (hsent : s.sent = m :: sent)
    (hst : TcpServerTask.Step p.serverOneLoop s.server (.onRecvHelloMsg s.now) u) :
    Inv p { s with server := u, sent := sent } := by
  obtain ⟨a, ha⟩ := hs.paced
  have hspaced := ha.spaced
  have hlast := ha.last
  have hdue := ha.due
  have hcalled := ha.called
  rw [hsent, List.getLastD_cons] at hlast hdue hcalled
  rw [hsent] at hspaced
  have hm : m ≤ s.now := (hs.inTime m (hsent ▸ List.mem_cons_self ..)).1
  cases hst with
  | onRecvHelloMsg =>
    exact ⟨hs.called, hs.sending, ⟨m, hm, hspaced.2, hlast, hdue, hcalled⟩,
      fun t ht => hs.inTime t (hsent ▸ List.mem_cons_of_mem _ ht), le_rfl, hs.begun⟩

theorem step (hs : Inv p s) {l : Label} (hst : Step p s l t) : Inv p t := by
  cases hst with
  | tick hstack hcalled hsent => exact hs.tick hstack hcalled hsent
  | schedule hst => exact hs.schedule hst
  | sent hsend hst => exact hs.sent hsend hst
  | client hschedule hsend _ hst => exact hs.client (sameHello_of_step hst hschedule hsend)
  | server hat hst => exact hs.server hat hst
  | deliver hsent hst => exact hs.deliver hsent hst

theorem of_init (hinit : (link p).init s) : Inv p s := by
  obtain ⟨hpos, hstack, hlast, hcalled, hnow, hserver, hsent⟩ := hinit
  have hheard : s.server.lastHelloTime = s.now := by
    rw [hserver]
    rfl
  have hperiod := p.period_pos
  refine ⟨hcalled, fun time h => ?_, ⟨s.now, hheard.ge, ?_, ?_, ?_, fun _ => ?_⟩, ?_, hheard.le, ?_⟩
  · obtain ⟨first, hmem⟩ := h
    simp [hstack] at hmem
  · rw [hsent]
    trivial
  · rw [hsent]
    exact hlast.trans hcalled
  · rw [hsent, List.getLastD_nil]
    omega
  · rw [hsent, List.getLastD_nil]
    omega
  · simp [hsent]
  · rw [hserver]
    rfl

theorem of_reachable (hs : (link p).Reachable s) : Inv p s :=
  hs.invariant (fun _ => of_init) fun _ _ _ hI hst => hI.step hst

/-- How long the server can be without a hello. -/
theorem since_le (hs : Inv p s) :
    s.now - s.server.lastHelloTime ≤ 9999 + p.period + p.delay := by
  obtain ⟨a, ha⟩ := hs.paced
  have harrived := ha.arrived
  have hdelay := p.delay_nonneg
  cases hsent : s.sent with
  | nil =>
    have hdue := ha.due
    rw [hsent, List.getLastD_nil] at hdue
    omega
  | cons m sent =>
    -- the oldest hello on its way is late, and it was sent late
    have hspaced := ha.spaced
    rw [hsent] at hspaced
    have hm := hspaced.1
    have hlate := (hs.inTime m (hsent ▸ List.mem_cons_self ..)).2
    omega

end Inv

/-! ## The worst case -/

section Worst

variable {p : Setup} {s : Link}

/-- Time passes while nothing is on its way. -/
theorem reachable_tick (hs : (link p).Reachable s) (hstack : s.client.stack = [])
    (hsent : s.sent = []) (n : ℕ) (hn : s.now + n ≤ s.called + p.period) :
    (link p).Reachable { s with now := s.now + n } := by
  induction n with
  | zero =>
    rw [Int.natCast_zero, Int.add_zero]
    exact hs
  | succ n ih =>
    push_cast at hn
    have hlate : s.now + n < s.called + p.period := by omega
    have hnext := (ih (by omega)).step trivial (.tick hstack hlate (by simp [hsent]))
    rwa [Int.natCast_succ, ← Int.add_assoc]

/-- No method of the client is running, and it does not wait for the hellos of the server. -/
structure Calm (c : TcpClientTask.Task) : Prop where
  begun : c.begun = true
  stack : c.stack = []
  checkHello : c.checkHello = false

theorem Calm.checkHelloTime {c : TcpClientTask.Task} (hc : Calm c) (time : ℤ) :
    c.checkHelloTime time = c := by
  apply if_neg
  intro h
  have hcheck := h.1
  rw [hc.checkHello] at hcheck
  cases hcheck

theorem Calm.setLastScheduleTime {c : TcpClientTask.Task} (hc : Calm c) (time : ℤ) :
    Calm { c with lastScheduleTime := time } :=
  ⟨hc.begun, hc.stack, hc.checkHello⟩

/-- `ScheduleEvent` when no hello is due -/
theorem reachable_quiet (hs : (link p).Reachable s) (hc : Calm s.client)
    (hne : s.client.lastScheduleTime ≠ 0) (hshort : s.now - s.client.lastScheduleTime < 10000) :
    (link p).Reachable { s with called := s.now } := by
  have hst : TcpClientTask.Step p.clientOneLoop s.client (.scheduleEvent s.now)
      (s.client.scheduleEvent s.now) := by
    apply TcpClientTask.Step.scheduleEvent hc.begun
    simp [TcpClientTask.Task.CanCall, hc.stack]
  have heq : s.client.scheduleEvent s.now = s.client := by
    rw [TcpClientTask.Task.scheduleEvent, if_neg hne, if_neg (not_le.mpr hshort),
      hc.checkHelloTime]
  rw [heq] at hst
  exact hs.step trivial (.schedule hst)

/-- `ScheduleEvent` when a hello is due -/
theorem reachable_hello (hs : (link p).Reachable s) (hc : Calm s.client)
    (hdue : s.client.lastScheduleTime = 0 ∨ 10000 ≤ s.now - s.client.lastScheduleTime) :
    (link p).Reachable { s with
      client := { s.client with lastScheduleTime := s.now }
      called := s.now
      sent := s.sent ++ [s.now] } := by
  obtain ⟨first, hcall⟩ : ∃ first,
      s.client.scheduleEvent s.now = s.client.call (.onSendHelloMsg s.now first) := by
    rcases scheduleEvent_cases s.client s.now with hcall | ⟨hshort, -⟩
    · exact hcall
    · have hzero : s.client.lastScheduleTime = 0 := by
        rcases hdue with hzero | hlong
        · exact hzero
        · exact absurd hshort (not_lt.mpr hlong)
      exact ⟨true, by rw [TcpClientTask.Task.scheduleEvent, if_pos hzero]⟩
  have hst : TcpClientTask.Step p.clientOneLoop s.client (.scheduleEvent s.now)
      (s.client.scheduleEvent s.now) := by
    apply TcpClientTask.Step.scheduleEvent hc.begun
    simp [TcpClientTask.Task.CanCall, hc.stack]
  rw [hcall] at hst
  have hcalled := hs.step trivial (.schedule hst)
  have hret : TcpClientTask.Step p.clientOneLoop (s.client.call (.onSendHelloMsg s.now first))
      (.ret true s.now)
      (TcpClientTask.Task.checkHelloTime (TcpClientTask.Task.helloSent
        { s.client.call (.onSendHelloMsg s.now first) with stack := s.client.stack }
        s.now first true) s.now) := by
    apply TcpClientTask.Step.onSendHelloMsg
    rfl
  have hsent := hcalled.step trivial (.sent ⟨s.now, first, _, rfl⟩ hret)
  have heq : TcpClientTask.Task.checkHelloTime (TcpClientTask.Task.helloSent
        { s.client.call (.onSendHelloMsg s.now first) with stack := s.client.stack }
        s.now first true) s.now =
      { s.client with lastScheduleTime := s.now } := by
    have hback : TcpClientTask.Task.helloSent
        { s.client.call (.onSendHelloMsg s.now first) with stack := s.client.stack }
        s.now first true = { s.client with lastScheduleTime := s.now } := by
      simp [TcpClientTask.Task.helloSent, TcpClientTask.Task.call]
    rw [hback]
    exact (hc.setLastScheduleTime s.now).checkHelloTime s.now
  rwa [heq] at hsent

/-- A client that has connected its first socket at 1, does not check the hellos of the server, and
    has said hello at this time -/
def helloed (time : ℤ) : TcpClientTask.Task :=
  { TcpClientTask.Task.fresh with
    begun := true, socket := some 0, created := 1, timer := .idle, checkHello := false,
    lastHelloTime := 1, lastScheduleTime := time }

theorem helloed_calm (time : ℤ) : Calm (helloed time) :=
  ⟨rfl, rfl, rfl⟩

/-- A server that has verified its client, and has heard it say hello at 1 -/
def verifiedServer : TcpServerTask.Task :=
  { TcpServerTask.Task.fresh.beginProcess true 1 with
    verified := true, accepted := true, added := 1 }

/-- The connection starts at 1, the client is verified, and its first hello arrives at once. -/
theorem reachable_first (p : Setup) :
    (link p).Reachable ⟨1, helloed 1, verifiedServer, 1, []⟩ := by
  have h₀ : (link p).Reachable
      ⟨1, helloed 0, TcpServerTask.Task.fresh.beginProcess true 1, 1, []⟩ :=
    .init ⟨Int.one_pos, rfl, Int.zero_le_ofNat 1, le_rfl,
      Int.le_add_of_nonneg_right p.period_pos.le, rfl, rfl⟩
  have h₁ := h₀.step trivial (.server (l := .packet) trivial (.packet rfl rfl))
  have h₂ := h₁.step trivial (.server (l := .ret true) trivial (.verified rfl))
  have h₃ := h₂.step trivial (.server (l := .ret true) trivial (.addToManager rfl))
  have h₄ := reachable_hello h₃ (helloed_calm 0) (.inl rfl)
  exact h₄.step trivial (.deliver rfl .onRecvHelloMsg)

/-- For 9999 milliseconds no hello is due. -/
theorem reachable_silent (p : Setup) (n : ℕ) (hn : n ≤ 9999) :
    (link p).Reachable ⟨1 + n, helloed 1, verifiedServer, 1 + n, []⟩ := by
  induction n with
  | zero => exact reachable_first p
  | succ n ih =>
    have hperiod := p.period_pos
    have htick := reachable_tick (ih (by omega)) rfl rfl 1 (by
      show (1 + n : ℤ) + 1 ≤ 1 + n + p.period
      omega)
    have hquiet := reachable_quiet htick (helloed_calm 1) Int.one_ne_zero (by
      show (1 + n + (1 : ℕ) - 1 : ℤ) < 10000
      omega)
    rwa [Int.natCast_succ, ← Int.add_assoc]

/-- While hellos sent at `m` or later are on their way, time passes for up to `delay`. -/
theorem reachable_wait (hs : (link p).Reachable s) (hc : Calm s.client) {m : ℤ}
    (hsent : ∀ t ∈ s.sent, m ≤ t) (hnow : m ≤ s.now) (hcalled : s.called = s.now) (n : ℕ)
    (hn : s.now + n ≤ m + p.delay) :
    ∃ c sent, Calm c ∧ (∀ t ∈ sent, m ≤ t) ∧
      (link p).Reachable ⟨s.now + n, c, s.server, s.now + n, sent⟩ := by
  induction n with
  | zero =>
    refine ⟨s.client, s.sent, hc, hsent, ?_⟩
    have hsame : Link.mk s.now s.client s.server s.called s.sent = s := rfl
    rw [hcalled] at hsame
    rw [Int.natCast_zero, Int.add_zero, hsame]
    exact hs
  | succ n ih =>
    obtain ⟨c, sent, hc', hsent', hreach⟩ := ih (by omega)
    have hperiod := p.period_pos
    have htick := hreach.step trivial (.tick hc'.stack
      (by show s.now + n < s.now + n + p.period; omega)
      (fun t ht => by
        have hm := hsent' t ht
        show s.now + n < t + p.delay
        omega))
    rw [Int.natCast_succ, ← Int.add_assoc]
    -- a hello that becomes due meanwhile is sent later than those on their way
    by_cases hdue : c.lastScheduleTime = 0 ∨ 10000 ≤ s.now + n + 1 - c.lastScheduleTime
    · refine ⟨_, _, hc'.setLastScheduleTime (s.now + n + 1), ?_, reachable_hello htick hc' hdue⟩
      intro t ht
      rcases List.mem_append.mp ht with ht | ht
      · exact hsent' t ht
      · rw [List.mem_singleton.mp ht]
        show m ≤ s.now + n + 1
        omega
    · obtain ⟨hne, hshort⟩ := not_or.mp hdue
      exact ⟨c, sent, hc', hsent', reachable_quiet htick hc' hne (not_le.mp hshort)⟩

/-- The hello after the first one is due just behind a call of `ScheduleEvent`, is sent with the
    next one, and takes its time. -/
theorem reachable_late (p : Setup) :
    ∃ s, (link p).Reachable s ∧ s.server = verifiedServer ∧
      s.now = 10000 + p.period + p.delay := by
  obtain ⟨P, hP⟩ := Int.eq_ofNat_of_zero_le p.period_pos.le
  obtain ⟨D, hD⟩ := Int.eq_ofNat_of_zero_le p.delay_nonneg
  -- `ScheduleEvent` is called one millisecond too early, and then not for `period`
  have hsilent := reachable_silent p 9999 le_rfl
  have htick := reachable_tick hsilent rfl rfl P (by rw [hP])
  have hhello := reachable_hello htick (helloed_calm 1) (.inr (by
    have hperiod := p.period_pos
    show 10000 ≤ (1 + (9999 : ℕ) + P - 1 : ℤ)
    omega))
  -- the hello is on its way for `delay`
  obtain ⟨c, sent, -, -, hreach⟩ := reachable_wait hhello
    ((helloed_calm 1).setLastScheduleTime _) (m := 1 + (9999 : ℕ) + P)
    (fun t ht => (List.mem_singleton.mp ht).ge) le_rfl rfl D (by rw [hD])
  refine ⟨_, hreach, rfl, ?_⟩
  rw [hP, hD]
  rfl

end Worst

/-! ## Main result -/

/-- **The server never gives up its client**, in any run, exactly if the `ScheduleEvent` of the
    client is called so often, and hellos arrive so fast, that both make up no more than 20001
    milliseconds. The run that is one millisecond too late is one of a connected client. -/
theorem never_timed_out_iff (p : Setup) :
    (∀ s, (link p).Reachable s → ¬ s.server.TimedOut s.now) ↔ p.period + p.delay ≤ 20001 := by
  constructor
  · intro h
    by_contra hlong
    obtain ⟨s, hs, hserver, hnow⟩ := reachable_late p
    apply h s hs
    rw [hserver, hnow]
    refine ⟨Int.one_ne_zero, rfl, ?_⟩
    show 10000 + p.period + p.delay - 1 > 30000
    omega
  · intro hshort s hs hlate
    have hsince := (Inv.of_reachable hs).since_le
    have htime := hlate.2.2
    omega

end ReechatBase.Keepalive
