import ReechatBase.EventLoop.Basic

/-!
# The queue of the event loop

- `Counted`: `pending_functor_count_` counts the functors that were not finished;
- `Wakeup`: a functor that is pending will be served;
- `Ordered`: functors start in the order in which they were accepted.

The first two hold in every run. The last one is kept by every step in which no functor overtakes
another; while neither `Stop` nor `Cancel` is called, no step does.

Main result: `queue_exactly_once`.
-/

namespace ReechatBase.EventLoop

open Lib

variable {F : Type} {s t : Loop F} {l : Label F}

attribute [simp] Control.stack Loop.stack Frame.rest Frame.running waiting running

/-! ## The counter -/

/-- A functor is in the queue, and `++pending_functor_count_` is still to come. -/
def uncounted : Option (Caller × QueuePc F) → Int32
  | some (_, .pushed) => 1
  | _ => 0

/-- The functors that were accepted and not finished, as the counter sees them. -/
def Loop.unfinished (s : Loop F) : ℕ :=
  s.pending.length + (running s.stack).length + (waiting s.stack).length

/-- `pending_functor_count_` counts the pending functors and those of the batches that were not
    finished, as far as an `int` can. -/
def Counted (s : Loop F) : Prop :=
  s.count + uncounted s.queueing = Int32.ofNat s.unfinished

/-- A step that neither adds to the queue nor finishes a functor. -/
theorem Counted.of_eq (h : Counted s) (hcount : t.count + uncounted t.queueing =
    s.count + uncounted s.queueing) (hlen : t.unfinished = s.unfinished) : Counted t := by
  rw [Counted, hcount, hlen]
  exact h

/-- A functor is finished and counted off. -/
theorem Counted.finish (h : Counted s) (hcount : t.count = s.count - 1)
    (hqueue : t.queueing = s.queueing) (hlen : s.unfinished = t.unfinished + 1) : Counted t := by
  rw [Counted, hlen, Int32.ofNat_add] at h
  rw [Counted, hcount, hqueue]
  calc s.count - 1 + uncounted s.queueing
      = s.count + uncounted s.queueing - 1 := by grind
    _ = Int32.ofNat t.unfinished := by rw [h]; exact Int32.add_sub_cancel _ _

theorem Counted.step (h : Counted s) (hst : Step s l t) : Counted t := by
  cases hst with
  | @push c f hq =>
    -- the counter is one behind until `++pending_functor_count_`
    have hcount : s.count = Int32.ofNat s.unfinished := by simpa [Counted, hq, uncounted] using h
    have hlen : Loop.unfinished { s with
        queueing := some (c, .pushed), pending := s.pending ++ [s.nextEntry f c],
        accepted := s.accepted ++ [s.nextEntry f c] } = s.unfinished + 1 := by
      simp [Loop.unfinished]
      omega
    rw [Counted, hlen, Int32.ofNat_add, ← hcount]
    rfl
  | count hq => exact h.of_eq (by simp [hq, uncounted]) rfl
  | test hq => exact h.of_eq (by cases s.notified <;> simp [hq, uncounted]) rfl
  | notify hq _ _ => exact h.of_eq (by simp [hq, uncounted]) rfl
  | unlock hq => exact h.of_eq (by simp [hq, uncounted]) rfl
  | queue hq _ => exact h.of_eq (by simp [hq, uncounted]) rfl
  | queueStop hq _ => exact h.of_eq (by simp [hq, uncounted]) rfl
  | finish hc _ => exact h.finish rfl rfl (by simp [Loop.unfinished, hc]; omega)
  | finishStop hc => exact h.finish rfl rfl (by simp [Loop.unfinished, hc]; omega)
  | swap hc _ => exact h.of_eq rfl (by simp [Loop.unfinished, hc]; omega)
  | start hc _ => exact h.of_eq rfl (by simp [Loop.unfinished, hc]; omega)
  | startStop hc _ _ => exact h.of_eq rfl (by simp [Loop.unfinished, hc]; omega)
  | stop => exact h
  | _ => exact h.of_eq rfl (by simp [Loop.unfinished, *])

/-! ## Wakeups -/

/-- The loop thread is between its `recv` and its swap. -/
def Control.AboutToSwap : Control F → Prop
  | .dispatch (.swap :: _) => True
  | _ => False

/-- A call of `QueueInLoop` has yet to test `notified_`. -/
def AboutToTest : Option (Caller × QueuePc F) → Prop
  | some (_, .pushed) => True
  | some (_, .counted) => True
  | _ => False

/-- A call of `QueueInLoop` has yet to call `Notify`. -/
def AboutToNotify : Option (Caller × QueuePc F) → Prop
  | some (_, .marked) => True
  | _ => False

/-- The flag, the pipe and the loop thread are in step: where something is pending, `notified_`
    is set or will be; where it is set, the pipe holds a byte or will, or the loop thread is about
    to take what is pending. -/
structure Wakeup (s : Loop F) : Prop where
  notified : s.pending ≠ [] → s.notified = true ∨ AboutToTest s.queueing
  byte : s.notified = true → s.watcher = true →
    0 < s.pipe ∨ s.control.AboutToSwap ∨ AboutToNotify s.queueing

/-- A step of the loop thread that touches neither the queue nor the pipe. -/
theorem Wakeup.of_loop (h : Wakeup s) (hswap : ¬ s.control.AboutToSwap)
    (hpending : t.pending = s.pending) (hnotified : t.notified = s.notified)
    (hqueue : t.queueing = s.queueing) (hpipe : t.pipe = s.pipe)
    (hwatcher : t.watcher = true → s.watcher = true) : Wakeup t where
  notified := by
    rw [hpending, hnotified, hqueue]
    exact h.notified
  byte := by
    rw [hnotified, hqueue, hpipe]
    intro hn hw
    exact (h.byte hn (hwatcher hw)).imp_right fun hor => .inr (hor.resolve_left hswap)

theorem Wakeup.step (h : Wakeup s) (hst : Step s l t) : Wakeup t := by
  cases hst with
  | queue hq _ =>
    exact ⟨fun hp => by simpa [hq, AboutToTest] using h.notified hp,
      fun hn hw => by simpa [hq, AboutToNotify] using h.byte hn hw⟩
  | queueStop hq _ =>
    exact ⟨fun hp => by simpa [hq, AboutToTest] using h.notified hp,
      fun hn hw => by simpa [hq, AboutToNotify] using h.byte hn hw⟩
  | push hq =>
    exact ⟨fun _ => .inr trivial,
      fun hn hw => by simpa [hq, AboutToNotify] using h.byte hn hw⟩
  | count hq =>
    exact ⟨fun _ => .inr trivial,
      fun hn hw => by simpa [hq, AboutToNotify] using h.byte hn hw⟩
  | test hq =>
    refine ⟨fun _ => .inl rfl, fun _ hw => ?_⟩
    -- a flag that was set before promises a byte; otherwise `Notify` comes next
    cases hn : s.notified with
    | true => simpa [hq, AboutToNotify] using h.byte hn hw
    | false => exact .inr (.inr trivial)
  | @notify c sent hq hfail hsent =>
    refine ⟨fun hp => by simpa [hq, AboutToTest] using h.notified hp, fun _ hw => .inl ?_⟩
    -- a `send` fails only where the pipe holds a byte
    cases sent with
    | true => exact Nat.succ_pos _
    | false => exact (hfail rfl).resolve_left (by simp [show s.watcher = true from hw])
  | unlock hq =>
    exact ⟨fun hp => by simpa [hq, AboutToTest] using h.notified hp,
      fun hn hw => by simpa [hq, AboutToNotify] using h.byte hn hw⟩
  | stop => exact ⟨h.notified, h.byte⟩
  | recv => exact ⟨h.notified, fun _ _ => .inr (.inl trivial)⟩
  | swap => exact ⟨fun hp => absurd rfl hp, fun hn => nomatch hn⟩
  | leave hc => exact h.of_loop (by simp [hc, Control.AboutToSwap]) rfl rfl rfl rfl (nomatch ·)
  | _ => exact h.of_loop (by simp [*, Control.AboutToSwap]) rfl rfl rfl rfl id

/-! ## The order -/

/-- The functors start in the order in which they were accepted: those that were swapped out and
    have not started come next, then those that are pending. -/
def Ordered (s : Loop F) : Prop :=
  s.accepted = s.started ++ waiting s.stack ++ s.pending

/-- No functor overtakes another: one that starts does not belong to an inner call of
    `DoPendingFunctors` while functors of an outer one wait. -/
def InTurn (s : Loop F) (l : Label F) : Prop :=
  l = .start → waiting s.stack.tail = []

theorem Ordered.step (h : Ordered s) (hturn : InTurn s l) (hst : Step s l t) : Ordered t := by
  unfold Ordered at h ⊢
  cases hst with
  | push => simp [h]
  | start hc _ =>
    have hwait := hturn rfl
    simp only [Loop.stack, hc, Control.stack, List.tail_cons] at hwait
    simp [h, hc, hwait]
  | startStop hc _ _ =>
    have hwait := hturn rfl
    simp only [Loop.stack, hc, Control.stack, List.tail_cons] at hwait
    simp [h, hc, hwait]
  | _ => simp_all

/-! ## Runs without Stop -/

/-- What holds as long as `Stop` is not called: there is at most one call of `DoPendingFunctors`,
    and it executes functors of the user only. -/
structure Plain (s : Loop F) : Prop where
  stopCall : s.stopCall = none
  queueing : ∀ c, s.queueing ≠ some (c, .locked .stopInLoop)
  accepted : ∀ e ∈ s.accepted, e.functor ≠ .stopInLoop
  exitRequested : s.exitRequested = false
  watcher : s.watcher = true
  single : s.stack.tail = []
  user : ∀ f ∈ s.stack, f.isStop = false
  ordered : Ordered s
  started : s.started = s.finished ++ running s.stack

theorem Plain.inTurn (h : Plain s) (l : Label F) : InTurn s l := by
  intro _
  rw [h.single]
  rfl

/-- A step of the loop thread that leaves the queue alone. -/
theorem Plain.of_loop (h : Plain s) (hst : Step s l t) (hstopCall : t.stopCall = s.stopCall)
    (hqueue : t.queueing = s.queueing) (haccepted : t.accepted = s.accepted)
    (hexit : t.exitRequested = s.exitRequested) (hwatcher : t.watcher = s.watcher)
    (hsingle : t.stack.tail = []) (huser : ∀ f ∈ t.stack, f.isStop = false)
    (hstarted : t.started = t.finished ++ running t.stack) : Plain t where
  stopCall := hstopCall.trans h.stopCall
  queueing := by
    rw [hqueue]
    exact h.queueing
  accepted := by
    rw [haccepted]
    exact h.accepted
  exitRequested := hexit.trans h.exitRequested
  watcher := hwatcher.trans h.watcher
  single := hsingle
  user := huser
  ordered := h.ordered.step (h.inTurn l) hst
  started := hstarted

/-- A step of `QueueInLoop`. -/
theorem Plain.of_queue (h : Plain s) (hst : Step s l t) (hstopCall : t.stopCall = s.stopCall)
    (hqueue : ∀ c, t.queueing ≠ some (c, .locked .stopInLoop))
    (haccepted : ∀ e ∈ t.accepted, e.functor ≠ .stopInLoop)
    (hexit : t.exitRequested = s.exitRequested) (hwatcher : t.watcher = s.watcher)
    (hcontrol : t.control = s.control) (hstarted : t.started = s.started)
    (hfinished : t.finished = s.finished) : Plain t where
  stopCall := hstopCall.trans h.stopCall
  queueing := hqueue
  accepted := haccepted
  exitRequested := hexit.trans h.exitRequested
  watcher := hwatcher.trans h.watcher
  single := by
    rw [Loop.stack, hcontrol]
    exact h.single
  user := by
    rw [Loop.stack, hcontrol]
    exact h.user
  ordered := h.ordered.step (h.inTurn l) hst
  started := by
    rw [hstarted, hfinished, Loop.stack, hcontrol]
    exact h.started

theorem Plain.step (h : Plain s) (hl : ∀ c, l ≠ .stop c) (hst : Step s l t) : Plain t := by
  have hsingle := h.single
  have hstarted := h.started
  -- no call of `StopInLoop` is on the stack
  have hno : ∀ {e pc rest stack}, s.control ≠ .dispatch (.stop e pc rest :: stack) := by
    intro e pc rest stack hc
    have huser := h.user (.stop e pc rest) (by simp [hc])
    cases huser
  cases hst with
  | queue hq hcall =>
    exact h.of_queue (.queue hq hcall) rfl (fun _ => by simp) h.accepted rfl rfl rfl rfl rfl
  | queueStop _ hc => exact nomatch h.stopCall.symm.trans hc
  | push hq =>
    refine h.of_queue (.push hq) rfl (fun _ => by simp) (fun e he => ?_) rfl rfl rfl rfl rfl
    rcases List.mem_append.mp he with he | he
    · exact h.accepted e he
    · obtain rfl := List.mem_singleton.mp he
      rintro rfl
      exact h.queueing _ hq
  | count hq =>
    exact h.of_queue (.count hq) rfl (fun _ => by simp) h.accepted rfl rfl rfl rfl rfl
  | test hq =>
    refine h.of_queue (.test hq) rfl (fun _ => ?_) h.accepted rfl rfl rfl rfl rfl
    cases s.notified <;> simp
  | notify hq hfail hsent =>
    exact h.of_queue (.notify hq hfail hsent) rfl (fun _ => by simp) h.accepted rfl rfl rfl rfl rfl
  | unlock hq =>
    exact h.of_queue (.unlock hq) rfl (fun _ => by simp) h.accepted rfl rfl rfl rfl rfl
  | stop => exact absurd rfl (hl _)
  | run hc =>
    exact h.of_loop (.run hc) rfl rfl rfl rfl rfl rfl (by simp) (by simpa [hc] using hstarted)
  | watch hc =>
    exact h.of_loop (.watch hc) rfl rfl rfl rfl rfl rfl (by simp) (by simpa [hc] using hstarted)
  | recv hc hexit hle hzero =>
    exact h.of_loop (.recv hc hexit hle hzero) rfl rfl rfl rfl rfl rfl (by simp [Frame.isStop])
      (by simpa [hc] using hstarted)
  | swap hc hq =>
    obtain rfl : _ = [] := by simpa [hc] using hsingle
    exact h.of_loop (.swap hc hq) rfl rfl rfl rfl rfl rfl (by simp [Frame.isStop])
      (by simpa [hc] using hstarted)
  | start hc hu =>
    obtain rfl : _ = [] := by simpa [hc] using hsingle
    exact h.of_loop (.start hc hu) rfl rfl rfl rfl rfl rfl (by simp [Frame.isStop])
      (by simpa [hc] using hstarted)
  | @startStop e rest stack hc hf _ =>
    -- `StopInLoop` was never accepted
    have hmem : e ∈ s.accepted := by
      rw [h.ordered]
      simp [hc]
    exact absurd hf (h.accepted e hmem)
  | finish hc hbusy =>
    obtain rfl : _ = [] := by simpa [hc] using hsingle
    exact h.of_loop (.finish hc hbusy) rfl rfl rfl rfl rfl rfl (by simp [Frame.isStop])
      (by simpa [hc] using hstarted)
  | endBatch hc =>
    obtain rfl : _ = [] := by simpa [hc] using hsingle
    exact h.of_loop (.endBatch hc) rfl rfl rfl rfl rfl rfl (by simp)
      (by simpa [hc] using hstarted)
  | drain hc => exact absurd hc hno
  | again hc _ => exact absurd hc hno
  | empty hc _ => exact absurd hc hno
  | loopexit hc => exact absurd hc hno
  | finishStop hc => exact absurd hc hno
  | leave _ hexit _ => exact nomatch h.exitRequested.symm.trans hexit
  | stopped hc =>
    exact h.of_loop (.stopped hc) rfl rfl rfl rfl rfl rfl (by simp) (by simpa [hc] using hstarted)

theorem plain_init (hs : (system F).init s) : Plain s := by
  rcases hs with rfl | rfl <;>
    exact ⟨rfl, fun _ => nofun, by simp [Loop.fresh, Loop.attached], rfl, rfl, rfl,
      by simp [Loop.fresh, Loop.attached], rfl, rfl⟩

theorem counted_of_reachable (hs : (system F).Reachable s) : Counted s :=
  hs.invariant (by rintro _ (rfl | rfl) <;> rfl) fun _ _ _ h hst => h.step hst

theorem wakeup_of_reachable (hs : (system F).Reachable s) : Wakeup s := by
  refine hs.invariant ?_ fun _ _ _ h hst => h.step hst
  rintro _ (rfl | rfl) <;> exact ⟨fun hp => absurd rfl hp, nofun⟩

/-! ## Main result -/

/-- **Exactly once, in order, no lost wakeup.** In every run without `Stop`: the functors started,
    those of the batch that wait, and those that are pending are the functors accepted, in their
    order; so are those finished, those of the batch that are not, and those that are pending.
    `pending_functor_count_` counts the last two. Where a functor is pending, the pipe holds a
    byte, or the loop thread is about to swap, or the call of `QueueInLoop` in progress will see
    to it; and a loop thread that polls then takes all that is pending. -/
theorem queue_exactly_once (hs : (system F).ReachableBy (fun _ l => ∀ c, l ≠ .stop c) s) :
    s.started ++ waiting s.stack ++ s.pending = s.accepted ∧
    s.finished ++ (running s.stack ++ waiting s.stack) ++ s.pending = s.accepted ∧
    s.count + uncounted s.queueing =
      Int32.ofNat (s.pending.length + (running s.stack ++ waiting s.stack).length) ∧
    (s.pending ≠ [] → 0 < s.pipe ∨ s.control.AboutToSwap ∨
      AboutToTest s.queueing ∨ AboutToNotify s.queueing) ∧
    (s.queueing = none →
      s.count = Int32.ofNat (s.pending.length + (running s.stack ++ waiting s.stack).length) ∧
      (s.pending ≠ [] → 0 < s.pipe ∨ s.control.AboutToSwap)) ∧
    (s.queueing = none → s.control = .dispatch [] → s.pending ≠ [] →
      (∃ n t, 0 < n ∧ Step s (.recv n) t) ∧
      ∀ n t, Step s (.recv n) t → ∃ u, Step t .swap u ∧ u.stack = [.batch s.pending]) := by
  have hplain : Plain s := hs.invariant (fun _ => plain_init) fun _ _ _ h hl hst => h.step hl hst
  have hcount : s.count + uncounted s.queueing =
      Int32.ofNat (s.pending.length + (running s.stack ++ waiting s.stack).length) := by
    rw [List.length_append, ← Nat.add_assoc]
    exact counted_of_reachable hs.reachable
  have hwakeup := wakeup_of_reachable hs.reachable
  have hserved : s.pending ≠ [] → 0 < s.pipe ∨ s.control.AboutToSwap ∨
      AboutToTest s.queueing ∨ AboutToNotify s.queueing := by
    intro hp
    rcases hwakeup.notified hp with hn | htest
    · exact (hwakeup.byte hn hplain.watcher).imp_right (Or.imp_right .inr)
    · exact .inr (.inr (.inl htest))
  have hfree : s.queueing = none → s.pending ≠ [] → 0 < s.pipe ∨ s.control.AboutToSwap := by
    intro hq hp
    simpa [hq, AboutToTest, AboutToNotify] using hserved hp
  -- what was started has finished, except for the functor that is running
  refine ⟨hplain.ordered.symm, ?_, hcount, hserved, fun hq => ⟨?_, hfree hq⟩, fun hq hc hp => ?_⟩
  · rw [hplain.ordered, hplain.started]
    simp only [List.append_assoc]
  · have hzero : uncounted s.queueing = 0 := by
      rw [hq]
      rfl
    rw [← hcount, hzero, Int32.add_zero]
  · -- a loop thread that polls is not about to swap: it finds the byte
    have hpipe : 0 < s.pipe := (hfree hq hp).resolve_right (by simp [hc, Control.AboutToSwap])
    refine ⟨⟨1, _, Nat.one_pos, .recv hc hplain.exitRequested (by simp [recvLen]; omega) nofun⟩, ?_⟩
    rintro n _ ⟨⟩
    exact ⟨_, .swap rfl hq, rfl⟩

/-- A functor queued before the loop polls. -/
theorem queue_exactly_once_queued : ∃ s : Loop ℕ,
    s.pending = [⟨0, .user 7, .other⟩] ∧ s.count = 1 ∧
    ∃ n t, 0 < n ∧ Step s (.recv n) t := by
  have h₀ : (system ℕ).ReachableBy (fun _ l => ∀ c, l ≠ .stop c) .attached := .init (.inr rfl)
  have h₁ := Lts.ReachableBy.step h₀ (by simp) (Step.queue (c := .other) (f := 7) rfl trivial)
  have h₂ := Lts.ReachableBy.step h₁ (by simp) (Step.push rfl)
  have h₃ := Lts.ReachableBy.step h₂ (by simp) (Step.count rfl)
  have h₄ := Lts.ReachableBy.step h₃ (by simp) (Step.test rfl)
  have h₅ := Lts.ReachableBy.step h₄ (by simp) (@Step.notify _ _ _ true rfl nofun fun _ => rfl)
  have h₆ := Lts.ReachableBy.step h₅ (by simp) (Step.unlock rfl)
  exact ⟨_, rfl, rfl, ((queue_exactly_once h₆).2.2.2.2.2 rfl rfl nofun).1⟩

end ReechatBase.EventLoop
