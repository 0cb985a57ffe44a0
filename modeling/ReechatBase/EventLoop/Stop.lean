import ReechatBase.EventLoop.Queue
import Mathlib.Data.List.Perm.Basic
import Mathlib.Data.List.Nodup

/-!
# Stopping the event loop

`StopInLoop` is itself a functor of a batch, and it calls `DoPendingFunctors` while the rest of
its batch waits. A run keeps the order, and drops nothing that it owes, exactly when

- no functor starts inside the inner call while functors of the batch of `StopInLoop` wait, and
- no functor queues another one once `StopInLoop` has made its last test of the queue.

Main results: `stop_correct_iff_orderly`, and `stop_reorders_and_drops` for a run that does both.
-/

namespace ReechatBase.EventLoop

open Lib

variable {F : Type} {s t : Loop F} {l : Label F}

/-! ## Every functor is somewhere -/

/-- A functor accepted has started, or waits in a batch, or is pending; one that has started has
    finished or is being executed. -/
structure Accounted (s : Loop F) : Prop where
  seq : s.accepted.map Entry.seq = List.range s.accepted.length
  started : s.accepted.Perm (s.started ++ waiting s.stack ++ s.pending)
  finished : s.started.Perm (s.finished ++ running s.stack)
  stopBatch : ∀ e ∈ s.stopBatch, e ∈ s.started ++ waiting s.stack

theorem Accounted.nodup (h : Accounted s) : s.accepted.Nodup :=
  .of_map Entry.seq (h.seq ▸ List.nodup_range)

theorem perm_start {α : Type} (A B C D : List α) (e : α) :
    (A ++ (B ++ e :: C) ++ D).Perm (A ++ [e] ++ (B ++ C) ++ D) := by
  refine .append_right D ?_
  rw [List.append_assoc A]
  exact List.perm_middle.append_left A

theorem perm_finish {α : Type} (A B : List α) (e : α) :
    (A ++ (B ++ [e])).Perm (A ++ [e] ++ B) := by
  rw [List.append_assoc]
  exact List.perm_append_comm.append_left A

/-- A functor is taken from its batch. -/
theorem Accounted.start (h : Accounted s) {e : Entry F} {f : Frame F} {rest : List (Entry F)}
    {stack : List (Frame F)} (hc : s.control = .dispatch (.batch (e :: rest) :: stack))
    (hrest : f.rest = rest) (hrunning : f.running = [e]) :
    Accounted { s with control := .dispatch (f :: stack), started := s.started ++ [e] } := by
  obtain ⟨hseq, hstarted, hfinished, hbatch⟩ := h
  simp only [Loop.stack, hc, Control.stack, waiting, running, Frame.rest, Frame.running,
    List.append_nil] at hstarted hfinished hbatch
  refine ⟨hseq, ?_, ?_, fun x hx => ?_⟩
  · simp only [Loop.stack, Control.stack, waiting, hrest]
    exact hstarted.trans (perm_start _ _ _ _ _)
  · simp only [Loop.stack, Control.stack, running, hrunning, ← List.append_assoc]
    exact hfinished.append_right _
  · have hmem := hbatch x hx
    simp only [Loop.stack, Control.stack, waiting, hrest, List.mem_append, List.mem_cons,
      List.not_mem_nil, or_false] at hmem ⊢
    tauto

/-- A functor returns. -/
theorem Accounted.finish (h : Accounted s) {e : Entry F} {f : Frame F} {rest : List (Entry F)}
    {stack : List (Frame F)} (hc : s.control = .dispatch (f :: stack)) (hrest : f.rest = rest)
    (hrunning : f.running = [e]) :
    Accounted { s with
      control := .dispatch (.batch rest :: stack), count := s.count - 1,
      finished := s.finished ++ [e] } := by
  obtain ⟨hseq, hstarted, hfinished, hbatch⟩ := h
  simp only [Loop.stack, hc, Control.stack, waiting, running, hrest, hrunning] at *
  refine ⟨hseq, hstarted, ?_, hbatch⟩
  simpa [running] using hfinished.trans (perm_finish _ _ _)

/-- A step that changes no batch. -/
theorem Accounted.of_eq (h : Accounted s) (haccepted : t.accepted = s.accepted)
    (hstarted : t.started = s.started) (hfinished : t.finished = s.finished)
    (hpending : t.pending = s.pending) (hbatch : t.stopBatch = s.stopBatch)
    (hwaiting : waiting t.stack = waiting s.stack) (hrunning : running t.stack = running s.stack) :
    Accounted t where
  seq := haccepted ▸ h.seq
  started := by
    rw [haccepted, hstarted, hwaiting, hpending]
    exact h.started
  finished := by
    rw [hstarted, hfinished, hrunning]
    exact h.finished
  stopBatch := by
    rw [hbatch, hstarted, hwaiting]
    exact h.stopBatch

theorem Accounted.step (h : Accounted s) (hst : Step s l t) : Accounted t := by
  cases hst with
  | push hq =>
    refine ⟨by simp [h.seq, Loop.nextEntry, List.range_succ], ?_, h.finished, h.stopBatch⟩
    rw [← List.append_assoc]
    exact h.started.append_right _
  | swap hc hq =>
    have hstarted := h.started
    have hfinished := h.finished
    refine ⟨h.seq, by simpa [hc] using hstarted, by simpa [hc] using hfinished, fun e he => ?_⟩
    dsimp only at he
    split at he
    · simp [he]
    · have hmem := h.stopBatch e he
      simp only [Loop.stack, hc, Control.stack, waiting, Frame.rest, List.append_nil] at hmem
      simp only [Loop.stack, Control.stack, waiting, ← List.append_assoc]
      exact List.mem_append_left _ hmem
  | start hc _ => exact h.start hc rfl rfl
  | startStop hc _ _ => exact h.start hc rfl rfl
  | finish hc _ => exact h.finish hc rfl rfl
  | finishStop hc => exact h.finish hc rfl rfl
  | queue | queueStop | count | test | notify | unlock | stop =>
    exact h.of_eq rfl rfl rfl rfl rfl rfl rfl
  | _ => exact h.of_eq rfl rfl rfl rfl rfl (by simp [*]) (by simp [*])

/-! ## The program points fit together -/

/-- How the status, the stack and the calls in progress belong together. -/
structure Placed (s : Loop F) : Prop where
  /-- A functor inside `QueueInLoop` or `Stop` is on top of the stack -/
  busy : s.Busy → ∃ e rest stack, s.control = .dispatch (.user e rest :: stack)
  /-- Only `StopInLoop` calls `DoPendingFunctors` from inside a functor -/
  nested : ∀ f ∈ s.stack.tail, f.isStop = true
  stopped : s.status = .stopped → s.control = .done
  exited : s.control = .left ∨ s.control = .done → s.exitRequested = true

/-- Elsewhere the loop thread is not inside `QueueInLoop` or `Stop`. -/
theorem Placed.not_busy (h : Placed s)
    (huser : ∀ e rest stack, s.control ≠ .dispatch (.user e rest :: stack)) : ¬ s.Busy := by
  intro hb
  obtain ⟨e, rest, stack, hc⟩ := h.busy hb
  exact huser e rest stack hc

/-- A step of the loop thread in the dispatch loop. -/
theorem Placed.of_dispatch (h : Placed s) {stack stack' : List (Frame F)}
    (hc : s.control = .dispatch stack) (hbusy : ¬ s.Busy) (hc' : t.control = .dispatch stack')
    (hstopCall : t.stopCall = s.stopCall) (hqueue : t.queueing = s.queueing)
    (hstatus : t.status = s.status) (hnested : ∀ f ∈ stack'.tail, f.isStop = true) : Placed t where
  busy hb := by
    rw [Loop.Busy, hstopCall, hqueue] at hb
    exact absurd hb hbusy
  nested := by simpa [hc'] using hnested
  stopped hs := by
    rw [hstatus] at hs
    cases hc.symm.trans (h.stopped hs)
  exited := by simp [hc']

/-- A step of `QueueInLoop` or `Stop`. -/
theorem Placed.of_caller (h : Placed s) (hcontrol : t.control = s.control)
    (hexit : t.exitRequested = s.exitRequested)
    (hstopped : t.status = .stopped → s.status = .stopped)
    (hbusy : t.Busy → s.Busy ∨ s.MayCall .loop) : Placed t where
  busy hb := by
    rw [hcontrol]
    exact (hbusy hb).elim h.busy fun hcall => hcall.2
  nested := by
    rw [Loop.stack, hcontrol]
    exact h.nested
  stopped hs := hcontrol.trans (h.stopped (hstopped hs))
  exited := by
    rw [hcontrol, hexit]
    exact h.exited

theorem Placed.step (h : Placed s) (hst : Step s l t) : Placed t := by
  have hnested := h.nested
  cases hst with
  | @queue c f hq hcall =>
    refine h.of_caller rfl rfl id fun hb => ?_
    rcases hb with hb | hb
    · exact .inl (.inl hb)
    · obtain rfl : c = .loop := by simpa using hb
      exact .inr hcall
  | queueStop hq hc =>
    refine h.of_caller rfl rfl id fun hb => .inl (.inl ?_)
    simpa [Loop.Busy, hc] using hb
  | push hq => exact h.of_caller rfl rfl id fun hb => .inl (by simpa [Loop.Busy, hq] using hb)
  | count hq => exact h.of_caller rfl rfl id fun hb => .inl (by simpa [Loop.Busy, hq] using hb)
  | test hq => exact h.of_caller rfl rfl id fun hb => .inl (by simpa [Loop.Busy, hq] using hb)
  | notify hq _ _ => exact h.of_caller rfl rfl id fun hb => .inl (by simpa [Loop.Busy, hq] using hb)
  | unlock hq => exact h.of_caller rfl rfl id fun hb => .inl (hb.imp_right (by simp))
  | @stop c hs hcall =>
    refine h.of_caller rfl rfl (by simp) fun hb => ?_
    rcases hb with hb | hb
    · obtain rfl : c = .loop := by simpa using hb
      exact .inr hcall
    · exact .inl (.inr hb)
  | run hc =>
    exact ⟨fun hb => absurd hb (h.not_busy (by simp [hc])), by simp, by simp, by simp⟩
  | watch hc =>
    exact ⟨fun hb => absurd hb (h.not_busy (by simp [hc])), by simp, by simp, by simp⟩
  | finish hc hbusy => exact h.of_dispatch hc hbusy rfl rfl rfl rfl (by simpa [hc] using hnested)
  | drain hc =>
    refine h.of_dispatch hc (h.not_busy (by simp [hc])) rfl rfl rfl rfl ?_
    simpa [hc, Frame.isStop] using hnested
  | endBatch hc =>
    refine h.of_dispatch hc (h.not_busy (by simp [hc])) rfl rfl rfl rfl fun f hf => ?_
    rw [Loop.stack, hc] at hnested
    exact hnested f (List.mem_of_mem_tail hf)
  | leave hc hexit _ =>
    refine ⟨fun hb => absurd hb (h.not_busy (by simp [hc])), by simp, fun hs => ?_, fun _ => hexit⟩
    cases hc.symm.trans (h.stopped hs)
  | stopped hc =>
    exact ⟨fun hb => absurd hb (h.not_busy (by simp [hc])), by simp, fun _ => rfl,
      fun _ => h.exited (.inl hc)⟩
  | recv hc _ _ _ =>
    exact h.of_dispatch hc (h.not_busy (by simp [hc])) rfl rfl rfl rfl (by simp)
  | swap hc | start hc | startStop hc | again hc | empty hc | loopexit hc | finishStop hc =>
    exact h.of_dispatch hc (h.not_busy (by simp [hc])) rfl rfl rfl rfl
      (by simpa [hc] using hnested)

/-! ## Stop is called once -/

/-- A call of `QueueInLoop` is about to accept `StopInLoop`. -/
def lockedStop : Option (Caller × QueuePc F) → ℕ
  | some (_, .locked .stopInLoop) => 1
  | _ => 0

/-- The calls of `Stop`, wherever their functor is. -/
def Loop.stops (s : Loop F) : ℕ :=
  s.accepted.countP (·.functor.isStop) + lockedStop s.queueing + s.stopCall.toList.length

/-- A frame of `StopInLoop` belongs to an entry of `StopInLoop`. -/
def Frame.Genuine : Frame F → Prop
  | .stop e _ _ => e.functor.isStop = true
  | _ => True

/-- `Stop` is called at most once, while the loop is running. -/
structure OneStop (s : Loop F) : Prop where
  stops_le : s.stops ≤ 1
  early : s.control = .constructed ∨ s.control = .starting ∨ s.status = .running → s.stops = 0
  running : s.status = .running → ∃ stack, s.control = .dispatch stack
  frames : ∀ f ∈ s.stack, f.Genuine
  exited : s.exitRequested = true → ∃ e ∈ s.started, e.functor.isStop = true

/-- A functor `StopInLoop` that is accepted is one of the calls of `Stop`. -/
theorem Loop.stops_pos {e : Entry F} (he : e ∈ s.accepted) (hstop : e.functor.isStop = true) :
    0 < s.stops := by
  have hpos : 0 < s.accepted.countP (·.functor.isStop) := List.countP_pos_iff.mpr ⟨e, he, hstop⟩
  unfold Loop.stops
  omega

/-- Once the end of the dispatch loop is requested, `Stop` has been called. -/
theorem OneStop.status_ne (h : OneStop s) (hacc : Accounted s) (hexit : s.exitRequested = true) :
    s.status ≠ .running := by
  intro hrun
  obtain ⟨e, he, hstop⟩ := h.exited hexit
  have hpos := Loop.stops_pos (hacc.started.mem_iff.mpr (by simp [he])) hstop
  exact absurd (h.early (.inr (.inr hrun))) (Nat.ne_of_gt hpos)

/-- A step of the loop thread. -/
theorem OneStop.of_loop (h : OneStop s) (hstops : t.stops = s.stops)
    (hstatus : t.status = s.status) (hcontrol : t.control ≠ .constructed ∧ t.control ≠ .starting)
    (hrunning : s.status = .running → ∃ stack, t.control = .dispatch stack)
    (hframes : ∀ f ∈ t.stack, f.Genuine)
    (hexit : t.exitRequested = s.exitRequested) (hstarted : s.started <+: t.started) :
    OneStop t where
  stops_le := hstops ▸ h.stops_le
  early := by
    rw [hstops, hstatus]
    rintro (hc | hc | hs)
    · exact absurd hc hcontrol.1
    · exact absurd hc hcontrol.2
    · exact h.early (.inr (.inr hs))
  running := by
    rw [hstatus]
    exact hrunning
  frames := hframes
  exited := by
    rw [hexit]
    intro he
    obtain ⟨e, hmem, hstop⟩ := h.exited he
    exact ⟨e, hstarted.subset hmem, hstop⟩

/-- A step of `QueueInLoop`. -/
theorem OneStop.of_queue (h : OneStop s) (hstops : t.stops = s.stops)
    (hstatus : t.status = s.status) (hcontrol : t.control = s.control)
    (hexit : t.exitRequested = s.exitRequested) (hstarted : t.started = s.started) :
    OneStop t where
  stops_le := hstops ▸ h.stops_le
  early := by
    rw [hstops, hstatus, hcontrol]
    exact h.early
  running := by
    rw [hstatus, hcontrol]
    exact h.running
  frames := by
    rw [Loop.stack, hcontrol]
    exact h.frames
  exited := by
    rw [hexit, hstarted]
    exact h.exited

theorem OneStop.step (h : OneStop s) (hacc : Accounted s) (hst : Step s l t) : OneStop t := by
  have hframes := h.frames
  cases hst with
  | queue hq _ => exact h.of_queue (by simp [Loop.stops, hq, lockedStop]) rfl rfl rfl rfl
  | queueStop hq hc => exact h.of_queue (by simp [Loop.stops, hq, hc, lockedStop]) rfl rfl rfl rfl
  | @push c f hq =>
    refine h.of_queue ?_ rfl rfl rfl rfl
    cases f <;>
      simp [Loop.stops, Loop.nextEntry, hq, lockedStop, List.countP_append, Functor.isStop]
  | count hq => exact h.of_queue (by simp [Loop.stops, hq, lockedStop]) rfl rfl rfl rfl
  | test hq =>
    exact h.of_queue (by cases s.notified <;> simp [Loop.stops, hq, lockedStop])
      rfl rfl rfl rfl
  | notify hq _ _ => exact h.of_queue (by simp [Loop.stops, hq, lockedStop]) rfl rfl rfl rfl
  | unlock hq => exact h.of_queue (by simp [Loop.stops, hq, lockedStop]) rfl rfl rfl rfl
  | @stop c hs _ =>
    -- `Stop` sees `kRunning` only once
    have hzero := h.early (.inr (.inr hs))
    obtain ⟨stack, hc⟩ := h.running hs
    simp only [Loop.stops] at hzero
    refine ⟨?_, by simp [hc], nofun, h.frames, h.exited⟩
    simp only [Loop.stops, Option.toList_some, List.length_singleton]
    omega
  | run hc =>
    refine ⟨h.stops_le, fun _ => h.early (.inl hc), nofun, by simp, h.exited⟩
  | watch hc =>
    exact ⟨h.stops_le, fun _ => h.early (.inr (.inl hc)), fun _ => ⟨_, rfl⟩, by simp, h.exited⟩
  | startStop hc hf _ =>
    refine h.of_loop rfl rfl (by simp) (fun _ => ⟨_, rfl⟩) ?_ rfl (List.prefix_append _ _)
    simpa [hc, Frame.Genuine, hf, Functor.isStop] using hframes
  | @loopexit e rest stack hc =>
    -- the frame of `StopInLoop` is that of an entry which has started
    have hstop : (Frame.stop e .loopexit rest).Genuine := hframes _ (by simp [hc])
    have hmem : e ∈ s.started := hacc.finished.mem_iff.mpr (by simp [hc])
    refine ⟨h.stops_le, fun hs => h.early (.inr (.inr (by simpa using hs))), fun _ => ⟨_, rfl⟩, ?_,
      fun _ => ⟨e, hmem, hstop⟩⟩
    simpa [hc, Frame.Genuine] using hframes
  | leave hc hexit _ =>
    exact h.of_loop rfl rfl (by simp) (fun hs => absurd hs (h.status_ne hacc hexit)) (by simp) rfl
      List.prefix_rfl
  | stopped hc => exact ⟨h.stops_le, by simp, nofun, by simp, h.exited⟩
  | recv hc _ _ _ =>
    exact h.of_loop rfl rfl (by simp) (fun _ => ⟨_, rfl⟩) (by simp [Frame.Genuine]) rfl
      List.prefix_rfl
  | start hc _ =>
    refine h.of_loop rfl rfl (by simp) (fun _ => ⟨_, rfl⟩) ?_ rfl (List.prefix_append _ _)
    simpa [hc, Frame.Genuine] using hframes
  | swap hc hq =>
    refine h.of_loop rfl rfl (by simp) (fun _ => ⟨_, rfl⟩) ?_ rfl List.prefix_rfl
    simpa [hc, Frame.Genuine] using hframes
  | finish hc | endBatch hc | drain hc | again hc | empty hc | finishStop hc =>
    refine h.of_loop rfl rfl (by simp) (fun _ => ⟨_, rfl⟩) ?_ rfl List.prefix_rfl
    simp_all [Frame.Genuine]

/-- What holds in every run. -/
structure Sound (s : Loop F) : Prop where
  accounted : Accounted s
  placed : Placed s
  oneStop : OneStop s

theorem sound_init (hs : (system F).init s) : Sound s := by
  rcases hs with rfl | rfl
  · refine ⟨⟨rfl, .refl _, .refl _, ?_⟩, ⟨?_, ?_, ?_, ?_⟩,
      ⟨Nat.zero_le 1, fun _ => rfl, ?_, ?_, ?_⟩⟩
    all_goals simp [Loop.Busy, Loop.fresh]
  · refine ⟨⟨rfl, .refl _, .refl _, ?_⟩, ⟨?_, ?_, ?_, ?_⟩,
      ⟨Nat.zero_le 1, fun _ => rfl, fun _ => ⟨_, rfl⟩, ?_, ?_⟩⟩
    all_goals simp [Loop.Busy, Loop.attached, Loop.fresh]

theorem Sound.step (h : Sound s) (hst : Step s l t) : Sound t :=
  ⟨h.accounted.step hst, h.placed.step hst, h.oneStop.step h.accounted hst⟩

/-- A functor that is pending or waits has not started. -/
theorem Sound.not_started (h : Sound s) {e : Entry F} (he : e ∈ waiting s.stack ++ s.pending) :
    e ∉ s.started := by
  have hnodup := h.accounted.started.nodup_iff.mp h.accounted.nodup
  rw [List.append_assoc] at hnodup
  exact fun hmem => (List.nodup_append.mp hnodup).2.2 e hmem e he rfl

/-- Once `StopInLoop` has requested the end, it is neither pending nor waiting. -/
theorem Sound.no_stop (h : Sound s) (hexit : s.exitRequested = true) {e : Entry F}
    (he : e ∈ waiting s.stack ++ s.pending) : e.functor.isStop = false := by
  obtain ⟨x, hx, hxstop⟩ := h.oneStop.exited hexit
  have hcount := h.accounted.started.countP_eq (·.functor.isStop)
  have hle := h.oneStop.stops_le
  have hpos : 0 < s.started.countP (·.functor.isStop) := List.countP_pos_iff.mpr ⟨x, hx, hxstop⟩
  by_contra hstop
  have hpos' : 0 < (waiting s.stack ++ s.pending).countP (·.functor.isStop) :=
    List.countP_pos_iff.mpr ⟨e, he, by simpa using hstop⟩
  rw [List.append_assoc, List.countP_append] at hcount
  unfold Loop.stops at hle
  omega

/-- Then no call of `Stop` is in progress. -/
theorem Sound.stopCall_eq (h : Sound s) (hexit : s.exitRequested = true) : s.stopCall = none := by
  obtain ⟨x, hx, hxstop⟩ := h.oneStop.exited hexit
  have hpos : 0 < s.accepted.countP (·.functor.isStop) :=
    List.countP_pos_iff.mpr ⟨x, h.accounted.started.mem_iff.mpr (by simp [hx]), hxstop⟩
  have hle := h.oneStop.stops_le
  unfold Loop.stops at hle
  rw [← Option.toList_eq_nil_iff, ← List.length_eq_zero_iff]
  omega

/-! ## When the order is kept and nothing is dropped -/

/-- `StopInLoop` drains the queue. -/
def Frame.isDraining : Frame F → Bool
  | .stop _ pc _ => pc != .finished
  | _ => false

/-- `StopInLoop` has made its last test of the queue. -/
def Loop.Drained (s : Loop F) : Prop :=
  s.exitRequested = true ∧ ∀ f ∈ s.stack, f.isDraining = false

/-- No functor overtakes another, and none queues another once `StopInLoop` has made its last test
    of the queue. -/
def Orderly (s : Loop F) (l : Label F) : Prop :=
  InTurn s l ∧ ∀ f, l = .queue .loop f → ¬ s.Drained

/-- The functors that must be executed: those accepted before `StopInLoop`, those swapped out with
    it, and those queued by functors that the loop executes. -/
def Owed (s : Loop F) (e : Entry F) : Prop :=
  e ∈ s.accepted ∧ (e ∈ s.accepted.takeWhile (!·.functor.isStop) ∨ e ∈ s.stopBatch ∨
    e.caller = .loop)

/-- The functors start in the order in which they were accepted, and when the loop has stopped,
    each functor owed has been executed exactly once. -/
structure Correct (s : Loop F) : Prop where
  inOrder : s.started <+: s.accepted
  once : s.finished.Nodup
  complete : s.status = .stopped → ∀ e, Owed s e → e ∈ s.finished

theorem takeWhile_append_of_mem {α : Type} {p : α → Bool} {xs ys : List α} {x : α} (hx : x ∈ xs)
    (hp : p x = false) : (xs ++ ys).takeWhile p = xs.takeWhile p := by
  rw [List.takeWhile_append, if_neg]
  intro hlen
  have hall : xs.takeWhile p = xs := (List.takeWhile_prefix p).eq_of_length hlen
  have hpx : p x = true := List.all_eq_true.mp (List.all_takeWhile (l := xs)) x (hall.symm ▸ hx)
  exact nomatch hp.symm.trans hpx

/-- What holds in a run without disorder: once the queue is drained, no functor of the loop has
    queued anything that is still pending. -/
structure Keeping (s : Loop F) : Prop where
  sound : Sound s
  ordered : Ordered s
  pending : s.Drained → ∀ e ∈ s.pending, e.caller ≠ .loop
  queueing : s.Drained → ∀ f, s.queueing ≠ some (.loop, .locked f)

theorem Keeping.correct (h : Keeping s) : Correct s where
  inOrder := by
    rw [h.ordered, List.append_assoc]
    exact List.prefix_append _ _
  once := by
    have hnodup := h.sound.accounted.started.nodup_iff.mp h.sound.accounted.nodup
    have hstarted := (List.nodup_append.mp (List.nodup_append.mp hnodup).1).1
    exact (List.nodup_append.mp (h.sound.accounted.finished.nodup_iff.mp hstarted)).1
  complete hstopped e he := by
    have hdone : s.control = .done := h.sound.placed.stopped hstopped
    have hexit : s.exitRequested = true := h.sound.placed.exited (.inr hdone)
    -- nothing runs and nothing waits any more
    have hordered : s.accepted = s.started ++ s.pending := by
      have hord := h.ordered
      simpa [Ordered, hdone] using hord
    have hfinished : e ∈ s.started → e ∈ s.finished := by
      have hfin := h.sound.accounted.finished
      simp only [Loop.stack, hdone, Control.stack, running, List.append_nil] at hfin
      exact hfin.mem_iff.mp
    obtain ⟨haccepted, hbefore | hbatch | hloop⟩ := he
    · -- accepted before `StopInLoop`, which has started: so has the functor
      obtain ⟨x, hx, hxstop⟩ := h.sound.oneStop.exited hexit
      refine hfinished ?_
      rw [hordered, takeWhile_append_of_mem hx (by simp [hxstop])] at hbefore
      exact (List.takeWhile_prefix _).subset hbefore
    · -- swapped out with `StopInLoop`
      have hmem := h.sound.accounted.stopBatch e hbatch
      simp only [Loop.stack, hdone, Control.stack, waiting, List.append_nil] at hmem
      exact hfinished hmem
    · -- queued by the loop: it is not pending any more
      have hdrained : s.Drained := ⟨hexit, by simp [hdone]⟩
      rw [hordered] at haccepted
      rcases List.mem_append.mp haccepted with hmem | hmem
      · exact hfinished hmem
      · exact absurd hloop (h.pending hdrained e hmem)

/-- A step that does not end the draining and leaves the queue alone. -/
theorem Keeping.of_eq (h : Keeping s) (hst : Step s l t) (hturn : InTurn s l)
    (hdrained : t.Drained → s.Drained) (hpending : t.pending = s.pending)
    (hqueue : ∀ f, t.queueing = some (.loop, .locked f) → s.queueing = some (.loop, .locked f)) :
    Keeping t where
  sound := h.sound.step hst
  ordered := h.ordered.step hturn hst
  pending hd := by
    rw [hpending]
    exact h.pending (hdrained hd)
  queueing hd f hq := h.queueing (hdrained hd) f (hqueue f hq)

/-- A step after which `StopInLoop` is draining or was not called. -/
theorem Keeping.of_not_drained (h : Keeping s) (hst : Step s l t) (hturn : InTurn s l)
    (hdrained : ¬ t.Drained) : Keeping t where
  sound := h.sound.step hst
  ordered := h.ordered.step hturn hst
  pending hd := absurd hd hdrained
  queueing hd := absurd hd hdrained

/-- A step of the loop thread that finds or leaves the queue empty. -/
theorem Keeping.of_empty (h : Keeping s) (hst : Step s l t) (hturn : InTurn s l)
    (hpending : t.pending = []) (hbusy : ¬ s.Busy) (hqueue : t.queueing = s.queueing) :
    Keeping t where
  sound := h.sound.step hst
  ordered := h.ordered.step hturn hst
  pending _ := by simp [hpending]
  queueing _ f hq := by
    rw [hqueue] at hq
    exact hbusy (.inr (by simp [hq]))

theorem Keeping.step (h : Keeping s) (hok : Orderly s l) (hst : Step s l t) : Keeping t := by
  obtain ⟨hturn, hafter⟩ := hok
  have hbusy := h.sound.placed.not_busy
  cases hst with
  | @queue c f hq hcall =>
    refine ⟨h.sound.step (.queue hq hcall), h.ordered.step hturn (.queue hq hcall), h.pending,
      fun hd g hg => ?_⟩
    -- an orderly call of the loop comes before the last test of the queue
    obtain rfl : c = .loop := by simpa using congrArg (Option.map Prod.fst) hg
    exact hafter f rfl hd
  | @queueStop c hq hc =>
    refine ⟨h.sound.step (.queueStop hq hc), h.ordered.step hturn (.queueStop hq hc), h.pending,
      fun hd => ?_⟩
    exact nomatch hc.symm.trans (h.sound.stopCall_eq hd.1)
  | @push c f hq =>
    refine ⟨h.sound.step (.push hq), h.ordered.step hturn (.push hq), fun hd e he => ?_, nofun⟩
    rcases List.mem_append.mp he with he | he
    · exact h.pending hd e he
    · obtain rfl := List.mem_singleton.mp he
      rintro rfl
      exact h.queueing hd f hq
  | count hq => exact h.of_eq (.count hq) hturn id rfl (by simp)
  | test hq => exact h.of_eq (.test hq) hturn id rfl (by cases s.notified <;> simp)
  | notify hq hfail hsent => exact h.of_eq (.notify hq hfail hsent) hturn id rfl (by simp)
  | unlock hq => exact h.of_eq (.unlock hq) hturn id rfl (by simp)
  | stop hs hcall => exact h.of_eq (.stop hs hcall) hturn id rfl fun _ => id
  | run hc => exact h.of_eq (.run hc) hturn (by simp [Loop.Drained, hc]) rfl fun _ => id
  | watch hc => exact h.of_eq (.watch hc) hturn (by simp [Loop.Drained, hc]) rfl fun _ => id
  | recv hc hexit hle hzero =>
    exact h.of_not_drained (.recv hc hexit hle hzero) hturn (by simp [Loop.Drained, hexit])
  | swap hc hq =>
    exact h.of_empty (.swap hc hq) hturn rfl (hbusy (by simp [hc])) rfl
  | start hc hu =>
    exact h.of_eq (.start hc hu) hturn (by simp [Loop.Drained, hc, Frame.isDraining]) rfl
      fun _ => id
  | startStop hc hf hs =>
    exact h.of_not_drained (.startStop hc hf hs) hturn (by simp [Loop.Drained, Frame.isDraining])
  | finish hc hb =>
    exact h.of_eq (.finish hc hb) hturn (by simp [Loop.Drained, hc, Frame.isDraining]) rfl
      fun _ => id
  | endBatch hc =>
    exact h.of_eq (.endBatch hc) hturn (by simp [Loop.Drained, hc, Frame.isDraining]) rfl
      fun _ => id
  | drain hc =>
    exact h.of_not_drained (.drain hc) hturn (by simp [Loop.Drained, Frame.isDraining])
  | again hc hp =>
    exact h.of_not_drained (.again hc hp) hturn (by simp [Loop.Drained, Frame.isDraining])
  | empty hc hp =>
    exact h.of_empty (.empty hc hp) hturn hp (hbusy (by simp [hc])) rfl
  | loopexit hc =>
    exact h.of_not_drained (.loopexit hc) hturn (by simp [Loop.Drained, Frame.isDraining])
  | finishStop hc =>
    exact h.of_eq (.finishStop hc) hturn (by simp [Loop.Drained, hc, Frame.isDraining]) rfl
      fun _ => id
  | leave hc hexit hbase =>
    exact h.of_eq (.leave hc hexit hbase) hturn (by simp [Loop.Drained, hc]) rfl fun _ => id
  | stopped hc =>
    exact h.of_eq (.stopped hc) hturn (by simp [Loop.Drained, hc]) rfl fun _ => id

/-! ## What a disorderly step leads to -/

/-- A frame that will not swap again. -/
def Frame.isSettled : Frame F → Bool
  | .swap => false
  | f => !f.isDraining

/-- A functor queued by the loop will never be executed. -/
structure Doomed (s : Loop F) : Prop where
  exitRequested : s.exitRequested = true
  settled : ∀ f ∈ s.stack, f.isSettled = true
  noStop : ∀ e ∈ waiting s.stack, e.functor.isStop = false
  lost : (∃ f, s.queueing = some (.loop, .locked f)) ∨ ∃ e ∈ s.pending, e.caller = .loop

/-- A step of `QueueInLoop` by another thread, or after its `emplace_back`. -/
theorem Doomed.of_queue (h : Doomed s) (hqueue : ∀ f, s.queueing ≠ some (.loop, .locked f))
    (hexit : t.exitRequested = s.exitRequested) (hcontrol : t.control = s.control)
    (hpending : t.pending = s.pending) : Doomed t where
  exitRequested := hexit.trans h.exitRequested
  settled := by
    rw [Loop.stack, hcontrol]
    exact h.settled
  noStop := by
    rw [Loop.stack, hcontrol]
    exact h.noStop
  lost := by
    rw [hpending]
    exact .inr (h.lost.resolve_left fun hf => hf.elim hqueue)

/-- A step of the loop thread that starts no call of `DoPendingFunctors`. -/
theorem Doomed.of_loop (h : Doomed s) (hexit : t.exitRequested = s.exitRequested)
    (hsettled : ∀ f ∈ t.stack, f.isSettled = true)
    (hwaiting : waiting t.stack ⊆ waiting s.stack)
    (hqueue : t.queueing = s.queueing) (hpending : t.pending = s.pending) : Doomed t where
  exitRequested := hexit.trans h.exitRequested
  settled := hsettled
  noStop e he := h.noStop e (hwaiting he)
  lost := by
    rw [hqueue, hpending]
    exact h.lost

theorem Doomed.step (h : Doomed s) (hst : Step s l t) : Doomed t := by
  have hsettled := h.settled
  cases hst with
  | queue hq _ => exact h.of_queue (by simp [hq]) rfl rfl rfl
  | queueStop hq _ => exact h.of_queue (by simp [hq]) rfl rfl rfl
  | @push c f hq =>
    refine ⟨h.exitRequested, h.settled, h.noStop, .inr ?_⟩
    rcases h.lost with ⟨g, hg⟩ | ⟨e, he, hloop⟩
    · obtain ⟨rfl, -⟩ : c = .loop ∧ f = g := by simpa [hq] using hg
      exact ⟨_, List.mem_append_right _ List.mem_cons_self, rfl⟩
    · exact ⟨e, List.mem_append_left _ he, hloop⟩
  | count hq => exact h.of_queue (by simp [hq]) rfl rfl rfl
  | test hq => exact h.of_queue (by simp [hq]) rfl rfl rfl
  | notify hq _ _ => exact h.of_queue (by simp [hq]) rfl rfl rfl
  | unlock hq => exact h.of_queue (by simp [hq]) rfl rfl rfl
  | stop => exact ⟨h.exitRequested, h.settled, h.noStop, h.lost⟩
  | run => exact h.of_loop rfl (by simp) (by simp) rfl rfl
  | watch => exact h.of_loop rfl (by simp) (by simp) rfl rfl
  | recv _ hexit _ _ => cases hexit.symm.trans h.exitRequested
  | swap hc _ => simp [hc, Frame.isSettled] at hsettled
  | startStop hc hf _ =>
    -- a second `StopInLoop` cannot wait
    have hno := h.noStop _ (by simp [hc]; exact .inr (.inl rfl))
    simp [hf, Functor.isStop] at hno
  | drain hc => simp [hc, Frame.isSettled, Frame.isDraining] at hsettled
  | again hc _ => simp [hc, Frame.isSettled, Frame.isDraining] at hsettled
  | empty hc _ => simp [hc, Frame.isSettled, Frame.isDraining] at hsettled
  | loopexit hc => simp [hc, Frame.isSettled, Frame.isDraining] at hsettled
  | leave => exact h.of_loop rfl (by simp) (by simp) rfl rfl
  | stopped => exact h.of_loop rfl (by simp) (by simp) rfl rfl
  | start hc _ | finish hc _ | endBatch hc | finishStop hc =>
    refine h.of_loop rfl ?_ ?_ rfl rfl
    · simp_all [Frame.isSettled, Frame.isDraining]
    · simp [hc]

/-- A functor queued after the last test of the queue is lost. -/
theorem Doomed.of_queue_loop (h : Sound s) {f : F} (hd : s.Drained)
    (hst : Step s (.queue .loop f) t) : Doomed t := by
  cases hst with
  | queue hq hcall =>
    obtain ⟨-, e, rest, stack, hc⟩ := hcall
    refine ⟨hd.1, fun g hg => ?_, fun x hx => h.no_stop hd.1 (List.mem_append_left _ hx),
      .inl ⟨_, rfl⟩⟩
    -- every frame below is one of `StopInLoop`, past its last test
    have hquiet := hd.2 g hg
    have hnested := h.placed.nested
    simp only [Loop.stack, hc, Control.stack, List.tail_cons, List.mem_cons] at hg hnested
    rcases hg with rfl | hg
    · rfl
    · have hstop := hnested g hg
      cases g <;> simp_all [Frame.isStop, Frame.isSettled]

/-- A functor lost has not been executed when the loop stops. -/
theorem Doomed.not_correct (h : Doomed s) (hsound : Sound s) (hstopped : s.status = .stopped) :
    ¬ Correct s := by
  intro hcorrect
  have hdone := hsound.placed.stopped hstopped
  rcases h.lost with ⟨f, hf⟩ | ⟨e, he, hloop⟩
  · -- the call of `QueueInLoop` would have to be inside a functor
    obtain ⟨x, rest, stack, hc⟩ := hsound.placed.busy (.inr (by simp [hf]))
    exact nomatch hdone.symm.trans hc
  · have hmem : e ∈ waiting s.stack ++ s.pending := List.mem_append_right _ he
    have haccepted : e ∈ s.accepted := hsound.accounted.started.mem_iff.mpr (by simp [he])
    have hfinished := hcorrect.complete hstopped e ⟨haccepted, .inr (.inr hloop)⟩
    exact hsound.not_started hmem (hsound.accounted.finished.mem_iff.mpr
      (List.mem_append_left _ hfinished))

/-- A functor that overtakes another has started out of order. -/
theorem not_correct_of_overtaking (h : Keeping s) (hst : Step s .start t)
    (hwait : waiting s.stack.tail ≠ []) : ¬ Correct t := by
  intro hcorrect
  obtain ⟨e, rest, stack, hc, hstarted, haccepted⟩ : ∃ e rest stack,
      s.control = .dispatch (.batch (e :: rest) :: stack) ∧ t.started = s.started ++ [e] ∧
      t.accepted = s.accepted := by
    cases hst with
    | start hc _ => exact ⟨_, _, _, hc, rfl, rfl⟩
    | startStop hc _ _ => exact ⟨_, _, _, hc, rfl, rfl⟩
  have hord := h.ordered
  have hnodup := h.sound.accounted.nodup
  simp only [Loop.stack, hc, Control.stack, List.tail_cons] at hwait
  obtain ⟨x, xs, hx⟩ := List.exists_cons_of_ne_nil hwait
  -- the functor accepted next is the first one of the outer batch
  simp only [Ordered, Loop.stack, hc, Control.stack, waiting, hx, Frame.rest, List.append_assoc,
    List.cons_append] at hord
  have hprefix := hcorrect.inOrder
  rw [hstarted, haccepted, hord, List.prefix_append_right_inj] at hprefix
  obtain rfl : e = x := (List.cons_prefix_cons.mp hprefix).1
  rw [hord] at hnodup
  have htail := (List.nodup_cons.mp (List.nodup_append.mp hnodup).2.1).1
  exact htail (by simp)

/-- A step that is not orderly leads to disorder at once, or to a functor that is lost. -/
theorem not_correct_or_doomed (h : Keeping s) (hno : ¬ Orderly s l) (hst : Step s l t) :
    ¬ Correct t ∨ Doomed t := by
  rcases not_and_or.mp hno with hturn | hqueue
  · obtain ⟨rfl, hwait⟩ : l = .start ∧ waiting s.stack.tail ≠ [] := by
      simpa [InTurn, Classical.not_imp] using hturn
    exact .inl (not_correct_of_overtaking h hst hwait)
  · obtain ⟨f, rfl, hd⟩ : ∃ f, l = .queue .loop f ∧ s.Drained := by
      simpa [Classical.not_imp] using hqueue
    exact .inr (.of_queue_loop h.sound hd hst)

/-! ## Main results -/

/-- **Stopping keeps the order and drops nothing** in every run whose steps are all orderly; and a
    run that ends with `kStopped` is correct throughout only if they are. -/
theorem stop_correct_iff_orderly {π : List (Label F × Loop F)} (hs : (system F).init s)
    (hrun : (system F).IsRun s π) :
    (Lts.Meets Orderly s π → Lts.Always Correct s π) ∧
    ((Lts.lastState s π).status = .stopped →
      (Lts.Always Correct s π ↔ Lts.Meets Orderly s π)) := by
  have hkeeping : Keeping s := by
    refine ⟨sound_init hs, ?_, ?_, ?_⟩ <;> rcases hs with rfl | rfl
    · rfl
    · rfl
    · simp [Loop.fresh]
    · simp [Loop.attached, Loop.fresh]
    · simp [Loop.fresh]
    · simp [Loop.attached, Loop.fresh]
  have hmeets : Lts.Meets Orderly s π → Lts.Always Correct s π :=
    Lts.always_of_meets (fun _ h => h.correct) (fun _ _ _ h hok hst => h.step hok hst) hkeeping hrun
  refine ⟨hmeets, fun hstopped => ⟨fun hcorrect => ?_, hmeets⟩⟩
  have hsound : Sound (Lts.lastState s π) :=
    Lts.lastState_of_always (Lts.IsRun.always (fun _ _ _ h hst => h.step hst) hkeeping.sound hrun)
  have hlast : ¬ Doomed (Lts.lastState s π) := fun hd =>
    hd.not_correct hsound hstopped (Lts.lastState_of_always hcorrect)
  exact Lts.meets_of_always (I := Keeping) (P := Correct) (D := Doomed)
    (fun _ _ _ h hok hst => h.step hok hst) (fun _ _ _ h hno hst => not_correct_or_doomed h hno hst)
    (fun _ _ _ h hst => h.step hst) hkeeping hrun hlast hcorrect

/-- A loop that stops while it is busy: the functor 0 is swapped out in front of `StopInLoop` and
    queues the functor 1, which the inner call of `DoPendingFunctors` starts. -/
theorem stop_correct_iff_orderly_busy : ∃ π : List (Label ℕ × Loop ℕ),
    (Lts.lastState .fresh π).status = .stopped ∧ Lts.Always Correct .fresh π ∧
    (Lts.lastState .fresh π).stopBatch.map (·.seq) = [0, 1] ∧
    (Lts.lastState .fresh π).finished.map (·.seq) = [0, 2, 1] := by
  have hrun : (system ℕ).IsRun .fresh [(.run, _), (.watch, _),
      -- another thread queues 0 and calls `Stop`
      (.queue .other 0, _), (.push, _), (.count, _), (.test, _), (.notify true, _), (.unlock, _),
      (.stop .other, _), (.queueStop .other, _), (.push, _), (.count, _), (.test, _), (.unlock, _),
      -- 0 is executed, and queues 1
      (.recv 1, _), (.swap, _), (.start, _), (.queue .loop 1, _), (.push, _), (.count, _),
      (.test, _), (.notify true, _), (.unlock, _), (.finish, _),
      -- `StopInLoop` drains, and 1 is executed
      (.start, _), (.drain, _), (.swap, _), (.start, _), (.finish, _), (.endBatch, _),
      (.testEmpty, _), (.loopexit, _), (.drain, _), (.swap, _), (.endBatch, _), (.testEmpty, _),
      (.finish, _), (.endBatch, _), (.leave, _), (.stopped, _)] :=
    ⟨.run rfl, .watch rfl, .queue rfl trivial, .push rfl, .count rfl, .test rfl,
      .notify rfl nofun (fun _ => rfl), .unlock rfl, .stop rfl trivial, .queueStop rfl rfl,
      .push rfl, .count rfl, .test rfl, .unlock rfl, .recv rfl rfl (by decide) nofun,
      .swap rfl rfl, .start rfl rfl, .queue rfl ⟨by simp [Loop.Busy], _, _, _, rfl⟩, .push rfl,
      .count rfl, .test rfl, .notify rfl nofun (fun _ => rfl), .unlock rfl,
      .finish rfl (by simp [Loop.Busy]), .startStop rfl rfl rfl, .drain rfl, .swap rfl rfl,
      .start rfl rfl, .finish rfl (by simp [Loop.Busy]), .endBatch rfl, .empty rfl rfl,
      .loopexit rfl, .drain rfl, .swap rfl rfl, .endBatch rfl, .empty rfl rfl, .finishStop rfl,
      .endBatch rfl, .leave rfl rfl rfl, .stopped rfl, trivial⟩
  refine ⟨_, rfl, (stop_correct_iff_orderly (.inl rfl) hrun).1 ?_, rfl, rfl⟩
  -- 0 queues while the end of the dispatch loop is not requested
  simpa [Lts.Meets, Orderly, InTurn] using fun hd : Loop.Drained _ => Bool.false_ne_true hd.1

/-- **Stopping reorders and drops.** `StopInLoop` (0) and the functor 1 are swapped out together;
    the functor 2 is queued meanwhile, and the functor 3 by the functor 1. The inner call of
    `DoPendingFunctors` starts 2 before 1, and 3 is never executed. -/
theorem stop_reorders_and_drops : ∃ s : Loop ℕ, (system ℕ).Reachable s ∧ s.status = .stopped ∧
    s.accepted.map (·.seq) = [0, 1, 2, 3] ∧ s.started.map (·.seq) = [0, 2, 1] ∧ ¬ Correct s ∧
    ∃ e, Owed s e ∧ e ∉ s.finished := by
  have hrun : (system ℕ).IsRun .fresh [(.run, _), (.watch, _),
      -- another thread calls `Stop`, and queues 1
      (.stop .other, _), (.queueStop .other, _), (.push, _), (.count, _), (.test, _),
      (.notify true, _), (.unlock, _), (.queue .other 1, _), (.push, _), (.count, _), (.test, _),
      (.unlock, _),
      -- the loop swaps; 2 is queued
      (.recv 1, _), (.swap, _), (.start, _), (.queue .other 2, _), (.push, _), (.count, _),
      (.test, _), (.notify true, _), (.unlock, _),
      -- `StopInLoop` drains, and 2 is executed
      (.drain, _), (.swap, _), (.start, _), (.finish, _), (.endBatch, _), (.testEmpty, _),
      (.loopexit, _), (.drain, _), (.swap, _), (.endBatch, _), (.testEmpty, _), (.finish, _),
      -- 1 is executed, and queues 3
      (.start, _), (.queue .loop 3, _), (.push, _), (.count, _), (.test, _), (.notify true, _),
      (.unlock, _), (.finish, _), (.endBatch, _), (.leave, _), (.stopped, _)] :=
    ⟨.run rfl, .watch rfl, .stop rfl trivial, .queueStop rfl rfl, .push rfl, .count rfl, .test rfl,
      .notify rfl nofun (fun _ => rfl), .unlock rfl, .queue rfl trivial, .push rfl, .count rfl,
      .test rfl, .unlock rfl, .recv rfl rfl (by decide) nofun, .swap rfl rfl,
      .startStop rfl rfl rfl, .queue rfl trivial, .push rfl, .count rfl, .test rfl,
      .notify rfl nofun (fun _ => rfl), .unlock rfl, .drain rfl, .swap rfl rfl, .start rfl rfl,
      .finish rfl (by simp [Loop.Busy]), .endBatch rfl, .empty rfl rfl, .loopexit rfl, .drain rfl,
      .swap rfl rfl, .endBatch rfl, .empty rfl rfl, .finishStop rfl, .start rfl rfl,
      .queue rfl ⟨by simp [Loop.Busy], _, _, _, rfl⟩, .push rfl, .count rfl, .test rfl,
      .notify rfl nofun (fun _ => rfl), .unlock rfl, .finish rfl (by simp [Loop.Busy]),
      .endBatch rfl, .leave rfl rfl rfl, .stopped rfl, trivial⟩
  have hreach := Lts.lastState_of_always (Lts.IsRun.always (I := (system ℕ).Reachable)
    (fun _ _ _ h hst => .step h trivial hst) (.init (.inl rfl)) hrun)
  refine ⟨_, hreach, rfl, rfl, rfl, fun hcorrect => ?_, ⟨3, .user 3, .loop⟩,
    ⟨?_, .inr (.inr rfl)⟩, ?_⟩
  · have hseq := hcorrect.inOrder.map Entry.seq
    exact absurd hseq (by decide)
  · exact List.mem_of_getElem? (i := 3) rfl
  · have hseq : (3 : ℕ) ∉ [2, 0, 1] := by decide
    exact fun hmem => hseq (List.mem_map_of_mem (f := Entry.seq) hmem)

end ReechatBase.EventLoop
