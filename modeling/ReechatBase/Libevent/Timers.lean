import ReechatBase.Lib.Transition
import ReechatBase.Libevent.Sched

/-!
# Timeouts of a running loop

`event_base_loop` over the functions of `EventBase`: the loop computes how long it may wait, waits
in `dispatch`, activates what is ready and what has timed out, and calls the callbacks one by one,
which add and delete events in turn. The clock only advances, and by any amount at any step.

What the users of a timeout rely on, in every run:

- a callback is reported a timeout only when the time asked for has passed since the reading that
  the `event_add` counts from, at most once for one `event_add`, and never after an `event_del`
  (`timeout_callback`);
- the loop never goes back to waiting over a timeout that was due when it woke up
  (`none_skipped`), and never waits longer than until the next one (`waits_for_next`).

All of it is measured by the readings that `gettime` returns, and these may be cached. An
`event_add` inside a callback counts from the time of the last wake-up.

A persistent event has no timeout here (`Sane`). The loop may return before any of its turns, but
`dispatch` does not fail, no `event_base_loopbreak` ends it between two callbacks, and the program
does not call `event_active`.
-/

namespace ReechatBase.Libevent

open Function Lib

namespace Timeval

/-- A time in microseconds. -/
def micros (t : Timeval) : ℤ :=
  t.tvSec * 1000000 + t.tvUsec

/-- The microseconds are less than a second. -/
def Normal (t : Timeval) : Prop :=
  0 ≤ t.tvUsec ∧ t.tvUsec < 1000000

instance (t : Timeval) : Decidable t.Normal :=
  inferInstanceAs (Decidable (0 ≤ t.tvUsec ∧ t.tvUsec < 1000000))

variable {t u : Timeval}

@[simp] theorem micros_timeradd : (t.timeradd u).micros = t.micros + u.micros := by
  by_cases h : t.tvUsec + u.tvUsec ≥ 1000000 <;> simp only [timeradd, micros, h] <;> simp <;> omega

@[simp] theorem micros_timersub : (t.timersub u).micros = t.micros - u.micros := by
  by_cases h : t.tvUsec - u.tvUsec < 0 <;> simp only [timersub, micros, h] <;> simp <;> omega

theorem Normal.timeradd (ht : t.Normal) (hu : u.Normal) : (t.timeradd u).Normal := by
  unfold Normal at *
  by_cases h : t.tvUsec + u.tvUsec ≥ 1000000 <;> simp only [Timeval.timeradd, h] <;> simp <;> omega

/-- The order of `timercmp` is that of the times. -/
theorem Normal.le_iff (ht : t.Normal) (hu : u.Normal) : t ≤ u ↔ t.micros ≤ u.micros := by
  unfold Normal at ht hu
  rw [Timeval.le_iff]
  unfold micros
  omega

theorem Normal.lt_iff (ht : t.Normal) (hu : u.Normal) : t < u ↔ t.micros < u.micros := by
  rw [← not_le, ← not_le, hu.le_iff ht]

end Timeval

variable {ε : Type} [DecidableEq ε]

/-! ## The loop -/

/-- Where `event_base_loop` stands. -/
inductive Phase (ε : Type) where
  /-- It is not running -/
  | outside
  /-- Before a turn of its loop -/
  | top
  /-- In `dispatch`, with the time it may wait -/
  | waiting (tv : Option Timeval)
  /-- In `event_process_active`, between two callbacks -/
  | processing
  /-- In the callback of an event -/
  | callback (ev : ε) (res : Res)

/-- A base, its loop and the clock. The program does not store the last two fields. -/
structure Dispatch (ε : Type) where
  base : EventBase ε
  phase : Phase ε
  /-- What the clock showed last -/
  clock : Timeval
  /-- What it showed when the loop last woke up -/
  woke : Timeval
  /-- The timeouts asked for and neither reported nor deleted: what `gettime` returned in
      `event_add`, and `tv` -/
  armed : ε → Option (Timeval × Timeval)

namespace Dispatch

/-- Code of the program is running in the thread of the loop. -/
def MayCall (s : Dispatch ε) : Prop :=
  s.phase = .outside ∨ ∃ ev res, s.phase = .callback ev res

/-- The timeouts asked for, after an `event_add` that returned `res`. -/
def armedBy (s : Dispatch ε) (ev : ε) (tv : Option Timeval) (clock : Timeval) (res : ℤ) :
    ε → Option (Timeval × Timeval) :=
  match tv with
  | none => s.armed
  | some tv => if res = 0 then update s.armed ev (some (s.base.gettime clock, tv)) else s.armed

theorem armedBy_of_ne (s : Dispatch ε) {e ev : ε} (he : e ≠ ev) (tv : Option Timeval)
    (clock : Timeval) (res : ℤ) : s.armedBy ev tv clock res e = s.armed e := by
  cases tv with
  | none => rfl
  | some tv =>
    by_cases hres : res = 0
    · simp [armedBy, hres, he]
    · simp [armedBy, hres]

theorem armedBy_self {s : Dispatch ε} {ev : ε} (hnone : s.armed ev = none) (tv : Option Timeval)
    (clock : Timeval) (res : ℤ) :
    s.armedBy ev tv clock res ev =
      if res = 0 then tv.map (s.base.gettime clock, ·) else none := by
  cases tv with
  | none => simp [armedBy, hnone]
  | some tv =>
    by_cases hres : res = 0
    · simp [armedBy, hres]
    · simp [armedBy, hres, hnone]

omit [DecidableEq ε] in
theorem MayCall.not_processing {s : Dispatch ε} (h : s.MayCall) : s.phase ≠ .processing := by
  rcases h with h | ⟨ev, res, h⟩ <;> simp [h]

end Dispatch

/-- What `dispatch` finds ready. -/
def EventBase.ioReady (b : EventBase ε) (ready : List (ε × Res)) : EventBase ε :=
  ready.foldl (fun b p => b.eventActive p.1 p.2) b

inductive LoopLabel (ε : Type) where
  | add (ev : ε) (tv : Option Timeval) (a : EventBase.AddAnswers)
  | del (ev : ε)
  /-- `event_base_loop` is called -/
  | start
  /-- `timeout_next`, and `dispatch` is called -/
  | wait (clock : Timeval)
  /-- `dispatch` returns; `timeout_process` -/
  | wake (ready : List (ε × Res)) (clock : Timeval)
  /-- The next callback is called -/
  | call
  /-- The callback returns -/
  | return
  /-- `event_base_loop` returns -/
  | leave

/-- The steps of `event_base_loop` itself -/
def LoopLabel.isLoop : LoopLabel ε → Bool
  | .add .. => false
  | .del _ => false
  | _ => true

/-- The steps of the loop of events `k`. -/
inductive LoopStep (k : ε → Interest) : Dispatch ε → LoopLabel ε → Dispatch ε → Prop where
  | add {s ev tv a t res} : s.MayCall → s.clock ≤ a.clock → a.clock.Normal →
      s.base.eventAdd (k ev) ev tv a = some (t, res) →
      LoopStep k s (.add ev tv a) { s with
        base := t, clock := a.clock, armed := s.armedBy ev tv a.clock res }
  | del {s ev t} : s.MayCall → s.base.eventDel ev = some t →
      LoopStep k s (.del ev) { s with base := t, armed := update s.armed ev none }
  | start {s} : s.phase = .outside →
      LoopStep k s .start { s with base := s.base.clearTimeCache, phase := .top }
  | wait {s clock} : s.phase = .top → s.clock ≤ clock → clock.Normal →
      s.base.haveEvents = true →
      LoopStep k s (.wait clock) { s with
        base := s.base.clearTimeCache, clock := clock,
        phase := .waiting (if s.base.eventCountActive ≠ 0 then some ⟨0, 0⟩
          else s.base.timeoutNext clock) }
  | wake {s tv ready clock t} : s.phase = .waiting tv → s.clock ≤ clock → clock.Normal →
      (∀ p ∈ ready, s.base.inserted p.1 = true ∧ p.2.timeout = false) →
      ((s.base.ioReady ready).updateTimeCache clock).timeoutProcess clock = some t →
      LoopStep k s (.wake ready clock) { s with
        base := t, clock := clock, woke := clock,
        phase := if t.eventCountActive ≠ 0 then .processing else .top }
  | call {s ev res t} : s.phase = .processing → s.base.processFirst k = some (t, some (ev, res)) →
      LoopStep k s .call { s with
        base := t, phase := .callback ev res,
        -- a persistent event stays, the others are deleted before the call
        armed := if (k ev).persist then s.armed else update s.armed ev none }
  | return {s ev res} : s.phase = .callback ev res →
      LoopStep k s .return { s with
        phase := if s.base.activequeue = [] then .top else .processing }
  | leave {s} : s.phase = .top →
      LoopStep k s .leave { s with base := s.base.clearTimeCache, phase := .outside }

/-- The loop of events `k`, from a new base on. -/
def loop (k : ε → Interest) : Lts (Dispatch ε) (LoopLabel ε) where
  init s := (∃ p evTimeout evRes, s.base = .new p evTimeout evRes) ∧ s.phase = .outside ∧
    s.clock.Normal ∧ s.woke = s.clock ∧ ∀ e, s.armed e = none
  step := LoopStep k

/-- What the program sees to: fewer than `2 ^ 31` timeouts wait, a persistent event has none, and
    the times are proper ones. -/
def Sane (k : ε → Interest) (s : Dispatch ε) : LoopLabel ε → Prop
  | .add ev tv _ => s.base.timeheap.n + 1 < 2 ^ 31 ∧ ∀ t ∈ tv, (k ev).persist = false ∧ t.Normal
  | _ => True

/-! ## Timeouts asked for and timeouts kept -/

/-- What the timeouts that were asked for have become since the loop woke up at `woke`. -/
structure Tracks (s : Sched ε) (woke : Timeval) (armed : ε → Option (Timeval × Timeval)) :
    Prop where
  pending : ∀ e d, s.due e = some d → ∃ r tv, armed e = some (r, tv) ∧ d = r.timeradd tv
  queued : ∀ p ∈ s.queue, p.2.timeout →
    s.due p.1 = none ∧ ∃ r tv, armed p.1 = some (r, tv) ∧ r.timeradd tv ≤ woke
  accounted : ∀ e r tv, armed e = some (r, tv) →
    s.due e = some (r.timeradd tv) ∨ ∃ res, (e, res) ∈ s.queue ∧ res.timeout
  /-- What still waits was not due, or has been asked for since. -/
  noneSkipped : ∀ e r tv, armed e = some (r, tv) → s.due e ≠ none →
    woke < r.timeradd tv ∨ woke ≤ r
  /-- The timeouts are reported in the order of their deadlines. -/
  inOrder : s.queue.Pairwise fun p q => p.2.timeout → q.2.timeout →
    ∀ r tv r' tv', armed p.1 = some (r, tv) → armed q.1 = some (r', tv') →
      r.timeradd tv ≤ r'.timeradd tv'

namespace Tracks

variable {s : Sched ε} {woke now : Timeval} {armed : ε → Option (Timeval × Timeval)} {ev : ε}

/-- An `event_del`, or a callback of an event that is not persistent. -/
theorem del (h : Tracks s woke armed) (ev : ε) : Tracks (s.del ev) woke (update armed ev none) where
  pending e d hd := by
    have he : e ≠ ev := by
      intro heq
      simp [Sched.del, heq] at hd
    rw [update_of_ne he]
    exact h.pending e d (by simpa [Sched.del, he] using hd)
  queued p hp hto := by
    obtain ⟨hmem, hne⟩ := List.mem_filter.mp hp
    have he : p.1 ≠ ev := by simpa using hne
    obtain ⟨hdue, harmed⟩ := h.queued p hmem hto
    rw [update_of_ne he]
    exact ⟨(update_of_ne he ..).trans hdue, harmed⟩
  accounted e r tv ha := by
    have he : e ≠ ev := by
      intro heq
      simp [heq] at ha
    rw [update_of_ne he] at ha
    rcases h.accounted e r tv ha with hdue | ⟨res, hmem, hto⟩
    · exact .inl ((update_of_ne he ..).trans hdue)
    · exact .inr ⟨res, List.mem_filter.mpr ⟨hmem, by simpa using he⟩, hto⟩
  noneSkipped e r tv ha hdue := by
    have he : e ≠ ev := by
      intro heq
      simp [heq] at ha
    rw [update_of_ne he] at ha
    exact h.noneSkipped e r tv ha (by simpa [Sched.del, he] using hdue)
  inOrder := by
    refine (h.inOrder.filter _).imp_of_mem ?_
    intro p q hp hq hpq hpt hqt r tv r' tv' ha ha'
    have hpe : p.1 ≠ ev := by simpa using (List.mem_filter.mp hp).2
    have hqe : q.1 ≠ ev := by simpa using (List.mem_filter.mp hq).2
    rw [update_of_ne hpe] at ha
    rw [update_of_ne hqe] at ha'
    exact hpq hpt hqt r tv r' tv' ha ha'

/-- A callback of a persistent event, which has no timeout. -/
theorem unqueue (h : Tracks s woke armed) (hev : armed ev = none) :
    Tracks (s.unqueue ev) woke armed where
  pending := h.pending
  queued p hp := h.queued p (List.mem_filter.mp hp).1
  accounted e r tv ha := by
    have he : e ≠ ev := by
      intro heq
      rw [heq, hev] at ha
      cases ha
    rcases h.accounted e r tv ha with hdue | ⟨res, hmem, hto⟩
    · exact .inl hdue
    · exact .inr ⟨res, List.mem_filter.mpr ⟨hmem, by simpa using he⟩, hto⟩
  noneSkipped := h.noneSkipped
  inOrder := h.inOrder.filter _

/-- An `event_add` with a timeout, whose reading `r` is no older than the last wake-up. -/
theorem arm (h : Tracks s woke armed) (ev : ε) {r : Timeval} (hr : woke ≤ r) (tv : Timeval) :
    Tracks (s.arm ev (r.timeradd tv)) woke (update armed ev (some (r, tv))) where
  pending e d hd := by
    by_cases he : e = ev
    · subst he
      rw [show (s.arm e (r.timeradd tv)).due e = some (r.timeradd tv) from update_self ..,
        Option.some.injEq] at hd
      exact ⟨r, tv, update_self .., hd.symm⟩
    · rw [update_of_ne he]
      exact h.pending e d (by simpa [Sched.arm, he] using hd)
  queued p hp hto := by
    obtain ⟨hmem, hne⟩ := List.mem_filter.mp hp
    have he : p.1 ≠ ev := by
      intro heq
      simp [heq, hto] at hne
    obtain ⟨hdue, harmed⟩ := h.queued p hmem hto
    rw [update_of_ne he]
    exact ⟨(update_of_ne he ..).trans hdue, harmed⟩
  accounted e r' tv' ha := by
    by_cases he : e = ev
    · subst he
      rw [update_self, Option.some.injEq, Prod.mk.injEq] at ha
      obtain ⟨rfl, rfl⟩ := ha
      exact .inl (update_self ..)
    · rw [update_of_ne he] at ha
      rcases h.accounted e r' tv' ha with hdue | ⟨res, hmem, hto⟩
      · exact .inl ((update_of_ne he ..).trans hdue)
      · exact .inr ⟨res, List.mem_filter.mpr ⟨hmem, by simp [he]⟩, hto⟩
  noneSkipped e r' tv' ha hdue := by
    by_cases he : e = ev
    · subst he
      rw [update_self, Option.some.injEq, Prod.mk.injEq] at ha
      exact .inr (ha.1 ▸ hr)
    · rw [update_of_ne he] at ha
      exact h.noneSkipped e r' tv' ha (by simpa [Sched.arm, he] using hdue)
  inOrder := by
    refine (h.inOrder.filter _).imp_of_mem ?_
    intro p q hp hq hpq hpt hqt r₁ tv₁ r₂ tv₂ ha ha'
    have hpe : p.1 ≠ ev := by
      intro heq
      simpa [heq, hpt] using (List.mem_filter.mp hp).2
    have hqe : q.1 ≠ ev := by
      intro heq
      simpa [heq, hqt] using (List.mem_filter.mp hq).2
    rw [update_of_ne hpe] at ha
    rw [update_of_ne hqe] at ha'
    exact hpq hpt hqt r₁ tv₁ r₂ tv₂ ha ha'

/-- An `event_add` without a timeout. -/
theorem add_none (h : Tracks s woke armed) (k : Interest) (ev : ε) :
    Tracks (s.add k ev none) woke armed := by
  unfold Sched.add
  split
  · exact ⟨h.pending, h.queued, h.accounted, h.noneSkipped, h.inOrder⟩
  · exact h

/-- `timeout_process`, after descriptors have become ready. -/
theorem expire (h : Tracks s woke armed) (hempty : s.queue = []) {u : Sched ε}
    (hdue : u.due = s.due) (hready : ∀ p ∈ u.queue, p.2.timeout = false) {l : List ε}
    (hl : u.Expires now l) : Tracks (u.expire l) now armed := by
  -- with the queue empty, all timeouts asked for are pending
  have hwaits : ∀ e r tv, armed e = some (r, tv) → u.due e = some (r.timeradd tv) := by
    intro e r tv ha
    rcases h.accounted e r tv ha with hd | ⟨res, hmem, -⟩
    · rw [hdue, hd]
    · rw [hempty] at hmem
      cases hmem
  refine ⟨fun e d hd => ?_, fun p hp hto => ?_, fun e r tv ha => ?_, fun e r tv ha hd => ?_, ?_⟩
  · -- what is still pending has not expired
    rw [Sched.expire_due] at hd
    split at hd
    · cases hd
    · exact h.pending e d (hdue ▸ hd)
  · rw [Sched.expire_queue hl.nodup] at hp
    rcases List.mem_append.mp hp with hold | hnew
    · -- an event that was ready is not reported a timeout
      rw [hready p (List.mem_filter.mp hold).1] at hto
      cases hto
    · -- one that has expired was due
      obtain ⟨e, he, rfl⟩ := List.mem_map.mp hnew
      obtain ⟨d, hd, hnow⟩ := (hl.mem_iff e).mp he
      obtain ⟨r, tv, ha, rfl⟩ := h.pending e d (hdue ▸ hd)
      rw [Sched.expire_due]
      exact ⟨if_pos he, r, tv, ha, hnow⟩
  · rw [Sched.expire_due, Sched.expire_queue hl.nodup]
    by_cases he : e ∈ l
    · exact .inr ⟨Res.evTimeout, List.mem_append.mpr (.inr (List.mem_map.mpr ⟨e, he, rfl⟩)), rfl⟩
    · exact .inl ((if_neg he).trans (hwaits e r tv ha))
  · rw [Sched.expire_due] at hd
    -- what is not in `l` was not due
    have he : e ∉ l := fun hmem => hd (if_pos hmem)
    refine .inl (not_le.mp fun hle => he ?_)
    exact (hl.mem_iff e).mpr ⟨_, hwaits e r tv ha, hle⟩
  · rw [Sched.expire_queue hl.nodup]
    have hquiet : ∀ p ∈ u.queue.filter fun p => p.1 ∉ l, ¬ p.2.timeout := by
      intro p hp hto
      rw [hready p (List.mem_filter.mp hp).1] at hto
      cases hto
    refine List.pairwise_append.mpr ⟨?_, ?_, fun p hp q _ hpt => absurd hpt (hquiet p hp)⟩
    · exact List.pairwise_of_forall_mem_list fun p hp q _ hpt => absurd hpt (hquiet p hp)
    · -- `Expires` lists them by their deadlines
      refine List.pairwise_map.mpr (hl.sorted.imp ?_)
      intro e e' hle _ _ r tv r' tv' ha ha'
      exact hle _ _ (hwaits e r tv ha) (hwaits e' r' tv' ha')

end Tracks

namespace Sched

/-- Descriptors become ready. -/
def ready (s : Sched ε) (l : List (ε × Res)) : Sched ε :=
  l.foldl (fun s p => s.activate p.1 p.2) s

variable {s : Sched ε} {l : List (ε × Res)}

@[simp] theorem ready_due : (s.ready l).due = s.due := by
  induction l generalizing s with
  | nil => rfl
  | cons p l ih => exact ih.trans (activate_due _)

theorem activate_queue {ev : ε} {res : Res} (hres : res.timeout = false)
    (hs : ∀ p ∈ s.queue, p.2.timeout = false) :
    ∀ p ∈ (s.activate ev res).queue, p.2.timeout = false := by
  intro p hp
  unfold activate at hp
  split at hp
  · obtain ⟨p', hp', rfl⟩ := List.mem_map.mp hp
    have hold := hs p' hp'
    split
    · simp [Res.or, hold, hres]
    · exact hold
  · rcases List.mem_append.mp hp with hold | hnew
    · exact hs p hold
    · rw [List.mem_singleton.mp hnew]
      exact hres

/-- Nothing is reported a timeout because a descriptor is ready. -/
theorem ready_queue (hl : ∀ p ∈ l, p.2.timeout = false) (hs : ∀ p ∈ s.queue, p.2.timeout = false) :
    ∀ p ∈ (s.ready l).queue, p.2.timeout = false := by
  induction l generalizing s with
  | nil => exact hs
  | cons q l ih =>
    exact ih (fun p hp => hl p (List.mem_cons_of_mem q hp))
      (activate_queue (hl q (List.mem_cons_self ..)) hs)

end Sched

theorem EventBase.Consistent.ioReady {b : EventBase ε} (hb : b.Consistent)
    (l : List (ε × Res)) : Does b (b.ioReady l) (b.sched.ready l) := by
  induction l generalizing b with
  | nil => exact .refl hb
  | cons p l ih =>
    have hstep := hb.eventActive p.1 p.2
    have hrest := ih hstep.consistent
    refine ⟨hrest.consistent, ?_, hrest.tvCache_eq.trans hstep.tvCache_eq⟩
    exact hrest.sched_eq.trans (by rw [hstep.sched_eq]; rfl)

/-! ## The invariant -/

structure Inv (k : ε → Interest) (s : Dispatch ε) : Prop where
  consistent : s.base.Consistent
  tracks : Tracks s.base.sched s.woke s.armed
  asked : ∀ e x, s.armed e = some x → (k e).persist = false ∧ x.1.Normal ∧ x.2.Normal
  clock : s.woke ≤ s.clock ∧ s.clock.Normal ∧ s.woke.Normal
  /-- What `gettime` returns is no older than the last wake-up. -/
  cache : s.base.tvCache.tvSec = 0 ∨ s.base.tvCache = s.woke
  idle : (∀ ev res, s.phase ≠ .callback ev res) → s.phase ≠ .processing → s.base.sched.queue = []
  busy : s.phase = .processing → s.base.sched.queue ≠ []

namespace Inv

variable {k : ε → Interest} {s t : Dispatch ε}

omit [DecidableEq ε] in
/-- What `gettime` returns. -/
theorem gettime (hs : Inv k s) {clock : Timeval} (hle : s.clock ≤ clock) (hn : clock.Normal) :
    s.woke ≤ s.base.gettime clock ∧ (s.base.gettime clock).Normal := by
  unfold EventBase.gettime
  split
  · rename_i hne
    rw [hs.cache.resolve_left hne]
    exact ⟨le_refl _, hs.clock.2.2⟩
  · exact ⟨hs.clock.1.trans hle, hn⟩

theorem add (hs : Inv k s) {ev : ε} {tv : Option Timeval} {a : EventBase.AddAnswers}
    {b : EventBase ε} {res : ℤ} (hok : Sane k s (.add ev tv a)) (hmay : s.MayCall)
    (hclock : s.clock ≤ a.clock) (hnormal : a.clock.Normal)
    (hadd : s.base.eventAdd (k ev) ev tv a = some (b, res)) :
    Inv k { s with base := b, clock := a.clock, armed := s.armedBy ev tv a.clock res } := by
  obtain ⟨hwoke, hnow⟩ := hs.gettime hclock hnormal
  obtain ⟨b', res', hadd', hcase⟩ := hs.consistent.eventAdd hok.1 (k ev) ev tv a
  obtain ⟨rfl, rfl⟩ : b = b' ∧ res = res' := by simpa using hadd.symm.trans hadd'
  have hclock' : s.woke ≤ a.clock ∧ a.clock.Normal ∧ s.woke.Normal :=
    ⟨hs.clock.1.trans hclock, hnormal, hs.clock.2.2⟩
  rcases hcase with ⟨rfl, hd⟩ | ⟨rfl, hd, -⟩
  · refine ⟨hd.consistent, ?_, ?_, hclock', hd.tvCache_eq ▸ hs.cache, fun hno hproc => ?_,
      fun hproc => absurd hproc hmay.not_processing⟩
    · rw [hd.sched_eq]
      -- the reading that the deadline counts from is no older than the last wake-up
      cases tv with
      | none => exact hs.tracks.add_none (k ev) ev
      | some tv => exact (hs.tracks.add_none (k ev) ev).arm ev hwoke tv
    · intro e x hx
      cases tv with
      | none => exact hs.asked e x hx
      | some tv =>
        obtain ⟨hpersist, htv⟩ := hok.2 tv rfl
        have hx' : update s.armed ev (some (s.base.gettime a.clock, tv)) e = some x := hx
        by_cases he : e = ev
        · subst he
          rw [update_self, Option.some.injEq] at hx'
          subst hx'
          exact ⟨hpersist, hnow, htv⟩
        · exact hs.asked e x ((update_of_ne he ..).symm.trans hx')
    · have hempty := hs.idle hno hproc
      rw [hd.sched_eq]
      exact Sched.add_queue_eq_nil hempty
  · -- a failed `event_add` has asked for nothing
    have harmed : s.armedBy ev tv a.clock (-1) = s.armed := by
      cases tv <;> rfl
    rw [harmed]
    exact ⟨hd.consistent, hd.sched_eq ▸ hs.tracks, hs.asked, hclock', hd.tvCache_eq ▸ hs.cache,
      hd.sched_eq ▸ hs.idle, fun hproc => absurd hproc hmay.not_processing⟩

theorem del (hs : Inv k s) {ev : ε} {b : EventBase ε} (hmay : s.MayCall)
    (hdel : s.base.eventDel ev = some b) :
    Inv k { s with base := b, armed := update s.armed ev none } := by
  obtain ⟨b', hdel', hd, -⟩ := hs.consistent.eventDel ev
  obtain rfl : b = b' := Option.some.inj (hdel.symm.trans hdel')
  refine ⟨hd.consistent, hd.sched_eq ▸ hs.tracks.del ev, fun e x hx => ?_, hs.clock,
    hd.tvCache_eq ▸ hs.cache, fun hno hproc => ?_,
    fun hproc => absurd hproc hmay.not_processing⟩
  · have he : e ≠ ev := by
      intro heq
      simp [heq] at hx
    exact hs.asked e x ((update_of_ne he ..).symm.trans hx)
  · rw [hd.sched_eq, Sched.del, hs.idle hno hproc]
    rfl

omit [DecidableEq ε] in
/-- The time cache is cleared, and the loop starts, waits, or leaves. -/
theorem clear (hs : Inv k s) (hphase : s.phase = .top ∨ s.phase = .outside) {clock : Timeval}
    (hclock : s.clock ≤ clock) (hnormal : clock.Normal) {phase : Phase ε}
    (hnext : phase ≠ .processing) :
    Inv k { s with base := s.base.clearTimeCache, clock := clock, phase := phase } where
  consistent := hs.consistent.setTvCache _
  tracks := hs.tracks
  asked := hs.asked
  clock := ⟨hs.clock.1.trans hclock, hnormal, hs.clock.2.2⟩
  cache := .inl rfl
  idle _ _ := by
    apply hs.idle
    · intro ev res heq
      rcases hphase with h | h <;> rw [h] at heq <;> cases heq
    · intro heq
      rcases hphase with h | h <;> rw [h] at heq <;> cases heq
  busy hproc := absurd hproc hnext

/-- `dispatch` returns, and `timeout_process` -/
theorem timeoutProcess (hs : Inv k s) {ready : List (ε × Res)} {clock : Timeval}
    {b : EventBase ε}
    (hproc : ((s.base.ioReady ready).updateTimeCache clock).timeoutProcess clock = some b) :
    ∃ l, (s.base.sched.ready ready).Expires clock l ∧ b.Consistent ∧
      b.sched = (s.base.sched.ready ready).expire l ∧ b.tvCache = clock := by
  have hio := hs.consistent.ioReady ready
  have hcache := hio.consistent.setTvCache ((s.base.ioReady ready).updateTimeCache clock).tvCache
  obtain ⟨b', l, hproc', hl, hd⟩ := hcache.timeoutProcess clock
  obtain rfl : b = b' := Option.some.inj (hproc.symm.trans hproc')
  have hsched : EventBase.sched { s.base.ioReady ready with
      tvCache := ((s.base.ioReady ready).updateTimeCache clock).tvCache } =
      s.base.sched.ready ready := hio.sched_eq
  -- `update_time_cache` was called just before, so `gettime` returns the clock
  have hnow : EventBase.gettime { s.base.ioReady ready with
      tvCache := ((s.base.ioReady ready).updateTimeCache clock).tvCache } clock = clock :=
    EventBase.gettime_updateTimeCache (s.base.ioReady ready) clock
  rw [hnow, hsched] at hl
  exact ⟨l, hl, hd.consistent, hd.sched_eq.trans (by rw [hsched]),
    hd.tvCache_eq.trans (EventBase.tvCache_updateTimeCache _ _)⟩

theorem wake (hs : Inv k s) {tv : Option Timeval} {ready : List (ε × Res)} {clock : Timeval}
    {b : EventBase ε} (hphase : s.phase = .waiting tv) (hnormal : clock.Normal)
    (hready : ∀ p ∈ ready, p.2.timeout = false)
    (hproc : ((s.base.ioReady ready).updateTimeCache clock).timeoutProcess clock = some b) :
    Inv k { s with
      base := b, clock := clock, woke := clock,
      phase := if b.eventCountActive ≠ 0 then .processing else .top } := by
  -- the loop waits only with an empty queue
  have hempty : s.base.sched.queue = [] := hs.idle (by simp [hphase]) (by simp [hphase])
  obtain ⟨l, hl, hb, hsched, hcache⟩ := hs.timeoutProcess hproc
  have hquiet : ∀ p ∈ (s.base.sched.ready ready).queue, p.2.timeout = false :=
    Sched.ready_queue hready (by simp [hempty])
  refine ⟨hb, ?_, hs.asked, ⟨le_refl _, hnormal, hnormal⟩, .inr hcache, fun _ hproc => ?_,
    fun hproc hnil => ?_⟩
  · rw [hsched]
    exact hs.tracks.expire hempty Sched.ready_due hquiet hl
  · have hzero : b.eventCountActive = 0 := by
      by_contra hne
      exact hproc (if_pos hne)
    exact hb.queue_eq_nil_iff.mpr hzero
  · have hzero : b.eventCountActive = 0 := hb.queue_eq_nil_iff.mp hnil
    simp [hzero] at hproc

/-- A callback is called. -/
theorem call (hs : Inv k s) {b : EventBase ε} {ev : ε} {res : Res}
    (hproc : s.base.processFirst k = some (b, some (ev, res))) :
    Inv k { s with
      base := b, phase := .callback ev res,
      armed := if (k ev).persist then s.armed else update s.armed ev none } := by
  obtain ⟨rest, -, hd⟩ := hs.consistent.processFirst_some hproc
  refine ⟨hd.consistent, ?_, ?_, hs.clock, hd.tvCache_eq ▸ hs.cache,
    fun hno => absurd rfl (hno ev res), by simp⟩
  · rw [hd.sched_eq]
    by_cases hp : (k ev).persist
    · rw [if_pos hp, if_pos hp]
      -- a persistent event has asked for no timeout
      apply hs.tracks.unqueue
      by_contra hne
      obtain ⟨x, hx⟩ := Option.ne_none_iff_exists'.mp hne
      exact Bool.eq_false_iff.mp (hs.asked ev x hx).1 hp
    · rw [if_neg hp, if_neg hp]
      exact hs.tracks.del ev
  · intro e x hx
    by_cases hp : (k ev).persist
    · exact hs.asked e x (by simpa [hp] using hx)
    · have he : e ≠ ev := by
        intro heq
        simp [hp, heq] at hx
      exact hs.asked e x (by simpa [hp, he] using hx)

/-- Every step keeps the invariant. -/
theorem step (hs : Inv k s) {l : LoopLabel ε} (hok : Sane k s l) (hst : LoopStep k s l t) :
    Inv k t := by
  cases hst with
  | add hmay hclock hnormal hadd => exact hs.add hok hmay hclock hnormal hadd
  | del hmay hdel => exact hs.del hmay hdel
  | start hphase => exact hs.clear (.inr hphase) (le_refl _) hs.clock.2.1 (by simp)
  | wait hphase hclock hnormal => exact hs.clear (.inl hphase) hclock hnormal (by simp)
  | wake hphase _ hnormal hready hproc =>
    exact hs.wake hphase hnormal (fun p hp => (hready p hp).2) hproc
  | call _ hproc => exact hs.call hproc
  | «return» hphase =>
    -- the callback has returned; the loop turns exactly when its queue is empty
    refine ⟨hs.consistent, hs.tracks, hs.asked, hs.clock, hs.cache, fun _ hproc => ?_,
      fun hproc hnil => ?_⟩
    · have hnil : s.base.activequeue = [] := by
        by_contra hne
        exact hproc (if_neg hne)
      rw [EventBase.sched, hnil]
      rfl
    · have hnil' : s.base.activequeue = [] := by
        rw [← EventBase.map_fst_queue, hnil]
        rfl
      simp [hnil'] at hproc
  | leave hphase => exact hs.clear (.inl hphase) (le_refl _) hs.clock.2.1 (by simp)

theorem of_reachable (hs : (loop k).ReachableBy (Sane k) s) : Inv k s := by
  apply hs.invariant
  case hstep => exact fun s l t hI hok hst => hI.step hok hst
  intro s hinit
  obtain ⟨⟨p, evTimeout, evRes, hbase⟩, hphase, hclock, hwoke, harmed⟩ := hinit
  refine ⟨?_, ?_, fun e x hx => ?_, ?_, ?_, fun _ _ => ?_, fun hproc => ?_⟩
  · rw [hbase]
    exact EventBase.new_consistent p evTimeout evRes
  · refine ⟨fun e d hd => ?_, fun q hq => ?_, fun e r tv ha => ?_, fun e r tv ha => ?_, ?_⟩
    · rw [hbase] at hd
      cases hd
    · rw [hbase] at hq
      cases hq
    · rw [harmed] at ha
      cases ha
    · rw [harmed] at ha
      cases ha
    · rw [hbase]
      exact List.Pairwise.nil
  · rw [harmed] at hx
    cases hx
  · exact ⟨hwoke.le, hclock, hwoke ▸ hclock⟩
  · rw [hbase]
    exact .inl rfl
  · rw [hbase]
    rfl
  · rw [hphase] at hproc
    cases hproc

omit [DecidableEq ε] in
/-- With the queue empty, every timeout that was asked for is still pending. -/
theorem due_of_idle (hs : Inv k s) (hempty : s.base.sched.queue = []) {e : ε} {r tv : Timeval}
    (harmed : s.armed e = some (r, tv)) : s.base.sched.due e = some (r.timeradd tv) := by
  rcases hs.tracks.accounted e r tv harmed with hdue | ⟨res, hmem, -⟩
  · exact hdue
  · rw [hempty] at hmem
    cases hmem

/-- A callback that is reported a timeout has waited for it. -/
theorem due_of_call (hs : Inv k s) {b : EventBase ε} {ev : ε} {res : Res}
    (hproc : s.base.processFirst k = some (b, some (ev, res))) (hto : res.timeout) :
    ∃ r tv, s.armed ev = some (r, tv) ∧ (k ev).persist = false ∧
      r.micros + tv.micros ≤ s.woke.micros := by
  obtain ⟨rest, hq, -⟩ := hs.consistent.processFirst_some hproc
  obtain ⟨-, r, tv, harmed, hle⟩ := hs.tracks.queued (ev, res) (hq ▸ List.mem_cons_self ..) hto
  obtain ⟨hpersist, hr, htv⟩ := hs.asked ev (r, tv) harmed
  refine ⟨r, tv, harmed, hpersist, ?_⟩
  rw [← Timeval.micros_timeradd]
  exact ((hr.timeradd htv).le_iff hs.clock.2.2).mp hle

end Inv

/-! ## What a user of timeouts relies on -/

/-- Events without descriptors: `event_set(ev, -1, 0, ...)` -/
def timerInterest : ε → Interest :=
  fun _ => ⟨false, false, false⟩

/-- Two of them, on a new loop. -/
def twoTimers : Dispatch ℕ :=
  ⟨.new (fun _ => 0) (fun _ => ⟨0, 0⟩) fun _ => Res.evTimeout, .outside, ⟨5, 0⟩, ⟨5, 0⟩,
    fun _ => none⟩

/-- Timeouts of one and three seconds are asked for, the loop waits, and the first is reported. -/
theorem twoTimers_run :
    ∃ s t u v, (loop (timerInterest (ε := ℕ))).ReachableBy (Sane timerInterest) s ∧
      s.phase = .top ∧ s.armed 1 = some (⟨6, 0⟩, ⟨1, 0⟩) ∧
      LoopStep timerInterest s (.wait ⟨6, 0⟩) t ∧
      (loop (timerInterest (ε := ℕ))).ReachableBy (Sane timerInterest) u ∧
      LoopStep timerInterest u .call v ∧ v.phase = .callback 1 Res.evTimeout ∧
      s.base.timeheap.n = 2 := by
  have h₀ : (loop timerInterest).ReachableBy (Sane timerInterest) twoTimers :=
    .init ⟨⟨_, _, _, rfl⟩, rfl, by decide, rfl, fun _ => rfl⟩
  have h₁ := h₀.step (l := LoopLabel.add 3 (some ⟨3, 0⟩) ⟨true, true, true, ⟨6, 0⟩⟩)
    ⟨by decide, fun t ht => ⟨rfl, Option.some.inj ht ▸ by decide⟩⟩
    (LoopStep.add (.inl rfl) (by decide) (by decide) rfl)
  have h₂ := h₁.step (l := LoopLabel.add 1 (some ⟨1, 0⟩) ⟨true, true, true, ⟨6, 0⟩⟩)
    ⟨by decide, fun t ht => ⟨rfl, Option.some.inj ht ▸ by decide⟩⟩
    (LoopStep.add (.inl rfl) (by decide) (by decide) rfl)
  have h₃ := h₂.step (l := LoopLabel.start) trivial (LoopStep.start rfl)
  have h₄ := h₃.step (l := LoopLabel.wait ⟨6, 0⟩) trivial
    (LoopStep.wait rfl (by decide) (by decide) rfl)
  have h₅ := h₄.step (l := LoopLabel.wake [] ⟨7, 0⟩) trivial
    (LoopStep.wake rfl (by decide) (by decide) (fun _ hp => by cases hp) rfl)
  exact ⟨_, _, _, _, h₃, rfl, rfl, LoopStep.wait rfl (by decide) (by decide) rfl, h₅,
    LoopStep.call rfl rfl, rfl, rfl⟩

section Users

variable {k : ε → Interest} {s t : Dispatch ε}

/-- **No timeout is skipped.** Whenever the loop is about to wait or waits, every timeout that was
    asked for and is not used up is still pending, and was not due when the loop last woke up,
    unless it has been asked for since. -/
theorem none_skipped (hs : (loop k).ReachableBy (Sane k) s)
    (hphase : s.phase = .top ∨ ∃ tv, s.phase = .waiting tv) {e : ε} {r tv : Timeval}
    (harmed : s.armed e = some (r, tv)) :
    s.base.sched.due e = some (r.timeradd tv) ∧
      (s.woke.micros < r.micros + tv.micros ∨ s.woke.micros ≤ r.micros) := by
  have hI := Inv.of_reachable hs
  have hempty : s.base.sched.queue = [] := by
    apply hI.idle
    · intro ev res heq
      rcases hphase with h | ⟨tv, h⟩ <;> rw [h] at heq <;> cases heq
    · intro heq
      rcases hphase with h | ⟨tv, h⟩ <;> rw [h] at heq <;> cases heq
  have hdue : s.base.sched.due e = some (r.timeradd tv) := hI.due_of_idle hempty harmed
  obtain ⟨-, hr, htv⟩ := hI.asked e (r, tv) harmed
  refine ⟨hdue, ?_⟩
  -- `noneSkipped` in microseconds
  rcases hI.tracks.noneSkipped e r tv harmed (by simp [hdue]) with hlt | hle
  · rw [← Timeval.micros_timeradd]
    exact .inl ((hI.clock.2.2.lt_iff (hr.timeradd htv)).mp hlt)
  · exact .inr ((hI.clock.2.2.le_iff hr).mp hle)

/-- Two timers wait for the loop to start. -/
theorem none_skipped_twoTimers :
    ∃ s : Dispatch ℕ, s.phase = .top ∧ s.armed 1 = some (⟨6, 0⟩, ⟨1, 0⟩) ∧
      s.base.sched.due 1 = some (Timeval.timeradd ⟨6, 0⟩ ⟨1, 0⟩) ∧
      (s.woke.micros < Timeval.micros ⟨6, 0⟩ + Timeval.micros ⟨1, 0⟩ ∨
        s.woke.micros ≤ Timeval.micros ⟨6, 0⟩) := by
  obtain ⟨s, _, _, _, hs, hphase, harmed, -⟩ := twoTimers_run
  exact ⟨s, hphase, harmed, none_skipped hs (.inl hphase) harmed⟩

omit [DecidableEq ε] in
/-- `timeout_next` -/
theorem EventBase.Consistent.timeoutNext {b : EventBase ε} (hb : b.Consistent) (clock : Timeval) :
    (b.timeoutNext clock = none ∧ ∀ e, b.sched.due e = none) ∨
      ∃ e d w, b.timeoutNext clock = some w ∧ b.sched.due e = some d ∧
        (∀ e' d', b.sched.due e' = some d' → d ≤ d') ∧
        (d ≤ b.gettime clock ∧ w = ⟨0, 0⟩ ∨
          b.gettime clock < d ∧ w = d.timersub (b.gettime clock)) := by
  unfold EventBase.timeoutNext
  cases htop : b.timeheap.top with
  | none =>
    have hM := hb.heap.top_eq_none.mp htop
    refine .inl ⟨rfl, fun e => EventBase.due_eq_none fun he => ?_⟩
    exact (Set.ext_iff.mp hM e).mp he
  | some ev =>
    obtain ⟨hev, hleast⟩ := hb.heap.top_eq_some htop
    refine .inr ⟨ev, b.timeheap.evTimeout ev, ?_⟩
    have hdue : b.sched.due ev = some (b.timeheap.evTimeout ev) :=
      EventBase.due_eq_some.mpr ⟨hev, rfl⟩
    -- the top of the heap is the earliest of all timeouts
    have hleast' : ∀ e' d', b.sched.due e' = some d' → b.timeheap.evTimeout ev ≤ d' := by
      intro e' d' hd'
      obtain ⟨he', rfl⟩ := EventBase.due_eq_some.mp hd'
      exact hleast e' he'
    by_cases hle : (b.timeheap.evTimeout ev).timercmp (b.gettime clock) (· ≤ ·) = true
    · exact ⟨⟨0, 0⟩, by simp only [hle, if_true], hdue, hleast',
        .inl ⟨Timeval.timercmp_le.mp hle, rfl⟩⟩
    · exact ⟨_, by simp only [hle]; rfl, hdue, hleast',
        .inr ⟨not_le.mp (mt Timeval.timercmp_le.mpr hle), rfl⟩⟩

/-- **The loop waits for the next timeout, and no longer.** The time that it may wait in `dispatch`
    is without limit exactly if no timeout was asked for. Otherwise, counted from what `gettime`
    returns, it ends at the earliest deadline, or at once if that has passed. But `gettime` may
    return the time of the last wake-up, as if the callbacks since had taken none. -/
theorem waits_for_next (hs : (loop k).ReachableBy (Sane k) s) {clock : Timeval}
    (hst : LoopStep k s (.wait clock) t) :
    ∃ tv, t.phase = .waiting tv ∧ (tv = none ↔ ∀ e, s.armed e = none) ∧
      (s.base.gettime clock = clock ∨ s.base.gettime clock = s.woke) ∧
      ∀ w, tv = some w → ∃ e r u, s.armed e = some (r, u) ∧
        (∀ e' r' u', s.armed e' = some (r', u') →
          r.micros + u.micros ≤ r'.micros + u'.micros) ∧
        w.micros = max 0 (r.micros + u.micros - (s.base.gettime clock).micros) := by
  have hI := Inv.of_reachable hs
  cases hst with
  | wait hphase hclock hnormal hev =>
    have hempty : s.base.sched.queue = [] := hI.idle (by simp [hphase]) (by simp [hphase])
    have hzero : s.base.eventCountActive = 0 := hI.consistent.queue_eq_nil_iff.mp hempty
    have hwaits : ∀ e r u, s.armed e = some (r, u) → s.base.sched.due e = some (r.timeradd u) :=
      fun e r u ha => hI.due_of_idle hempty ha
    have hnow := (hI.gettime hclock hnormal).2
    have hread : s.base.gettime clock = clock ∨ s.base.gettime clock = s.woke := by
      unfold EventBase.gettime
      split
      · rename_i hne
        exact .inr (hI.cache.resolve_left hne)
      · exact .inl rfl
    refine ⟨s.base.timeoutNext clock, by simp [hzero], ?_⟩
    rcases hI.consistent.timeoutNext clock with ⟨hnone, hdue⟩ | ⟨e, d, w, hw, hd, hleast, hcase⟩
    · rw [hnone]
      refine ⟨iff_of_true rfl fun e => ?_, hread, fun w hw => by cases hw⟩
      by_contra hne
      obtain ⟨x, hx⟩ := Option.ne_none_iff_exists'.mp hne
      cases (hdue e).symm.trans (hwaits e x.1 x.2 hx)
    · obtain ⟨r, u, ha, rfl⟩ := hI.tracks.pending e d hd
      obtain ⟨-, hr, hu⟩ : _ ∧ r.Normal ∧ u.Normal := hI.asked e (r, u) ha
      rw [hw]
      refine ⟨iff_of_false (by simp) fun hall => ?_, hread,
        fun w' hw' => ⟨e, r, u, ha, ?_, ?_⟩⟩
      · cases (hall e).symm.trans ha
      · intro e' r' u' ha'
        obtain ⟨-, hr', hu'⟩ := hI.asked e' (r', u') ha'
        rw [← Timeval.micros_timeradd, ← Timeval.micros_timeradd]
        exact ((hr.timeradd hu).le_iff (hr'.timeradd hu')).mp
          (hleast e' _ (hwaits e' r' u' ha'))
      · obtain rfl : w = w' := Option.some.inj hw'
        rcases hcase with ⟨hle, rfl⟩ | ⟨hlt, rfl⟩
        · have := ((hr.timeradd hu).le_iff hnow).mp hle
          rw [Timeval.micros_timeradd] at this
          rw [max_eq_left (by omega)]
          rfl
        · have := (hnow.lt_iff (hr.timeradd hu)).mp hlt
          rw [Timeval.micros_timeradd] at this
          rw [Timeval.micros_timersub, Timeval.micros_timeradd, max_eq_right (by omega)]

/-- The loop of two timers waits for the first. -/
theorem waits_for_next_twoTimers :
    ∃ s t : Dispatch ℕ, ∃ tv, t.phase = .waiting tv ∧ (tv = none ↔ ∀ e, s.armed e = none) ∧
      (s.base.gettime ⟨6, 0⟩ = ⟨6, 0⟩ ∨ s.base.gettime ⟨6, 0⟩ = s.woke) ∧
      ∀ w, tv = some w → ∃ e r u, s.armed e = some (r, u) ∧
        (∀ e' r' u', s.armed e' = some (r', u') →
          r.micros + u.micros ≤ r'.micros + u'.micros) ∧
        w.micros = max 0 (r.micros + u.micros - (s.base.gettime ⟨6, 0⟩).micros) := by
  obtain ⟨s, t, _, _, hs, -, -, hst, -⟩ := twoTimers_run
  exact ⟨s, t, waits_for_next hs hst⟩

/-- **The bookkeeping never fails.** In every run, whatever the allocations and `evmap_io_add_`
    answer, every function of the loop and of its users returns: none reads outside the heap,
    and no check of the queues ends the process. An `event_add` fails only where one of these has
    failed, and then all events are as they were. -/
theorem never_fails (hs : (loop k).ReachableBy (Sane k) s) :
    (∀ ev, ∃ b, s.base.eventDel ev = some b) ∧
      (∀ ev tv a, Sane k s (.add ev tv a) →
        ∃ b res, s.base.eventAdd (k ev) ev tv a = some (b, res) ∧
          (res = 0 ∨ res = -1 ∧ (a.reserve = false ∨ a.evmap = false) ∧ b.sched = s.base.sched)) ∧
      (∀ ready clock, ∃ b,
        ((s.base.ioReady ready).updateTimeCache clock).timeoutProcess clock = some b) ∧
      (s.phase = .processing → ∃ b ev res, s.base.processFirst k = some (b, some (ev, res))) := by
  have hI := Inv.of_reachable hs
  refine ⟨fun ev => ?_, fun ev tv a hok => ?_, fun ready clock => ?_, fun hphase => ?_⟩
  · obtain ⟨b, hb, -⟩ := hI.consistent.eventDel ev
    exact ⟨b, hb⟩
  · obtain ⟨b, res, hb, hcase⟩ := hI.consistent.eventAdd hok.1 (k ev) ev tv a
    refine ⟨b, res, hb, ?_⟩
    rcases hcase with ⟨hres, -⟩ | ⟨hres, hd, hwhy⟩
    · exact .inl hres
    · exact .inr ⟨hres, hwhy, hd.sched_eq⟩
  · have hio := hI.consistent.ioReady ready
    obtain ⟨b, l, hb, -⟩ := (hio.consistent.setTvCache
      ((s.base.ioReady ready).updateTimeCache clock).tvCache).timeoutProcess clock
    exact ⟨b, hb⟩
  · rcases hI.consistent.processFirst k with ⟨hnil, -⟩ | ⟨ev, res, rest, b, -, hb, -⟩
    · exact absurd hnil (hI.busy hphase)
    · exact ⟨b, ev, res, hb⟩

/-- On the loop of two timers, before it waits and behind the wake-up that finds the first due. -/
theorem never_fails_twoTimers : ∃ s u : Dispatch ℕ,
    s.phase = .top ∧ (∀ ev, ∃ b, s.base.eventDel ev = some b) ∧
    (∀ a, ∃ b res, s.base.eventAdd (timerInterest 7) 7 (some ⟨2, 0⟩) a = some (b, res) ∧
      (res = 0 ∨ res = -1 ∧ (a.reserve = false ∨ a.evmap = false) ∧ b.sched = s.base.sched)) ∧
    (∃ b, ((s.base.ioReady []).updateTimeCache ⟨20, 0⟩).timeoutProcess ⟨20, 0⟩ = some b) ∧
    u.phase = .processing ∧
    ∃ b ev res, u.base.processFirst timerInterest = some (b, some (ev, res)) := by
  obtain ⟨s, _, u, _, hs, hphase, -, -, hu, hcall, -, hn⟩ := twoTimers_run
  have hprocessing : u.phase = .processing := by
    cases hcall
    assumption
  obtain ⟨hdel, hadd, hwake, -⟩ := never_fails hs
  obtain ⟨-, -, -, hfirst⟩ := never_fails hu
  refine ⟨s, u, hphase, hdel, fun a => hadd 7 (some ⟨2, 0⟩) a ⟨?_, fun t ht => ⟨rfl, ?_⟩⟩,
    hwake [] ⟨20, 0⟩, hprocessing, hfirst hprocessing⟩
  · rw [hn]
    decide
  · exact Option.some.inj ht ▸ by decide

end Users

end ReechatBase.Libevent
