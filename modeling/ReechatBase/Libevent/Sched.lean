import Mathlib.Data.Finset.Card
import Mathlib.Data.Finset.Erase
import Mathlib.Data.Finset.Insert
import ReechatBase.Libevent.EventBase

/-!
# What an event_base is for

`Sched` is an `event_base` as its users see it: the timeouts that wait, the descriptors that are
watched and the queue of active events, without flags, counters or heap. Every function of
`EventBase` has a result on every consistent base, keeps it consistent, and does there what its
counterpart on `Sched` does (`Does`).
-/

namespace ReechatBase.Libevent

open Function Lib.Heap

variable {ε : Type} [DecidableEq ε]

/-! ## What a base is for -/

/-- The events of a base, without the way they are kept. -/
structure Sched (ε : Type) where
  /-- When the timeout of an event is due -/
  due : ε → Option Timeval
  /-- The descriptor of the event is watched. -/
  watched : ε → Bool
  /-- The active events, with what they are to be reported for -/
  queue : List (ε × Res)

namespace Sched

/-- Forget an event. -/
def del (s : Sched ε) (ev : ε) : Sched ε where
  due := update s.due ev none
  watched := update s.watched ev false
  queue := s.queue.filter fun p => p.1 ≠ ev

/-- Watch the descriptor of an event. -/
def watch (s : Sched ε) (ev : ε) : Sched ε :=
  { s with watched := update s.watched ev true }

/-- Give an event a timeout, also if it is active because of an earlier one. -/
def arm (s : Sched ε) (ev : ε) (d : Timeval) : Sched ε :=
  { s with
    due := update s.due ev (some d)
    queue := s.queue.filter fun p => ¬ (p.1 = ev ∧ p.2.timeout) }

/-- Queue an event, or report it for one thing more. -/
def activate (s : Sched ε) (ev : ε) (res : Res) : Sched ε :=
  if ev ∈ s.queue.map Prod.fst then
    { s with queue := s.queue.map fun p => if p.1 = ev then (ev, p.2.or res) else p }
  else { s with queue := s.queue ++ [(ev, res)] }

/-- Take an event off the queue. -/
def unqueue (s : Sched ε) (ev : ε) : Sched ε :=
  { s with queue := s.queue.filter fun p => p.1 ≠ ev }

/-- What an `event_add` that succeeds does, with the deadline that it computes. -/
def add (s : Sched ε) (k : Interest) (ev : ε) (d : Option Timeval) : Sched ε :=
  let s' := if k.io && !(s.watched ev || decide (ev ∈ s.queue.map Prod.fst)) then s.watch ev else s
  match d with
  | none => s'
  | some d => s'.arm ev d

/-- The timeouts of the events `l` expire, in this order. -/
def expire (s : Sched ε) (l : List ε) : Sched ε :=
  l.foldl (fun s ev => (s.del ev).activate ev Res.evTimeout) s

end Sched

namespace EventBase

/-- What `b` is as a `Sched`. -/
def sched (b : EventBase ε) : Sched ε where
  due e := if b.inTimeouts e then some (b.timeheap.evTimeout e) else none
  watched := b.inserted
  queue := b.activequeue.map fun e => (e, b.evRes e)

/-- The flags, the counters, the queue and the heap agree with one another. -/
structure Consistent (b : EventBase ε) : Prop where
  heap : b.timeheap.Wf {e | b.inTimeouts e}
  active_iff : ∀ e, b.active e ↔ e ∈ b.activequeue
  nodup : b.activequeue.Nodup
  count : ∃ I : Finset ε, (∀ e, e ∈ I ↔ b.inserted e) ∧
    b.eventCount = b.timeheap.n + I.card + b.activequeue.length
  countActive : b.eventCountActive = b.activequeue.length

variable {b t : EventBase ε} {ev e : ε}

omit [DecidableEq ε] in
theorem new_consistent (p : ℕ → ε) (evTimeout : ε → Timeval) (evRes : ε → Res) :
    (new p evTimeout evRes).Consistent where
  heap := by
    have hset : {e | (new p evTimeout evRes).inTimeouts e} = (∅ : Set ε) :=
      Set.eq_empty_of_forall_notMem fun _ h => Bool.false_ne_true h
    rw [hset]
    exact MinHeap.ctor_wf p evTimeout
  active_iff e := iff_of_false Bool.false_ne_true List.not_mem_nil
  nodup := List.nodup_nil
  count := ⟨∅, fun e => iff_of_false (Finset.notMem_empty e) Bool.false_ne_true, rfl⟩
  countActive := rfl

omit [DecidableEq ε] in
theorem isSome_due : (b.sched.due e).isSome = b.inTimeouts e := by
  cases h : b.inTimeouts e <;> simp [sched, h]

omit [DecidableEq ε] in
theorem map_fst_queue : b.sched.queue.map Prod.fst = b.activequeue := by
  simp [sched, Function.comp_def]

omit [DecidableEq ε] in
theorem mem_queue {p : ε × Res} :
    p ∈ b.sched.queue ↔ p.1 ∈ b.activequeue ∧ p.2 = b.evRes p.1 := by
  unfold sched
  simp only [List.mem_map, Prod.ext_iff]
  constructor
  · intro h
    obtain ⟨e, he, rfl, hr⟩ := h
    exact ⟨he, hr.symm⟩
  · exact fun h => ⟨p.1, h.1, rfl, h.2.symm⟩

/-! ## The queues -/

/-- One function does on the events what `s` does to their `Sched`, and leaves the time cache. -/
structure Does (b t : EventBase ε) (s : Sched ε) : Prop where
  consistent : t.Consistent
  sched_eq : t.sched = s
  tvCache_eq : t.tvCache = b.tvCache

theorem Consistent.queueInsertInserted (hb : b.Consistent) (h : ¬ b.inserted ev) :
    ∃ t, b.queueInsertInserted ev = some t ∧ Does b t (b.sched.watch ev) ∧
      t.timeheap = b.timeheap := by
  obtain ⟨I, hI, hcount⟩ := hb.count
  have hev : ev ∉ I := mt (hI ev).mp h
  refine ⟨_, if_neg h, ⟨⟨hb.heap, hb.active_iff, hb.nodup, ⟨insert ev I, fun e => ?_, ?_⟩,
    hb.countActive⟩, rfl, rfl⟩, rfl⟩
  · by_cases he : e = ev
    · simp [he]
    · simp [he, hI]
  · rw [Finset.card_insert_of_notMem hev]
    push_cast
    omega

theorem Consistent.queueRemoveInserted (hb : b.Consistent) (h : b.inserted ev) :
    ∃ t, b.queueRemoveInserted ev = some t ∧
      Does b t { b.sched with watched := update b.sched.watched ev false } ∧
      t.timeheap = b.timeheap ∧ t.evRes = b.evRes := by
  obtain ⟨I, hI, hcount⟩ := hb.count
  have hev : ev ∈ I := (hI ev).mpr h
  refine ⟨_, if_pos h, ⟨⟨hb.heap, hb.active_iff, hb.nodup, ⟨I.erase ev, fun e => ?_, ?_⟩,
    hb.countActive⟩, rfl, rfl⟩, rfl, rfl⟩
  · by_cases he : e = ev
    · simp [he]
    · simp [he, hI]
  · have hcard : (I.erase ev).card + 1 = I.card := Finset.card_erase_add_one hev
    push_cast [← hcard] at hcount ⊢
    omega

/-- The heap has room, so that `min_heap_push_` need not allocate. -/
theorem Consistent.queueInsertTimeout (hb : b.Consistent) (h : ¬ b.inTimeouts ev)
    (hn : b.timeheap.n + 1 < 2 ^ 31) (hroom : b.timeheap.n < b.timeheap.a) (tv : Timeval)
    (realloc : Bool) :
    ∃ t, EventBase.queueInsertTimeout { b with timeheap := b.timeheap.setTimeout ev tv } ev realloc
        = some t ∧
      Does b t { b.sched with due := update b.sched.due ev (some tv) } := by
  obtain ⟨I, hI, hcount⟩ := hb.count
  -- `ev_timeout` is written before the event is in the heap, whose order does not depend on it
  have hw := hb.heap.setTimeout (e := ev) h tv
  obtain ⟨u, hu, hwu, htime, hn'⟩ : ∃ u,
      (b.timeheap.setTimeout ev tv).push ev realloc = some (u, 0) ∧
      u.Wf (insert ev {e | b.inTimeouts e}) ∧ u.evTimeout = update b.timeheap.evTimeout ev tv ∧
      u.n = b.timeheap.n + 1 := by
    rcases hw.push h hn realloc with hok | ⟨-, hfull, -⟩
    · exact hok
    · -- the other outcome of the push needs a full block
      exact absurd hfull hroom.ne'
  have hset : insert ev {e | b.inTimeouts e} = {e | update b.inTimeouts ev true e} := by
    ext e
    by_cases he : e = ev
    · simp [he]
    · simp [he]
  refine ⟨{ b with
    timeheap := u
    eventCount := b.eventCount + 1
    inTimeouts := update b.inTimeouts ev true }, ?_,
    ⟨⟨hset ▸ hwu, hb.active_iff, hb.nodup, ⟨I, hI, ?_⟩, hb.countActive⟩, ?_, rfl⟩⟩
  · simp [EventBase.queueInsertTimeout, h, hu]
  · rw [hcount, hn']
    push_cast
    omega
  · simp only [sched, Sched.mk.injEq, and_true]
    funext e
    by_cases he : e = ev
    · simp [he, htime]
    · simp [he, htime]

theorem Consistent.queueRemoveTimeout (hb : b.Consistent) (h : b.inTimeouts ev) :
    ∃ t, b.queueRemoveTimeout ev = some t ∧
      Does b t { b.sched with due := update b.sched.due ev none } ∧
      t.timeheap.n + 1 = b.timeheap.n ∧ t.timeheap.a = b.timeheap.a ∧ t.evRes = b.evRes := by
  obtain ⟨I, hI, hcount⟩ := hb.count
  obtain ⟨u, hu, hwu, htime, hn, ha⟩ := hb.heap.erase h
  -- the heap has lost exactly this event
  have hset : {e | b.inTimeouts e} \ {ev} = {e | update b.inTimeouts ev false e} := by
    ext e
    by_cases he : e = ev
    · simp [he]
    · simp [he]
  refine ⟨{ b with
    timeheap := u
    eventCount := b.eventCount - 1
    inTimeouts := update b.inTimeouts ev false }, ?_,
    ⟨⟨hset ▸ hwu, hb.active_iff, hb.nodup, ⟨I, hI, ?_⟩, hb.countActive⟩, ?_, rfl⟩, hn, ha, rfl⟩
  · simp [EventBase.queueRemoveTimeout, h, hu]
  · rw [hcount, ← hn]
    push_cast
    omega
  · simp only [sched, Sched.mk.injEq, and_true]
    funext e
    by_cases he : e = ev
    · simp [he]
    · simp [he, htime]

theorem Consistent.queueInsertActive (hb : b.Consistent) (h : ¬ b.active ev) :
    (b.queueInsertActive ev).Consistent := by
  obtain ⟨I, hI, hcount⟩ := hb.count
  have hev : ev ∉ b.activequeue := mt (hb.active_iff ev).mpr h
  have heq : b.queueInsertActive ev = _ := if_neg h
  rw [heq]
  refine ⟨hb.heap, fun e => ?_, ?_, ⟨I, hI, ?_⟩, ?_⟩
  · by_cases he : e = ev
    · simp [he]
    · simp [he, hb.active_iff]
  · exact List.nodup_append.mpr ⟨hb.nodup, List.nodup_singleton ev, fun x hx y hy heq =>
      hev (List.mem_singleton.mp hy ▸ heq ▸ hx)⟩
  · simp only [List.length_append, List.length_singleton]
    push_cast
    omega
  · simp only [List.length_append, List.length_singleton, hb.countActive]
    push_cast
    omega

theorem Consistent.queueRemoveActive (hb : b.Consistent) (h : b.active ev) :
    ∃ t, b.queueRemoveActive ev = some t ∧ Does b t (b.sched.unqueue ev) ∧
      t.timeheap = b.timeheap ∧ t.evRes = b.evRes := by
  obtain ⟨I, hI, hcount⟩ := hb.count
  have hev : ev ∈ b.activequeue := (hb.active_iff ev).mp h
  have hlen : (b.activequeue.erase ev).length + 1 = b.activequeue.length :=
    List.length_erase_add_one hev
  refine ⟨_, if_pos h, ⟨⟨hb.heap, fun e => ?_, hb.nodup.erase ev, ⟨I, hI, ?_⟩, ?_⟩, ?_, rfl⟩,
    rfl, rfl⟩
  · by_cases he : e = ev
    · simp [he, hb.nodup.mem_erase_iff]
    · simp [he, hb.nodup.mem_erase_iff, hb.active_iff]
  · rw [hcount, ← hlen]
    push_cast
    omega
  · rw [hb.countActive, ← hlen]
    push_cast
    omega
  · simp only [sched, Sched.unqueue, Sched.mk.injEq, true_and]
    rw [hb.nodup.erase_eq_filter, List.filter_map]
    exact congrArg _ (List.filter_congr fun x _ => by simp [bne, beq_eq_decide])

/-! ## The functions -/

omit [DecidableEq ε] in
theorem Does.refl (hb : b.Consistent) : Does b b b.sched :=
  ⟨hb, rfl, rfl⟩

omit [DecidableEq ε] in
theorem due_eq_none (h : ¬ b.inTimeouts ev) : b.sched.due ev = none :=
  if_neg h

/-- Taking an event out of the heap if it is there. -/
theorem Consistent.dropTimeout (hb : b.Consistent) (ev : ε) :
    ∃ t, (if b.inTimeouts ev then b.queueRemoveTimeout ev else some b) = some t ∧
      Does b t { b.sched with due := update b.sched.due ev none } ∧
      t.timeheap.n + (b.inTimeouts ev).toNat = b.timeheap.n ∧ t.timeheap.a = b.timeheap.a ∧
      t.evRes = b.evRes := by
  by_cases h : b.inTimeouts ev
  · obtain ⟨t, ht, hdoes, hn, hframe⟩ := hb.queueRemoveTimeout h
    exact ⟨t, by rw [if_pos h, ht], hdoes, by simpa [h] using hn, hframe⟩
  · refine ⟨b, if_neg h, ?_, by simp [h], rfl, rfl⟩
    rw [← due_eq_none h, update_eq_self]
    exact .refl hb

theorem Sched.unqueue_of_notMem {s : Sched ε} (h : ev ∉ s.queue.map Prod.fst) :
    s.unqueue ev = s := by
  unfold Sched.unqueue
  rw [List.filter_eq_self.mpr]
  intro p hp
  have hne : p.1 ≠ ev := fun heq => h (List.mem_map.mpr ⟨p, hp, heq⟩)
  simpa using hne

/-- Taking an event off the queue if it is there. -/
theorem Consistent.dropActive (hb : b.Consistent) (ev : ε) :
    ∃ t, (if b.active ev then b.queueRemoveActive ev else some b) = some t ∧
      Does b t (b.sched.unqueue ev) ∧ t.timeheap = b.timeheap ∧ t.evRes = b.evRes := by
  by_cases h : b.active ev
  · obtain ⟨t, ht, hrest⟩ := hb.queueRemoveActive h
    exact ⟨t, by rw [if_pos h, ht], hrest⟩
  · refine ⟨b, if_neg h, ?_, rfl, rfl⟩
    rw [Sched.unqueue_of_notMem]
    · exact .refl hb
    · rw [map_fst_queue]
      exact mt (hb.active_iff ev).mpr h

/-- Unwatching the descriptor of an event if it is watched. -/
theorem Consistent.dropInserted (hb : b.Consistent) (ev : ε) :
    ∃ t, (if b.inserted ev then b.queueRemoveInserted ev else some b) = some t ∧
      Does b t { b.sched with watched := update b.sched.watched ev false } ∧
      t.timeheap = b.timeheap ∧ t.evRes = b.evRes := by
  by_cases h : b.inserted ev
  · obtain ⟨t, ht, hrest⟩ := hb.queueRemoveInserted h
    exact ⟨t, by rw [if_pos h, ht], hrest⟩
  · refine ⟨b, if_neg h, ?_, rfl, rfl⟩
    have hw : b.sched.watched ev = false := Bool.eq_false_iff.mpr h
    rw [← hw, update_eq_self]
    exact .refl hb

/-- `event_del_nolock_` forgets the event. -/
theorem Consistent.eventDel (hb : b.Consistent) (ev : ε) :
    ∃ t, b.eventDel ev = some t ∧ Does b t (b.sched.del ev) ∧
      t.timeheap.n + (b.inTimeouts ev).toNat = b.timeheap.n ∧ t.timeheap.a = b.timeheap.a ∧
      t.evRes = b.evRes := by
  -- the three branches in the order of the code: heap, active queue, map of descriptors
  obtain ⟨t₁, h₁, hd₁, hn, ha, hr₁⟩ := hb.dropTimeout ev
  obtain ⟨t₂, h₂, hd₂, hh₂, hr₂⟩ := hd₁.consistent.dropActive ev
  obtain ⟨t₃, h₃, hd₃, hh₃, hr₃⟩ := hd₂.consistent.dropInserted ev
  refine ⟨t₃, by simp [EventBase.eventDel, h₁, h₂, h₃], ⟨hd₃.consistent, ?_, ?_⟩, ?_, ?_, ?_⟩
  · rw [hd₃.sched_eq, hd₂.sched_eq, hd₁.sched_eq]
    rfl
  · rw [hd₃.tvCache_eq, hd₂.tvCache_eq, hd₁.tvCache_eq]
  · rw [hh₃, hh₂, hn]
  · rw [hh₃, hh₂, ha]
  · rw [hr₃, hr₂, hr₁]

@[simp] theorem timeheap_eventActive (res : Res) :
    (b.eventActive ev res).timeheap = b.timeheap := by
  by_cases h : b.active ev <;> simp [EventBase.eventActive, EventBase.queueInsertActive, h]

/-- `event_active_nolock_` queues the event or adds to what it is reported for. -/
theorem Consistent.eventActive (hb : b.Consistent) (ev : ε) (res : Res) :
    Does b (b.eventActive ev res) (b.sched.activate ev res) := by
  unfold EventBase.eventActive Sched.activate
  rw [map_fst_queue]
  by_cases h : b.active ev
  · -- it is queued already, and is reported for this as well
    rw [if_pos h, if_pos ((hb.active_iff ev).mp h)]
    refine ⟨⟨hb.heap, hb.active_iff, hb.nodup, hb.count, hb.countActive⟩, ?_, rfl⟩
    simp only [sched, List.map_map, Sched.mk.injEq, true_and]
    refine List.map_congr_left fun e _ => ?_
    by_cases he : e = ev
    · simp [he]
    · simp [he]
  · have hev : ev ∉ b.activequeue := mt (hb.active_iff ev).mpr h
    rw [if_neg h, if_neg hev]
    -- `ev_res` is written first; no other event of the queue is reported differently by that
    have hb' : EventBase.Consistent { b with evRes := update b.evRes ev res } :=
      ⟨hb.heap, hb.active_iff, hb.nodup, hb.count, hb.countActive⟩
    refine ⟨hb'.queueInsertActive h, ?_, ?_⟩
    · rw [EventBase.queueInsertActive, if_neg h]
      simp only [sched, List.map_append, List.map_singleton, update_self, Sched.mk.injEq, true_and]
      congr 1
      refine List.map_congr_left fun e he => ?_
      have hne : e ≠ ev := fun heq => hev (heq ▸ he)
      rw [update_of_ne hne]
    · rw [EventBase.queueInsertActive, if_neg h]

omit [DecidableEq ε] in
theorem Consistent.queue_eq_nil_iff (hb : b.Consistent) :
    b.sched.queue = [] ↔ b.eventCountActive = 0 := by
  rw [hb.countActive, ← List.map_eq_nil_iff, map_fst_queue]
  simp

omit [DecidableEq ε] in
@[simp] theorem tvCache_updateTimeCache (b : EventBase ε) (clock : Timeval) :
    (b.updateTimeCache clock).tvCache = clock := by
  simp [updateTimeCache, clearTimeCache, gettime]

omit [DecidableEq ε] in
/-- Right after the time cache is updated, it says what the clock showed. -/
theorem gettime_updateTimeCache (b : EventBase ε) (clock : Timeval) :
    (b.updateTimeCache clock).gettime clock = clock := by
  simp [gettime]

omit [DecidableEq ε] in
theorem Consistent.setTvCache (hb : b.Consistent) (tvCache : Timeval) :
    EventBase.Consistent { b with tvCache := tvCache } :=
  ⟨hb.heap, hb.active_iff, hb.nodup, hb.count, hb.countActive⟩

/-! ## event_add -/

omit [DecidableEq ε] in
theorem gettime_congr (h : t.tvCache = b.tvCache) (clock : Timeval) :
    t.gettime clock = b.gettime clock := by
  unfold gettime
  rw [h]

omit [DecidableEq ε] in
theorem not_inTimeouts (h : b.sched.due ev = none) : ¬ b.inTimeouts ev := by
  rw [← isSome_due, h]
  exact Bool.false_ne_true

/-- Rescheduling a timeout removes it from the active queue. -/
theorem Consistent.dropTimedOut (hb : b.Consistent) (ev : ε) :
    ∃ t, (if b.active ev && (b.evRes ev).timeout then b.queueRemoveActive ev else some b) = some t ∧
      Does b t { b.sched with
        queue := b.sched.queue.filter fun p => ¬ (p.1 = ev ∧ p.2.timeout) } ∧
      t.timeheap = b.timeheap := by
  have hres : ∀ p ∈ b.sched.queue, p.1 = ev → p.2 = b.evRes ev := by
    intro p hp heq
    rw [← heq]
    exact (mem_queue.mp hp).2
  by_cases h : b.active ev ∧ (b.evRes ev).timeout
  · obtain ⟨t, ht, hd, hheap, -⟩ := hb.queueRemoveActive h.1
    refine ⟨t, by simp [h.1, h.2, ht], ⟨hd.consistent, ?_, hd.tvCache_eq⟩, hheap⟩
    rw [hd.sched_eq, Sched.unqueue, Sched.mk.injEq]
    refine ⟨rfl, rfl, List.filter_congr fun p hp => ?_⟩
    have hp' := hres p hp
    by_cases heq : p.1 = ev
    · simp [heq, hp' heq, h.2]
    · simp [heq]
  · refine ⟨b, if_neg (by simpa using h), ?_, rfl⟩
    -- nothing is taken off: what is queued for this event is no timeout
    rw [List.filter_eq_self.mpr]
    · exact .refl hb
    · intro p hp
      have hp' := hres p hp
      have hact : p.1 = ev → b.active ev := fun heq =>
        (hb.active_iff ev).mpr (heq ▸ (mem_queue.mp hp).1)
      by_cases heq : p.1 = ev
      · have hno : ¬ (b.evRes ev).timeout := fun hto => h ⟨hact heq, hto⟩
        simp [hp' heq, hno]
      · simp [heq]

/-- The second half of `event_add_nolock_` -/
theorem Consistent.addTimeout (hb : b.Consistent) (hn : b.timeheap.n + 1 < 2 ^ 31)
    (hroom : ¬ b.inTimeouts ev → b.timeheap.n < b.timeheap.a) (tv : Timeval) (a : AddAnswers) :
    ∃ t, b.addTimeout ev tv a = some t ∧
      Does b t (b.sched.arm ev ((b.gettime a.clock).timeradd tv)) := by
  obtain ⟨t₁, h₁, hd₁, hn₁, ha₁, -⟩ := hb.dropTimeout ev
  obtain ⟨t₂, h₂, hd₂, hh₂⟩ := hd₁.consistent.dropTimedOut ev
  -- the old timeout is gone by now
  have hfree : ¬ t₂.inTimeouts ev := by
    apply not_inTimeouts
    rw [hd₂.sched_eq, hd₁.sched_eq]
    exact update_self ..
  have hn₂ : t₂.timeheap.n + 1 < 2 ^ 31 := by
    rw [hh₂]
    omega
  have hroom₂ : t₂.timeheap.n < t₂.timeheap.a := by
    rw [hh₂, ha₁]
    -- a timeout that was there has left its cell free, otherwise `prepareTimeout` has made room
    have hle := hb.heap.room
    by_cases h : b.inTimeouts ev
    · have hone : (b.inTimeouts ev).toNat = 1 := by simp [h]
      omega
    · have := hroom h
      omega
  obtain ⟨t, ht, hd⟩ := hd₂.consistent.queueInsertTimeout hfree hn₂ hroom₂
    ((t₂.gettime a.clock).timeradd tv) a.push
  have hcache : t₂.tvCache = b.tvCache := hd₂.tvCache_eq.trans hd₁.tvCache_eq
  refine ⟨t, ?_, hd.consistent, ?_, hd.tvCache_eq.trans hcache⟩
  · simp only [EventBase.addTimeout, h₁, h₂, Option.bind_eq_bind, Option.bind_some]
    exact ht
  rw [hd.sched_eq, hd₂.sched_eq, hd₁.sched_eq, gettime_congr hcache]
  simp only [Sched.arm, update_idem]

omit [DecidableEq ε] in
/-- The events do not notice where the block of the heap lies, or how large it is. -/
theorem Consistent.reserve (hb : b.Consistent) {a : ℕ} (ha : b.timeheap.a ≤ a) :
    Does b { b with timeheap := { b.timeheap with a := a } } b.sched :=
  ⟨⟨⟨hb.heap.room.trans ha, hb.heap.bound, hb.heap.indexed, hb.heap.ordered, hb.heap.other⟩,
    hb.active_iff, hb.nodup, hb.count, hb.countActive⟩, rfl, rfl⟩

/-- Watching the descriptor of an event that is neither watched nor active. -/
theorem Consistent.addWatch (hb : b.Consistent) (k : Interest) (ev : ε) :
    ∃ t, (if k.io && !(b.inserted ev || b.active ev) then b.queueInsertInserted ev else some b)
        = some t ∧ Does b t (b.sched.add k ev none) ∧ t.timeheap = b.timeheap := by
  have hact : b.active ev = decide (ev ∈ b.sched.queue.map Prod.fst) := by
    rw [map_fst_queue, Bool.eq_iff_iff, hb.active_iff, decide_eq_true_iff]
  unfold Sched.add
  rw [← hact]
  by_cases h : k.io && !(b.inserted ev || b.active ev)
  · have hw : ¬ b.inserted ev := by
      intro hins
      simp [hins] at h
    obtain ⟨t, ht, hd, hheap⟩ := hb.queueInsertInserted hw
    refine ⟨t, by rw [if_pos h, ht], ?_, hheap⟩
    simp only [show b.sched.watched ev = b.inserted ev from rfl, h, if_true]
    exact hd
  · refine ⟨b, if_neg h, ?_, rfl⟩
    simp only [show b.sched.watched ev = b.inserted ev from rfl, h]
    exact .refl hb

omit [DecidableEq ε] in
/-- The heap has room for one more, unless there is none to be had. -/
theorem Consistent.prepareTimeout (hb : b.Consistent) (hn : b.timeheap.n + 1 < 2 ^ 31) (ev : ε)
    (tv : Option Timeval) (realloc : Bool) :
    (∃ h, b.prepareTimeout ev tv realloc = (h, 0) ∧ Does b { b with timeheap := h } b.sched ∧
        h.n = b.timeheap.n ∧ (tv.isSome → ¬ b.inTimeouts ev → h.n < h.a)) ∨
      b.prepareTimeout ev tv realloc = (b.timeheap, -1) ∧ realloc = false := by
  have hwrap : (1 + b.timeheap.n) % 2 ^ 32 = b.timeheap.n + 1 := by omega
  unfold EventBase.prepareTimeout
  rw [hwrap]
  by_cases h : tv.isSome && !b.inTimeouts ev
  · rw [if_pos h]
    -- `min_heap_reserve_` finds room, allocates, or fails
    rcases b.timeheap.reserve_cases (b.timeheap.n + 1) realloc with ⟨a, hres, hlt, ha⟩ |
      ⟨hres, -, hre⟩
    · exact .inl ⟨_, hres, hb.reserve ha, rfl, fun _ _ => hlt⟩
    · exact .inr ⟨hres, hre⟩
  · rw [if_neg h]
    refine .inl ⟨_, rfl, .refl hb, rfl, fun htv hno => ?_⟩
    simp [htv, hno] at h

/-- `event_add_nolock_` adds the event, or fails and leaves all events as they are. -/
theorem Consistent.eventAdd (hb : b.Consistent) (hn : b.timeheap.n + 1 < 2 ^ 31) (k : Interest)
    (ev : ε) (tv : Option Timeval) (a : AddAnswers) :
    ∃ t res, b.eventAdd k ev tv a = some (t, res) ∧
      (res = 0 ∧ Does b t (b.sched.add k ev (tv.map (b.gettime a.clock).timeradd)) ∨
        res = -1 ∧ Does b t b.sched ∧ (a.reserve = false ∨ a.evmap = false)) := by
  unfold EventBase.eventAdd
  rcases hb.prepareTimeout hn ev tv a.reserve with ⟨h, hres, hd₀, hhn, hroom⟩ | ⟨hres, hre⟩
  · simp only [hres]
    by_cases hfail : (k.io && !(b.inserted ev || b.active ev)) && !a.evmap
    · -- `evmap_io_add_` refuses; only the block of the heap may have grown
      refine ⟨_, -1, by simp only [hfail]; rfl, .inr ⟨rfl, hd₀, .inr ?_⟩⟩
      simpa using (Bool.and_eq_true_iff.mp hfail).2
    · obtain ⟨t₁, h₁, hd₁, hh₁⟩ := hd₀.consistent.addWatch k ev
      have hsched₁ : t₁.sched = b.sched.add k ev none := hd₁.sched_eq.trans (by rw [hd₀.sched_eq])
      cases tv with
      | none =>
        refine ⟨t₁, 0, ?_, .inl ⟨rfl, hd₁.consistent, hsched₁, hd₁.tvCache_eq⟩⟩
        simp only [hfail, h₁]
        rfl
      | some tv =>
        -- watching the descriptor leaves the heap alone, so that the room is still there
        have hdue : t₁.inTimeouts ev = b.inTimeouts ev := by
          rw [← isSome_due, ← isSome_due, hsched₁]
          unfold Sched.add Sched.watch
          split <;> rfl
        have hroom₁ : ¬ t₁.inTimeouts ev → t₁.timeheap.n < t₁.timeheap.a := by
          rw [hdue, hh₁]
          exact hroom rfl
        have hn₁ : t₁.timeheap.n + 1 < 2 ^ 31 := by
          rw [hh₁, show EventBase.timeheap { b with timeheap := h } = h from rfl, hhn]
          exact hn
        obtain ⟨t, ht, hd⟩ := hd₁.consistent.addTimeout hn₁ hroom₁ tv a
        refine ⟨t, 0, ?_, .inl ⟨rfl, hd.consistent, ?_, hd.tvCache_eq.trans hd₁.tvCache_eq⟩⟩
        · simp only [hfail, h₁]
          simp [ht]
        · rw [hd.sched_eq, hsched₁, gettime_congr hd₁.tvCache_eq]
          rfl
  · exact ⟨b, -1, by simp [hres], .inr ⟨rfl, .refl hb, .inl hre⟩⟩

/-! ## Expiry -/

end EventBase

namespace Sched

variable {s : Sched ε} {ev e : ε} {l : List ε}

@[simp] theorem activate_due (res : Res) : (s.activate ev res).due = s.due := by
  unfold activate
  split <;> rfl

@[simp] theorem activate_watched (res : Res) : (s.activate ev res).watched = s.watched := by
  unfold activate
  split <;> rfl

theorem add_queue_eq_nil {k : Interest} {d : Option Timeval} (h : s.queue = []) :
    (s.add k ev d).queue = [] := by
  have hwatch : (s.add k ev none).queue = [] := by
    unfold add
    split <;> exact h
  cases d with
  | none => exact hwatch
  | some d =>
    have harm : s.add k ev (some d) = (s.add k ev none).arm ev d := rfl
    rw [harm, arm, hwatch]
    rfl

theorem del_activate_queue (res : Res) : ((s.del ev).activate ev res).queue =
    (s.queue.filter fun p => p.1 ≠ ev) ++ [(ev, res)] := by
  have hev : ev ∉ (s.del ev).queue.map Prod.fst := by
    simp [del]
  rw [activate, if_neg hev]
  rfl

@[simp] theorem expire_due : (s.expire l).due e = if e ∈ l then none else s.due e := by
  induction l generalizing s with
  | nil => simp [expire]
  | cons a l ih =>
    have hstep : s.expire (a :: l) = ((s.del a).activate a Res.evTimeout).expire l := rfl
    rw [hstep, ih, activate_due]
    by_cases he : e = a
    · simp [he, del]
    · simp [he, del]

@[simp] theorem expire_watched : (s.expire l).watched e = (s.watched e && decide (e ∉ l)) := by
  induction l generalizing s with
  | nil => simp [expire]
  | cons a l ih =>
    have hstep : s.expire (a :: l) = ((s.del a).activate a Res.evTimeout).expire l := rfl
    rw [hstep, ih, activate_watched]
    by_cases he : e = a
    · simp [he, del]
    · simp [he, del]

/-- The events that expire come last in the queue, and are reported for nothing else. -/
theorem expire_queue (hl : l.Nodup) : (s.expire l).queue =
    (s.queue.filter fun p => p.1 ∉ l) ++ l.map fun e => (e, Res.evTimeout) := by
  induction l generalizing s with
  | nil => simp [expire]
  | cons a l ih =>
    obtain ⟨ha, hl⟩ := List.nodup_cons.mp hl
    have hstep : s.expire (a :: l) = ((s.del a).activate a Res.evTimeout).expire l := rfl
    rw [hstep, ih hl, del_activate_queue, List.filter_append, List.filter_filter]
    -- the first one is not expired a second time, so that it stays in front of the others
    have hlast : [(a, Res.evTimeout)].filter (fun p => decide (p.1 ∉ l)) =
        [(a, Res.evTimeout)] := by
      simp [ha]
    rw [hlast, List.append_assoc, List.map_cons, List.singleton_append]
    congr 1
    refine List.filter_congr fun p _ => ?_
    simp [Bool.and_comm]

/-- The timeout of `e` is not due after that of `e'`. -/
def NotAfter (s : Sched ε) (e e' : ε) : Prop :=
  ∀ d d', s.due e = some d → s.due e' = some d' → d ≤ d'

/-- `l` lists the events whose timeouts are due at `now`, the earliest first. -/
structure Expires (s : Sched ε) (now : Timeval) (l : List ε) : Prop where
  nodup : l.Nodup
  mem_iff : ∀ e, e ∈ l ↔ ∃ d, s.due e = some d ∧ d ≤ now
  sorted : l.Pairwise s.NotAfter

/-- The earliest event expires before the others. -/
theorem Expires.cons {now d : Timeval} (hdue : s.due ev = some d) (hd : d ≤ now)
    (hleast : ∀ e u, s.due e = some u → d ≤ u)
    (hl : ((s.del ev).activate ev Res.evTimeout).Expires now l) : s.Expires now (ev :: l) := by
  have hdel : ∀ e, ((s.del ev).activate ev Res.evTimeout).due e = update s.due ev none e := by
    intro e
    rw [activate_due]
    rfl
  -- its timeout is gone when the rest expires
  have hev : ev ∉ l := by
    intro hmem
    obtain ⟨u, hu, -⟩ := (hl.mem_iff ev).mp hmem
    rw [hdel, update_self] at hu
    cases hu
  refine ⟨List.nodup_cons.mpr ⟨hev, hl.nodup⟩, fun e => ?_, List.pairwise_cons.mpr ⟨?_, ?_⟩⟩
  · by_cases he : e = ev
    · subst he
      exact iff_of_true (List.mem_cons_self ..) ⟨d, hdue, hd⟩
    · rw [List.mem_cons, or_iff_right he, hl.mem_iff, hdel, update_of_ne he]
  · intro e _ u u' hu hu'
    rw [hdue, Option.some.injEq] at hu
    subst hu
    -- the earliest comes first
    exact hleast e u' hu'
  · refine hl.sorted.imp_of_mem ?_
    intro x y hx hy hxy u u' hu hu'
    have hxe : x ≠ ev := fun heq => hev (heq ▸ hx)
    have hye : y ≠ ev := fun heq => hev (heq ▸ hy)
    apply hxy u u'
    · rw [hdel, update_of_ne hxe, hu]
    · rw [hdel, update_of_ne hye, hu']

end Sched

namespace EventBase

variable {b t : EventBase ε} {ev e : ε}

omit [DecidableEq ε] in
/-- What is due is in the heap. -/
theorem due_eq_some {d : Timeval} :
    b.sched.due e = some d ↔ b.inTimeouts e ∧ d = b.timeheap.evTimeout e := by
  unfold sched
  by_cases h : b.inTimeouts e
  · simp [h, eq_comm]
  · simp [h]

/-- The loop of `timeout_process` -/
theorem Consistent.timeoutProcessLoop (hb : b.Consistent) (now : Timeval) {fuel : ℕ}
    (hfuel : b.timeheap.n < fuel) :
    ∃ t l, EventBase.timeoutProcessLoop fuel b now = some t ∧ b.sched.Expires now l ∧
      Does b t (b.sched.expire l) := by
  induction fuel generalizing b with
  | zero => exact absurd hfuel (Nat.not_lt_zero _)
  | succ fuel ih =>
    rw [EventBase.timeoutProcessLoop]
    cases htop : b.timeheap.top with
    | none =>
      -- nothing waits
      have hM := hb.heap.top_eq_none.mp htop
      refine ⟨b, [], rfl, ⟨List.nodup_nil, fun e => ?_, List.Pairwise.nil⟩, .refl hb⟩
      refine iff_of_false (List.not_mem_nil) ?_
      intro h
      obtain ⟨d, hd, -⟩ := h
      exact (Set.ext_iff.mp hM e).mp (due_eq_some.mp hd).1
    | some ev =>
      obtain ⟨hev, hleast⟩ := hb.heap.top_eq_some htop
      have hleast' : ∀ e u, b.sched.due e = some u → b.timeheap.evTimeout ev ≤ u := by
        intro e u hu
        obtain ⟨he, rfl⟩ := due_eq_some.mp hu
        exact hleast e he
      by_cases hgt : (b.timeheap.evTimeout ev).timercmp now (· > ·) = true
      · -- the earliest timeout is not due, so no other is
        have hlate := Timeval.timercmp_gt.mp hgt
        refine ⟨b, [], by simp only [hgt, if_true],
          ⟨List.nodup_nil, fun e => ?_, List.Pairwise.nil⟩, .refl hb⟩
        refine iff_of_false (List.not_mem_nil) ?_
        intro h
        obtain ⟨d, hd, hnow⟩ := h
        exact absurd (hlate.trans_le (hleast' e d hd)) (not_lt.mpr hnow)
      · -- it is due: the event is deleted and activated, and the heap has become smaller
        have hdue : b.timeheap.evTimeout ev ≤ now := not_lt.mp (mt Timeval.timercmp_gt.mpr hgt)
        obtain ⟨t₁, h₁, hd₁, hn₁, -, -⟩ := hb.eventDel ev
        have hd₂ := hd₁.consistent.eventActive ev Res.evTimeout
        have hn : (t₁.eventActive ev Res.evTimeout).timeheap.n < fuel := by
          have hone : (b.inTimeouts ev).toNat = 1 := by
            rw [show b.inTimeouts ev = true from hev]
            rfl
          rw [timeheap_eventActive]
          omega
        obtain ⟨t, l, ht, hl, hd⟩ := ih hd₂.consistent hn
        have hsched : (t₁.eventActive ev Res.evTimeout).sched =
            (b.sched.del ev).activate ev Res.evTimeout := by
          rw [hd₂.sched_eq, hd₁.sched_eq]
        refine ⟨t, ev :: l, ?_, ?_, hd.consistent, ?_, ?_⟩
        · simp only [hgt, h₁, Option.bind_eq_bind, Option.bind_some]
          exact ht
        · exact .cons (due_eq_some.mpr ⟨hev, rfl⟩) hdue hleast' (hsched ▸ hl)
        · rw [hd.sched_eq, hsched]
          rfl
        · rw [hd.tvCache_eq, hd₂.tvCache_eq, hd₁.tvCache_eq]

/-- `timeout_process` -/
theorem Consistent.timeoutProcess (hb : b.Consistent) (clock : Timeval) :
    ∃ t l, b.timeoutProcess clock = some t ∧ b.sched.Expires (b.gettime clock) l ∧
      Does b t (b.sched.expire l) := by
  by_cases hn : b.timeheap.n = 0
  · have hM := hb.heap.n_eq_zero_iff.mp hn
    refine ⟨b, [], if_pos hn, ⟨List.nodup_nil, fun e => ?_, List.Pairwise.nil⟩, .refl hb⟩
    refine iff_of_false List.not_mem_nil ?_
    intro h
    obtain ⟨d, hd, -⟩ := h
    exact (Set.ext_iff.mp hM e).mp (due_eq_some.mp hd).1
  · unfold EventBase.timeoutProcess
    rw [if_neg hn]
    exact hb.timeoutProcessLoop (b.gettime clock) (Nat.lt_succ_self _)

/-- `event_process_active_single_queue` takes the first event of the queue. -/
theorem Consistent.processFirst (hb : b.Consistent) (k : ε → Interest) :
    (b.sched.queue = [] ∧ b.processFirst k = some (b, none)) ∨
      ∃ ev res rest t, b.sched.queue = (ev, res) :: rest ∧
        b.processFirst k = some (t, some (ev, res)) ∧
        Does b t (if (k ev).persist then b.sched.unqueue ev else b.sched.del ev) := by
  unfold EventBase.processFirst
  cases hq : b.activequeue with
  | nil => exact .inl ⟨by simp [sched, hq], rfl⟩
  | cons ev rest =>
    have hev : b.active ev := (hb.active_iff ev).mpr (hq ▸ List.mem_cons_self ..)
    refine .inr ⟨ev, b.evRes ev, rest.map fun e => (e, b.evRes e), ?_⟩
    by_cases hp : (k ev).persist
    · -- a persistent event only leaves the queue
      obtain ⟨t, ht, hd, -, hres⟩ := hb.queueRemoveActive hev
      exact ⟨t, by simp [sched, hq], by simp [hp, ht, hres], by rwa [if_pos hp]⟩
    · obtain ⟨t, ht, hd, -, -, hres⟩ := hb.eventDel ev
      exact ⟨t, by simp [sched, hq], by simp [hp, ht, hres], by rwa [if_neg hp]⟩

theorem Consistent.processFirst_some (hb : b.Consistent) {k : ε → Interest} {res : Res}
    (h : b.processFirst k = some (t, some (ev, res))) :
    ∃ rest, b.sched.queue = (ev, res) :: rest ∧
      Does b t (if (k ev).persist then b.sched.unqueue ev else b.sched.del ev) := by
  rcases hb.processFirst k with ⟨-, hnone⟩ | ⟨ev', res', rest, t', hq, h', hd⟩
  · cases h.symm.trans hnone
  · obtain ⟨rfl, rfl, rfl⟩ : t = t' ∧ ev = ev' ∧ res = res' := by simpa using h.symm.trans h'
    exact ⟨rest, hq, hd⟩

end EventBase

end ReechatBase.Libevent
