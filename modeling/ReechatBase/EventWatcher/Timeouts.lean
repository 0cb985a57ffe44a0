import ReechatBase.EventWatcher.Watcher
import ReechatBase.Libevent.Timers

/-!
# The timers of one loop

Any number of `TimerEventWatcher`s (`event_watcher.cpp`) on the `event_base` of one loop, with
libevent as its own source has it. The watchers call `AsyncWait` and `Cancel` from the callbacks of
the loop or while it does not run, and libevent calls their handlers.

- `handler_called`: when a handler may be called, in terms of the watcher alone;
- `timers_refine`: seen from outside, each timer is a `Watcher` of its own: what the others do, and
  what the loop does for them, leaves it as it is.

A timeout is counted from what `gettime` returns in `AsyncWait`. Inside a callback this is the
cached time of the last wake-up, so a handler may be called earlier than its timeout after the call
of `AsyncWait`, by as much as the callbacks have taken until then.
-/

namespace ReechatBase.EventWatcher

open Function Lib Libevent

variable {ε : Type} [DecidableEq ε]

/-! ## Watch -/

/-- The `timeval` that `Watch` makes of `timeout_ms`, `none` for a null pointer. -/
def watchTimeout (timeoutMs : ℤ) : Option Timeval :=
  if timeoutMs > 0 then some ⟨timeoutMs / 1000, timeoutMs % 1000 * 1000⟩ else none

/-- The loop, and the members of its watchers, all of which `Init` has been called on. -/
structure Timers (ε : Type) where
  loop : Dispatch ε
  /-- `attached_` -/
  attached : ε → Bool
  /-- `event_` is not null -/
  hasEvent : ε → Bool

inductive TimersLabel (ε : Type) where
  | asyncWait (w : ε) (a : EventBase.AddAnswers)
  /-- `Cancel` or the destructor -/
  | cancel (w : ε)
  /-- A step of `event_base_loop` -/
  | loop (l : LoopLabel ε)

/-- `if (attached_) event_del(event_)`, from one state of the loop to the next. -/
def Detach (s : Timers ε) (w : ε) (l : Dispatch ε) : Prop :=
  if s.attached w then LoopStep timerInterest s.loop (.del w) l else l = s.loop

/-- The steps of watchers with the timeouts `timeoutMs`. -/
inductive TimersStep (timeoutMs : ε → ℤ) : Timers ε → TimersLabel ε → Timers ε → Prop where
  /-- `Watch`, which goes on when `event_del` fails -/
  | asyncWait {s w a l b res} : s.hasEvent w = true → Detach s w l → l.MayCall →
      l.clock ≤ a.clock → a.clock.Normal →
      l.base.eventAdd (timerInterest w) w (watchTimeout (timeoutMs w)) a = some (b, res) →
      TimersStep timeoutMs s (.asyncWait w a) { s with
        loop := { l with
          base := b, clock := a.clock
          armed := l.armedBy w (watchTimeout (timeoutMs w)) a.clock res }
        attached := update s.attached w (res = 0) }
  /-- `FreeEvent` -/
  | cancel {s w l} : s.hasEvent w = true → Detach s w l →
      TimersStep timeoutMs s (.cancel w) { s with
        loop := l
        attached := update s.attached w false
        hasEvent := update s.hasEvent w false }
  | loop {s l t} : l.isLoop = true → LoopStep timerInterest s.loop l t →
      TimersStep timeoutMs s (.loop l) { s with loop := t }

/-- Watchers on which `Init` has been called, on a loop that does not run yet. -/
def timers (timeoutMs : ε → ℤ) : Lts (Timers ε) (TimersLabel ε) where
  init s := (Libevent.loop timerInterest).init s.loop ∧ (∀ w, s.attached w = false) ∧
    ∀ w, s.hasEvent w = true
  step := TimersStep timeoutMs

/-- Fewer than `2 ^ 31` timers wait. -/
def Few (s : Timers ε) : TimersLabel ε → Prop
  | .asyncWait _ _ => s.loop.base.timeheap.n + 1 < 2 ^ 31
  | _ => True

/-! ## The invariant -/

/-- No descriptor is watched, and all that is queued has timed out. -/
structure OnlyTimeouts (s : Sched ε) : Prop where
  watched : ∀ w, s.watched w = false
  queue : ∀ p ∈ s.queue, p.2.timeout

namespace OnlyTimeouts

variable {s : Sched ε}

theorem del (h : OnlyTimeouts s) (w : ε) : OnlyTimeouts (s.del w) where
  watched e := by
    by_cases he : e = w
    · simp [Sched.del, he]
    · simp [Sched.del, he, h.watched]
  queue p hp := h.queue p (List.mem_filter.mp hp).1

theorem add (h : OnlyTimeouts s) (w : ε) (d : Option Timeval) :
    OnlyTimeouts (s.add (timerInterest w) w d) := by
  cases d with
  | none => exact h
  | some d => exact ⟨h.watched, fun p hp => h.queue p (List.mem_filter.mp hp).1⟩

theorem expire (h : OnlyTimeouts s) {l : List ε} (hl : l.Nodup) : OnlyTimeouts (s.expire l) where
  watched w := by simp [h.watched]
  queue p hp := by
    rw [Sched.expire_queue hl] at hp
    rcases List.mem_append.mp hp with hold | hnew
    · exact h.queue p (List.mem_filter.mp hold).1
    · obtain ⟨e, -, rfl⟩ := List.mem_map.mp hnew
      rfl

end OnlyTimeouts

variable {timeoutMs : ε → ℤ} {s t : Timers ε}

omit [DecidableEq ε] in
theorem watchTimeout_eq_some {ms : ℤ} {tv : Timeval} (h : watchTimeout ms = some tv) :
    0 < ms ∧ tv.Normal ∧ tv.micros = 1000 * ms := by
  unfold watchTimeout at h
  split at h
  · rename_i hms
    obtain rfl := Option.some.inj h
    refine ⟨hms, ?_, ?_⟩
    · unfold Timeval.Normal
      simp only
      omega
    · unfold Timeval.micros
      simp only
      omega
  · cases h

structure TimersInv (timeoutMs : ε → ℤ) (s : Timers ε) : Prop where
  reachable : (Libevent.loop timerInterest).ReachableBy (Sane timerInterest) s.loop
  onlyTimeouts : OnlyTimeouts s.loop.base.sched
  armed : ∀ w r tv, s.loop.armed w = some (r, tv) →
    s.hasEvent w ∧ s.attached w ∧ watchTimeout (timeoutMs w) = some tv

namespace TimersInv

theorem detach (hs : TimersInv timeoutMs s) {w : ε} {l : Dispatch ε} (hd : Detach s w l) :
    TimersInv timeoutMs { s with loop := l } ∧ l.armed w = none ∧
      l.base.timeheap.n ≤ s.loop.base.timeheap.n ∧ (∀ e, e ≠ w → l.armed e = s.loop.armed e) := by
  unfold Detach at hd
  split at hd
  · cases hd with
    | del hmay hdel =>
      have hI := Inv.of_reachable hs.reachable
      obtain ⟨b', hdel', hdoes, hn, -⟩ := hI.consistent.eventDel w
      obtain rfl := Option.some.inj (hdel.symm.trans hdel')
      refine ⟨⟨.step (l := LoopLabel.del w) hs.reachable trivial (.del hmay hdel), ?_,
        fun e r tv ha => ?_⟩,
        update_self .., by simp only; omega, fun e he => update_of_ne he ..⟩
      · exact hdoes.sched_eq ▸ hs.onlyTimeouts.del w
      · have he : e ≠ w := by
          intro heq
          simp [heq] at ha
        exact hs.armed e r tv ((update_of_ne he ..).symm.trans ha)
  · subst hd
    rename_i hno
    refine ⟨hs, ?_, le_refl _, fun _ _ => rfl⟩
    by_contra hne
    -- an armed timer is attached, so `event_del` would have been called
    obtain ⟨x, hx⟩ := Option.ne_none_iff_exists'.mp hne
    exact hno (hs.armed w x.1 x.2 hx).2.1

theorem asyncWait (hs : TimersInv timeoutMs s) {w : ε} {a : EventBase.AddAnswers}
    {b : EventBase ε} {res : ℤ} (hn : s.loop.base.timeheap.n + 1 < 2 ^ 31)
    (hattached : s.hasEvent w) (hmay : s.loop.MayCall) (hclock : s.loop.clock ≤ a.clock)
    (hnormal : a.clock.Normal) (hnone : s.loop.armed w = none)
    (hadd : s.loop.base.eventAdd (timerInterest w) w (watchTimeout (timeoutMs w)) a =
      some (b, res)) :
    TimersInv timeoutMs { s with
      loop := { s.loop with
        base := b, clock := a.clock
        armed := s.loop.armedBy w (watchTimeout (timeoutMs w)) a.clock res }
      attached := update s.attached w (res = 0) } := by
  have hI := Inv.of_reachable hs.reachable
  have hok : Sane timerInterest s.loop (.add w (watchTimeout (timeoutMs w)) a) :=
    ⟨hn, fun tv htv => ⟨rfl, (watchTimeout_eq_some htv).2.1⟩⟩
  refine ⟨.step (l := LoopLabel.add w (watchTimeout (timeoutMs w)) a) hs.reachable hok
    (LoopStep.add hmay hclock hnormal hadd), ?_, fun e r tv ha => ?_⟩
  · obtain ⟨b', res', hadd', hcase⟩ :=
      hI.consistent.eventAdd hn (timerInterest w) w (watchTimeout (timeoutMs w)) a
    obtain ⟨rfl, rfl⟩ : b = b' ∧ res = res' := by simpa using hadd.symm.trans hadd'
    rcases hcase with ⟨-, hd⟩ | ⟨-, hd, -⟩
    · exact hd.sched_eq ▸ hs.onlyTimeouts.add w _
    · exact hd.sched_eq ▸ hs.onlyTimeouts
  · by_cases he : e = w
    · subst he
      -- a timeout is armed only if `event_add` succeeded, and it is that of the watcher
      have ha' :=
        (Dispatch.armedBy_self hnone (watchTimeout (timeoutMs e)) a.clock res).symm.trans ha
      split at ha'
      · rename_i hres
        obtain ⟨tv', htv, heq⟩ := Option.map_eq_some_iff.mp ha'
        obtain ⟨-, rfl⟩ := Prod.mk.inj heq
        exact ⟨hattached, by simp [hres], htv⟩
      · cases ha'
    · obtain ⟨hev, hatt, htv⟩ := hs.armed e r tv
        ((Dispatch.armedBy_of_ne _ he _ _ _).symm.trans ha)
      exact ⟨hev, (update_of_ne he ..).trans hatt, htv⟩

theorem loop (hs : TimersInv timeoutMs s) {l : LoopLabel ε} {u : Dispatch ε}
    (hl : l.isLoop = true) (hst : LoopStep timerInterest s.loop l u) :
    TimersInv timeoutMs { s with loop := u } := by
  have hI := Inv.of_reachable hs.reachable
  have hok : Sane timerInterest s.loop l := by
    cases l <;> first | exact trivial | cases hl
  refine ⟨.step hs.reachable hok hst, ?_, fun e r tv ha => ?_⟩
  · cases hst with
    | add => cases hl
    | del => cases hl
    | start => exact hs.onlyTimeouts
    | wait => exact hs.onlyTimeouts
    | wake hphase hclock hnormal hready hproc =>
      rename_i tv ready clock b
      have hempty : s.loop.base.sched.queue = [] := hI.idle (by simp [hphase]) (by simp [hphase])
      -- timers have no descriptor that could be ready
      have hnil : ready = [] := by
        refine List.eq_nil_iff_forall_not_mem.mpr fun p hp => ?_
        have hins := (hready p hp).1
        rw [show s.loop.base.inserted p.1 = false from hs.onlyTimeouts.watched p.1] at hins
        cases hins
      obtain ⟨l, hl, -, hsched, -⟩ := hI.timeoutProcess hproc
      subst hnil
      exact hsched ▸ hs.onlyTimeouts.expire hl.nodup
    | call hphase hproc =>
      obtain ⟨rest, -, hd⟩ := hI.consistent.processFirst_some hproc
      exact hd.sched_eq ▸ hs.onlyTimeouts.del _
    | «return» => exact hs.onlyTimeouts
    | leave => exact hs.onlyTimeouts
  · cases hst with
    | add => cases hl
    | del => cases hl
    | call hphase hproc =>
      rename_i ev res b
      have he : e ≠ ev := by
        intro heq
        simp [timerInterest, heq] at ha
      exact hs.armed e r tv ((update_of_ne he ..).symm.trans ha)
    | _ => exact hs.armed e r tv ha

/-- Every step keeps the invariant. -/
theorem step (hs : TimersInv timeoutMs s) {l : TimersLabel ε} (hok : Few s l)
    (hst : TimersStep timeoutMs s l t) : TimersInv timeoutMs t := by
  cases hst with
  | asyncWait hev hdetach hmay hclock hnormal hadd =>
    obtain ⟨hs', hnone, hn, -⟩ := hs.detach hdetach
    exact hs'.asyncWait (lt_of_le_of_lt (Nat.succ_le_succ hn) hok) hev hmay hclock hnormal hnone
      hadd
  | cancel hev hdetach =>
    obtain ⟨hs', hnone, -⟩ := hs.detach hdetach
    refine ⟨hs'.reachable, hs'.onlyTimeouts, fun e r tv ha => ?_⟩
    rename_i w l
    have he : e ≠ w := by
      intro heq
      rw [heq, hnone] at ha
      cases ha
    obtain ⟨hev', hatt, htv⟩ := hs'.armed e r tv ha
    exact ⟨(update_of_ne he ..).trans hev', (update_of_ne he ..).trans hatt, htv⟩
  | loop hl hst => exact hs.loop hl hst

theorem of_reachable (hs : (timers timeoutMs).ReachableBy Few s) : TimersInv timeoutMs s := by
  apply hs.invariant
  case hstep => exact fun s l t hI hok hst => hI.step hok hst
  intro s hinit
  obtain ⟨hloop, -, -⟩ := hinit
  refine ⟨.init hloop, ?_, fun e r tv ha => ?_⟩
  · obtain ⟨⟨p, evTimeout, evRes, hbase⟩, -⟩ := hloop
    rw [hbase]
    exact ⟨fun _ => rfl, fun p hp => by cases hp⟩
  · rw [hloop.2.2.2.2 e] at ha
    cases ha

/-- A handler that is called has waited for its timeout. -/
theorem due_of_call (hs : TimersInv timeoutMs s) {b : EventBase ε} {w : ε} {res : Res}
    (hproc : s.loop.base.processFirst timerInterest = some (b, some (w, res))) :
    s.hasEvent w ∧ s.attached w ∧ 0 < timeoutMs w ∧
      ∃ r tv, s.loop.armed w = some (r, tv) ∧
        r.micros + 1000 * timeoutMs w ≤ s.loop.woke.micros := by
  have hloop := Inv.of_reachable hs.reachable
  obtain ⟨rest, hq, -⟩ := hloop.consistent.processFirst_some hproc
  have hto : res.timeout := hs.onlyTimeouts.queue _ (hq ▸ List.mem_cons_self ..)
  obtain ⟨r, tv, harmed, -, hle⟩ := hloop.due_of_call hproc hto
  obtain ⟨hev, hatt, htv⟩ := hs.armed w r tv harmed
  obtain ⟨hpos, -, hmicros⟩ := watchTimeout_eq_some htv
  exact ⟨hev, hatt, hpos, r, tv, harmed, hmicros ▸ hle⟩

end TimersInv

/-! ## When a handler is called -/

/-- **A handler is called once its timer has run down.** In every run of any number of timers, the
    handler of a watcher is called only if its timeout is positive, it has been neither cancelled
    nor destroyed, and the timeout had passed when the loop woke up, counted from what `gettime`
    returned in its last successful `AsyncWait` (inside a callback, the time of the wake-up before
    it); that `AsyncWait` is then used up. -/
theorem handler_called (hs : (timers timeoutMs).ReachableBy Few s) {w : ε} {res : Res}
    (hst : TimersStep timeoutMs s (.loop .call) t) (hphase : t.loop.phase = .callback w res) :
    s.hasEvent w ∧ s.attached w ∧ 0 < timeoutMs w ∧ t.loop.armed w = none ∧
      ∃ r tv, s.loop.armed w = some (r, tv) ∧
        r.micros + 1000 * timeoutMs w ≤ s.loop.woke.micros := by
  have hI := TimersInv.of_reachable hs
  cases hst with
  | loop hl hst =>
    cases hst with
    | call _ hproc =>
      obtain ⟨rfl, rfl⟩ : _ = w ∧ _ = res := by simpa using hphase
      obtain ⟨hev, hatt, hpos, r, tv, harmed, hle⟩ := hI.due_of_call hproc
      exact ⟨hev, hatt, hpos, update_self .., r, tv, harmed, hle⟩

/-- A timer of a second, on a new loop. -/
def oneTimer : Timers ℕ :=
  ⟨twoTimers, fun _ => false, fun _ => true⟩

/-- It is started, the loop runs, and the handler is called. -/
theorem oneTimer_run :
    ∃ s t, (timers fun _ : ℕ => 1000).ReachableBy Few s ∧
      TimersStep (fun _ => 1000) s (.loop .call) t ∧
      t.loop.phase = .callback 1 Res.evTimeout := by
  have h₀ : (timers fun _ : ℕ => 1000).ReachableBy Few oneTimer :=
    .init ⟨⟨⟨_, _, _, rfl⟩, rfl, by decide, rfl, fun _ => rfl⟩, fun _ => rfl, fun _ => rfl⟩
  have h₁ := h₀.step (l := TimersLabel.asyncWait 1 ⟨true, true, true, ⟨6, 0⟩⟩)
    (show oneTimer.loop.base.timeheap.n + 1 < 2 ^ 31 by decide)
    (TimersStep.asyncWait rfl rfl (.inl rfl) (by decide) (by decide) rfl)
  have h₂ := h₁.step (l := TimersLabel.loop .start) trivial (TimersStep.loop rfl (.start rfl))
  have h₃ := h₂.step (l := TimersLabel.loop (.wait ⟨6, 0⟩)) trivial
    (TimersStep.loop rfl (.wait rfl (by decide) (by decide) rfl))
  have h₄ := h₃.step (l := TimersLabel.loop (.wake [] ⟨7, 0⟩)) trivial
    (TimersStep.loop rfl (.wake rfl (by decide) (by decide) (fun _ hp => by cases hp) rfl))
  exact ⟨_, _, h₄, TimersStep.loop rfl (.call rfl rfl), rfl⟩

/-- The handler of a timer of a second is called when it is over. -/
theorem handler_called_oneTimer :
    ∃ s t : Timers ℕ, t.loop.phase = .callback 1 Res.evTimeout ∧
      s.hasEvent 1 ∧ s.attached 1 ∧ (0 : ℤ) < 1000 ∧ t.loop.armed 1 = none ∧
      ∃ r tv, s.loop.armed 1 = some (r, tv) ∧
        r.micros + 1000 * 1000 ≤ s.loop.woke.micros := by
  obtain ⟨s, t, hs, hst, hphase⟩ := oneTimer_run
  exact ⟨s, t, hphase, handler_called hs hst hphase⟩

/-! ## The timers as watchers -/

/-- A timer on which `Init` has been called, as a `Watcher`. -/
def timerWatcher (hasEvent attached registered : Bool) : Watcher :=
  { Watcher.constructed 0 with
    event := if hasEvent then some ⟨true, .timeout, registered⟩ else none
    attached := attached
    registered := if registered then [.timeout] else [] }

theorem asyncWait_timerWatcher {attached registered : Bool} (h : registered → attached)
    (added : Bool) (ms : ℤ) :
    ((timerWatcher true attached registered).asyncWait added (.timer ms)).2 =
      timerWatcher true added (added && decide (ms > 0)) := by
  cases attached <;> cases registered <;> cases added <;> by_cases hms : ms > 0 <;>
    first
    | exact absurd (h rfl) Bool.false_ne_true
    | simp [timerWatcher, Watcher.asyncWait, Watcher.watch, Watcher.eventDel, Watcher.eventAdd,
        Watcher.constructed, hms]

theorem cancel_timerWatcher {attached registered : Bool} (h : registered → attached) :
    (timerWatcher true attached registered).cancel = timerWatcher false false false := by
  cases attached <;> cases registered <;>
    first
    | exact absurd (h rfl) Bool.false_ne_true
    | rfl

theorem fire_timerWatcher (attached : Bool) :
    (timerWatcher true attached true).fire = timerWatcher true attached false := by
  cases attached <;> rfl

/-- What a timer looks like from outside: libevent has it registered while its `AsyncWait` is not
    used up. -/
def Timers.view (s : Timers ε) (w : ε) : Watcher :=
  timerWatcher (s.hasEvent w) (s.attached w) (s.loop.armed w).isSome

namespace TimersInv

theorem attached_of_armed (hs : TimersInv timeoutMs s) (w : ε) :
    (s.loop.armed w).isSome → s.attached w := by
  intro h
  obtain ⟨x, hx⟩ := Option.isSome_iff_exists.mp h
  exact (hs.armed w x.1 x.2 hx).2.1

omit [DecidableEq ε] in
/-- One operation on a watcher, as a step of its own system. -/
theorem watcher_step {ndebug : Bool} {k : Kind} {w w' : Watcher} {op : Op}
    (hnull : w.nullHanded = false) (hen : op.Enabled k ndebug w) (hrun : op.run k w = w') :
    (watcher k ndebug).step w op w' := by
  have hnext : w.next k ndebug op = some (op.run k w) := if_pos ⟨hnull, hen⟩
  exact hnext.trans (congrArg some hrun)

theorem asyncWait_view (hs : TimersInv timeoutMs s) {w : ε} {a : EventBase.AddAnswers}
    (hst : TimersStep timeoutMs s (.asyncWait w a) t) (ndebug : Bool) :
    (watcher (.timer (timeoutMs w)) ndebug).step (s.view w) (.asyncWait (t.attached w))
      (t.view w) := by
  cases hst with
  | asyncWait hev hdetach hmay hclock hnormal hadd =>
    rename_i u b res
    obtain ⟨-, hnone, -, -⟩ := hs.detach hdetach
    refine watcher_step rfl rfl ?_
    rw [Timers.view, hev]
    refine (asyncWait_timerWatcher (hs.attached_of_armed w) _ _).trans ?_
    simp only [Timers.view, hev, update_self, Dispatch.armedBy_self hnone]
    -- `event_add` registers the timer exactly if it succeeds and has a timeout
    congr 1
    by_cases hres : res = 0 <;> by_cases hms : timeoutMs w > 0 <;>
      simp [hres, watchTimeout, hms]

theorem cancel_view (hs : TimersInv timeoutMs s) {w : ε}
    (hst : TimersStep timeoutMs s (.cancel w) t) (ndebug : Bool) :
    (watcher (.timer (timeoutMs w)) ndebug).step (s.view w) .cancel (t.view w) := by
  cases hst with
  | cancel hev hdetach =>
    obtain ⟨-, hnone, -, -⟩ := hs.detach hdetach
    refine watcher_step rfl ⟨rfl, .inr ?_⟩ ?_
    · rw [Timers.view, hev]
      rfl
    · rw [Timers.view, hev]
      refine (cancel_timerWatcher (hs.attached_of_armed w)).trans ?_
      simp only [Timers.view, update_self, hnone]
      rfl

theorem call_view (hs : TimersInv timeoutMs s) {w : ε} {res : Res}
    (hst : TimersStep timeoutMs s (.loop .call) t) (hphase : t.loop.phase = .callback w res)
    (ndebug : Bool) :
    (watcher (.timer (timeoutMs w)) ndebug).step (s.view w) .fire (t.view w) := by
  cases hst with
  | loop _ hst =>
    cases hst with
    | call hcalling hproc =>
      rename_i ev res' b
      obtain ⟨rfl, rfl⟩ : ev = w ∧ res' = res := by simpa using hphase
      obtain ⟨hev, -, -, r, tv, harmed, -⟩ := hs.due_of_call hproc
      refine watcher_step rfl ⟨rfl, ?_⟩ ?_
      · simp [Timers.view, timerWatcher, Watcher.inserted, hev, harmed]
      · have hsome : (s.loop.armed ev).isSome = true := by rw [harmed]; rfl
        rw [Timers.view, hev, hsome]
        refine (fire_timerWatcher _).trans ?_
        have hnone : (if (timerInterest ev).persist then s.loop.armed
            else update s.loop.armed ev none) ev = none := update_self ..
        simp only [Timers.view, hev, hnone]
        rfl

end TimersInv

/-- What a step to `t` is for the watcher `w`: its own `AsyncWait` and `Cancel`, and the call of its
    handler, which is `fire`. -/
def TimersLabel.opOf (w : ε) (t : Timers ε) : TimersLabel ε → Option Op
  | .asyncWait w' _ => if w' = w then some (.asyncWait (t.attached w)) else none
  | .cancel w' => if w' = w then some .cancel else none
  | .loop .call =>
    match t.loop.phase with
    | .callback w' _ => if w' = w then some .fire else none
    | _ => none
  | .loop _ => none

/-- **Each timer is a `Watcher` of its own.** However libevent keeps the timers of a loop: the
    `AsyncWait` and the `Cancel` of a timer and the call of its handler are for it these operations
    of a `Watcher`, and any other step, of another timer or of the loop, leaves it as it is. -/
theorem timers_refine (hs : (timers timeoutMs).ReachableBy Few s) {l : TimersLabel ε}
    (hst : TimersStep timeoutMs s l t) (w : ε) (ndebug : Bool) :
    match l.opOf w t with
    | some op => (watcher (.timer (timeoutMs w)) ndebug).step (s.view w) op (t.view w)
    | none => t.view w = s.view w := by
  have hI := TimersInv.of_reachable hs
  have hstep := hst
  cases hst with
  | asyncWait hev hdetach hmay hclock hnormal hadd =>
    rename_i w' a u b res
    by_cases hw : w' = w
    · subst hw
      simp only [TimersLabel.opOf, if_true]
      exact hI.asyncWait_view hstep ndebug
    · -- another timer: libevent changes nothing of this one
      obtain ⟨-, -, -, hoff⟩ := hI.detach hdetach
      have hw' : w ≠ w' := fun h => hw h.symm
      simp only [TimersLabel.opOf, if_neg hw]
      simp only [Timers.view, update_of_ne hw', Dispatch.armedBy_of_ne _ hw', hoff w hw']
  | cancel hev hdetach =>
    rename_i w' u
    by_cases hw : w' = w
    · subst hw
      simp only [TimersLabel.opOf, if_true]
      exact hI.cancel_view hstep ndebug
    · obtain ⟨-, -, -, hoff⟩ := hI.detach hdetach
      have hw' : w ≠ w' := fun h => hw h.symm
      simp only [TimersLabel.opOf, if_neg hw]
      simp only [Timers.view, update_of_ne hw', hoff w hw']
  | loop hl hst =>
    cases hst with
    | add => cases hl
    | del => cases hl
    | call hphase hproc =>
      rename_i ev res b
      by_cases hw : ev = w
      · subst hw
        simp only [TimersLabel.opOf, if_true]
        exact hI.call_view hstep rfl ndebug
      · have hw' : w ≠ ev := fun h => hw h.symm
        simp only [TimersLabel.opOf, if_neg hw]
        simp [Timers.view, timerInterest, hw']
    -- what the loop does between two callbacks
    | _ => rfl

/-- The call of a handler is `fire` for its own watcher, and nothing for another one. -/
theorem timers_refine_oneTimer :
    ∃ s t : Timers ℕ, t.loop.phase = .callback 1 Res.evTimeout ∧
      (watcher (.timer 1000) true).step (s.view 1) .fire (t.view 1) ∧ t.view 2 = s.view 2 := by
  obtain ⟨s, t, hs, hst, hphase⟩ := oneTimer_run
  have hop : ∀ w, TimersLabel.opOf w t (.loop .call) = if 1 = w then some .fire else none :=
    fun w => by simp [TimersLabel.opOf, hphase]
  have hfire := timers_refine hs hst 1 true
  have hother := timers_refine hs hst 2 true
  rw [hop] at hfire hother
  exact ⟨s, t, hphase, hfire, hother⟩

end ReechatBase.EventWatcher
