import ReechatBase.EventWatcher.Watcher

/-!
# Watchers release what they hold in order

What libevent has registered must stay backed by the watcher: `attached_` says so, `event_` is
allocated and the descriptor is open. Every operation keeps this (`Inv.of_step`) except where
`Orderly` fails, and then it is lost at once, or when the watcher is destroyed at the latest
(`unsafe_or_stale`). The plainest case is the destruction of a pipe watcher that is still
registered: `~PipeEventWatcher` closes the pipe, and only then `~EventWatcher` takes the event out
of libevent.
-/

namespace ReechatBase.EventWatcher

open Lib Lib.Lts

variable {k : Kind} {ndebug : Bool} {w w' : Watcher}

namespace Watcher

/-! ## The property -/

/-- Nothing that libevent holds dangles, and no cancel callback has run twice. -/
structure Safe (w : Watcher) : Prop where
  attached : w.registered ≠ [] → w.attached
  allocated : w.registered ≠ [] → w.event.isSome
  isOpen : ∀ fd, .readable fd ∈ w.registered → fd ∈ w.openFds
  notNull : w.nullHanded = false
  destroyed : w.phase = .destroyed → w.registered = []
  callbacks : w.callbacksRun.Nodup

/-- `Close` would close the descriptor that libevent watches. -/
def ClosesWatched (w : Watcher) : Prop :=
  0 < w.pipe.1 ∧ w.inserted

/-- The condition on an operation: `Init` needs an event that is not registered, and so does the
    destruction of a pipe watcher; `AsyncWait` needs an event and the descriptor it watches;
    `Cancel` is not called from its own callback. -/
def Orderly (k : Kind) (w : Watcher) : Op → Prop
  | .init sockets =>
    match k, sockets with
    | .pipe, .pairFails => ¬ w.ClosesWatched
    | .pipe, .nonblockingFails _ _ => True
    | _, _ => w.event.isSome ∧ ¬ w.inserted
  | .asyncWait added =>
    ∃ e, w.event = some e ∧ (added → ∀ fd, e.watched = .readable fd → fd ∈ w.openFds)
  | .cancel => ∀ i, w.cancelCallback = some i → i ∉ w.callbacksRun
  | .derivedDestructor =>
    match k with
    | .pipe => ¬ w.ClosesWatched
    | _ => True
  | _ => True

/-! ## The invariant -/

/-- What libevent should have registered, going by the flags of the event -/
def held (w : Watcher) : List Watched :=
  match w.event with
  | none => []
  | some e => if e.inserted then [e.watched] else []

/-- What holds as long as every operation is `Orderly`. -/
structure Inv (k : Kind) (w : Watcher) : Prop where
  registered : w.registered = w.held
  attached : w.inserted → w.attached
  allocated : w.attached → w.event.isSome
  isOpen : ∀ fd, .readable fd ∈ w.held → fd ∈ w.openFds
  /-- Before the first `event_base_set` there is nothing to wait for. -/
  base : ∀ e, w.event = some e → ∀ fd, e.watched = .readable fd → e.base
  /-- An open pipe is the one that the event was initialised with. -/
  pipe : 0 < w.pipe.1 →
    k = .pipe ∧ ∀ e, w.event = some e → e.watched = .readable w.pipe.2
  notNull : w.nullHanded = false
  destroyed : w.phase = .destroyed → w.event = none
  callback : ∀ i, w.cancelCallback = some i → i < w.callbacksSet
  callbacks : ∀ i ∈ w.callbacksRun, i < w.callbacksSet
  nodup : w.callbacksRun.Nodup

theorem inserted_of_held {x : Watched} (hx : x ∈ w.held) : w.inserted := by
  cases he : w.event with
  | none => simp [held, he] at hx
  | some e => cases hi : e.inserted <;> simp_all [held, inserted]

theorem held_of_not_inserted (hi : ¬ w.inserted) : w.held = [] := by
  by_contra hne
  obtain ⟨x, hx⟩ := List.exists_mem_of_ne_nil _ hne
  exact hi (inserted_of_held hx)

theorem Inv.safe (h : Inv k w) : Safe w := by
  have hinserted : w.registered ≠ [] → w.inserted := by
    rw [h.registered]
    exact not_imp_comm.mp held_of_not_inserted
  refine ⟨fun hne => h.attached (hinserted hne),
    fun hne => h.allocated (h.attached (hinserted hne)), ?_, h.notNull, ?_, h.nodup⟩
  · rw [h.registered]
    exact h.isOpen
  · intro hd
    rw [h.registered, held, h.destroyed hd]

theorem Inv.constructed (p : ℕ) : Inv k (.constructed p) := by
  constructor <;> simp [Watcher.constructed, held, inserted]

/-! ## What the member functions do -/

/-- The watcher after `event_del`, with `attached_` cleared -/
def detached (w : Watcher) : Watcher :=
  { w with
    event := w.event.map fun e => { e with inserted := false }
    attached := false
    registered := [] }

/-- The watcher without its event -/
def freed (w : Watcher) : Watcher :=
  { w with event := none, attached := false, registered := [] }

theorem held_detached : w.detached.held = [] := by
  cases he : w.event <;> simp [held, detached, he]

theorem Inv.detached (h : Inv k w) : Inv k w.detached where
  registered := held_detached.symm
  attached := by cases he : w.event <;> simp [inserted, Watcher.detached, he]
  allocated := by simp [Watcher.detached]
  isOpen := by simp [held_detached]
  base e he fd hfd := by
    obtain ⟨e', he', rfl⟩ := Option.map_eq_some_iff.mp he
    exact h.base e' he' fd hfd
  pipe hp := by
    obtain ⟨hk, hwatched⟩ := h.pipe hp
    refine ⟨hk, fun e he => ?_⟩
    obtain ⟨e', he', rfl⟩ := Option.map_eq_some_iff.mp he
    exact hwatched e' he'
  notNull := h.notNull
  destroyed hd := by simp [Watcher.detached, h.destroyed hd]
  callback := h.callback
  callbacks := h.callbacks
  nodup := h.nodup

theorem Inv.freed (h : Inv k w) : Inv k w.freed where
  registered := rfl
  attached := by simp [inserted, Watcher.freed]
  allocated := by simp [Watcher.freed]
  isOpen := by simp [held, Watcher.freed]
  base := by simp [Watcher.freed]
  pipe hp := ⟨(h.pipe hp).1, by simp [Watcher.freed]⟩
  notNull := h.notNull
  destroyed _ := rfl
  callback := h.callback
  callbacks := h.callbacks
  nodup := h.nodup

theorem Inv.eventDel_eq (h : Inv k w) {e : Event} (he : w.event = some e) :
    w.eventDel = { w.detached with attached := w.attached } := by
  have hreg := h.registered
  obtain ⟨event, attached, callback, pipe, fds, registered, null, phase, set, run, canc⟩ := w
  obtain ⟨base, watched, marked⟩ := e
  cases marked <;> simp_all [held, Watcher.detached, eventDel]

/-- The first half of `Watch` -/
theorem Inv.detach_eq (h : Inv k w) :
    (if w.attached then { w.eventDel with attached := false } else w) = w.detached := by
  have hreg := h.registered
  have hatt := h.attached
  split_ifs with ha
  · obtain ⟨e, he⟩ := Option.isSome_iff_exists.mp (h.allocated ha)
    rw [h.eventDel_eq he]
    rfl
  · -- `attached_` is not set, so libevent holds nothing
    rw [held_of_not_inserted fun hi => ha (hatt hi)] at hreg
    obtain ⟨event, attached, callback, pipe, fds, registered, null, phase, set, run, canc⟩ := w
    cases event with
    | none => simp_all [Watcher.detached]
    | some e =>
      obtain ⟨base, watched, marked⟩ := e
      simp_all [inserted, Watcher.detached]

theorem Inv.freeEvent_eq (h : Inv k w) : w.freeEvent = w.freed := by
  have hdetach := h.detach_eq
  have hreg := h.registered
  have hall := h.allocated
  cases he : w.event with
  | none =>
    obtain ⟨event, attached, callback, pipe, fds, registered, null, phase, set, run, canc⟩ := w
    simp_all [Watcher.freeEvent, held, Watcher.freed]
  | some e =>
    simp only [Watcher.freeEvent, he]
    rw [hdetach]
    rfl

theorem Inv.freeEvent (h : Inv k w) : Inv k w.freeEvent :=
  h.freeEvent_eq ▸ h.freed

/-- `Watch` -/
theorem Inv.watch_eq (h : Inv k w) {e : Event} (he : w.event = some e) (timeoutMs : ℤ)
    (added : Bool) : (w.watch timeoutMs added).2 =
      if ¬ e.base ∨ ¬ added then w.detached
      else if e.watched = .timeout ∧ ¬ timeoutMs > 0 then { w.detached with attached := true }
      else { w with
        event := some { e with inserted := true }
        attached := true
        registered := [e.watched] } := by
  have hdet : w.detached.event = some { e with inserted := false } := by simp [Watcher.detached, he]
  rw [Watcher.watch, h.detach_eq]
  simp only [eventAdd, hdet]
  by_cases hadd : ¬ e.base ∨ ¬ added
  · simp only [if_pos hadd]
  · simp only [if_neg hadd, Bool.false_eq_true, false_or, decide_eq_true_eq]
    by_cases hnothing : e.watched = .timeout ∧ ¬ timeoutMs > 0
    · simp only [if_pos hnothing, hdet]
    · simp only [if_neg hnothing]
      rfl

theorem Inv.watch_none (h : Inv k w) (he : w.event = none) (timeoutMs : ℤ) (added : Bool) :
    (w.watch timeoutMs added).2.nullHanded := by
  have hdet : w.detached.event = none := by simp [Watcher.detached, he]
  rw [Watcher.watch, h.detach_eq]
  simp [eventAdd, hdet]

theorem Inv.watch (h : Inv k w) {e : Event} (he : w.event = some e) {timeoutMs : ℤ} {added : Bool}
    (hopen : added → ∀ fd, e.watched = .readable fd → fd ∈ w.openFds) :
    Inv k (w.watch timeoutMs added).2 := by
  rw [h.watch_eq he]
  split_ifs with hfails hnothing
  · exact h.detached
  · -- a timer without a positive timeout is attached, though `event_add` did nothing
    exact { h.detached with
      attached := fun _ => rfl
      allocated := fun _ => by simp [Watcher.detached, he] }
  · obtain ⟨-, hadded⟩ := not_or.mp hfails
    exact { h with
      registered := by simp [held]
      attached := fun _ => rfl
      allocated := fun _ => rfl
      isOpen := fun fd hfd => hopen (not_not.mp hadded) fd (by simpa [held, eq_comm] using hfd)
      base := fun e' he' => by
        obtain rfl := Option.some.inj he'
        exact h.base e he
      pipe := fun hp => ⟨(h.pipe hp).1, fun e' he' => by
        obtain rfl := Option.some.inj he'
        exact (h.pipe hp).2 e he⟩
      destroyed := fun hd => by simp [h.destroyed hd] at he }

/-- Other descriptors in `pipe_`, none of them open -/
theorem Inv.closed (h : Inv k w) {pipe₁ : ℕ} {fds : Finset ℕ}
    (hopen : ∀ fd, .readable fd ∈ w.held → fd ∈ fds) :
    Inv k { w with pipe := (0, pipe₁), openFds := fds } :=
  { h with
    isOpen := hopen
    pipe := fun hp => absurd hp (Nat.lt_irrefl 0) }

theorem Inv.close (h : Inv k w) (hclose : ¬ w.ClosesWatched) : Inv k (w.close k) := by
  cases k with
  | pipe =>
    simp only [Watcher.close, doClose]
    split_ifs with hp
    · have hheld : w.held = [] := held_of_not_inserted fun hi => hclose ⟨hp, hi⟩
      exact h.closed (by simp [hheld])
    · exact h
  | timer => exact h
  | signal => exact h

/-- `Init` calls `Close` a second time when `DoInit` has failed. -/
theorem close_close : (w.close .pipe).close .pipe = w.close .pipe := by
  by_cases hp : 0 < w.pipe.1 <;> simp [Watcher.close, doClose, hp]

/-- Only a pipe watcher has descriptors to close. -/
theorem Inv.not_closesWatched (h : Inv k w) (hk : k ≠ .pipe) : ¬ w.ClosesWatched :=
  fun hc => hk (h.pipe hc.1).1

/-- `event_set` and `event_base_set` on an event that is not registered -/
theorem Inv.initialised (h : Inv k w) (he : w.event.isSome) (hi : ¬ w.inserted) {x : Watched}
    {pipe : ℕ × ℕ} {fds : Finset ℕ} (hpipe : 0 < pipe.1 → k = .pipe ∧ x = .readable pipe.2) :
    Inv k { w with event := some ⟨true, x, false⟩, pipe := pipe, openFds := fds } :=
  { h with
    registered := h.registered.trans (held_of_not_inserted hi)
    attached := fun hins => by simp [inserted] at hins
    allocated := fun _ => rfl
    isOpen := fun fd hfd => by simp [held] at hfd
    base := fun e he' => by
      obtain rfl := Option.some.inj he'
      exact fun _ _ => rfl
    pipe := fun hp => ⟨(hpipe hp).1, fun e he' => by
      obtain rfl := Option.some.inj he'
      exact (hpipe hp).2⟩
    destroyed := fun hd => by simp [h.destroyed hd] at he }

theorem eventBaseSet_eventSet (he : w.event.isSome) (x : Watched) :
    (w.eventSet x).eventBaseSet = { w with event := some ⟨true, x, false⟩ } := by
  obtain ⟨e, he⟩ := Option.isSome_iff_exists.mp he
  simp [eventSet, eventBaseSet, he]

/-- Sockets that cannot be made nonblocking are closed again. -/
theorem Inv.nonblockingFails (h : Inv .pipe w) {fd₀ fd₁ : ℕ}
    (hnew : (Sockets.nonblockingFails fd₀ fd₁).New w) :
    Inv .pipe (w.init (.nonblockingFails fd₀ fd₁) .pipe).2 := by
  obtain ⟨-, hnew₀, hnew₁⟩ := hnew
  have hkept : ∀ fd, .readable fd ∈ w.held → fd ∈ w.openFds ∧ fd ≠ fd₀ ∧ fd ≠ fd₁ := by
    intro fd hfd
    have hfd := h.isOpen fd hfd
    exact ⟨hfd, fun heq => hnew₀ (heq ▸ hfd), fun heq => hnew₁ (heq ▸ hfd)⟩
  by_cases hp : 0 < fd₀
  · simp only [init, doInit, Watcher.close, opens, doClose, gt_iff_lt, if_pos hp, lt_irrefl,
      if_false]
    exact h.closed fun fd hfd => by simp [hkept fd hfd]
  · obtain rfl : fd₀ = 0 := Nat.eq_zero_of_not_pos hp
    simp only [init, doInit, Watcher.close, opens, doClose, gt_iff_lt, lt_irrefl, if_false]
    exact h.closed fun fd hfd => by simp [hkept fd hfd]

theorem Inv.init (h : Inv k w) {sockets : Sockets} (hok : Orderly k w (.init sockets))
    (hnew : sockets.New w) : Inv k (w.init sockets k).2 := by
  cases k with
  | pipe =>
    cases sockets with
    | pairFails =>
      show Inv .pipe ((w.close .pipe).close .pipe)
      -- `DoInit` fails and closes what it has, and `Init` closes once more
      rw [close_close]
      exact h.close hok
    | nonblockingFails fd₀ fd₁ => exact h.nonblockingFails hnew
    | created fd₀ fd₁ =>
      obtain ⟨he, hi⟩ := hok
      have he' : (w.opens fd₀ fd₁).event.isSome := he
      show Inv .pipe ((w.opens fd₀ fd₁).eventSet (.readable fd₁)).eventBaseSet
      rw [eventBaseSet_eventSet he']
      exact h.initialised he hi fun _ => ⟨rfl, rfl⟩
  | timer timeoutMs =>
    obtain ⟨he, hi⟩ := hok
    show Inv (.timer timeoutMs) (w.eventSet .timeout).eventBaseSet
    rw [eventBaseSet_eventSet he]
    exact h.initialised he hi fun hp => nomatch (h.pipe hp).1
  | signal signo =>
    obtain ⟨he, hi⟩ := hok
    show Inv (.signal signo) (w.eventSet (.signal signo)).eventBaseSet
    rw [eventBaseSet_eventSet he]
    exact h.initialised he hi fun hp => nomatch (h.pipe hp).1

theorem Inv.fire (h : Inv k w) : Inv k w.fire := by
  cases he : w.event with
  | none => simpa [Watcher.fire, he] using h
  | some e =>
    have hdel : Inv k w.eventDel := by
      rw [h.eventDel_eq he]
      exact { h.detached with
        attached := fun hi => absurd hi (by simp [inserted, Watcher.detached, he])
        allocated := fun _ => by simp [Watcher.detached, he] }
    obtain ⟨base, watched, marked⟩ := e
    cases watched with
    | readable fd => simpa [Watcher.fire, he] using h
    | signal signo => simpa [Watcher.fire, he] using h
    | timeout => simpa [Watcher.fire, he] using hdel

theorem Inv.setCancelCallback (h : Inv k w) (empty : Bool) : Inv k (w.setCancelCallback empty) :=
  { h with
    callback := fun i hi => by
      cases empty with
      | true => simp [Watcher.setCancelCallback] at hi
      | false =>
        have hi : w.callbacksSet = i := by simpa [Watcher.setCancelCallback] using hi
        show i < w.callbacksSet + 1
        omega
    callbacks := fun i hi => Nat.lt_succ_of_lt (h.callbacks i hi) }

theorem Inv.cancel (h : Inv k w) (hok : Orderly k w .cancel) : Inv k w.cancel := by
  cases hc : w.cancelCallback with
  | none => simpa [Watcher.cancel, hc] using h.freeEvent
  | some i =>
    have hlt := h.callback i hc
    have hnodup : (w.callbacksRun ++ [i]).Nodup := by
      rw [← List.concat_eq_append]
      exact h.nodup.concat (hok i hc)
    have hfreed := h.freed
    simp only [Watcher.cancel, hc, h.freeEvent_eq]
    exact { hfreed with
      callbacks := fun j hj => by
        rcases List.mem_append.mp hj with hj | hj
        · exact h.callbacks j hj
        · obtain rfl := List.mem_singleton.mp hj
          exact hlt
      nodup := hnodup }

theorem Inv.cancelReturns (h : Inv k w) : Inv k w.cancelReturns :=
  { h with callback := fun _ hi => nomatch hi }

theorem Inv.derivedDestructor (h : Inv k w) (hok : Orderly k w .derivedDestructor) :
    Inv k (w.derivedDestructor k) := by
  have hclose : ¬ w.ClosesWatched := by
    cases k with
    | pipe => exact hok
    | timer => exact h.not_closesWatched nofun
    | signal => exact h.not_closesWatched nofun
  exact { h.close hclose with destroyed := nofun }

theorem Inv.baseDestructor (h : Inv k w) : Inv k w.baseDestructor := by
  rw [Watcher.baseDestructor, h.freeEvent_eq]
  exact { h.freed with destroyed := fun _ => rfl }

/-! ## What is left behind -/

/-- libevent holds more than the event shows, so that no `event_del` will empty it. -/
def Stale (w : Watcher) : Prop :=
  w.held.length < w.registered.length

theorem Stale.eventDel (h : Stale w) : Stale w.eventDel := by
  unfold Stale held Watcher.eventDel at *
  cases he : w.event with
  | none => simpa [he] using h
  | some e =>
    cases hi : e.inserted with
    | false => simpa [he, hi] using h
    | true =>
      -- one registration goes; there are at least two
      have hlen : w.registered.length - 1 ≤ (w.registered.erase e.watched).length :=
        List.le_length_erase
      simp only [he, hi, if_true, Bool.false_eq_true, if_false, List.length_cons,
        List.length_nil] at h ⊢
      omega

theorem Stale.eventAdd (h : Stale w) (timeout added : Bool) :
    Stale (w.eventAdd timeout added).2 := by
  unfold Stale held Watcher.eventAdd at *
  cases he : w.event with
  | none => simpa [he] using h
  | some e =>
    simp only [he] at h ⊢
    split_ifs with hfails hnothing
    · simpa [he] using h
    · simpa [he] using h
    · simp only [if_true, List.length_cons, List.length_nil]
      omega

theorem Stale.eventSet (h : Stale w) (x : Watched) : Stale (w.eventSet x).eventBaseSet := by
  unfold Stale held at *
  cases he : w.event with
  | none => simpa [Watcher.eventSet, eventBaseSet, he] using h
  | some e =>
    have hlen : 0 < w.registered.length := by omega
    simpa [Watcher.eventSet, eventBaseSet, he] using hlen

theorem Stale.close (h : Stale w) (k : Kind) : Stale (w.close k) := by
  cases k with
  | pipe =>
    simp only [Watcher.close, doClose]
    split_ifs <;> exact h
  | timer => exact h
  | signal => exact h

/-- The first half of `Watch` -/
theorem Stale.detach (h : Stale w) :
    Stale (if w.attached then { w.eventDel with attached := false } else w) := by
  split_ifs
  · exact h.eventDel
  · exact h

theorem Stale.freeEvent (h : Stale w) : Stale w.freeEvent := by
  have hdetach := h.detach
  cases he : w.event with
  | none => simpa [Watcher.freeEvent, he] using h
  | some e =>
    simp only [Watcher.freeEvent, he]
    exact Nat.lt_of_le_of_lt (Nat.zero_le _) hdetach

theorem Stale.watch (h : Stale w) (timeoutMs : ℤ) (added : Bool) :
    Stale (w.watch timeoutMs added).2 := by
  have hadd := h.detach.eventAdd (decide (timeoutMs > 0)) added
  simp only [Watcher.watch]
  generalize Watcher.eventAdd _ _ _ = r at hadd ⊢
  obtain ⟨ok, w'⟩ := r
  cases ok <;> exact hadd

theorem Stale.init (h : Stale w) (sockets : Sockets) : Stale (w.init sockets k).2 := by
  cases k with
  | pipe =>
    cases sockets with
    | pairFails => exact (h.close .pipe).close .pipe
    | nonblockingFails fd₀ fd₁ =>
      have hopens : Stale (w.opens fd₀ fd₁) := h
      exact (hopens.close .pipe).close .pipe
    | created fd₀ fd₁ =>
      have hopens : Stale (w.opens fd₀ fd₁) := h
      exact hopens.eventSet _
  | timer => exact h.eventSet _
  | signal => exact h.eventSet _

theorem Stale.of_step {op : Op} (h : Stale w) (hst : (watcher k ndebug).step w op w') :
    Stale w' := by
  obtain ⟨-, rfl⟩ := step_cases hst
  cases op with
  | init sockets => exact h.init sockets
  | asyncWait added => cases k <;> exact h.watch _ _
  | fire =>
    simp only [Op.run, Watcher.fire]
    split
    · exact h.eventDel
    · exact h
  | setCancelCallback empty => exact h
  | cancel =>
    simp only [Op.run, Watcher.cancel]
    split <;> exact h.freeEvent
  | cancelReturns => exact h
  | derivedDestructor => exact h.close k
  | baseDestructor => exact h.freeEvent

/-! ## One operation -/

/-- **One operation.** -/
theorem Inv.of_step {op : Op} (h : Inv k w) (hok : Orderly k w op)
    (hst : (watcher k ndebug).step w op w') : Inv k w' := by
  obtain ⟨henabled, rfl⟩ := step_cases hst
  cases op with
  | init sockets => exact h.init hok henabled.2.2
  | asyncWait added =>
    obtain ⟨e, he, hopen⟩ := hok
    cases k with
    | pipe => exact h.watch he hopen
    | timer timeoutMs => exact h.watch he hopen
    | signal signo => exact h.watch he hopen
  | fire => exact h.fire
  | setCancelCallback empty => exact h.setCancelCallback empty
  | cancel => exact h.cancel hok
  | cancelReturns => exact h.cancelReturns
  | derivedDestructor => exact h.derivedDestructor hok
  | baseDestructor => exact h.baseDestructor

/-! ## One operation that is not orderly -/

/-- `Close` on a registered pipe -/
theorem Inv.not_safe_of_close (h : Inv .pipe w) (hc : w.ClosesWatched) :
    ∃ fd, .readable fd ∈ (w.close .pipe).registered ∧ fd ∉ (w.close .pipe).openFds := by
  obtain ⟨hp, hi⟩ := hc
  have hreg := h.registered
  cases he : w.event with
  | none => simp [inserted, he] at hi
  | some e =>
    have hi : e.inserted := by simpa [inserted, he] using hi
    simp only [held, he, if_pos hi, (h.pipe hp).2 e he] at hreg
    refine ⟨w.pipe.2, ?_, ?_⟩ <;> simp [Watcher.close, doClose, hp, hreg]

/-- `event_set` on a null event, or on one that is registered -/
theorem eventSet_breaks (hreg : w.registered = w.held)
    (hok : ¬ (w.event.isSome ∧ ¬ w.inserted)) (x : Watched) :
    (w.eventSet x).eventBaseSet.nullHanded ∨ Stale (w.eventSet x).eventBaseSet := by
  cases he : w.event with
  | none => exact .inl (by simp [eventSet, eventBaseSet, he])
  | some e =>
    have hi : e.inserted := by simpa [inserted, he] using hok
    refine .inr ?_
    rw [eventBaseSet_eventSet (by simp [he])]
    simp [Stale, held, hreg, he, hi]

theorem Safe.not_nullHanded (h : Safe w) : ¬ w.nullHanded := by
  simp [h.notNull]

/-- `Init` on an event that must not be set, or with a pipe to close that is registered -/
theorem Inv.init_breaks (h : Inv k w) {sockets : Sockets} (hok : ¬ Orderly k w (.init sockets)) :
    ¬ Safe (w.init sockets k).2 ∨ Stale (w.init sockets k).2 := by
  have hset : ∀ (v : Watcher) (x : Watched), v.event = w.event → v.registered = w.registered →
      ¬ (w.event.isSome ∧ ¬ w.inserted) →
      ¬ Safe (v.eventSet x).eventBaseSet ∨ Stale (v.eventSet x).eventBaseSet := by
    intro v x hv hreg hno
    have hheld : v.registered = v.held := by
      rw [hreg, h.registered, held, held, hv]
    have hno : ¬ (v.event.isSome ∧ ¬ v.inserted) := by
      rwa [inserted, hv]
    exact (eventSet_breaks hheld hno x).imp_left fun hnull hsafe => hsafe.not_nullHanded hnull
  cases k with
  | pipe =>
    cases sockets with
    | pairFails =>
      -- the second `Close` finds nothing to close
      obtain ⟨fd, hfd, hclosed⟩ := h.not_safe_of_close (not_not.mp hok)
      refine .inl fun hsafe => hclosed ?_
      have hsafe : Safe ((w.close .pipe).close .pipe) := hsafe
      rw [close_close] at hsafe
      exact hsafe.isOpen fd hfd
    | nonblockingFails fd₀ fd₁ => exact absurd trivial hok
    | created fd₀ fd₁ => exact hset (w.opens fd₀ fd₁) _ rfl rfl hok
  | timer => exact hset w _ rfl rfl hok
  | signal => exact hset w _ rfl rfl hok

/-- `Watch` without an event, or on a descriptor that is not open -/
theorem Inv.not_safe_watch (h : Inv k w) {added : Bool}
    (hok : ¬ ∃ e, w.event = some e ∧ (added → ∀ fd, e.watched = .readable fd → fd ∈ w.openFds))
    (timeoutMs : ℤ) : ¬ Safe (w.watch timeoutMs added).2 := by
  intro hsafe
  cases he : w.event with
  | none => exact hsafe.not_nullHanded (h.watch_none he timeoutMs added)
  | some e =>
    -- the descriptor is watched from now on, so a safe watcher has it open
    refine hok ⟨e, he, fun hadded fd hfd => ?_⟩
    rw [h.watch_eq he] at hsafe
    have hadd : ¬ (¬ e.base ∨ ¬ added) := by simp [h.base e he fd hfd, hadded]
    simp only [if_neg hadd, hfd, reduceCtorEq, false_and, if_false] at hsafe
    exact hsafe.isOpen fd (by simp)

/-- **An operation that is not orderly** breaks the property at once, or leaves something behind in
    libevent for good. -/
theorem unsafe_or_stale {op : Op} (h : Inv k w) (hok : ¬ Orderly k w op)
    (hst : (watcher k ndebug).step w op w') : ¬ Safe w' ∨ Stale w' := by
  obtain ⟨-, rfl⟩ := step_cases hst
  cases op with
  | init sockets => exact h.init_breaks hok
  | asyncWait added => cases k <;> exact .inl (h.not_safe_watch hok _)
  | cancel =>
    -- a second `Cancel` would call the callback again
    refine .inl fun hsafe => hok fun i hi hrun => ?_
    have hnodup := hsafe.callbacks
    simp only [Op.run, Watcher.cancel, hi] at hnodup
    exact (List.disjoint_of_nodup_append hnodup) hrun (by simp)
  | derivedDestructor =>
    cases k with
    | pipe =>
      -- ~PipeEventWatcher has closed the descriptor of a registered event
      obtain ⟨fd, hfd, hclosed⟩ := h.not_safe_of_close (not_not.mp hok)
      exact .inl fun hsafe => hclosed (hsafe.isOpen fd hfd)
    | timer => exact absurd trivial hok
    | signal => exact absurd trivial hok
  | fire => exact absurd trivial hok
  | setCancelCallback => exact absurd trivial hok
  | cancelReturns => exact absurd trivial hok
  | baseDestructor => exact absurd trivial hok

/-! ## Whole runs -/

/-- **Releasing in order.** A run whose operations are all orderly is safe throughout. Of the runs
    that end with the destruction no others are. -/
theorem releases_in_order {p : ℕ} {π : List (Op × Watcher)}
    (hrun : (watcher k ndebug).IsRun (.constructed p) π) :
    (Meets (Orderly k) (.constructed p) π → Always Safe (.constructed p) π) ∧
      ((lastState (.constructed p) π).phase = .destroyed → Always Safe (.constructed p) π →
        Meets (Orderly k) (.constructed p) π) := by
  have hinit : Inv k (.constructed p) := .constructed p
  have hkeep : ∀ w op w', Inv k w → Orderly k w op → (watcher k ndebug).step w op w' → Inv k w' :=
    fun _ _ _ h hok hst => h.of_step hok hst
  refine ⟨always_of_meets (fun _ h => h.safe) hkeep hinit hrun, fun hdestroyed hsafe => ?_⟩
  refine meets_of_always hkeep (fun _ _ _ h hno hst => unsafe_or_stale h hno hst)
    (fun _ _ _ h hst => h.of_step hst) hinit hrun ?_ hsafe
  -- a destroyed watcher that is safe has left nothing behind
  intro hstale
  have hempty := (lastState_of_always hsafe).destroyed hdestroyed
  simp [Stale, hempty] at hstale

/-- A pipe watcher that is cancelled before its destruction -/
def cancelled : List (Op × Watcher) :=
  let w₁ := Op.run .pipe (.constructed 0) (.init (.created 5 6))
  let w₂ := Op.run .pipe w₁ (.asyncWait true)
  let w₃ := Op.run .pipe w₂ .cancel
  let w₄ := Op.run .pipe w₃ .derivedDestructor
  [(.init (.created 5 6), w₁), (.asyncWait true, w₂), (.cancel, w₃), (.derivedDestructor, w₄),
    (.baseDestructor, Op.run .pipe w₄ .baseDestructor)]

theorem releases_in_order_cancelled :
    (lastState (.constructed 0) cancelled).phase = .destroyed ∧
      Always Safe (.constructed 0) cancelled := by
  refine ⟨rfl, (@releases_in_order .pipe false 0 _ ?_).1 ?_⟩
  · exact ⟨rfl, rfl, rfl, rfl, rfl, trivial⟩
  · refine ⟨⟨rfl, by decide⟩, ⟨_, rfl, fun _ fd hfd => ?_⟩, nofun, ?_, trivial, trivial⟩
    · cases hfd
      decide
    · exact fun h => absurd h.2 (by decide)

/-- **A pipe closed under libevent.** `Init` and `AsyncWait` succeed, then the watcher is destroyed:
    when `~PipeEventWatcher` has run, libevent still has the closed descriptor registered. -/
theorem destroyed_while_registered :
    ∃ w, (watcher .pipe false).Reachable w ∧
      exec (next .pipe false) (.constructed 0)
        [.init (.created 5 6), .asyncWait true, .derivedDestructor] = some w ∧
      w.registered = [.readable 6] ∧ 6 ∉ w.openFds ∧ ¬ Safe w := by
  have hexec : (exec (next .pipe false) (.constructed 0)
      [.init (.created 5 6), .asyncWait true, .derivedDestructor]).isSome := by decide
  obtain ⟨w, hw⟩ := Option.isSome_iff_exists.mp hexec
  have hwatches : w.registered = [.readable 6] ∧ 6 ∉ w.openFds := by
    cases hw
    decide
  refine ⟨w, Reachable.exec (.init ⟨0, rfl⟩) hw, hw, hwatches.1, hwatches.2, fun h => ?_⟩
  exact hwatches.2 (h.isOpen 6 (by simp [hwatches.1]))

end Watcher

end ReechatBase.EventWatcher
