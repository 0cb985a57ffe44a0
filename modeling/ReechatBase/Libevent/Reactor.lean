import ReechatBase.Libevent.Epoll
import ReechatBase.Libevent.Timers
import ReechatBase.Libevent.Watching

/-!
# The loop and the kernel

The loop of `Timers` with its evmap and the epoll instance behind it. An event is watched as long as
its `EVLIST_INSERTED` is set, whether it then leaves by an `event_del`, by its timeout or by its
callback. Between any two steps the program may open and close descriptors, and the kernel may
refuse any call.

- `evmap_safe`: the assertions of `evmap.c` hold in every run, and what `epoll_wait` reports
  activates the right events;
- `none_lost_iff`: what an event waits for is never missing in the kernel, also when calls of
  `epoll_ctl` fail, exactly as long as no descriptor is closed while it is watched;
- `registered_exactly`: where no deletion fails, nothing else is registered either.
-/

namespace ReechatBase.Libevent

open Function Lib

variable {ε : Type} [DecidableEq ε]

/-! ## The system -/

/-- `EV_READ` and `EV_WRITE` in `ev_events` -/
def Interest.waitsFor (k : Interest) : Io → Bool
  | .read => k.read
  | .write => k.write
  | .closed => false

/-- `ev_events & (EV_READ|EV_WRITE|EV_CLOSED)` -/
def Interest.ioSet (k : Interest) : Finset Io :=
  Finset.univ.filter fun i => k.waitsFor i

/-- What `evmap_io_active_` passes to `event_active_nolock_` -/
def Res.ofIo (what : Finset Io) : Res :=
  ⟨false, decide (.read ∈ what), decide (.write ∈ what)⟩

/-- The loop, the map of its descriptors, and the kernel. -/
structure Reactor (ε : Type) where
  loop : Dispatch ε
  io : EventIoMap ε
  kernel : Kernel

/-- `event_add_nolock_` gets to its call of `evmap_io_add_`. -/
def EventBase.callsEvmap (b : EventBase ε) (k : Interest) (ev : ε) (tv : Option Timeval)
    (a : AddAnswers) : Bool :=
  (b.prepareTimeout ev tv a.reserve).2 ≠ -1 && (k.io && !(b.inserted ev || b.active ev))

section System

variable (fdOf : ε → ℤ) (k : ε → Interest)

/-- The calls of `evmap_io_del_` for events that are deleted, one after the other. -/
def forget : List (ε × CtlAnswers) → EventIoMap ε → Kernel → Option (EventIoMap ε × Kernel)
  | [], m, kernel => some (m, kernel)
  | (e, a) :: l, m, kernel => do
    let (m, kernel, _) ← evmapIoDel epollops m kernel (fdOf e) e (k e).ioSet a
    forget l m kernel

/-- The events that `epoll_dispatch` activates for what `epoll_wait` has reported. -/
def activated (m : EventIoMap ε) (reports : List (ℕ × Finset Io)) : List (ε × Res) :=
  (reports.flatMap fun p => evmapIoActive m (fun e => (k e).ioSet) p.1 p.2).map fun q =>
    (q.1, Res.ofIo q.2)

/-- The events that are deleted between two states of the loop, in some order. -/
def Gone (s t : Dispatch ε) (gone : List (ε × CtlAnswers)) : Prop :=
  (gone.map Prod.fst).Nodup ∧
    ∀ e, e ∈ gone.map Prod.fst ↔ s.base.inserted e = true ∧ t.base.inserted e = false

inductive ReactorLabel (ε : Type) where
  | add (ev : ε) (tv : Option Timeval) (a : EventBase.AddAnswers) (io : IoAddAnswers CtlAnswers)
  /-- A step of the loop that adds no event, and does not wake it up -/
  | loop (l : LoopLabel ε) (gone : List (ε × CtlAnswers))
  /-- `epoll_wait` returns -/
  | dispatch (reports : List (ℕ × Finset Io)) (clock : Timeval) (gone : List (ε × CtlAnswers))
  | openFd (fd : ℕ) (pollable : Bool)
  | closeFd (fd : ℕ)

/-- The steps of a loop of events `k` on the descriptors `fdOf`. -/
inductive ReactorStep : Reactor ε → ReactorLabel ε → Reactor ε → Prop where
  | add {s ev tv a io t m kernel r} :
      evmapIoAdd epollops s.io s.kernel (fdOf ev) ev (k ev).ioSet io = (m, kernel, r) →
      a.evmap = decide (r ≠ -1) → LoopStep k s.loop (.add ev tv a) t →
      ReactorStep s (.add ev tv a io)
        (if s.loop.base.callsEvmap (k ev) ev tv a then ⟨t, m, kernel⟩ else { s with loop := t })
  | loop {s l gone t m kernel} : (∀ ev tv a, l ≠ .add ev tv a) →
      (∀ ready clock, l ≠ .wake ready clock) → LoopStep k s.loop l t → Gone s.loop t gone →
      forget fdOf k gone s.io s.kernel = some (m, kernel) →
      ReactorStep s (.loop l gone) ⟨t, m, kernel⟩
  | dispatch {s reports clock gone t m kernel} :
      (∀ p ∈ reports, s.kernel.interest p.1 ≠ none) →
      LoopStep k s.loop (.wake (activated k s.io reports) clock) t → Gone s.loop t gone →
      forget fdOf k gone s.io s.kernel = some (m, kernel) →
      ReactorStep s (.dispatch reports clock gone) ⟨t, m, kernel⟩
  | openFd {s fd pollable} : s.kernel fd = .closed →
      ReactorStep s (.openFd fd pollable) { s with
        kernel := update s.kernel fd (if pollable then .pollable none else .unpollable) }
  | closeFd {s fd} :
      ReactorStep s (.closeFd fd) { s with kernel := update s.kernel fd .closed }

/-- What the program sees to, as `Sane` has it. -/
def SaneIo (s : Reactor ε) : ReactorLabel ε → Prop
  | .add ev tv a _ => Sane k s.loop (.add ev tv a)
  | _ => True

/-- The loop on a new base and a new epoll instance, with whatever descriptors are open. -/
def reactor : Lts (Reactor ε) (ReactorLabel ε) where
  init s := (loop k).init s.loop ∧ s.io = .init ∧ ∀ fd, s.kernel.interest fd = none
  step s l t := SaneIo k s l ∧ ReactorStep fdOf k s l t

/-- No descriptor is closed while an event that reads or writes it is watched. -/
def ClosesUnwatched (s : Reactor ε) (l : ReactorLabel ε) : Prop :=
  ∀ fd, l = .closeFd fd → ∀ e, s.loop.base.inserted e = true → (k e).io = true → fdOf e ≠ fd

variable {fdOf k} in
omit [DecidableEq ε] in
theorem closesUnwatched_of_ne {s : Reactor ε} {l : ReactorLabel ε} (h : ∀ fd, l ≠ .closeFd fd) :
    ClosesUnwatched fdOf k s l :=
  fun fd heq => absurd heq (h fd)

/-- The events whose deletion a step tells the kernel about, with what it answers. -/
@[simp] def ReactorLabel.deleted : ReactorLabel ε → List (ε × CtlAnswers)
  | .loop _ gone => gone
  | .dispatch _ _ gone => gone
  | _ => []

/-- Besides, no call of `epoll_ctl` is refused for an event that is deleted. -/
def DeletesFreely (s : Reactor ε) (l : ReactorLabel ε) : Prop :=
  ClosesUnwatched fdOf k s l ∧ ∀ p ∈ l.deleted, p.2.first = false ∧ p.2.retry = false

end System

/-! ## Which events are watched -/

theorem Sched.add_watched (s : Sched ε) (k : Interest) (ev : ε) (d : Option Timeval) :
    (s.add k ev d).watched =
      if k.io && !(s.watched ev || decide (ev ∈ s.queue.map Prod.fst)) then
        update s.watched ev true else s.watched := by
  have hnone : (s.add k ev d).watched = (s.add k ev none).watched := by
    cases d <;> rfl
  rw [hnone, add]
  split <;> rfl

@[simp] theorem Sched.ready_watched {s : Sched ε} {l : List (ε × Res)} :
    (s.ready l).watched = s.watched := by
  induction l generalizing s with
  | nil => rfl
  | cons p l ih => exact ih.trans (activate_watched _)

namespace EventBase

variable {b t : EventBase ε} {ev : ε}

/-- After an `event_add`, the event is watched if it was or `evmap_io_add_` has succeeded. -/
theorem Consistent.inserted_eventAdd (hb : b.Consistent) (hn : b.timeheap.n + 1 < 2 ^ 31)
    {k : Interest} {tv : Option Timeval} {a : AddAnswers} {res : ℤ}
    (h : b.eventAdd k ev tv a = some (t, res)) :
    t.inserted = if b.callsEvmap k ev tv a && a.evmap then update b.inserted ev true
      else b.inserted := by
  have hact : b.active ev = decide (ev ∈ b.sched.queue.map Prod.fst) := by
    rw [map_fst_queue, Bool.eq_iff_iff, hb.active_iff, decide_eq_true_iff]
  obtain ⟨t', res', h', hcase⟩ := hb.eventAdd hn k ev tv a
  obtain ⟨rfl, rfl⟩ : t = t' ∧ res = res' := by simpa using h.symm.trans h'
  unfold callsEvmap
  unfold EventBase.eventAdd at h
  rcases hb.prepareTimeout hn ev tv a.reserve with ⟨heap, hres, -⟩ | ⟨hres, -⟩
  · simp only [hres] at h ⊢
    cases hw : k.io && !(b.inserted ev || b.active ev) && !a.evmap with
    | true =>
      simp only [hw] at h
      obtain ⟨rfl, -⟩ := Prod.mk.inj (Option.some.inj h)
      rw [if_neg]
      simp_all
    | false =>
      -- nothing fails any more, so that the event is added
      have hzero : res = 0 := by
        simp only [hw] at h
        obtain ⟨t₁, -, h⟩ := Option.bind_eq_some_iff.mp h
        obtain ⟨t₂, -, h⟩ := Option.bind_eq_some_iff.mp h
        exact (Prod.mk.inj (Option.some.inj h)).2.symm
      have hd := (hcase.resolve_right fun hno => by simp [hzero] at hno).2
      have hins : t.inserted = _ :=
        (congrArg Sched.watched hd.sched_eq).trans (Sched.add_watched ..)
      rw [hins, ← hact]
      congr 1
      simp_all [sched]
  · simp only [hres] at h
    obtain ⟨rfl, -⟩ : b = t ∧ -1 = res := by simpa using h
    simp [hres]

end EventBase
/-- Only an `event_add` makes the loop watch an event. -/
theorem LoopStep.inserted_of_inserted {k : ε → Interest} {s t : Dispatch ε} {l : LoopLabel ε}
    (hst : LoopStep k s l t) (hI : Inv k s) (hadd : ∀ ev tv a, l ≠ .add ev tv a) {e : ε}
    (he : t.base.inserted e = true) : s.base.inserted e = true := by
  have hdel : ∀ {b : EventBase ε} {ev : ε}, b.sched = s.base.sched.del ev →
      b.inserted e = true → s.base.inserted e = true := by
    intro b ev hb he
    have hw : update s.base.inserted ev false e = true :=
      (congrFun (congrArg Sched.watched hb) e).symm.trans he
    by_cases heq : e = ev
    · simp [heq] at hw
    · rwa [update_of_ne heq] at hw
  cases hst with
  | add => exact absurd rfl (hadd _ _ _)
  | @del ev b _ hb =>
    obtain ⟨b', hb', hd, -⟩ := hI.consistent.eventDel ev
    obtain rfl : b = b' := Option.some.inj (hb.symm.trans hb')
    exact hdel hd.sched_eq he
  | start => exact he
  | wait => exact he
  -- `event_active_nolock_` watches nothing, and `timeout_process` only deletes
  | wake _ _ _ _ hproc =>
    obtain ⟨l, -, -, hsched, -⟩ := hI.timeoutProcess hproc
    have hw := congrFun (congrArg Sched.watched hsched) e
    rw [Sched.expire_watched, Sched.ready_watched] at hw
    exact (Bool.and_eq_true_iff.mp (hw.symm.trans he)).1
  | @call ev res b _ hproc =>
    obtain ⟨rest, -, hd⟩ := hI.consistent.processFirst_some hproc
    by_cases hp : (k ev).persist
    · rw [if_pos hp] at hd
      exact (congrFun (congrArg Sched.watched hd.sched_eq) e).symm.trans he
    · rw [if_neg hp] at hd
      exact hdel hd.sched_eq he
  | «return» => exact he
  | leave => exact he

/-- Between two steps without an `event_add`, the events that are deleted are no longer watched. -/
theorem LoopStep.inserted_gone {k : ε → Interest} {s t : Dispatch ε} {l : LoopLabel ε}
    (hst : LoopStep k s l t) (hI : Inv k s) (hadd : ∀ ev tv a, l ≠ .add ev tv a)
    {gone : List (ε × CtlAnswers)} (hgone : Gone s t gone) :
    {e | t.base.inserted e = true} =
      {e | s.base.inserted e = true} \ {e | e ∈ gone.map Prod.fst} := by
  ext e
  simp only [Set.mem_ofPred_eq, Set.mem_sdiff, hgone.2]
  constructor
  · intro he
    exact ⟨hst.inserted_of_inserted hI hadd he, fun h => by simp [he] at h⟩
  · intro h
    by_contra he
    exact h.2 ⟨h.1, Bool.eq_false_iff.mpr he⟩

/-! ## What a call of evmap does to the kernel -/

/-- The kernel has everything that is wanted. -/
def Covers (m : EventIoMap ε) (kernel : Kernel) : Prop :=
  ∀ fd, ∀ i ∈ m.wanted fd, ∃ events, kernel.interest fd = some events ∧ i ∈ events

/-- The kernel has nothing else either. -/
def Mirrors (m : EventIoMap ε) (kernel : Kernel) : Prop :=
  ∀ fd, kernel.interest fd = if m.wanted fd = ∅ then none else some (m.wanted fd)

omit [DecidableEq ε] in
theorem Mirrors.covers {m : EventIoMap ε} {kernel : Kernel} (h : Mirrors m kernel) :
    Covers m kernel := by
  intro fd i hi
  refine ⟨m.wanted fd, ?_, hi⟩
  rw [h fd, if_neg (Finset.ne_empty_of_mem hi)]

/-- From `m` and `kernel`, one call leads to `m'` and `kernel'`: on one descriptor the kernel gets
    what is wanted now, or is left as it is. -/
def Follows (a : CtlAnswers) (m : EventIoMap ε) (kernel : Kernel) (m' : EventIoMap ε)
    (kernel' : Kernel) : Prop :=
  ∃ fd, (∀ e ≠ fd, m'.wanted e = m.wanted e) ∧
    (kernel' = kernel.tell fd (m'.wanted fd) ∨
      kernel' = kernel ∧
        (m'.wanted fd = m.wanted fd ∨ m'.wanted fd ⊆ m.wanted fd ∧ ¬ kernel.Willing fd a))

namespace Follows

variable {m m' : EventIoMap ε} {kernel kernel' : Kernel} {a : CtlAnswers}

omit [DecidableEq ε] in
theorem of_wanted_eq (h : m'.wanted = m.wanted) : Follows a m kernel m' kernel :=
  ⟨0, fun e _ => congrFun h e, .inr ⟨rfl, .inl (congrFun h 0)⟩⟩

omit [DecidableEq ε] in
theorem covers (h : Follows a m kernel m' kernel') (hc : Covers m kernel) : Covers m' kernel' := by
  obtain ⟨fd, hother, hself⟩ := h
  intro e i hi
  by_cases he : e = fd
  · subst he
    -- on the descriptor of the event the kernel was told what is wanted, or was not asked
    rcases hself with rfl | ⟨rfl, hsub⟩
    · refine ⟨m'.wanted e, ?_, hi⟩
      rw [Kernel.interest_tell_self, if_neg (Finset.ne_empty_of_mem hi)]
    · apply hc e i
      rcases hsub with heq | ⟨hsub, -⟩
      · exact heq ▸ hi
      · exact hsub hi
  · rw [hother e he] at hi
    rcases hself with rfl | ⟨rfl, -⟩
    · rw [Kernel.interest_tell_of_ne he]
      exact hc e i hi
    · exact hc e i hi

omit [DecidableEq ε] in
theorem mirrors (h : Follows a m kernel m' kernel') (ha : a.first = false ∧ a.retry = false)
    (hm : Mirrors m kernel) : Mirrors m' kernel' := by
  obtain ⟨fd, hother, hself⟩ := h
  intro e
  by_cases he : e = fd
  · subst he
    rcases hself with rfl | ⟨rfl, heq | ⟨hsub, hno⟩⟩
    · exact Kernel.interest_tell_self
    · rw [heq]
      exact hm e
    · -- a descriptor that cannot be watched has nothing registered
      have hnone : kernel'.interest e = none := by
        cases hk : kernel' e with
        | pollable interest => exact absurd ⟨⟨interest, hk⟩, ha⟩ hno
        | closed => rw [Kernel.interest, hk]
        | unpollable => rw [Kernel.interest, hk]
      have hempty : m.wanted e = ∅ := by
        by_contra hne
        cases hnone.symm.trans ((hm e).trans (if_neg hne))
      rw [hnone, if_pos (Finset.subset_empty.mp (hempty ▸ hsub))]
  · rw [hother e he, ← hm e]
    rcases hself with rfl | ⟨rfl, -⟩
    · exact Kernel.interest_tell_of_ne he
    · rfl

end Follows

section Calls

open EventIoMap

variable {fdOf : ε → ℤ} {events : ε → Finset Io} {m : EventIoMap ε} {kernel : Kernel} {I : Set ε}
  {ev : ε}

omit [DecidableEq ε] in
theorem EventIoMap.Keeps.wanted_insert {m' : EventIoMap ε} (hm : m.Keeps fdOf events I)
    (hm' : m'.Keeps fdOf events (insert ev I)) (fd : ℕ) :
    m'.wanted fd = if fdOf ev = fd then m.wanted fd ∪ events ev else m.wanted fd := by
  ext i
  rw [hm'.mem_wanted]
  by_cases hfd : fdOf ev = fd
  · rw [if_pos hfd, Finset.mem_union, hm.mem_wanted]
    simp [or_and_right, exists_or, hfd, or_comm]
  · rw [if_neg hfd, hm.mem_wanted]
    simp [or_and_right, exists_or, hfd]

omit [DecidableEq ε] in
/-- `evmap_io_add_` on the epoll backend -/
theorem evmapIoAdd_follows (hm : m.Keeps fdOf events I) (hev : ev ∉ I)
    (io : IoAddAnswers CtlAnswers) {m' : EventIoMap ε} {kernel' : Kernel} {r : ℤ}
    (h : evmapIoAdd epollops m kernel (fdOf ev) ev (events ev) io = (m', kernel', r))
    (a : CtlAnswers) :
    Follows a m kernel m' kernel' ∧
      m'.Keeps fdOf events (if r = -1 then I else insert ev I) := by
  obtain ⟨m₁, k₁, r₁, h₁, hcase⟩ := evmapIoAdd_spec epollops kernel hm hev io
  obtain ⟨rfl, rfl, rfl⟩ : m' = m₁ ∧ kernel' = k₁ ∧ r = r₁ := by simpa using h.symm.trans h₁
  rcases hcase with ⟨rfl, hm', hk⟩ | ⟨hr, hm', hk⟩
  · -- a failed call of `evmap_io_add_` has left the kernel as it was
    have hsame : kernel' = kernel := by
      rcases hk with hk | ⟨hsub, hk⟩
      · exact hk
      · have hne := mt Finset.sdiff_eq_empty_iff_subset.mp hsub
        rcases epollops_add io.backend hne with hadd | hadd
        · cases hadd.symm.trans hk
        · exact (Prod.mk.inj (hk.symm.trans hadd.1)).1
    rw [if_pos rfl, hsame]
    exact ⟨.of_wanted_eq (hm'.wanted_eq hm), hm'⟩
  · rw [if_neg hr]
    refine ⟨?_, hm'⟩
    have hwanted := hm.wanted_insert hm'
    rcases hk with ⟨hsub, rfl⟩ | ⟨hpos, hsub, hk⟩
    · -- what the event waits for was wanted already
      apply Follows.of_wanted_eq
      funext fd
      rw [hwanted, ite_eq_right_iff]
      intro hfd
      rw [Finset.union_eq_left]
      simpa [hfd] using hsub
    · refine ⟨(fdOf ev).toNat, fun e he => ?_, .inl ?_⟩
      · rw [hwanted, if_neg]
        intro hfd
        simp [hfd] at he
      · have hne := mt Finset.sdiff_eq_empty_iff_subset.mp hsub
        rcases epollops_add io.backend hne with hadd | hadd
        · -- the kernel is told the old and the new kinds together
          rw [hwanted, if_pos (Int.toNat_of_nonneg hpos).symm, ← Finset.union_sdiff_self_eq_union]
          exact (Prod.mk.inj (hk.symm.trans hadd)).1
        · cases hadd.1.symm.trans hk

variable (kernel)

/-- `evmap_io_del_` on the epoll backend -/
theorem evmapIoDel_follows (hm : m.Keeps fdOf events I) (hev : ev ∈ I) (a : CtlAnswers) :
    ∃ m' kernel' r, evmapIoDel epollops m kernel (fdOf ev) ev (events ev) a =
        some (m', kernel', r) ∧
      m'.Keeps fdOf events (I \ {ev}) ∧ Follows a m kernel m' kernel' := by
  obtain ⟨m', kernel', r, hdel, hm', hk⟩ := evmapIoDel_spec epollops kernel hm hev a
  refine ⟨m', kernel', r, hdel, hm', ?_⟩
  have hwanted := hm'.wanted_insert ((Set.insert_sdiff_self_of_mem hev).symm ▸ hm)
  rcases hk with ⟨hsub, rfl⟩ | ⟨hpos, hsub, rfl⟩
  · -- others wait for the same still
    apply Follows.of_wanted_eq
    funext fd
    rw [hwanted, eq_comm, ite_eq_right_iff]
    intro hfd
    rw [Finset.union_eq_left]
    simpa [hfd] using hsub
  · have hself : m.wanted (fdOf ev).toNat = m'.wanted (fdOf ev).toNat ∪ events ev := by
      rw [hwanted, if_pos (Int.toNat_of_nonneg hpos).symm]
    -- what the backend leaves registered is what is wanted from now on
    have hrest : m.wanted (fdOf ev).toNat \ (events ev \ m'.wanted (fdOf ev).toNat) =
        m'.wanted (fdOf ev).toNat := by
      rw [hself]
      ext i
      simp only [Finset.mem_sdiff, Finset.mem_union]
      tauto
    refine ⟨(fdOf ev).toNat, fun e he => ?_, ?_⟩
    · rw [hwanted, if_neg]
      intro hfd
      simp [hfd] at he
    · rcases epollops_del a (mt Finset.sdiff_eq_empty_iff_subset.mp hsub) with hdel | ⟨hdel, hno⟩
      · rw [hdel, hrest]
        exact .inl rfl
      · rw [hdel]
        -- `epoll_ctl` has refused, so that the kernel keeps too much, never too little
        exact .inr ⟨rfl, .inr ⟨hself ▸ Finset.subset_union_left, hno⟩⟩

/-- A list of deletions -/
theorem forget_follows {k : ε → Interest} {gone : List (ε × CtlAnswers)}
    (hm : m.Keeps fdOf (fun e => (k e).ioSet) I) (hnodup : (gone.map Prod.fst).Nodup)
    (hgone : ∀ e ∈ gone.map Prod.fst, e ∈ I) :
    ∃ m' kernel', forget fdOf k gone m kernel = some (m', kernel') ∧
      m'.Keeps fdOf (fun e => (k e).ioSet) (I \ {e | e ∈ gone.map Prod.fst}) ∧
      (Covers m kernel → Covers m' kernel') ∧
      ((∀ p ∈ gone, p.2.first = false ∧ p.2.retry = false) →
        Mirrors m kernel → Mirrors m' kernel') := by
  induction gone generalizing m kernel I with
  | nil => exact ⟨m, kernel, rfl, by simpa using hm, id, fun _ => id⟩
  | cons p gone ih =>
    obtain ⟨e, a⟩ := p
    obtain ⟨he, hnodup⟩ := List.nodup_cons.mp hnodup
    have heI : e ∈ I := hgone e (List.mem_cons_self ..)
    obtain ⟨m₁, k₁, r, hdel, hm₁, hfollows⟩ := evmapIoDel_follows kernel hm heI a
    obtain ⟨m', k', hforget, hm', hcovers, hmirrors⟩ := ih k₁ hm₁ hnodup fun x hx =>
      ⟨hgone x (List.mem_cons_of_mem _ hx), fun heq => he (heq ▸ hx)⟩
    refine ⟨m', k', ?_, ?_, fun hc => hcovers (hfollows.covers hc), fun hfree hmir => ?_⟩
    · simp [forget, hdel, hforget]
    · -- the first event and the others are all that is gone
      convert hm' using 1
      ext x
      simp
      tauto
    · apply hmirrors fun q hq => hfree q (List.mem_cons_of_mem _ hq)
      exact hfollows.mirrors (hfree _ (List.mem_cons_self ..)) hmir

end Calls

/-! ## The invariant -/

section Invariant

variable {fdOf : ε → ℤ} {k : ε → Interest}

/-- The loop keeps its invariant, and the map holds the events that it watches. -/
structure ReactorInv (fdOf : ε → ℤ) (k : ε → Interest) (s : Reactor ε) : Prop where
  loop : Inv k s.loop
  keeps : s.io.Keeps fdOf (fun e => (k e).ioSet) {e | s.loop.base.inserted e = true}

omit [DecidableEq ε] in
theorem Interest.mem_ioSet {k : Interest} {i : Io} : i ∈ k.ioSet ↔ k.waitsFor i = true := by
  simp [ioSet]

namespace ReactorInv

variable {s t : Reactor ε}

omit [DecidableEq ε] in
theorem mem_wanted (hs : ReactorInv fdOf k s) {fd : ℕ} {i : Io} : i ∈ s.io.wanted fd ↔
    ∃ e, s.loop.base.inserted e = true ∧ fdOf e = fd ∧ (k e).waitsFor i = true := by
  rw [hs.keeps.mem_wanted]
  simp only [Set.mem_ofPred_eq, Interest.mem_ioSet]

omit [DecidableEq ε] in
/-- A descriptor on which no event is watched -/
theorem wanted_eq_empty (hs : ReactorInv fdOf k s) {fd : ℕ}
    (hok : ClosesUnwatched fdOf k s (.closeFd fd)) : s.io.wanted fd = ∅ := by
  rw [Finset.eq_empty_iff_forall_notMem]
  intro i hi
  obtain ⟨e, he, hfd, hwaits⟩ := hs.mem_wanted.mp hi
  refine hok fd rfl e he ?_ hfd
  cases i with
  | read => exact Bool.or_eq_true_iff.mpr (.inl hwaits)
  | write => exact Bool.or_eq_true_iff.mpr (.inr hwaits)
  | closed => cases hwaits

/-- What a step does: it keeps the invariant, and what else there is between the map and the kernel
    under the conditions for it. -/
structure Kept (fdOf : ε → ℤ) (k : ε → Interest) (s : Reactor ε) (l : ReactorLabel ε)
    (t : Reactor ε) : Prop where
  inv : ReactorInv fdOf k t
  covers : ClosesUnwatched fdOf k s l → Covers s.io s.kernel → Covers t.io t.kernel
  mirrors : DeletesFreely fdOf k s l → Mirrors s.io s.kernel → Mirrors t.io t.kernel

theorem add (hs : ReactorInv fdOf k s) {ev : ε} {tv : Option Timeval} {a : EventBase.AddAnswers}
    {io : IoAddAnswers CtlAnswers} {u : Dispatch ε} {m : EventIoMap ε} {kernel : Kernel} {r : ℤ}
    (hok : Sane k s.loop (.add ev tv a))
    (hadd : evmapIoAdd epollops s.io s.kernel (fdOf ev) ev (k ev).ioSet io = (m, kernel, r))
    (hevmap : a.evmap = decide (r ≠ -1)) (hst : LoopStep k s.loop (.add ev tv a) u) :
    Kept fdOf k s (.add ev tv a io)
      (if s.loop.base.callsEvmap (k ev) ev tv a then ⟨u, m, kernel⟩ else { s with loop := u }) := by
  have hloop := hs.loop.step hok hst
  have hins : u.base.inserted = if s.loop.base.callsEvmap (k ev) ev tv a && a.evmap then
      update s.loop.base.inserted ev true else s.loop.base.inserted := by
    cases hst with
    | add _ _ _ heventAdd => exact hs.loop.consistent.inserted_eventAdd hok.1 heventAdd
  by_cases hcalls : s.loop.base.callsEvmap (k ev) ev tv a
  · -- `event_add_nolock_` calls evmap only for an event that is not watched
    have hev : ev ∉ {e | s.loop.base.inserted e = true} := by
      intro h
      simp [EventBase.callsEvmap, show s.loop.base.inserted ev = true from h] at hcalls
    have hfollows := evmapIoAdd_follows hs.keeps hev io hadd
    have hset : {e | u.base.inserted e = true} =
        if r = -1 then {e | s.loop.base.inserted e = true}
        else insert ev {e | s.loop.base.inserted e = true} := by
      rw [hins, hcalls, hevmap]
      by_cases hr : r = -1
      · simp [hr]
      · ext e
        by_cases he : e = ev <;> simp [hr, he]
    rw [if_pos hcalls]
    exact ⟨⟨hloop, hset ▸ (hfollows ⟨false, false⟩).2⟩,
      fun _ => (hfollows ⟨false, false⟩).1.covers,
      fun _ => (hfollows ⟨false, false⟩).1.mirrors ⟨rfl, rfl⟩⟩
  · rw [if_neg hcalls]
    have hsame : u.base.inserted = s.loop.base.inserted := by
      rw [hins, if_neg]
      simp [hcalls]
    exact ⟨⟨hloop, hsame.symm ▸ hs.keeps⟩, fun _ => id, fun _ => id⟩

/-- A step of the loop without an `event_add` -/
theorem forget (hs : ReactorInv fdOf k s) {l : LoopLabel ε} (hadd : ∀ ev tv a, l ≠ .add ev tv a)
    {u : Dispatch ε} (hst : LoopStep k s.loop l u) {gone : List (ε × CtlAnswers)}
    (hgone : Gone s.loop u gone) {m : EventIoMap ε} {kernel : Kernel}
    (hforget : Libevent.forget fdOf k gone s.io s.kernel = some (m, kernel))
    {label : ReactorLabel ε} (hlabel : label.deleted = gone) :
    Kept fdOf k s label ⟨u, m, kernel⟩ := by
  have hok : Sane k s.loop l := by
    cases l with
    | add ev tv a => exact absurd rfl (hadd ev tv a)
    | _ => trivial
  obtain ⟨m', kernel', hforget', hkeeps, hcovers, hmirrors⟩ :=
    forget_follows s.kernel hs.keeps hgone.1 fun e he => ((hgone.2 e).mp he).1
  obtain ⟨rfl, rfl⟩ : m = m' ∧ kernel = kernel' := by simpa using hforget.symm.trans hforget'
  refine ⟨⟨hs.loop.step hok hst, ?_⟩, fun _ => hcovers, fun hfree => hmirrors (hlabel ▸ hfree.2)⟩
  rw [hst.inserted_gone hs.loop hadd hgone]
  exact hkeeps

omit [DecidableEq ε] in
/-- A descriptor is opened or closed. -/
theorem setDesc (hs : ReactorInv fdOf k s) {fd : ℕ} {d : Desc} {l : ReactorLabel ε}
    (hd : Kernel.interest (update s.kernel fd d) fd = none)
    (hunwanted : ClosesUnwatched fdOf k s l → Covers s.io s.kernel → s.io.wanted fd = ∅) :
    Kept fdOf k s l { s with kernel := update s.kernel fd d } := by
  have hother : ∀ {e : ℕ}, e ≠ fd →
      Kernel.interest (update s.kernel fd d) e = s.kernel.interest e := by
    intro e he
    simp [Kernel.interest, he]
  refine ⟨⟨hs.loop, hs.keeps⟩, fun hok hc => ?_, fun hok hmir => ?_⟩
  · intro e i hi
    by_cases he : e = fd
    · -- nobody waits for the descriptor that changes
      rw [he, hunwanted hok hc] at hi
      exact absurd hi (Finset.notMem_empty i)
    · obtain ⟨events, hevents, hmem⟩ := hc e i hi
      exact ⟨events, (hother he).trans hevents, hmem⟩
  · intro e
    by_cases he : e = fd
    · rw [he, hunwanted hok.1 hmir.covers, if_pos rfl]
      exact hd
    · exact (hother he).trans (hmir e)

theorem step (hs : ReactorInv fdOf k s) {l : ReactorLabel ε} (hok : SaneIo k s l)
    (hst : ReactorStep fdOf k s l t) : Kept fdOf k s l t := by
  cases hst with
  | add hadd hevmap hloop => exact hs.add hok hadd hevmap hloop
  | loop hadd _ hloop hgone hforget => exact hs.forget hadd hloop hgone hforget rfl
  | dispatch _ hloop hgone hforget => exact hs.forget (by simp) hloop hgone hforget rfl
  | @openFd fd pollable hclosed =>
    refine hs.setDesc (by cases pollable <;> simp [Kernel.interest]) fun _ hc => ?_
    -- on a closed descriptor nothing was registered, so that nothing is wanted
    rw [Finset.eq_empty_iff_forall_notMem]
    intro i hi
    obtain ⟨events, hevents, -⟩ := hc fd i hi
    rw [Kernel.interest, hclosed] at hevents
    cases hevents
  | closeFd => exact hs.setDesc (by simp [Kernel.interest]) fun hok _ => hs.wanted_eq_empty hok

theorem of_init (hinit : (reactor fdOf k).init s) :
    ReactorInv fdOf k s ∧ Mirrors s.io s.kernel := by
  obtain ⟨hloop, hio, hkernel⟩ := hinit
  obtain ⟨⟨p, evTimeout, evRes, hbase⟩, -⟩ := id hloop
  have hnone : {e | s.loop.base.inserted e = true} = ∅ := by
    rw [hbase]
    exact Set.eq_empty_of_forall_notMem fun _ h => Bool.false_ne_true h
  refine ⟨⟨Inv.of_reachable (.init hloop), ?_⟩, fun fd => ?_⟩
  · rw [hnone, hio]
    exact EventIoMap.init_keeps
  · rw [hkernel, hio]
    rfl

theorem of_reachable (hs : (reactor fdOf k).Reachable s) : ReactorInv fdOf k s :=
  hs.invariant (fun _ h => (of_init h).1) fun _ _ _ hI hst => (hI.step hst.1 hst.2).inv

end ReactorInv

end Invariant

/-! ## What the loop relies on -/

/-- Events that read descriptor 3 -/
def readers : ℕ → Interest :=
  fun _ => ⟨true, false, true⟩

/-- A new loop for them. -/
def noReader : Reactor ℕ :=
  ⟨twoTimers, .init, fun _ => .closed⟩

/-- The descriptor is opened, and event 0 is added. -/
theorem readers_run :
    ∃ s t, (reactor (fun _ => 3) readers).init noReader ∧
      (reactor (fun _ => 3) readers).IsRun noReader
        [(.openFd 3 true, s),
          (.add 0 none ⟨true, true, true, ⟨5, 0⟩⟩ ⟨true, true, false, false⟩, t)] ∧
      t.loop.base.inserted 0 = true ∧ t.kernel.interest 3 = some {.read} := by
  refine ⟨_, _, ⟨⟨⟨_, _, _, rfl⟩, rfl, by decide, rfl, fun _ => rfl⟩, rfl, fun _ => rfl⟩,
    ⟨⟨trivial, .openFd rfl⟩, ⟨⟨by decide, fun t ht => by cases ht⟩,
      .add rfl rfl (.add (.inl rfl) (by decide) (by decide) rfl)⟩, trivial⟩, rfl, ?_⟩
  decide

section Main

variable {fdOf : ε → ℤ} {k : ε → Interest} {s : Reactor ε}

omit [DecidableEq ε] in
theorem mem_activated {m : EventIoMap ε} {I : Set ε}
    (hm : m.Keeps fdOf (fun e => (k e).ioSet) I) {reports : List (ℕ × Finset Io)} {e : ε}
    {res : Res} : (e, res) ∈ activated k m reports ↔
      ∃ p ∈ reports, e ∈ I ∧ fdOf e = p.1 ∧ (k e).ioSet ∩ p.2 ≠ ∅ ∧
        res = Res.ofIo ((k e).ioSet ∩ p.2) := by
  unfold activated
  simp only [List.mem_map, List.mem_flatMap, Prod.exists, Prod.mk.injEq]
  constructor
  · intro h
    obtain ⟨e', w, ⟨fd, what, hp, hmem⟩, rfl, rfl⟩ := h
    obtain ⟨-, hI, hfd, rfl, hw⟩ := ((evmapIoActive_spec hm fd what).2 e' w).mp hmem
    exact ⟨fd, what, hp, hI, hfd, hw, rfl⟩
  · intro h
    obtain ⟨fd, what, hp, hI, hfd, hw, rfl⟩ := h
    refine ⟨e, _, ⟨fd, what, hp, ?_⟩, rfl, rfl⟩
    exact ((evmapIoActive_spec hm fd what).2 e _).mpr ⟨Int.natCast_nonneg fd, hI, hfd, rfl, hw⟩

/-- **The assertions of `evmap.c` hold**, whatever the program opens and closes and the kernel
    refuses: any events that are watched can be deleted, in any order, and what `epoll_wait`
    reports on a descriptor activates exactly the events there that wait for it. -/
theorem evmap_safe (hs : (reactor fdOf k).Reachable s) :
    (∀ gone : List (ε × CtlAnswers), (gone.map Prod.fst).Nodup →
      (∀ p ∈ gone, s.loop.base.inserted p.1 = true) →
        ∃ m kernel, forget fdOf k gone s.io s.kernel = some (m, kernel)) ∧
      ∀ reports e res, (e, res) ∈ activated k s.io reports ↔
        ∃ p ∈ reports, s.loop.base.inserted e = true ∧ fdOf e = p.1 ∧ (k e).ioSet ∩ p.2 ≠ ∅ ∧
          res = Res.ofIo ((k e).ioSet ∩ p.2) := by
  have hI := ReactorInv.of_reachable hs
  refine ⟨fun gone hnodup hgone => ?_, fun reports e res => mem_activated hI.keeps⟩
  obtain ⟨m, kernel, hforget, -⟩ := forget_follows s.kernel hI.keeps hnodup (by
    intro e he
    obtain ⟨p, hp, rfl⟩ := List.mem_map.mp he
    exact hgone p hp)
  exact ⟨m, kernel, hforget⟩

/-- Where event 0 reads descriptor 3, it can be deleted, and a report activates it. -/
theorem evmap_safe_readers :
    ∃ s : Reactor ℕ, (∃ m kernel, forget (fun _ => 3) readers [(0, ⟨false, false⟩)] s.io s.kernel =
        some (m, kernel)) ∧
      (0, ⟨false, true, false⟩) ∈ activated readers s.io [(3, {.read})] := by
  obtain ⟨s, t, hinit, hrun, hins, -⟩ := readers_run
  have hs : (reactor (fun _ => 3) readers).Reachable t :=
    ((Lts.ReachableBy.init hinit).step trivial hrun.1).step trivial hrun.2.1
  have hsafe := evmap_safe hs
  refine ⟨t, hsafe.1 _ (by decide) (by simpa using hins), (hsafe.2 _ _ _).mpr ?_⟩
  exact ⟨(3, {.read}), List.mem_singleton.mpr rfl, hins, rfl, by decide, by decide⟩

/-- What an event that is watched waits for is registered with the kernel. -/
def NoneLost (fdOf : ε → ℤ) (k : ε → Interest) (s : Reactor ε) : Prop :=
  ∀ e, s.loop.base.inserted e = true → 0 ≤ fdOf e → ∀ i, (k e).waitsFor i = true →
    ∃ events, s.kernel.interest (fdOf e).toNat = some events ∧ i ∈ events

omit [DecidableEq ε] in
theorem ReactorInv.covers_iff (hs : ReactorInv fdOf k s) :
    Covers s.io s.kernel ↔ NoneLost fdOf k s := by
  constructor
  · intro hc e he hpos i hi
    exact hc _ i (hs.mem_wanted.mpr ⟨e, he, (Int.toNat_of_nonneg hpos).symm, hi⟩)
  · intro hlost fd i hi
    obtain ⟨e, he, hfd, hwaits⟩ := hs.mem_wanted.mp hi
    have hevents := hlost e he (hfd ▸ Int.natCast_nonneg fd) i hwaits
    rwa [hfd, Int.toNat_natCast] at hevents

/-- **No event is lost** in a run if and only if no descriptor is closed while it is watched, also
    where calls of `epoll_ctl` are refused. -/
theorem none_lost_iff (hs : (reactor fdOf k).init s) {π : List (ReactorLabel ε × Reactor ε)}
    (hrun : (reactor fdOf k).IsRun s π) :
    Lts.Always (NoneLost fdOf k) s π ↔ Lts.Meets (ClosesUnwatched fdOf k) s π := by
  obtain ⟨hI, hmir⟩ := ReactorInv.of_init hs
  have hc : Covers s.io s.kernel := hmir.covers
  refine Lts.always_iff_meets (I := fun s => ReactorInv fdOf k s ∧ Covers s.io s.kernel)
    (fun s hs => hs.1.covers_iff.mp hs.2) (fun s l t hs hok hst => ?_)
    (fun s l t hs hno hst => ?_) ⟨hI, hc⟩ hrun
  · have hkept := hs.1.step hst.1 hst.2
    exact ⟨hkept.inv, hkept.covers hok hs.2⟩
  · -- the step closes a descriptor, and the kernel forgets what an event there waits for
    unfold ClosesUnwatched at hno
    push Not at hno
    obtain ⟨fd, rfl, e, he, hio, hfd⟩ := hno
    obtain ⟨i, hi⟩ : ∃ i, (k e).waitsFor i = true := by
      rcases Bool.or_eq_true_iff.mp hio with h | h
      · exact ⟨.read, h⟩
      · exact ⟨.write, h⟩
    cases hst.2 with
    | closeFd =>
      intro hlost
      obtain ⟨events, hevents, -⟩ := hlost e he (hfd ▸ Int.natCast_nonneg fd) i hi
      simp [hfd, Kernel.interest] at hevents

/-- Event 0 keeps its registration until its descriptor is closed. -/
theorem none_lost_iff_readers :
    ∃ (π : List (ReactorLabel ℕ × Reactor ℕ)) (p : ReactorLabel ℕ × Reactor ℕ),
      Lts.Always (NoneLost (fun _ => 3) readers) noReader π ∧
      ¬ Lts.Always (NoneLost (fun _ => 3) readers) noReader (π ++ [p]) := by
  obtain ⟨s, t, hinit, hrun, hins, -⟩ := readers_run
  refine ⟨_, (.closeFd 3, { t with kernel := update t.kernel 3 .closed }),
    (none_lost_iff hinit hrun).mpr ?_, mt (none_lost_iff hinit ?_).mp ?_⟩
  · exact ⟨closesUnwatched_of_ne (by simp), closesUnwatched_of_ne (by simp), trivial⟩
  · exact ⟨hrun.1, hrun.2.1, ⟨trivial, .closeFd⟩, trivial⟩
  · intro hmeets
    exact hmeets.2.2.1 3 rfl 0 hins rfl rfl

/-- **Nothing else is registered.** Where the kernel refuses no deletion either, it has for every
    descriptor what the events there wait for together, and the descriptor itself only if there is
    such an event. So nothing that it reports of this is reported for nothing. -/
theorem registered_exactly (hs : (reactor fdOf k).ReachableBy (DeletesFreely fdOf k) s) :
    (∀ fd events, s.kernel.interest fd = some events ↔
      events ≠ ∅ ∧ ∀ i, i ∈ events ↔
        ∃ e, s.loop.base.inserted e = true ∧ fdOf e = fd ∧ (k e).waitsFor i = true) ∧
      ∀ fd events what, s.kernel.interest fd = some events → events ∩ what ≠ ∅ →
        ∃ e res, (e, res) ∈ activated k s.io [(fd, what)] := by
  obtain ⟨hI, hmir⟩ : ReactorInv fdOf k s ∧ Mirrors s.io s.kernel := by
    refine hs.invariant (I := fun s => ReactorInv fdOf k s ∧ Mirrors s.io s.kernel)
      (fun _ => ReactorInv.of_init) fun s l t hI hok hst => ?_
    have hkept := hI.1.step hst.1 hst.2
    exact ⟨hkept.inv, hkept.mirrors hok hI.2⟩
  -- the kernel knows what is wanted, and that is what the events of the map wait for
  have hexact : ∀ fd events, s.kernel.interest fd = some events ↔
      events ≠ ∅ ∧ ∀ i, i ∈ events ↔
        ∃ e, s.loop.base.inserted e = true ∧ fdOf e = fd ∧ (k e).waitsFor i = true := by
    intro fd events
    simp only [hmir fd, ← hI.mem_wanted, ← Finset.ext_iff]
    by_cases hempty : s.io.wanted fd = ∅
    · simp [hempty]
    · simp [hempty]
      grind
  refine ⟨hexact, fun fd events what hevents hwhat => ?_⟩
  -- some event waits for one of the kinds reported
  obtain ⟨i, hi⟩ := Finset.nonempty_iff_ne_empty.mpr hwhat
  obtain ⟨hmem, hiw⟩ := Finset.mem_inter.mp hi
  obtain ⟨e, he, hfd, hwaits⟩ := (((hexact fd events).mp hevents).2 i).mp hmem
  refine ⟨e, _, (mem_activated hI.keeps).mpr
    ⟨(fd, what), List.mem_singleton.mpr rfl, he, hfd, ?_, rfl⟩⟩
  exact Finset.ne_empty_of_mem (Finset.mem_inter.mpr ⟨Interest.mem_ioSet.mpr hwaits, hiw⟩)

/-- What is registered for event 0 is not reported for nothing. -/
theorem registered_exactly_readers :
    ∃ s : Reactor ℕ, s.kernel.interest 3 = some {.read} ∧
      ∃ e res, (e, res) ∈ activated readers s.io [(3, {.read})] := by
  obtain ⟨s, t, hinit, hrun, -, hevents⟩ := readers_run
  have hs : (reactor (fun _ => 3) readers).ReachableBy (DeletesFreely (fun _ => 3) readers) t :=
    ((Lts.ReachableBy.init hinit).step ⟨closesUnwatched_of_ne (by simp), by simp⟩ hrun.1).step
      ⟨closesUnwatched_of_ne (by simp), by simp⟩ hrun.2.1
  have hreport := (registered_exactly hs).2 3 _ {.read} hevents (by decide)
  exact ⟨t, hevents, hreport⟩

end Main

end ReechatBase.Libevent
