import ReechatBase.Libevent.Reactor

/-!
# The descriptors of the program

A descriptor that the loop watches belongs to a `TcpSocketWrapper`, with an event to read and one to
write (a listening one has only the first), or to a `PipeEventWatcher`, with an event to read. All
of them come and go, and the kernel gives a descriptor that was closed to the next one that asks.

libevent relies on a descriptor not being closed while it is watched. `~TcpSocketWrapper` deletes
its events and closes the descriptor then; `~PipeEventWatcher` closes the pipe, and only behind it
`~EventWatcher` deletes the event.

Main result: `registrations_kept_iff`. However many sockets and pipes there are, what an event waits
for is always registered with the kernel exactly if no pipe watcher is destroyed while attached.
-/

namespace ReechatBase.Descriptors

open Function Lib Libevent

/-! ## The program -/

inductive Kind where
  | socket
  | pipe
  deriving DecidableEq

/-- The objects `ω` that the program ever creates, with their descriptors (`socketfd_`, `pipe_[1]`;
    none of them is 0) and their events `ε`. -/
structure Setup (ε ω : Type) where
  kind : ω → Kind
  fd : ω → ℕ
  events : ω → List ε
  owner : ε → ω
  interest : ε → Interest
  mem_events : ∀ e o, e ∈ events o ↔ owner e = o
  /-- `event_set(event_, pipe_[1], EV_READ | EV_PERSIST, ..)` -/
  reads : ∀ e, kind (owner e) = .pipe → (interest e).read = true

/-- A statement of a destructor -/
inductive Action (ε : Type) where
  /-- `event_del`, without effect on an event that is not added -/
  | del (e : ε)
  /-- `EVUTIL_CLOSESOCKET` -/
  | close

/-- The life of an object; in its destructor, what is left of that. -/
inductive Phase (ε : Type) where
  | unborn
  | live
  | ending (todo : List (Action ε))

/-- The object has its descriptor. -/
def Phase.Holds {ε : Type} : Phase ε → Prop
  | .unborn => False
  | .live => True
  | .ending todo => .close ∈ todo

/-- The object has still to delete its event. -/
def Phase.Keeps {ε : Type} (e : ε) : Phase ε → Prop
  | .unborn => False
  | .live => True
  | .ending todo => .del e ∈ todo ∧ .close ∈ todo

theorem Phase.Keeps.holds {ε : Type} {e : ε} {q : Phase ε} (h : q.Keeps e) : q.Holds := by
  cases q with
  | unborn => exact h
  | live => trivial
  | ending todo => exact h.2

variable {ε ω : Type}

namespace Setup

variable (p : Setup ε ω)

def fdOf (e : ε) : ℤ := p.fd (p.owner e)

/-- `~TcpSocketWrapper`; `~PipeEventWatcher` and `~EventWatcher` -/
def destructor (o : ω) : List (Action ε) :=
  match p.kind o with
  | .socket => (p.events o).map .del ++ [.close]
  | .pipe => .close :: (p.events o).map .del

end Setup

/-- The loop, its map and the kernel, and what has become of the objects. -/
structure World (ε ω : Type) where
  reactor : Reactor ε
  phase : ω → Phase ε

inductive Label (ε ω : Type) where
  | create (o : ω) (pollable : Bool)
  | add (ev : ε) (tv : Option Timeval) (a : EventBase.AddAnswers) (io : IoAddAnswers CtlAnswers)
  /-- A step of the loop, or an `event_del` -/
  | loop (l : LoopLabel ε) (gone : List (ε × CtlAnswers))
  | dispatch (reports : List (ℕ × Finset Io)) (clock : Timeval) (gone : List (ε × CtlAnswers))
  /-- The destructor begins. -/
  | destroy (o : ω)
  | del (o : ω) (gone : List (ε × CtlAnswers))
  | close (o : ω)
  /-- The rest of the process opens and closes descriptors. -/
  | openOther (fd : ℕ) (pollable : Bool)
  | closeOther (fd : ℕ)

section System

variable [DecidableEq ε] [DecidableEq ω] (p : Setup ε ω)

inductive Step : World ε ω → Label ε ω → World ε ω → Prop where
  | create {w o pollable r} : w.phase o = .unborn →
      ReactorStep p.fdOf p.interest w.reactor (.openFd (p.fd o) pollable) r →
      Step w (.create o pollable) ⟨r, update w.phase o .live⟩
  | add {w ev tv a io r} : w.phase (p.owner ev) = .live →
      SaneIo p.interest w.reactor (.add ev tv a io) →
      ReactorStep p.fdOf p.interest w.reactor (.add ev tv a io) r →
      Step w (.add ev tv a io) { w with reactor := r }
  | loop {w l gone r} : ReactorStep p.fdOf p.interest w.reactor (.loop l gone) r →
      Step w (.loop l gone) { w with reactor := r }
  | dispatch {w reports clock gone r} :
      ReactorStep p.fdOf p.interest w.reactor (.dispatch reports clock gone) r →
      Step w (.dispatch reports clock gone) { w with reactor := r }
  | destroy {w o} : w.phase o = .live →
      Step w (.destroy o) { w with phase := update w.phase o (.ending (p.destructor o)) }
  | del {w o e todo gone r} : w.phase o = .ending (.del e :: todo) →
      ReactorStep p.fdOf p.interest w.reactor (.loop (.del e) gone) r →
      Step w (.del o gone) ⟨r, update w.phase o (.ending todo)⟩
  | close {w o todo r} : w.phase o = .ending (.close :: todo) →
      ReactorStep p.fdOf p.interest w.reactor (.closeFd (p.fd o)) r →
      Step w (.close o) ⟨r, update w.phase o (.ending todo)⟩
  | openOther {w fd pollable r} :
      ReactorStep p.fdOf p.interest w.reactor (.openFd fd pollable) r →
      Step w (.openOther fd pollable) { w with reactor := r }
  | closeOther {w fd r} : (∀ o, (w.phase o).Holds → p.fd o ≠ fd) →
      ReactorStep p.fdOf p.interest w.reactor (.closeFd fd) r →
      Step w (.closeOther fd) { w with reactor := r }

/-- The program from the start. -/
def program : Lts (World ε ω) (Label ε ω) where
  init w := (reactor p.fdOf p.interest).init w.reactor ∧ ∀ o, w.phase o = .unborn
  step := Step p

/-- No pipe watcher is destroyed while its event is added. -/
def Detached (w : World ε ω) : Label ε ω → Prop
  | .close o => p.kind o = .pipe → ∀ e ∈ p.events o, w.reactor.loop.base.inserted e = false
  | _ => True

end System

/-! ## What a step of the loop does -/

section Reactor

variable [DecidableEq ε] {fdOf : ε → ℤ} {k : ε → Interest} {s t : Reactor ε} {l : ReactorLabel ε}

/-- An event is watched only if it was, or has just been added. -/
theorem inserted_of_step (hs : ReactorInv fdOf k s) (hok : SaneIo k s l)
    (hst : ReactorStep fdOf k s l t) {e : ε} (he : t.loop.base.inserted e = true) :
    s.loop.base.inserted e = true ∨ ∃ tv a io, l = .add e tv a io := by
  cases hst with
  | @add ev tv a io u m kernel r _ _ hloop =>
    have hu : u.base.inserted e = true := by
      split at he <;> exact he
    have hins : u.base.inserted = if s.loop.base.callsEvmap (k ev) ev tv a && a.evmap then
        update s.loop.base.inserted ev true else s.loop.base.inserted := by
      cases hloop with
      | add _ _ _ heventAdd => exact hs.loop.consistent.inserted_eventAdd hok.1 heventAdd
    by_cases heq : e = ev
    · exact .inr ⟨tv, a, io, by rw [heq]⟩
    · -- another event is where it was
      rw [hins] at hu
      split at hu
      · rw [update_of_ne heq] at hu
        exact .inl hu
      · exact .inl hu
  | loop hadd _ hloop _ _ => exact .inl (hloop.inserted_of_inserted hs.loop hadd he)
  | dispatch _ hloop _ _ => exact .inl (hloop.inserted_of_inserted hs.loop (by simp) he)
  | openFd _ => exact .inl he
  | closeFd => exact .inl he

theorem not_inserted_of_del (hs : ReactorInv fdOf k s) {e : ε} {gone : List (ε × CtlAnswers)}
    (hst : ReactorStep fdOf k s (.loop (.del e) gone) t) :
    t.loop.base.inserted e = false := by
  cases hst with
  | loop _ _ hloop _ _ =>
    cases hloop with
    | del _ hdel =>
      obtain ⟨b, hb, hdoes, -⟩ := hs.loop.consistent.eventDel e
      obtain rfl := Option.some.inj (hdel.symm.trans hb)
      have hgone : (s.loop.base.sched.del e).watched e = false := by simp [Sched.del]
      exact (congrFun (congrArg Sched.watched hdoes.sched_eq) e).trans hgone

/-! ### Which descriptors are open -/

variable {m m' : EventIoMap ε} {kernel kernel' : Kernel} {fd : ℕ}

omit [DecidableEq ε] in
theorem tell_ne_closed {events : Finset Io} {x : ℕ} (h : kernel fd ≠ .closed) :
    kernel.tell x events fd ≠ .closed := by
  unfold Kernel.tell
  by_cases hx : fd = x
  · subst hx
    cases hk : kernel fd with
    | closed => exact absurd hk h
    | unpollable => split <;> simp [hk]
    | pollable => split <;> simp
  · split
    · cases kernel x with
      | pollable => simpa [update_of_ne hx] using h
      | closed => exact h
      | unpollable => exact h
    · rwa [update_of_ne hx]

omit [DecidableEq ε] in
theorem ne_closed_of_follows {a : CtlAnswers} (hf : Follows a m kernel m' kernel')
    (h : kernel fd ≠ .closed) : kernel' fd ≠ .closed := by
  obtain ⟨x, -, rfl | ⟨rfl, -⟩⟩ := hf
  · exact tell_ne_closed h
  · exact h

theorem ne_closed_of_forget {gone : List (ε × CtlAnswers)} {I : Set ε}
    (hm : m.Keeps fdOf (fun e => (k e).ioSet) I) (hnodup : (gone.map Prod.fst).Nodup)
    (hgone : ∀ e ∈ gone.map Prod.fst, e ∈ I)
    (hf : forget fdOf k gone m kernel = some (m', kernel')) (h : kernel fd ≠ .closed) :
    kernel' fd ≠ .closed := by
  induction gone generalizing m kernel I with
  | nil =>
    obtain ⟨-, rfl⟩ := Prod.mk.inj (Option.some.inj hf)
    exact h
  | cons q gone ih =>
    obtain ⟨e, a⟩ := q
    obtain ⟨he, hnodup⟩ := List.nodup_cons.mp hnodup
    have heI : e ∈ I := hgone e (List.mem_cons_self ..)
    obtain ⟨m₁, k₁, r, hdel, hm₁, hfollows⟩ := evmapIoDel_follows kernel hm heI a
    -- the first deletion may call `epoll_ctl`, which closes nothing
    have hrest : forget fdOf k gone m₁ k₁ = some (m', kernel') := by
      simpa [forget, hdel] using hf
    apply ih hm₁ hnodup (fun x hx => ?_) hrest (ne_closed_of_follows hfollows h)
    exact ⟨hgone x (List.mem_cons_of_mem _ hx), fun heq => he (heq ▸ hx)⟩

/-- Only a `close` closes a descriptor. -/
theorem ne_closed_of_step (hs : ReactorInv fdOf k s) (hst : ReactorStep fdOf k s l t)
    (hl : l ≠ .closeFd fd) (h : s.kernel fd ≠ .closed) : t.kernel fd ≠ .closed := by
  cases hst with
  | @add ev tv a io u m kernel r hadd _ _ =>
    by_cases hcalls : s.loop.base.callsEvmap (k ev) ev tv a = true
    · have hev : ev ∉ {e | s.loop.base.inserted e = true} := by
        intro hev
        simp [EventBase.callsEvmap, show s.loop.base.inserted ev = true from hev] at hcalls
      rw [if_pos hcalls]
      exact ne_closed_of_follows (evmapIoAdd_follows hs.keeps hev io hadd ⟨false, false⟩).1 h
    · rw [if_neg hcalls]
      exact h
  | loop _ _ _ hgone hforget =>
    exact ne_closed_of_forget hs.keeps hgone.1 (fun e he => ((hgone.2 e).mp he).1) hforget h
  | dispatch _ _ hgone hforget =>
    exact ne_closed_of_forget hs.keeps hgone.1 (fun e he => ((hgone.2 e).mp he).1) hforget h
  | @openFd x pollable _ =>
    by_cases hx : fd = x
    · -- a descriptor is opened, so it is not closed
      subst hx
      cases pollable <;> simp
    · simpa [update_of_ne hx] using h
  | @closeFd x =>
    have hx : fd ≠ x := fun heq => hl (by rw [heq])
    simpa [update_of_ne hx] using h

end Reactor

/-! ## Destructors -/

section Destructors

variable {p : Setup ε ω} {o : ω} {e : ε} {todo : List (Action ε)}

theorem close_notMem_dels (l : List ε) : Action.close ∉ l.map Action.del := by
  simp

theorem mem_destructor (he : p.owner e = o) :
    .del e ∈ p.destructor o ∧ .close ∈ p.destructor o := by
  have hmem : e ∈ p.events o := (p.mem_events e o).mpr he
  unfold Setup.destructor
  cases p.kind o <;> simp [hmem]

/-- A socket closes its descriptor last. -/
theorem todo_of_socket (hkind : p.kind o = .socket) (h : .close :: todo <:+ p.destructor o) :
    todo = [] := by
  rw [Setup.destructor, hkind] at h
  obtain ⟨done, hdone⟩ := h
  rcases todo.eq_nil_or_concat' with rfl | ⟨rest, a, rfl⟩
  · rfl
  · -- otherwise it would be among the deletions
    rw [← List.cons_append, ← List.append_assoc] at hdone
    have hdels := (List.append_inj' hdone rfl).1
    have hmem : Action.close ∈ (p.events o).map Action.del := by
      rw [← hdels]
      simp
    exact absurd hmem (close_notMem_dels _)

/-- The descriptor is closed once. -/
theorem close_notMem_todo (h : .close :: todo <:+ p.destructor o) : .close ∉ todo := by
  cases hkind : p.kind o with
  | socket =>
    rw [todo_of_socket hkind h]
    exact List.not_mem_nil
  | pipe =>
    rw [Setup.destructor, hkind] at h
    rcases List.suffix_cons_iff.mp h with heq | hsuffix
    · rw [(List.cons.inj heq).2]
      exact close_notMem_dels _
    · have hmem : Action.close ∈ (p.events o).map Action.del := hsuffix.subset (by simp)
      exact absurd hmem (close_notMem_dels _)

end Destructors

/-! ## The invariant -/

section Invariant

variable [DecidableEq ε] {p : Setup ε ω} {s r : Reactor ε} {q : ω → Phase ε} {o : ω}

/-- What holds of the loop and the objects as long as every pipe watcher is detached before it is
    destroyed. -/
structure Orderly (p : Setup ε ω) (s : Reactor ε) (q : ω → Phase ε) : Prop where
  reactor : ReactorInv p.fdOf p.interest s
  covers : Covers s.io s.kernel
  /-- The owner of an event that is added has its descriptor, and will delete the event. -/
  keeps : ∀ e, s.loop.base.inserted e = true → (q (p.owner e)).Keeps e
  todo : ∀ o todo, q o = .ending todo → todo <:+ p.destructor o
  opened : ∀ o, (q o).Holds → s.kernel (p.fd o) ≠ .closed
  distinct : ∀ o o', (q o).Holds → (q o').Holds → p.fd o = p.fd o' → o = o'

omit [DecidableEq ε] in
theorem closesUnwatched_of_free {fd : ℕ}
    (hfree : ∀ e, s.loop.base.inserted e = true → p.fd (p.owner e) ≠ fd) :
    ClosesUnwatched p.fdOf p.interest s (.closeFd fd) := by
  intro x hx e he _ hfd
  obtain rfl := ReactorLabel.closeFd.inj hx
  exact hfree e he (Int.ofNat_inj.mp hfd)

omit [DecidableEq ε] in
theorem saneIo_of_ne_add {l : ReactorLabel ε} (hadd : ∀ ev tv a io, l ≠ .add ev tv a io) :
    SaneIo p.interest s l := by
  cases l with
  | add ev tv a io => exact absurd rfl (hadd ev tv a io)
  | _ => trivial

namespace Orderly

/-- A step of the loop, in which no object gets a descriptor. -/
theorem next (h : Orderly p s q) {l : ReactorLabel ε} {q' : ω → Phase ε}
    (hok : SaneIo p.interest s l) (hst : ReactorStep p.fdOf p.interest s l r)
    (hcloses : ClosesUnwatched p.fdOf p.interest s l)
    (hkeeps : ∀ e, r.loop.base.inserted e = true → (q' (p.owner e)).Keeps e)
    (htodo : ∀ o todo, q' o = .ending todo → todo <:+ p.destructor o)
    (hholds : ∀ o, (q' o).Holds → (q o).Holds ∧ l ≠ .closeFd (p.fd o)) : Orderly p r q' := by
  have hkept := h.reactor.step hok hst
  refine ⟨hkept.inv, hkept.covers hcloses h.covers, hkeeps, htodo, fun o ho => ?_,
    fun o o' ho ho' heq => ?_⟩
  · obtain ⟨hheld, hl⟩ := hholds o ho
    exact ne_closed_of_step h.reactor hst hl (h.opened o hheld)
  · exact h.distinct o o' (hholds o ho).1 (hholds o' ho').1 heq

/-- A step of the loop that adds and closes nothing, and leaves the objects. -/
theorem same (h : Orderly p s q) {l : ReactorLabel ε}
    (hst : ReactorStep p.fdOf p.interest s l r) (hadd : ∀ ev tv a io, l ≠ .add ev tv a io)
    (hclose : ∀ fd, l ≠ .closeFd fd) : Orderly p r q := by
  have hok : SaneIo p.interest s l := saneIo_of_ne_add hadd
  apply h.next hok hst (closesUnwatched_of_ne hclose) _ h.todo fun o ho => ⟨ho, hclose _⟩
  intro e he
  rcases inserted_of_step h.reactor hok hst he with hold | ⟨tv, a, io, heq⟩
  · exact h.keeps e hold
  · exact absurd heq (hadd e tv a io)

variable [DecidableEq ω]

theorem create (h : Orderly p s q) {pollable : Bool}
    (hst : ReactorStep p.fdOf p.interest s (.openFd (p.fd o) pollable) r) :
    Orderly p r (update q o .live) := by
  have hsame := h.same hst (by simp) (by simp)
  have hclosed : s.kernel (p.fd o) = .closed := by
    cases hst with
    | openFd hclosed => exact hclosed
  have hopen : r.kernel (p.fd o) ≠ .closed := by
    cases hst with
    | openFd _ => cases pollable <;> simp
  -- whoever has a descriptor has another one
  have hother : ∀ o', (q o').Holds → p.fd o' ≠ p.fd o :=
    fun o' ho' heq => h.opened o' ho' (heq ▸ hclosed)
  refine ⟨hsame.reactor, hsame.covers, fun e he => ?_, fun o' todo ho' => ?_, fun o' ho' => ?_,
    fun o₁ o₂ h₁ h₂ heq => ?_⟩
  · by_cases heq : p.owner e = o
    · rw [heq, update_self]
      trivial
    · rw [update_of_ne heq]
      exact hsame.keeps e he
  · by_cases heq : o' = o
    · rw [heq, update_self] at ho'
      cases ho'
    · rw [update_of_ne heq] at ho'
      exact h.todo o' todo ho'
  · by_cases heq : o' = o
    · rwa [heq]
    · rw [update_of_ne heq] at ho'
      exact hsame.opened o' ho'
  · by_cases heq₁ : o₁ = o
    · by_cases heq₂ : o₂ = o
      · rw [heq₁, heq₂]
      · rw [update_of_ne heq₂] at h₂
        exact absurd (heq₁ ▸ heq).symm (hother o₂ h₂)
    · rw [update_of_ne heq₁] at h₁
      by_cases heq₂ : o₂ = o
      · exact absurd (heq₂ ▸ heq) (hother o₁ h₁)
      · rw [update_of_ne heq₂] at h₂
        exact h.distinct o₁ o₂ h₁ h₂ heq

omit [DecidableEq ω] in
theorem add (h : Orderly p s q) {ev : ε} {tv : Option Timeval} {a : EventBase.AddAnswers}
    {io : IoAddAnswers CtlAnswers} (hlive : q (p.owner ev) = .live)
    (hok : SaneIo p.interest s (.add ev tv a io))
    (hst : ReactorStep p.fdOf p.interest s (.add ev tv a io) r) : Orderly p r q := by
  apply h.next hok hst (closesUnwatched_of_ne (by simp)) _ h.todo fun o ho => ⟨ho, by simp⟩
  intro e he
  rcases inserted_of_step h.reactor hok hst he with hold | ⟨tv', a', io', heq⟩
  · exact h.keeps e hold
  · obtain rfl : ev = e := (ReactorLabel.add.inj heq).1
    rw [hlive]
    trivial

omit [DecidableEq ε] in
theorem destroy (h : Orderly p s q) (hlive : q o = .live) :
    Orderly p s (update q o (.ending (p.destructor o))) := by
  -- the beginning of a destructor takes no descriptor from anyone
  have hholds : ∀ o', (update q o (.ending (p.destructor o)) o').Holds → (q o').Holds := by
    intro o' ho'
    by_cases heq : o' = o
    · rw [heq, hlive]
      trivial
    · rwa [update_of_ne heq] at ho'
  refine ⟨h.reactor, h.covers, fun e he => ?_, fun o' todo ho' => ?_,
    fun o' ho' => h.opened o' (hholds o' ho'),
    fun o₁ o₂ h₁ h₂ => h.distinct o₁ o₂ (hholds o₁ h₁) (hholds o₂ h₂)⟩
  · by_cases heq : p.owner e = o
    · rw [heq, update_self]
      -- its events are still to be deleted
      exact mem_destructor heq
    · rw [update_of_ne heq]
      exact h.keeps e he
  · by_cases heq : o' = o
    · rw [heq, update_self] at ho'
      obtain rfl := Phase.ending.inj ho'
      rw [heq]
    · rw [update_of_ne heq] at ho'
      exact h.todo o' todo ho'

omit [DecidableEq ε] in
/-- What is left of a destructor behind its next statement -/
theorem todo_tail (h : Orderly p s q) {a : Action ε} {todo : List (Action ε)}
    (hq : q o = .ending (a :: todo)) {o' : ω} {todo' : List (Action ε)}
    (ho' : update q o (.ending todo) o' = .ending todo') : todo' <:+ p.destructor o' := by
  by_cases heq : o' = o
  · rw [heq, update_self] at ho'
    obtain rfl := Phase.ending.inj ho'
    rw [heq]
    exact (List.suffix_cons a todo).trans (h.todo o _ hq)
  · rw [update_of_ne heq] at ho'
    exact h.todo o' todo' ho'

theorem del (h : Orderly p s q) {e : ε} {todo : List (Action ε)} {gone : List (ε × CtlAnswers)}
    (hq : q o = .ending (.del e :: todo))
    (hst : ReactorStep p.fdOf p.interest s (.loop (.del e) gone) r) :
    Orderly p r (update q o (.ending todo)) := by
  have hok : SaneIo p.interest s (.loop (.del e) gone) := trivial
  apply h.next hok hst (closesUnwatched_of_ne (by simp)) (fun x hx => ?_)
    (fun o' todo' => h.todo_tail hq) fun o' ho' => ?_
  · -- the event deleted is watched no longer, so what is watched is still to be deleted
    have hne : x ≠ e := by
      rintro rfl
      simp [not_inserted_of_del h.reactor hst] at hx
    rcases inserted_of_step h.reactor hok hst hx with hold | ⟨tv, a, io, heq⟩
    · have hkeeps := h.keeps x hold
      by_cases heq : p.owner x = o
      · rw [heq, hq] at hkeeps
        rw [heq, update_self]
        obtain ⟨hdel, hclose⟩ := hkeeps
        exact ⟨(List.mem_cons.mp hdel).resolve_left fun heq => hne (Action.del.inj heq),
          (List.mem_cons.mp hclose).resolve_left fun heq => by cases heq⟩
      · rwa [update_of_ne heq]
    · cases heq
  · by_cases heq : o' = o
    · rw [heq, update_self] at ho'
      rw [heq, hq]
      exact ⟨List.mem_cons_of_mem _ ho', by simp⟩
    · rw [update_of_ne heq] at ho'
      exact ⟨ho', by simp⟩

omit [DecidableEq ε] [DecidableEq ω] in
/-- At the time of its `close`, no event of the object is added any more. -/
theorem not_inserted (h : Orderly p s q) {todo : List (Action ε)}
    (hq : q o = .ending (.close :: todo))
    (hok : p.kind o = .pipe → ∀ e ∈ p.events o, s.loop.base.inserted e = false) {e : ε}
    (he : s.loop.base.inserted e = true) : p.owner e ≠ o := by
  intro howner
  cases hkind : p.kind o with
  | socket =>
    -- a socket has deleted its events
    have hkeeps := h.keeps e he
    rw [howner, hq, todo_of_socket hkind (h.todo o _ hq)] at hkeeps
    simp [Phase.Keeps] at hkeeps
  | pipe =>
    have hnone := hok hkind e ((p.mem_events e o).mpr howner)
    simp [he] at hnone

theorem close (h : Orderly p s q) {todo : List (Action ε)} (hq : q o = .ending (.close :: todo))
    (hok : p.kind o = .pipe → ∀ e ∈ p.events o, s.loop.base.inserted e = false)
    (hst : ReactorStep p.fdOf p.interest s (.closeFd (p.fd o)) r) :
    Orderly p r (update q o (.ending todo)) := by
  have hsane : SaneIo p.interest s (.closeFd (p.fd o)) := trivial
  have hheld : (q o).Holds := by
    rw [hq]
    exact List.mem_cons_self ..
  -- no event of the object that closes its descriptor is watched
  have hnotin : ∀ e, s.loop.base.inserted e = true → p.owner e ≠ o :=
    fun e he => h.not_inserted hq hok he
  apply h.next hsane hst (closesUnwatched_of_free fun e he heq => ?_) (fun e he => ?_)
    (fun o' todo' => h.todo_tail hq) fun o' ho' => ?_
  · exact hnotin e he (h.distinct _ o (h.keeps e he).holds hheld heq)
  · rcases inserted_of_step h.reactor hsane hst he with hold | ⟨tv, a, io, heq⟩
    · rw [update_of_ne (hnotin e hold)]
      exact h.keeps e hold
    · cases heq
  · by_cases heq : o' = o
    · rw [heq, update_self] at ho'
      -- a destructor closes its descriptor once
      exact absurd ho' (close_notMem_todo (h.todo o _ hq))
    · rw [update_of_ne heq] at ho'
      refine ⟨ho', fun hfd => heq ?_⟩
      exact h.distinct o' o ho' hheld (ReactorLabel.closeFd.inj hfd).symm

omit [DecidableEq ω] in
theorem closeOther (h : Orderly p s q) {fd : ℕ} (hfree : ∀ o, (q o).Holds → p.fd o ≠ fd)
    (hst : ReactorStep p.fdOf p.interest s (.closeFd fd) r) : Orderly p r q := by
  have hsane : SaneIo p.interest s (.closeFd fd) := trivial
  apply h.next hsane hst (closesUnwatched_of_free fun e he => hfree _ (h.keeps e he).holds)
    (fun e he => ?_) h.todo fun o ho => ⟨ho, fun heq => ?_⟩
  · rcases inserted_of_step h.reactor hsane hst he with hold | ⟨tv, a, io, heq⟩
    · exact h.keeps e hold
    · cases heq
  · exact hfree o ho (ReactorLabel.closeFd.inj heq).symm

theorem step {w v : World ε ω} {l : Label ε ω} (h : Orderly p w.reactor w.phase)
    (hok : Detached p w l) (hst : Step p w l v) : Orderly p v.reactor v.phase := by
  cases hst with
  | create _ hst => exact h.create hst
  | add hlive hsane hst => exact h.add hlive hsane hst
  | loop hst => exact h.same hst (by simp) (by simp)
  | dispatch hst => exact h.same hst (by simp) (by simp)
  | destroy hlive => exact h.destroy hlive
  | del hq hst => exact h.del hq hst
  | close hq hst => exact h.close hq hok hst
  | openOther hst => exact h.same hst (by simp) (by simp)
  | closeOther hfree hst => exact h.closeOther hfree hst

end Orderly

/-- A pipe watcher that is destroyed while it is attached loses its registration. -/
theorem not_noneLost_of_attached [DecidableEq ω] {w v : World ε ω} {l : Label ε ω}
    (hno : ¬ Detached p w l) (hst : Step p w l v) : ¬ NoneLost p.fdOf p.interest v.reactor := by
  cases hst with
  | @close o _ r hq hst =>
    unfold Detached at hno
    push Not at hno
    obtain ⟨hkind, e, he, hins⟩ := hno
    have howner : p.owner e = o := (p.mem_events e o).mp he
    have hreads : (p.interest e).read = true := p.reads e (howner ▸ hkind)
    cases hst with
    | closeFd =>
      intro hlost
      obtain ⟨events, hevents, -⟩ :=
        hlost e (by simpa using hins) (Int.natCast_nonneg _) .read hreads
      simp [Setup.fdOf, howner, Kernel.interest] at hevents
  | _ => exact absurd trivial hno

theorem Orderly.of_init [DecidableEq ω] {w : World ε ω} (hinit : (program p).init w) :
    Orderly p w.reactor w.phase := by
  obtain ⟨hreactor, hunborn⟩ := hinit
  obtain ⟨hinv, hmirrors⟩ := ReactorInv.of_init hreactor
  refine ⟨hinv, hmirrors.covers, fun e he => ?_, fun o todo ho => ?_, fun o ho => ?_,
    fun o o' ho => ?_⟩
  · obtain ⟨⟨⟨_, _, _, hbase⟩, -⟩, -⟩ := hreactor
    rw [hbase] at he
    cases he
  · rw [hunborn o] at ho
    cases ho
  · rw [hunborn o] at ho
    exact ho.elim
  · rw [hunborn o] at ho
    exact ho.elim

end Invariant

/-! ## Main result -/

/-- **Registrations are kept.** In every run of the program, with any number of sockets and pipe
    watchers, any reuse of descriptors, and any refusals of the kernel: what the events that are
    added wait for is registered in every state exactly if no pipe watcher is destroyed while its
    event is added. -/
theorem registrations_kept_iff [DecidableEq ε] [DecidableEq ω] {p : Setup ε ω} {w : World ε ω}
    (hinit : (program p).init w) {π : List (Label ε ω × World ε ω)}
    (hrun : (program p).IsRun w π) :
    Lts.Always (fun w => NoneLost p.fdOf p.interest w.reactor) w π ↔
      Lts.Meets (Detached p) w π :=
  Lts.always_iff_meets (I := fun w => Orderly p w.reactor w.phase)
    (fun _ h => h.reactor.covers_iff.mp h.covers) (fun _ _ _ h hok hst => h.step hok hst)
    (fun _ _ _ _ hno hst => not_noneLost_of_attached hno hst) (.of_init hinit) hrun

/-- Pipe watchers whose pipes all get descriptor 3 -/
def pipes : Setup ℕ ℕ where
  kind _ := .pipe
  fd _ := 3
  events o := [o]
  owner := id
  interest := readers
  mem_events e o := by simp
  reads _ _ := rfl

/-- The watcher of a loop that has ended is destroyed while it is attached. -/
theorem registrations_kept_iff_attached : ∃ (w : World ℕ ℕ) (π : List (Label ℕ ℕ × World ℕ ℕ)),
    (program pipes).init w ∧ (program pipes).IsRun w π ∧
      ¬ Lts.Always (fun w => NoneLost pipes.fdOf pipes.interest w.reactor) w π := by
  obtain ⟨s, t, hinit, ⟨⟨-, hopen⟩, ⟨hsane, hadd⟩, -⟩, hins, -⟩ := readers_run
  let live : ℕ → Phase ℕ := update (fun _ => .unborn) 0 .live
  let ending : ℕ → Phase ℕ := update live 0 (.ending (pipes.destructor 0))
  let w : World ℕ ℕ := ⟨noReader, fun _ => .unborn⟩
  let π : List (Label ℕ ℕ × World ℕ ℕ) := [(.create 0 true, ⟨s, live⟩),
    (.add 0 none ⟨true, true, true, ⟨5, 0⟩⟩ ⟨true, true, false, false⟩, ⟨t, live⟩),
    (.destroy 0, ⟨t, ending⟩),
    (.close 0, ⟨{ t with kernel := update t.kernel 3 .closed },
      update ending 0 (.ending [.del 0])⟩)]
  have hstart : (program pipes).init w := ⟨hinit, fun _ => rfl⟩
  have hrun : (program pipes).IsRun w π :=
    ⟨.create rfl hopen, .add rfl hsane hadd, .destroy rfl, .close rfl .closeFd, trivial⟩
  refine ⟨w, π, hstart, hrun, ?_⟩
  rw [registrations_kept_iff hstart hrun]
  intro hmeets
  -- the destructor closes the pipe with its event attached
  have hdetached : t.loop.base.inserted 0 = false :=
    hmeets.2.2.2.1 rfl 0 (List.mem_singleton.mpr rfl)
  simp [hins] at hdetached

end ReechatBase.Descriptors
