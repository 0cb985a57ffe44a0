import ReechatBase.Lib.Program
import ReechatBase.Lib.Transition
import Mathlib.Logic.Function.Basic

/-!
# Rely-guarantee reasoning about interleaved programs

A thread is verified on its own against a *discipline*: what the other threads may do to the
shared state between two of its actions (`rely`), what each of its own actions may do (`guar`),
an invariant of the shared state, and a safety condition on the actions it performs. `wp` is the
weakest precondition of a program under a discipline.

- `wp_bind`, `wp_mono`, `wp_of_rely`: sequencing, consequence, stability;
- `wp_lift`: a program verified for a part of the state keeps its specification inside a larger
  one;
- `Outline.sound`: when the disciplines of the threads fit together, every reachable
  configuration satisfies the invariant, every thread its weakest precondition, and every action
  about to be performed is safe.
-/

namespace ReechatBase.Lib

open Prog

/-- What a thread may assume of the others and must keep to itself. -/
structure Discipline (S : Signature) (σ : Type) where
  /-- The effect of an action: state before, result, state after -/
  sem : (a : S.Act) → σ → S.Res a → σ → Prop
  /-- The invariant of the shared state -/
  inv : σ → Prop
  /-- What the other threads may do between two actions of this one -/
  rely : σ → σ → Prop
  /-- What one action of this thread may do -/
  guar : σ → σ → Prop
  /-- The states in which an action may be performed -/
  safe : S.Act → σ → Prop
  rely_refl : ∀ s, rely s s
  rely_trans : ∀ {s t u}, rely s t → rely t u → rely s u

/-- The weakest precondition of a program: whatever the others do within `rely`, each action is
    safe and keeps `inv` and `guar`, and the program returns only in states that satisfy `Q`. -/
def wp {S : Signature} {σ α : Type} (D : Discipline S σ) : Prog S α → (α → σ → Prop) → σ → Prop
  | ret a, Q, s => ∀ t, D.rely s t → D.inv t → Q a t
  | act a k, Q, s => ∀ t, D.rely s t → D.inv t →
      D.safe a t ∧ ∀ r u, D.sem a t r u → D.inv u ∧ D.guar t u ∧ wp D (k r) Q u

section Rules

variable {S : Signature} {σ α β : Type} {D : Discipline S σ}

/-- A weakest precondition is stable under the steps of the other threads. -/
theorem wp_of_rely {p : Prog S α} {Q : α → σ → Prop} {s t : σ} (h : wp D p Q s)
    (hst : D.rely s t) : wp D p Q t := by
  cases p with
  | ret a => exact fun u htu hu => h u (D.rely_trans hst htu) hu
  | act a k => exact fun u htu hu => h u (D.rely_trans hst htu) hu

theorem wp_of_forall_rely {p : Prog S α} {Q : α → σ → Prop} {s : σ}
    (h : ∀ t, D.rely s t → D.inv t → wp D p Q t) : wp D p Q s := by
  cases p with
  | ret a => exact fun t hst ht => h t hst ht t (D.rely_refl t) ht
  | act a k => exact fun t hst ht => h t hst ht t (D.rely_refl t) ht

theorem wp_mono {p : Prog S α} {Q Q' : α → σ → Prop} {s : σ}
    (hQ : ∀ a t, D.inv t → Q a t → Q' a t) (h : wp D p Q s) : wp D p Q' s := by
  induction p generalizing s with
  | ret a => exact fun t hst ht => hQ a t ht (h t hst ht)
  | act a k ih =>
    intro t hst ht
    obtain ⟨hsafe, hstep⟩ := h t hst ht
    refine ⟨hsafe, fun r u hru => ?_⟩
    obtain ⟨hu, hg, hk⟩ := hstep r u hru
    exact ⟨hu, hg, ih r hk⟩

theorem wp_bind {p : Prog S α} {f : α → Prog S β} {Q : β → σ → Prop} {s : σ}
    (h : wp D p (fun a t => wp D (f a) Q t) s) : wp D (p >>= f) Q s := by
  induction p generalizing s with
  -- behind the value the others may move once more, which `wp` of a program allows anyway
  | ret a => exact wp_of_forall_rely fun t hst ht => h t hst ht
  | act a k ih =>
    intro t hst ht
    obtain ⟨hsafe, hstep⟩ := h t hst ht
    refine ⟨hsafe, fun r u hru => ?_⟩
    obtain ⟨hu, hg, hk⟩ := hstep r u hru
    exact ⟨hu, hg, ih r hk⟩

/-- Sequencing through an intermediate assertion. -/
theorem wp_seq {p : Prog S α} {f : α → Prog S β} {R : α → σ → Prop} {Q : β → σ → Prop} {s : σ}
    (hp : wp D p R s) (hf : ∀ a t, D.inv t → R a t → wp D (f a) Q t) : wp D (p >>= f) Q s :=
  wp_bind (wp_mono hf hp)

end Rules

/-- **Running alone.** Where safe actions do not abort, a verified program that runs alone
    returns, and its result meets the postcondition. -/
theorem run_of_wp {S : Signature} {σ α : Type} {D : Discipline S σ} {exec : Exec S σ}
    (hexec : ∀ a s, D.inv s → D.safe a s → ∃ r t, exec a s = some (r, t) ∧ D.sem a s r t)
    {p : Prog S α} {Q : α → σ → Prop} {s : σ} (h : wp D p Q s) (hs : D.inv s) :
    ∃ v t, p.run exec s = some (v, t) ∧ D.inv t ∧ Q v t := by
  induction p generalizing s with
  | ret a => exact ⟨a, s, rfl, hs, h s (D.rely_refl s) hs⟩
  | act a k ih =>
    -- alone means that the others leave the state as it is
    obtain ⟨hsafe, hstep⟩ := h s (D.rely_refl s) hs
    obtain ⟨r, u, hru, hsem⟩ := hexec a s hs hsafe
    obtain ⟨hu, _, hk⟩ := hstep r u hsem
    obtain ⟨v, t, hrun, ht, hQ⟩ := ih r hk hu
    exact ⟨v, t, by rw [run_act, hru]; exact hrun, ht, hQ⟩

/-- Where a verified program returns when it runs alone, its result meets the postcondition, and
    the state has moved by steps that the program guarantees. -/
theorem post_of_run {S : Signature} {σ α : Type} {D : Discipline S σ} {exec : Exec S σ}
    (hexec : ∀ {a s r t}, exec a s = some (r, t) → D.sem a s r t) {G : σ → σ → Prop}
    (hrefl : ∀ s, G s s) (htrans : ∀ {s t u}, D.guar s t → G t u → G s u) {p : Prog S α}
    {Q : α → σ → Prop} {s t : σ} {v : α} (h : wp D p Q s) (hs : D.inv s)
    (hrun : p.run exec s = some (v, t)) : D.inv t ∧ G s t ∧ Q v t := by
  induction p generalizing s with
  | ret a =>
    obtain ⟨rfl, rfl⟩ : a = v ∧ s = t := by simpa using hrun
    exact ⟨hs, hrefl s, h s (D.rely_refl s) hs⟩
  | act a k ih =>
    obtain ⟨⟨r, u⟩, hru, hk⟩ := Option.bind_eq_some_iff.mp hrun
    obtain ⟨hu, hg, hrest⟩ := (h s (D.rely_refl s) hs).2 r u (hexec hru)
    obtain ⟨ht, hG, hQ⟩ := ih r hrest hu hk
    exact ⟨ht, htrans hg hG, hQ⟩

/-! ## Verifying a program on a part of the state -/

/-- The discipline `D` of a part of the state inside the discipline `D'` of the whole. -/
structure Within {S S' : Signature} {σ σ' : Type} (D : Discipline S σ) (D' : Discipline S' σ')
    (E : Embedding S S') (L : Lens σ' σ) : Prop where
  sem : ∀ a t r u, D'.sem (E.act a) t r u →
    ∃ x, D.sem a (L.get t) (E.res a r) x ∧ u = L.set x t
  safe : ∀ a t, D.safe a (L.get t) → D'.safe (E.act a) t
  rely : ∀ s t, D'.rely s t → D.rely (L.get s) (L.get t)
  inv : ∀ t, D'.inv t → D.inv (L.get t)

/-- A program keeps its specification inside a larger state. `P` is an assertion on the whole
    state that neither the other threads nor the program itself disturb; that it is not disturbed
    may depend on the action. -/
theorem wp_lift_act {S S' : Signature} {σ σ' α : Type} {D : Discipline S σ}
    {D' : Discipline S' σ'} {E : Embedding S S'} {L : Lens σ' σ} {P : σ' → Prop}
    (hsem : ∀ a t r u, D'.sem (E.act a) t r u →
      ∃ x, D.sem a (L.get t) (E.res a r) x ∧ u = L.set x t)
    (hrely : ∀ s t, D'.rely s t → D.rely (L.get s) (L.get t))
    (hinv : ∀ t, D'.inv t → D.inv (L.get t))
    (hsafe : ∀ a t, P t → D.safe a (L.get t) → D'.safe (E.act a) t)
    (hstable : ∀ s t, P s → D'.rely s t → D'.inv t → P t)
    (hstep : ∀ a t r x, P t → D'.inv t → D'.sem (E.act a) t r (L.set x t) →
      D.sem a (L.get t) (E.res a r) x → D.inv x → D.guar (L.get t) x →
      D'.inv (L.set x t) ∧ D'.guar t (L.set x t) ∧ P (L.set x t))
    {p : Prog S α} {Q : α → σ → Prop} {s : σ'} (h : wp D p Q (L.get s)) (hP : P s) :
    wp D' (p.lift E) (fun a t => Q a (L.get t) ∧ P t) s := by
  induction p generalizing s with
  | ret a => exact fun t hst ht => ⟨h (L.get t) (hrely s t hst) (hinv t ht), hstable s t hP hst ht⟩
  | act a k ih =>
    intro t hst ht
    have hPt : P t := hstable s t hP hst ht
    obtain ⟨hok, hact⟩ := h (L.get t) (hrely s t hst) (hinv t ht)
    refine ⟨hsafe a t hPt hok, fun r u hru => ?_⟩
    -- the action changes its part of the state only
    obtain ⟨x, hx, rfl⟩ := hsem a t r u hru
    obtain ⟨hx', hg, hk⟩ := hact _ _ hx
    obtain ⟨hinv', hg', hP'⟩ := hstep a t r x hPt ht hru hx hx' hg
    refine ⟨hinv', hg', ih _ ?_ hP'⟩
    rwa [L.get_set]

/-- The same, where the discipline of the part gives all that is needed. -/
theorem wp_lift {S S' : Signature} {σ σ' α : Type} {D : Discipline S σ} {D' : Discipline S' σ'}
    {E : Embedding S S'} {L : Lens σ' σ} (hW : Within D D' E L) {P : σ' → Prop}
    (hstable : ∀ s t, P s → D'.rely s t → D'.inv t → P t)
    (hstep : ∀ t x, P t → D'.inv t → D.inv x → D.guar (L.get t) x →
      D'.inv (L.set x t) ∧ D'.guar t (L.set x t) ∧ P (L.set x t))
    {p : Prog S α} {Q : α → σ → Prop} {s : σ'} (h : wp D p Q (L.get s)) (hP : P s) :
    wp D' (p.lift E) (fun a t => Q a (L.get t) ∧ P t) s :=
  wp_lift_act hW.sem hW.rely hW.inv (fun a t _ hok => hW.safe a t hok) hstable
    (fun _ t _ x hPt ht _ _ hx hg => hstep t x hPt ht hx hg) h hP

/-- The discipline `D` for programs over other actions, with their effects and their safety. -/
def Discipline.via {S S' : Signature} {σ : Type} (D : Discipline S' σ)
    (sem : (a : S.Act) → σ → S.Res a → σ → Prop) (safe : S.Act → σ → Prop) : Discipline S σ where
  sem := sem
  inv := D.inv
  rely := D.rely
  guar := D.guar
  safe := safe
  rely_refl := D.rely_refl
  rely_trans := D.rely_trans

/-- A program over some of the actions of a thread, among all of them. -/
theorem wp_of_via {S S' : Signature} {σ α : Type} {E : Embedding S S'} {D : Discipline S' σ}
    {sem : (a : S.Act) → σ → S.Res a → σ → Prop} {safe : S.Act → σ → Prop}
    (hsem : ∀ a s r t, D.sem (E.act a) s r t → sem a s (E.res a r) t)
    (hsafe : ∀ a s, safe a s → D.safe (E.act a) s)
    {p : Prog S α} {Q : α → σ → Prop} {s : σ} (h : wp (D.via sem safe) p Q s) :
    wp D (p.lift E) Q s := by
  induction p generalizing s with
  | ret a => exact h
  | act a k ih =>
    intro t hst ht
    obtain ⟨hok, hact⟩ := h t hst ht
    refine ⟨hsafe a t hok, fun r u hru => ?_⟩
    obtain ⟨hu, hg, hk⟩ := hact (E.res a r) u (hsem a t r u hru)
    exact ⟨hu, hg, ih _ hk⟩

/-- The discipline of a thread, for programs over some of its actions. -/
def Discipline.comap {S S' : Signature} {σ : Type} (E : Embedding S S') (D : Discipline S' σ) :
    Discipline S σ :=
  D.via (fun a s r t => ∃ r', E.res a r' = r ∧ D.sem (E.act a) s r' t)
    fun a s => D.safe (E.act a) s

theorem wp_of_comap {S S' : Signature} {σ α : Type} {E : Embedding S S'} {D : Discipline S' σ}
    {p : Prog S α} {Q : α → σ → Prop} {s : σ} (h : wp (D.comap E) p Q s) :
    wp D (p.lift E) Q s :=
  wp_of_via (fun _ _ r _ hsem => ⟨r, rfl, hsem⟩) (fun _ _ hsafe => hsafe) h

/-! ## Interleaving -/

/-- A system of threads `ι` over one shared state. A thread that has returned a value may begin
    any program that `next` allows after it. -/
structure Threads (S : Signature) (σ ι ρ : Type) where
  /-- The effect of an action performed by a thread -/
  sem : ι → (a : S.Act) → σ → S.Res a → σ → Prop
  /-- The programs a thread may begin after it has returned a value -/
  next : ι → ρ → Prog S ρ → Prop

/-- A configuration: what is left of each thread's program, and the shared state. -/
structure Config (S : Signature) (σ ι ρ : Type) where
  /-- The rest of each thread's program -/
  prog : ι → Prog S ρ
  /-- The shared state -/
  shared : σ

namespace Threads

variable {S : Signature} {σ ι ρ : Type} (T : Threads S σ ι ρ)

/-- One step: a thread performs its next action, or begins a new program. -/
inductive Step [DecidableEq ι] : Config S σ ι ρ → ι → Config S σ ι ρ → Prop where
  | act {c : Config S σ ι ρ} {i : ι} {a : S.Act} {k : S.Res a → Prog S ρ} {r : S.Res a} {t : σ} :
      c.prog i = act a k → T.sem i a c.shared r t →
      Step c i ⟨Function.update c.prog i (k r), t⟩
  | next {c : Config S σ ι ρ} {i : ι} {v : ρ} {p : Prog S ρ} :
      c.prog i = ret v → T.next i v p →
      Step c i ⟨Function.update c.prog i p, c.shared⟩

/-- The interleavings of the threads as a transition system. -/
def lts [DecidableEq ι] (init : Config S σ ι ρ → Prop) : Lts (Config S σ ι ρ) ι where
  init := init
  step := T.Step

/-- A proof outline: one discipline for each thread, such that the others stay within what the
    thread relies on and every program it begins meets its weakest precondition. -/
structure Outline where
  /-- The invariant of the shared state -/
  inv : σ → Prop
  /-- What each thread relies on -/
  rely : ι → σ → σ → Prop
  /-- What each thread guarantees -/
  guar : ι → σ → σ → Prop
  /-- When each thread may perform an action -/
  safe : ι → S.Act → σ → Prop
  /-- What holds when a thread has returned a value -/
  idle : ι → ρ → σ → Prop
  rely_refl : ∀ i s, rely i s s
  rely_trans : ∀ i {s t u}, rely i s t → rely i t u → rely i s u
  compat : ∀ i j, i ≠ j → ∀ s t, inv s → inv t → guar i s t → rely j s t

namespace Outline

variable {T} (O : Outline (S := S) (σ := σ) (ι := ι) (ρ := ρ))

variable (T) in
/-- The discipline of one thread. -/
def disc (i : ι) : Discipline S σ where
  sem := T.sem i
  inv := O.inv
  rely := O.rely i
  guar := O.guar i
  safe := O.safe i
  rely_refl := O.rely_refl i
  rely_trans := O.rely_trans i

variable (T) in
/-- A configuration that the outline describes. -/
structure Holds (c : Config S σ ι ρ) : Prop where
  inv : O.inv c.shared
  wp : ∀ i, wp (O.disc T i) (c.prog i) (O.idle i) c.shared

/-- What a thread that has returned knows. -/
theorem Holds.idle {c : Config S σ ι ρ} (h : O.Holds T c) {i : ι} {v : ρ}
    (hi : c.prog i = ret v) : O.idle i v c.shared := by
  have hw := h.wp i
  rw [hi] at hw
  exact hw _ (O.rely_refl i _) h.inv

/-- The action that a thread performs next is safe. -/
theorem Holds.safe {c : Config S σ ι ρ} (h : O.Holds T c) {i : ι} {a : S.Act}
    {k : S.Res a → Prog S ρ} (hi : c.prog i = act a k) : O.safe i a c.shared := by
  have hw := h.wp i
  rw [hi] at hw
  exact (hw _ (O.rely_refl i _) h.inv).1

/-- **One step keeps the outline.** -/
theorem Holds.step [DecidableEq ι]
    (hnext : ∀ i v p s, O.inv s → O.idle i v s → T.next i v p → Lib.wp (O.disc T i) p (O.idle i) s)
    {c c' : Config S σ ι ρ} {i : ι} (h : O.Holds T c) (hst : T.Step c i c') : O.Holds T c' := by
  cases hst with
  | @act a k r t hi hsem =>
    have hw := h.wp i
    rw [hi] at hw
    obtain ⟨hinv, hg, hk⟩ := (hw _ (O.rely_refl i _) h.inv).2 r t hsem
    refine ⟨hinv, fun j => ?_⟩
    by_cases hj : j = i
    · subst hj
      simpa using hk
    · simp only [ne_eq, hj, not_false_eq_true, Function.update_of_ne]
      -- every other thread relies on what the step guarantees
      exact wp_of_rely (h.wp j) (O.compat i j (Ne.symm hj) _ _ h.inv hinv hg)
  | @next v p hi hn =>
    refine ⟨h.inv, fun j => ?_⟩
    by_cases hj : j = i
    · subst hj
      simpa using hnext j v p c.shared h.inv (h.idle O hi) hn
    · simpa only [ne_eq, hj, not_false_eq_true, Function.update_of_ne] using h.wp j

/-- **Soundness.** Every configuration reached by the interleaved threads is described by the
    outline. -/
theorem sound [DecidableEq ι] {init : Config S σ ι ρ → Prop} (hinit : ∀ c, init c → O.Holds T c)
    (hnext : ∀ i v p s, O.inv s → O.idle i v s → T.next i v p → Lib.wp (O.disc T i) p (O.idle i) s)
    {c : Config S σ ι ρ} (hc : (T.lts init).Reachable c) : O.Holds T c :=
  hc.invariant hinit fun _ _ _ h hst => h.step O hnext hst

end Outline

/-! ## Runs of permitted actions -/

/-- The configurations from which a thread may move: its next action is permitted. -/
def Permits (ok : ι → S.Act → σ → Prop) (c : Config S σ ι ρ) (i : ι) : Prop :=
  ∀ a k, c.prog i = act a k → ok i a c.shared

/-- The threads of `T`, confined to permitted actions. -/
def restrict (ok : ι → S.Act → σ → Prop) : Threads S σ ι ρ where
  sem i a s r t := ok i a s ∧ T.sem i a s r t
  next := T.next

variable {T} in
/-- A run of `T` by permitted actions is a run of the confined threads. -/
theorem reachable_restrict [DecidableEq ι] {ok : ι → S.Act → σ → Prop}
    {init : Config S σ ι ρ → Prop} {c : Config S σ ι ρ}
    (hc : (T.lts init).ReachableBy (Permits ok) c) : ((T.restrict ok).lts init).Reachable c := by
  induction hc with
  | init h => exact .init h
  | @step _ i _ _ hok hst ih =>
    refine .step (l := i) ih trivial ?_
    -- beginning a program is no action, so that nothing is asked of it
    cases hst with
    | act hi hsem => exact .act hi ⟨hok _ _ hi, hsem⟩
    | next hi hn => exact .next hi hn

variable {T} in
/-- Where an outline describes all runs, they perform safe actions only. -/
theorem Outline.reachableBy_safe [DecidableEq ι] {T' : Threads S σ ι ρ}
    {init : Config S σ ι ρ → Prop} {O : Outline (S := S) (σ := σ) (ι := ι) (ρ := ρ)}
    (hO : ∀ c, (T.lts init).Reachable c → O.Holds T' c) {c : Config S σ ι ρ}
    (hc : (T.lts init).Reachable c) : (T.lts init).ReachableBy (Permits O.safe) c := by
  induction hc with
  | init h => exact .init h
  | step hc _ hst ih => exact .step ih (fun _ _ hi => (hO _ hc).safe O hi) hst

/-! ## Particular interleavings -/

/-- What a scheduler may do: let a thread perform its next action, or begin a program. -/
inductive Command (S : Signature) (ι ρ : Type) where
  | tick (i : ι)
  | start (i : ι) (p : Prog S ρ)

variable [DecidableEq ι]

/-- Obey one command, with the effects of actions given by `exec`. -/
def obey (exec : ι → Exec S σ) (c : Config S σ ι ρ) :
    Command S ι ρ → Option (Config S σ ι ρ)
  | .tick i =>
    match c.prog i with
    | ret _ => none
    | act a k => (exec i a c.shared).map fun rt => ⟨Function.update c.prog i (k rt.1), rt.2⟩
  | .start i p =>
    match c.prog i with
    | ret _ => some ⟨Function.update c.prog i p, c.shared⟩
    | act _ _ => none

/-- Obey a list of commands. -/
def replay (exec : ι → Exec S σ) : Config S σ ι ρ → List (Command S ι ρ) →
    Option (Config S σ ι ρ)
  | c, [] => some c
  | c, x :: xs => (obey exec c x).bind fun d => replay exec d xs

variable {T}

/-- A program that is not interrupted: where it ends when it runs alone is reachable. -/
theorem reachable_of_run {exec : Exec S σ} {i : ι}
    (hexec : ∀ a s r t, exec a s = some (r, t) → T.sem i a s r t)
    {init : Config S σ ι ρ → Prop} {p : Prog S ρ} {s t : σ} {v : ρ}
    (hrun : p.run exec s = some (v, t)) {f : ι → Prog S ρ} (hp : f i = p)
    (hc : (T.lts init).Reachable ⟨f, s⟩) :
    (T.lts init).Reachable ⟨Function.update f i (ret v), t⟩ := by
  induction p generalizing s f with
  | ret a =>
    obtain ⟨rfl, rfl⟩ : a = v ∧ s = t := by simpa using hrun
    rwa [← hp, Function.update_eq_self]
  | act a k ih =>
    obtain ⟨⟨r, u⟩, hru, hk⟩ := Option.bind_eq_some_iff.mp hrun
    have hnext : (T.lts init).Reachable ⟨Function.update f i (k r), u⟩ :=
      .step hc trivial (.act hp (hexec a s r u hru))
    have hrest := ih r hk (by simp) hnext
    rwa [Function.update_idem] at hrest

theorem step_of_obey {exec : ι → Exec S σ}
    (hexec : ∀ i a s r t, exec i a s = some (r, t) → T.sem i a s r t) {c d : Config S σ ι ρ}
    {x : Command S ι ρ} (hnext : ∀ i p v, x = .start i p → T.next i v p)
    (h : obey exec c x = some d) : ∃ i, T.Step c i d := by
  cases x with
  | tick i =>
    simp only [obey] at h
    split at h
    · cases h
    · next a k hi =>
      obtain ⟨⟨r, t⟩, hrt, rfl⟩ := Option.map_eq_some_iff.mp h
      exact ⟨i, .act hi (hexec i a _ r t hrt)⟩
  | start i p =>
    simp only [obey] at h
    split at h
    · next v hi =>
      cases h
      exact ⟨i, .next hi (hnext i p v rfl)⟩
    · cases h

/-- A configuration reached by obeying commands is reachable. -/
theorem reachable_of_replay {exec : ι → Exec S σ}
    (hexec : ∀ i a s r t, exec i a s = some (r, t) → T.sem i a s r t)
    {init : Config S σ ι ρ → Prop} {c d : Config S σ ι ρ} (hc : (T.lts init).Reachable c)
    {xs : List (Command S ι ρ)} (hnext : ∀ i p v, .start i p ∈ xs → T.next i v p)
    (h : replay exec c xs = some d) : (T.lts init).Reachable d := by
  induction xs generalizing c with
  | nil =>
    cases h
    exact hc
  | cons x xs ih =>
    obtain ⟨e, he, hrest⟩ := Option.bind_eq_some_iff.mp h
    obtain ⟨i, hst⟩ := step_of_obey hexec
      (fun i p v hx => hnext i p v (hx ▸ List.mem_cons_self)) he
    exact ih (.step hc trivial hst) (fun i p v hp => hnext i p v (List.mem_cons_of_mem _ hp)) hrest

end Threads

end ReechatBase.Lib
