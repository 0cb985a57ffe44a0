import Mathlib.Data.Option.Basic
import Mathlib.Logic.Basic

/-!
# Programs of atomic actions

A thread of a concurrent program is a tree of atomic actions: it performs one action on the
shared state, receives its result, and goes on. The same program text is used twice:

- **alone** (`Prog.run`): the actions are executed one after the other by a deterministic,
  possibly failing `Exec`;
- **interleaved** with other threads (see `RelyGuarantee`): each action is one step, and other
  threads may move between any two of them.

A `while` loop is a program that returns whether to go round again; `Loops` is its big-step
meaning when it runs alone.
-/

namespace ReechatBase.Lib

/-- The atomic actions of a kind of program, each with the type of its result. -/
structure Signature where
  /-- The actions -/
  Act : Type
  /-- The result of an action -/
  Res : Act → Type

/-- A program over the actions of `S` that returns an `α`. -/
inductive Prog (S : Signature) (α : Type) : Type where
  /-- Return -/
  | ret (a : α)
  /-- Perform an action and go on with its result -/
  | act (a : S.Act) (k : S.Res a → Prog S α)

/-- Deterministic execution of single actions; `none` means that the program is aborted. -/
abbrev Exec (S : Signature) (σ : Type) := (a : S.Act) → σ → Option (S.Res a × σ)

namespace Prog

variable {S S' : Signature} {α β γ σ : Type}

/-! ## Sequencing -/

/-- Run `p`, then the program that its result selects. -/
protected def bind : Prog S α → (α → Prog S β) → Prog S β
  | ret a, f => f a
  | act a k, f => act a fun r => (k r).bind f

instance : Monad (Prog S) where
  pure := ret
  bind := Prog.bind

/-- The program that performs one action and returns its result. -/
def perform (a : S.Act) : Prog S (S.Res a) :=
  act a ret

@[simp] theorem pure_eq (a : α) : (pure a : Prog S α) = ret a := rfl

@[simp] theorem ret_bind (a : α) (f : α → Prog S β) : (ret a >>= f) = f a := rfl

@[simp] theorem act_bind (a : S.Act) (k : S.Res a → Prog S α) (f : α → Prog S β) :
    (act a k >>= f) = act a fun r => k r >>= f := rfl

@[simp] theorem perform_bind (a : S.Act) (f : S.Res a → Prog S β) :
    (perform a >>= f) = act a f := rfl

theorem bind_assoc' (p : Prog S α) (f : α → Prog S β) (g : β → Prog S γ) :
    (p >>= f) >>= g = p >>= fun a => f a >>= g := by
  induction p with
  | ret a => rfl
  | act a k ih =>
    simp only [act_bind]
    exact congrArg (act a) (funext ih)

theorem bind_ret (p : Prog S α) : p >>= ret = p := by
  induction p with
  | ret a => rfl
  | act a k ih => exact congrArg (act a) (funext ih)

instance : LawfulMonad (Prog S) :=
  LawfulMonad.mk' (Prog S) (fun p => bind_ret p) (fun _ _ => rfl) bind_assoc'

/-! ## Running alone -/

/-- Run a program alone. -/
def run (exec : Exec S σ) : Prog S α → σ → Option (α × σ)
  | ret a, s => some (a, s)
  | act a k, s => (exec a s).bind fun rt => (k rt.1).run exec rt.2

variable {exec : Exec S σ}

@[simp] theorem run_ret (a : α) (s : σ) : (ret a).run exec s = some (a, s) := rfl

theorem run_act (a : S.Act) (k : S.Res a → Prog S α) (s : σ) :
    (act a k).run exec s = (exec a s).bind fun rt => (k rt.1).run exec rt.2 := rfl

theorem run_bind (p : Prog S α) (f : α → Prog S β) (s : σ) :
    (p >>= f).run exec s = (p.run exec s).bind fun at' => (f at'.1).run exec at'.2 := by
  induction p generalizing s with
  | ret a => rfl
  | act a k ih =>
    simp only [act_bind, run_act, Option.bind_assoc]
    exact congrArg _ (funext fun rt => ih rt.1 rt.2)

/-- Two programs run one after the other, when the first is known to return. -/
theorem run_bind_of_eq {p : Prog S α} {f : α → Prog S β} {s t : σ} {a : α}
    (h : p.run exec s = some (a, t)) : (p >>= f).run exec s = (f a).run exec t := by
  simp [run_bind, h]

/-- `Loops exec body s t`: started in `s`, the loop `while (body) {}` ends in `t`. -/
inductive Loops (exec : Exec S σ) (body : Prog S Bool) : σ → σ → Prop where
  | done {s t : σ} : body.run exec s = some (false, t) → Loops exec body s t
  | again {s t u : σ} : body.run exec s = some (true, t) → Loops exec body t u →
      Loops exec body s u

/-- A loop whose first round aborts does not end. -/
theorem not_loops_of_abort {body : Prog S Bool} {s t : σ} (h : body.run exec s = none) :
    ¬ Loops exec body s t := by
  intro hl
  cases hl with
  | done h' => simp [h] at h'
  | again h' _ => simp [h] at h'

/-! ## Programs over a larger signature -/

/-- The actions of `S` among those of `S'`. -/
structure Embedding (S S' : Signature) where
  /-- The action of `S'` that stands for an action of `S` -/
  act : S.Act → S'.Act
  /-- Its result, read as a result of the action of `S` -/
  res : (a : S.Act) → S'.Res (act a) → S.Res a

/-- A program over `S` as a program over `S'`. -/
def lift (E : Embedding S S') : Prog S α → Prog S' α
  | ret a => ret a
  | act a k => act (E.act a) fun r => (k (E.res a r)).lift E

@[simp] theorem lift_ret (E : Embedding S S') (a : α) : (ret a : Prog S α).lift E = ret a := rfl

@[simp] theorem lift_act (E : Embedding S S') (a : S.Act) (k : S.Res a → Prog S α) :
    (act a k).lift E = act (E.act a) fun r => (k (E.res a r)).lift E := rfl

theorem lift_bind (E : Embedding S S') (p : Prog S α) (f : α → Prog S β) :
    (p >>= f).lift E = p.lift E >>= fun a => (f a).lift E := by
  induction p with
  | ret a => rfl
  | act a k ih => exact congrArg (act (E.act a)) (funext fun r => ih (E.res a r))

end Prog

/-- A part of a larger state. -/
structure Lens (σ' σ : Type) where
  /-- Read the part -/
  get : σ' → σ
  /-- Replace the part -/
  set : σ → σ' → σ'
  get_set : ∀ x s, get (set x s) = x
  set_get : ∀ s, set (get s) s = s
  set_set : ∀ x y s, set y (set x s) = set y s

namespace Prog

variable {S S' : Signature} {α σ σ' : Type} {exec : Exec S σ} {exec' : Exec S' σ'}

/-- A lifted program that runs alone acts on its part of the state as the program itself. -/
theorem run_lift {E : Embedding S S'} {L : Lens σ' σ}
    (hexec : ∀ a s, (exec' (E.act a) s).map (fun rt => (E.res a rt.1, rt.2)) =
      (exec a (L.get s)).map fun rt => (rt.1, L.set rt.2 s))
    (p : Prog S α) (s : σ') :
    (p.lift E).run exec' s = (p.run exec (L.get s)).map fun at' => (at'.1, L.set at'.2 s) := by
  induction p generalizing s with
  | ret a => simp [L.set_get]
  | act a k ih =>
    have h := hexec a s
    simp only [lift_act, run_act]
    cases hx : exec a (L.get s) with
    | none =>
      simp only [hx, Option.map_none, Option.map_eq_none_iff] at h
      simp [h]
    | some rt =>
      simp only [hx, Option.map_some, Option.map_eq_some_iff] at h
      obtain ⟨⟨r, t⟩, hrt, heq⟩ := h
      simp only [Prod.mk.injEq] at heq
      obtain ⟨hr, rfl⟩ := heq
      simp only [hrt, Option.bind_some, hr, ih, L.get_set, L.set_set]

end Prog

end ReechatBase.Lib
