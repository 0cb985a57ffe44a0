import Mathlib.Data.List.Basic

/-!
# Labelled transition systems

A labelled transition system with its reachable states, its runs, and the rules the
developments built on it use:

- **Invariant rule** (`ReachableBy.invariant`): what holds initially and is kept by every
  allowed step holds in every state reached by allowed steps.
- **Guarded runs** (`always_iff_meets`): when the allowed steps keep a safety property and
  every other step breaks it, a run is safe throughout exactly when all its steps are allowed.

Nothing here refers to a particular program.
-/

namespace ReechatBase.Lib

/-- A labelled transition system: initial states and a labelled step relation. -/
structure Lts (State : Type*) (Label : Type*) where
  /-- The initial states -/
  init : State → Prop
  /-- The labelled step relation -/
  step : State → Label → State → Prop

namespace Lts

variable {State Label : Type*} (M : Lts State Label)

/-! ## Reachability -/

/-- States reached by runs all of whose steps meet `ok`, a condition on the state before
    the step and on its label. -/
inductive ReachableBy (ok : State → Label → Prop) : State → Prop where
  | init {s : State} : M.init s → ReachableBy ok s
  | step {s : State} {l : Label} {t : State} :
      ReachableBy ok s → ok s l → M.step s l t → ReachableBy ok t

/-- States reached by any run. -/
def Reachable : State → Prop :=
  M.ReachableBy fun _ _ => True

variable {M} {ok : State → Label → Prop}

/-- **Invariant rule.** -/
theorem ReachableBy.invariant {I : State → Prop} (hinit : ∀ s, M.init s → I s)
    (hstep : ∀ s l t, I s → ok s l → M.step s l t → I t) {s : State}
    (hs : M.ReachableBy ok s) : I s := by
  induction hs with
  | init h => exact hinit _ h
  | step _ hok hst ih => exact hstep _ _ _ ih hok hst

theorem Reachable.invariant {I : State → Prop} (hinit : ∀ s, M.init s → I s)
    (hstep : ∀ s l t, I s → M.step s l t → I t) {s : State} (hs : M.Reachable s) : I s :=
  ReachableBy.invariant hinit (fun s l t hI _ hst => hstep s l t hI hst) hs

theorem ReachableBy.reachable {s : State} (hs : M.ReachableBy ok s) : M.Reachable s := by
  induction hs with
  | init h => exact .init h
  | step _ _ hst ih => exact .step ih trivial hst

/-- Steps that are allowed under a stronger condition are allowed. -/
theorem ReachableBy.mono {ok' : State → Label → Prop} (h : ∀ s l, ok s l → ok' s l) {s : State}
    (hs : M.ReachableBy ok s) : M.ReachableBy ok' s := by
  induction hs with
  | init h => exact .init h
  | step _ hok hst ih => exact .step ih (h _ _ hok) hst

/-! ## Runs -/

variable (M)

/-- `M.IsRun s π`: the labelled states of `π` follow one another from `s`. -/
def IsRun : State → List (Label × State) → Prop
  | _, [] => True
  | s, (l, t) :: π => M.step s l t ∧ IsRun t π

/-- `P` holds in `s` and in every state of the run `π` from `s`. -/
def Always (P : State → Prop) (s : State) (π : List (Label × State)) : Prop :=
  P s ∧ ∀ p ∈ π, P p.2

/-- Every step of the run `π` from `s` meets `ok`. -/
def Meets (ok : State → Label → Prop) : State → List (Label × State) → Prop
  | _, [] => True
  | s, (l, t) :: π => ok s l ∧ Meets ok t π

variable {M}

@[simp] theorem always_nil {P : State → Prop} {s : State} :
    @Always State Label P s [] ↔ P s := by
  simp [Always]

@[simp] theorem always_cons {P : State → Prop} {s t : State} {l : Label}
    {π : List (Label × State)} : Always P s ((l, t) :: π) ↔ P s ∧ Always P t π := by
  simp [Always]

/-- The state in which the run `π` from `s` ends. -/
def lastState : State → List (Label × State) → State
  | s, [] => s
  | _, (_, t) :: π => lastState t π

theorem lastState_of_always {P : State → Prop} {s : State} {π : List (Label × State)}
    (h : Always P s π) : P (lastState s π) := by
  induction π generalizing s with
  | nil => exact always_nil.mp h
  | cons p π ih => exact ih (always_cons.mp h).2

/-- What every step keeps holds throughout a run. -/
theorem IsRun.always {I : State → Prop} (hkeep : ∀ s l t, I s → M.step s l t → I t) {s : State}
    (hs : I s) {π : List (Label × State)} (hrun : M.IsRun s π) : Always I s π := by
  induction π generalizing s with
  | nil => exact always_nil.mpr hs
  | cons p π ih => exact always_cons.mpr ⟨hs, ih (hkeep _ _ _ hs hrun.1) hrun.2⟩

/-- **Guarded runs.** Let `I` imply the safety property `P`, and let allowed steps keep `I`. Then a
    run from `I` all of whose steps are allowed is safe throughout. -/
theorem always_of_meets {I P : State → Prop} (hsafe : ∀ s, I s → P s)
    (hkeep : ∀ s l t, I s → ok s l → M.step s l t → I t) {s : State} (hs : I s)
    {π : List (Label × State)} (hrun : M.IsRun s π) (hmeets : Meets ok s π) : Always P s π := by
  induction π generalizing s with
  | nil => exact always_nil.mpr (hsafe s hs)
  | cons p π ih =>
    exact always_cons.mpr ⟨hsafe s hs, ih (hkeep _ _ _ hs hmeets.1 hrun.1) hrun.2 hmeets.2⟩

/-- **Guarded runs, exactly.** Let moreover a step that is not allowed lead from `I` out of `P`, or
    into a set `D` of doomed states, which no step leaves. Then a run from `I` that does not end
    in `D` is safe throughout only if all its steps are allowed. -/
theorem meets_of_always {I P D : State → Prop}
    (hkeep : ∀ s l t, I s → ok s l → M.step s l t → I t)
    (hbreak : ∀ s l t, I s → ¬ ok s l → M.step s l t → ¬ P t ∨ D t)
    (hdoom : ∀ s l t, D s → M.step s l t → D t) {s : State} (hs : I s)
    {π : List (Label × State)} (hrun : M.IsRun s π) (hlast : ¬ D (lastState s π))
    (hsafe : Always P s π) : Meets ok s π := by
  induction π generalizing s with
  | nil => exact trivial
  | cons p π ih =>
    obtain ⟨l, t⟩ := p
    have htail := (always_cons.mp hsafe).2
    have hok : ok s l := by
      by_contra hno
      -- a step that is not allowed shows at once, or dooms the rest of the run
      rcases hbreak s l t hs hno hrun.1 with hP | hD
      · exact hP htail.1
      · have hDlast : D (lastState t π) := lastState_of_always (IsRun.always hdoom hD hrun.2)
        exact hlast hDlast
    exact ⟨hok, ih (hkeep s l t hs hok hrun.1) hrun.2 hlast htail⟩

/-- Where a step that is not allowed breaks the safety property at once. -/
theorem always_iff_meets {I P : State → Prop} (hsafe : ∀ s, I s → P s)
    (hkeep : ∀ s l t, I s → ok s l → M.step s l t → I t)
    (hbreak : ∀ s l t, I s → ¬ ok s l → M.step s l t → ¬ P t) {s : State} (hs : I s)
    {π : List (Label × State)} (hrun : M.IsRun s π) : Always P s π ↔ Meets ok s π :=
  ⟨meets_of_always (D := fun _ => False) hkeep
    (fun s l t hI hno hst => .inl (hbreak s l t hI hno hst)) (fun _ _ _ h _ => h) hs hrun id,
    always_of_meets hsafe hkeep hs hrun⟩

/-! ## Systems given by a function -/

/-- The system of a partial step function. -/
def ofNext (init : State → Prop) (next : State → Label → Option State) : Lts State Label where
  init := init
  step s l t := next s l = some t

/-- Run a list of labels through a partial step function. -/
def exec (next : State → Label → Option State) : State → List Label → Option State
  | s, [] => some s
  | s, l :: ls => (next s l).bind fun t => exec next t ls

theorem Reachable.exec {init : State → Prop} {next : State → Label → Option State}
    {s t : State} {ls : List Label} (hs : (ofNext init next).Reachable s)
    (h : exec next s ls = some t) : (ofNext init next).Reachable t := by
  induction ls generalizing s with
  | nil =>
    obtain rfl : s = t := by simpa [Lts.exec] using h
    exact hs
  | cons l ls ih =>
    obtain ⟨u, hu, hrest⟩ := Option.bind_eq_some_iff.mp h
    exact ih (.step hs trivial hu) hrest

end Lts

end ReechatBase.Lib
