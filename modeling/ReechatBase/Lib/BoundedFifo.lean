import Mathlib.Data.List.Basic

/-!
# Bounded FIFO queues

The abstract behaviour of a byte queue of bounded capacity. An event says which elements an
operation accepted and which it delivered; a step appends the former at the back and takes the
latter from the front. Over a run nothing is lost, duplicated or reordered
(`Steps.conservation`).
-/

namespace ReechatBase.Lib.BoundedFifo

variable {α : Type*}

/-- A stream that has grown still begins with what was known of it. -/
theorem take_of_isPrefix {l l' : List α} {n : ℕ} (h : l <+: l') (hn : n ≤ l.length) :
    l'.take n = l.take n := by
  obtain ⟨t, rfl⟩ := h
  exact List.take_append_of_le_length hn

/-- What one operation put into the queue and what it took out. -/
structure Event (α : Type*) where
  accepted : List α
  delivered : List α

/-- One operation on a queue of capacity `cap`. -/
structure Step (cap : ℕ) (q : List α) (e : Event α) (q' : List α) : Prop where
  conservation : q ++ e.accepted = e.delivered ++ q'
  bound : q'.length ≤ cap

/-- A sequence of operations. -/
inductive Steps (cap : ℕ) : List α → List (Event α) → List α → Prop where
  | nil (q : List α) : Steps cap q [] q
  | cons {q q' q'' : List α} {e : Event α} {es : List (Event α)} :
      Step cap q e q' → Steps cap q' es q'' → Steps cap q (e :: es) q''

/-- Everything that a sequence of operations accepted. -/
def accepted (es : List (Event α)) : List α :=
  es.flatMap Event.accepted

/-- Everything that a sequence of operations delivered. -/
def delivered (es : List (Event α)) : List α :=
  es.flatMap Event.delivered

/-- **Conservation.** What was in the queue, followed by what was accepted, is what was
    delivered, followed by what is still in the queue. -/
theorem Steps.conservation {cap : ℕ} {q q' : List α} {es : List (Event α)}
    (h : Steps cap q es q') : q ++ accepted es = delivered es ++ q' := by
  induction h with
  | nil q => simp [accepted, delivered]
  | @cons q q₁ q' e es hstep _ ih =>
    calc q ++ accepted (e :: es)
        = (q ++ e.accepted) ++ accepted es := by simp [accepted]
      _ = e.delivered ++ (q₁ ++ accepted es) := by rw [hstep.conservation, List.append_assoc]
      _ = delivered (e :: es) ++ q' := by rw [ih]; simp [delivered]

end ReechatBase.Lib.BoundedFifo
