import Mathlib.Data.Finset.Lattice.Basic
import Mathlib.Data.Fintype.Sets
import Mathlib.Logic.Function.Basic

/-!
# Events on descriptors

`evmap.c`, as far as it concerns descriptors: for each of them the list of its events and how many
of them read, write or wait for the end. The backend (`struct eventop`) is told only what is
asked for first or given up last.

The backend is a parameter here. No event is edge-triggered.
-/

namespace ReechatBase.Libevent

open Function

variable {ε β α : Type} [DecidableEq ε]

/-- `EV_READ`, `EV_WRITE` and `EV_CLOSED` -/
inductive Io where
  | read
  | write
  | closed
  deriving DecidableEq

instance : Fintype Io where
  elems := {.read, .write, .closed}
  complete i := by cases i <;> decide

/-- The calls of a `struct eventop` on a base `β`, given what the system answers: whether a call
    succeeds, and what becomes of the base. -/
structure Eventop (β α : Type) where
  /-- `add(base, fd, old, events)` -/
  add : β → ℕ → Finset Io → Finset Io → α → β × Bool
  /-- `del(base, fd, old, events)` -/
  del : β → ℕ → Finset Io → Finset Io → α → β × Bool

/-- `struct evmap_io` -/
structure EvmapIo (ε : Type) where
  events : List ε
  /-- `nread`, `nwrite` and `nclose` -/
  count : Io → ℕ

/-- `evmap_io_init` -/
def EvmapIo.init : EvmapIo ε := ⟨[], fun _ => 0⟩

/-- `old`: what the events of the list wait for. -/
def EvmapIo.old (ctx : EvmapIo ε) : Finset Io :=
  Finset.univ.filter fun i => ctx.count i ≠ 0

/-- `struct event_io_map` -/
structure EventIoMap (ε : Type) where
  nentries : ℕ
  entries : ℕ → Option (EvmapIo ε)

namespace EventIoMap

/-- `evmap_io_initmap_` -/
def init : EventIoMap ε := ⟨0, fun _ => none⟩

variable (m : EventIoMap ε)

/-- A new entry for the descriptor. -/
def set (fd : ℕ) (ctx : EvmapIo ε) : EventIoMap ε :=
  { m with entries := update m.entries fd (some ctx) }

/-- `while (nentries <= slot) nentries <<= 1;` -/
def doubled (slot : ℕ) : ℕ → ℕ → ℕ
  | 0, nentries => nentries
  | fuel + 1, nentries => if nentries ≤ slot then doubled slot fuel (2 * nentries) else nentries

/-- `evmap_make_space`, `none` if the allocation fails. -/
def makeSpace (slot : ℕ) (realloc : Bool) : Option (EventIoMap ε) :=
  if m.nentries ≤ slot then
    if realloc then
      some { m with
        nentries := doubled slot (slot + 1) (if m.nentries = 0 then 32 else m.nentries) }
    else none
  else some m

/-- `GET_IO_SLOT_AND_CTOR`, `none` if the allocation fails. -/
def getOrConstruct (fd : ℕ) (calloc : Bool) : Option (EventIoMap ε × EvmapIo ε) :=
  match m.entries fd with
  | some ctx => some (m, ctx)
  | none => if calloc then some (m.set fd .init, .init) else none

end EventIoMap

/-- What the system answers to one `evmap_io_add_`. -/
structure IoAddAnswers (α : Type) where
  realloc : Bool
  calloc : Bool
  backend : α

section Functions

variable (op : Eventop β α) (m : EventIoMap ε) (b : β)

/-- `evmap_io_add_`, from the entry of the descriptor on. -/
def addTo (fd : ℕ) (ctx : EvmapIo ε) (ev : ε) (events : Finset Io) (a : α) :
    EventIoMap ε × β × ℤ :=
  let n i := if i ∈ events then ctx.count i + 1 else ctx.count i
  let res := events.filter fun i => n i = 1
  if ∃ i, n i > 0xffff then (m, b, -1)
  else if res = ∅ then (m.set fd ⟨ev :: ctx.events, n⟩, b, 0)
  else
    match op.add b fd ctx.old res a with
    | (b, false) => (m, b, -1)
    | (b, true) => (m.set fd ⟨ev :: ctx.events, n⟩, b, 1)

/-- `evmap_io_add_` -/
def evmapIoAdd (fd : ℤ) (ev : ε) (events : Finset Io) (a : IoAddAnswers α) :
    EventIoMap ε × β × ℤ :=
  if fd < 0 then (m, b, 0)
  else
    match m.makeSpace fd.toNat a.realloc with
    | none => (m, b, -1)
    | some m =>
      match m.getOrConstruct fd.toNat a.calloc with
      | none => (m, b, -1)
      | some (m, ctx) => addTo op m b fd.toNat ctx ev events a.backend

/-- `evmap_io_del_`. There is no result where an assertion fails, where the entry is a null
    pointer, and where the event is not in the list that it is removed from. -/
def evmapIoDel (fd : ℤ) (ev : ε) (events : Finset Io) (a : α) : Option (EventIoMap ε × β × ℤ) :=
  if fd < 0 then some (m, b, 0)
  else if m.nentries ≤ fd.toNat then some (m, b, -1)
  else
    match m.entries fd.toNat with
    | none => none
    | some ctx =>
      if (∀ i ∈ events, 0 < ctx.count i) ∧ ev ∈ ctx.events then
        let n i := if i ∈ events then ctx.count i - 1 else ctx.count i
        let res := events.filter fun i => n i = 0
        let m := m.set fd.toNat ⟨ctx.events.erase ev, n⟩
        if res = ∅ then some (m, b, 0)
        else
          let (b, ok) := op.del b fd.toNat ctx.old res a
          some (m, b, if ok then 1 else -1)
      else none

/-- The events that `evmap_io_active_` activates, with what they are reported for. -/
def evmapIoActive (events : ε → Finset Io) (fd : ℤ) (what : Finset Io) : List (ε × Finset Io) :=
  if fd < 0 ∨ (m.nentries : ℤ) ≤ fd then []
  else
    match m.entries fd.toNat with
    | none => []
    | some ctx =>
      (ctx.events.filter fun ev => events ev ∩ what ≠ ∅).map fun ev => (ev, events ev ∩ what)

end Functions

end ReechatBase.Libevent
