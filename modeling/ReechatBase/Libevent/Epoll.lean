import Mathlib.Data.Finset.SDiff
import Mathlib.Data.Fintype.Powerset
import ReechatBase.Libevent.Evmap

/-!
# The epoll backend

`epoll.c` and the table of `epolltable-internal.h` over the epoll instance of the kernel, which
forgets a descriptor when it is closed. `epoll_ctl` answers as its manual says, and may refuse any
call besides.

`EPOLLIN`, `EPOLLOUT` and `EPOLLRDHUP` are the `EV_READ`, `EV_WRITE` and `EV_CLOSED` they stand
for, and no descriptor has a duplicate. Of the table the entries are left out in which a change is
both an addition and a deletion.
-/

namespace ReechatBase.Libevent

open Function

/-! ## The kernel -/

/-- What a descriptor number stands for. -/
inductive Desc where
  | closed
  /-- A file that cannot be watched -/
  | unpollable
  /-- A file that can be watched, and the events registered for it -/
  | pollable (interest : Option (Finset Io))

/-- The descriptors of the process, with what the epoll instance has registered. -/
abbrev Kernel := ℕ → Desc

/-- The events registered for a descriptor. -/
def Kernel.interest (k : Kernel) (fd : ℕ) : Option (Finset Io) :=
  match k fd with
  | .pollable interest => interest
  | _ => none

inductive EpollOp where
  | add
  | mod
  | del
  deriving DecidableEq

inductive Errno where
  | ebadf
  | eexist
  | enoent
  | eperm
  /-- Any other, such as `ENOMEM` and `ENOSPC` -/
  | other
  deriving DecidableEq

/-- `epoll_ctl`, and the `errno` if it fails. -/
def Kernel.epollCtl (k : Kernel) (op : EpollOp) (fd : ℕ) (events : Finset Io) (refused : Bool) :
    Kernel × Option Errno :=
  match k fd with
  | .closed => (k, some .ebadf)
  | .unpollable => (k, some .eperm)
  | .pollable interest =>
    if refused then (k, some .other)
    else
      match op, interest with
      | .add, some _ => (k, some .eexist)
      | .mod, none => (k, some .enoent)
      | .del, none => (k, some .enoent)
      | .del, some _ => (update k fd (.pollable none), none)
      | _, _ => (update k fd (.pollable (some events)), none)

/-! ## Changes -/

/-- `EV_CHANGE_ADD`, `EV_CHANGE_DEL`, or neither -/
inductive Change where
  | none
  | add
  | del
  deriving DecidableEq

instance : Fintype Change where
  elems := {.none, .add, .del}
  complete i := by cases i <;> decide

/-- `struct event_change` -/
structure EventChange where
  fd : ℕ
  oldEvents : Finset Io
  /-- `read_change`, `write_change` and `close_change` -/
  change : Io → Change

/-- `struct operation` -/
inductive Operation where
  | nop
  | add (events : Finset Io)
  | mod (events : Finset Io)
  | del (events : Finset Io)
  deriving DecidableEq

namespace EpollTable

def R : Finset Io := {.read}
def W : Finset Io := {.write}
def C : Finset Io := {.closed}
def RW : Finset Io := {.read, .write}
def RC : Finset Io := {.read, .closed}
def WC : Finset Io := {.write, .closed}
def RWC : Finset Io := {.read, .write, .closed}

open Operation in
/-- `epoll_op_table`. The rows are numbered by the old events and the change of `EV_WRITE`, the
    columns by the changes of `EV_READ` and of `EV_CLOSED`. -/
def rows : List (List Operation) := [
  -- old = 0
  [nop, .add C, .del C, .add R, .add RC, .add R, .del R, .add C, .del RC],
  [.add W, .add WC, .add W, .add RW, .add RWC, .add RW, .add W, .add WC, .add W],
  [.del W, .add C, .del WC, .add R, .add RC, .add R, .del RW, .add C, .del RWC],
  -- old = r
  [nop, .mod RC, .mod R, .mod R, .mod RC, .mod R, .del R, .mod C, .del RC],
  [.mod RW, .mod RWC, .mod RW, .mod RW, .mod RWC, .mod RW, .mod W, .mod WC, .mod W],
  [.mod R, .mod RC, .mod R, .mod R, .mod RC, .mod R, .del RW, .mod C, .del RWC],
  -- old = w
  [nop, .mod WC, .mod W, .mod RW, .mod RWC, .mod RW, .mod W, .mod WC, .mod W],
  [.mod W, .mod WC, .mod W, .mod RW, .mod RWC, .mod RW, .mod W, .mod WC, .mod W],
  [.del W, .mod C, .del WC, .mod R, .mod RC, .mod R, .del RW, .mod C, .del RWC],
  -- old = rw
  [nop, .mod RWC, .mod RW, .mod RW, .mod RWC, .mod RW, .mod W, .mod WC, .mod W],
  [.mod RW, .mod RWC, .mod RW, .mod RW, .mod RWC, .mod RW, .mod W, .mod WC, .mod W],
  [.mod R, .mod RC, .mod R, .mod R, .mod RC, .mod R, .del RW, .mod C, .del RWC],
  -- old = c
  [nop, .mod C, .del C, .mod RC, .mod RC, .mod R, .mod C, .mod C, .del RC],
  [.mod WC, .mod WC, .mod W, .mod RWC, .mod RWC, .mod RW, .mod WC, .mod WC, .mod W],
  [.mod C, .mod C, .del WC, .mod RC, .mod RC, .mod R, .mod C, .mod C, .del RWC],
  -- old = cr
  [nop, .mod RC, .mod R, .mod RC, .mod RC, .mod R, .mod C, .mod C, .del RC],
  [.mod RWC, .mod RWC, .mod RW, .mod RWC, .mod RWC, .mod RW, .mod WC, .mod WC, .mod W],
  [.mod RC, .mod RC, .mod R, .mod RC, .mod RC, .mod R, .mod C, .mod C, .del RWC],
  -- old = cw
  [nop, .mod WC, .mod W, .mod RWC, .mod RWC, .mod RW, .mod WC, .mod WC, .mod W],
  [.mod WC, .mod WC, .mod W, .mod RWC, .mod RWC, .mod RW, .mod WC, .mod WC, .mod W],
  [.mod C, .mod C, .del WC, .mod RC, .mod RC, .mod R, .mod C, .mod C, .del RWC],
  -- old = crw
  [nop, .mod RWC, .mod RW, .mod RWC, .mod RWC, .mod RW, .mod WC, .mod WC, .mod W],
  [.mod RWC, .mod RWC, .mod RW, .mod RWC, .mod RWC, .mod RW, .mod WC, .mod WC, .mod W],
  [.mod RC, .mod RC, .mod R, .mod RC, .mod RC, .mod R, .mod C, .mod C, .del RWC]]

def oldIndex (old : Finset Io) : ℕ :=
  (if .read ∈ old then 1 else 0) + (if .write ∈ old then 2 else 0) +
    (if .closed ∈ old then 4 else 0)

def changeIndex : Change → ℕ
  | .none => 0
  | .add => 1
  | .del => 2

end EpollTable

open EpollTable in
/-- The entry of `epoll_op_table` at `EPOLL_OP_TABLE_INDEX` -/
def EventChange.operation (ch : EventChange) : Operation :=
  ((rows.getD (3 * oldIndex ch.oldEvents + changeIndex (ch.change .write)) []).getD
    (3 * changeIndex (ch.change .read) + changeIndex (ch.change .closed)) .nop)

/-! ## The calls -/

/-- Whether the two calls of `epoll_ctl` that one change may need are refused. -/
structure CtlAnswers where
  first : Bool
  retry : Bool

namespace Kernel

variable (k : Kernel)

/-- The call of `epoll_ctl` in `epoll_apply_one_change`, and what follows when it fails. -/
def ctlOrRetry (op : EpollOp) (fd : ℕ) (events : Finset Io) (a : CtlAnswers) : Kernel × Bool :=
  match k.epollCtl op fd events a.first with
  | (k, none) => (k, true)
  | (k, some e) =>
    match op, e with
    | .mod, .enoent =>
      let (k, err) := k.epollCtl .add fd events a.retry
      (k, err = none)
    | .add, .eexist =>
      let (k, err) := k.epollCtl .mod fd events a.retry
      (k, err = none)
    | .del, .enoent => (k, true)
    | .del, .ebadf => (k, true)
    | .del, .eperm => (k, true)
    | _, _ => (k, false)

/-- `epoll_apply_one_change` -/
def applyOneChange (ch : EventChange) (a : CtlAnswers) : Kernel × Bool :=
  match ch.operation with
  | .nop => (k, true)
  | .add events => k.ctlOrRetry .add ch.fd events a
  | .mod events => k.ctlOrRetry .mod ch.fd events a
  | .del events => k.ctlOrRetry .del ch.fd events a

end Kernel

/-- The change that `epoll_nochangelist_add` and `epoll_nochangelist_del` make of their arguments,
    with `EV_CHANGE_ADD` and `EV_CHANGE_DEL`. -/
def EventChange.of (fd : ℕ) (old events : Finset Io) (c : Change) : EventChange :=
  ⟨fd, old, fun i => if i ∈ events then c else .none⟩

/-- `epollops`: `epoll_nochangelist_add` and `epoll_nochangelist_del` -/
def epollops : Eventop Kernel CtlAnswers where
  add k fd old events a := k.applyOneChange (.of fd old events .add) a
  del k fd old events a := k.applyOneChange (.of fd old events .del) a

/-! ## What the table says -/

/-- What is to be registered after a change. -/
def EventChange.wanted (ch : EventChange) : Finset Io :=
  Finset.univ.filter fun i => ch.change i = .add ∨ i ∈ ch.oldEvents ∧ ch.change i ≠ .del

/-- What a change deletes. -/
def EventChange.deleted (ch : EventChange) : Finset Io :=
  Finset.univ.filter fun i => ch.change i = .del

/-- The entry that the table should have. -/
def EventChange.expected (ch : EventChange) : Operation :=
  if ∀ i, ch.change i = .none then .nop
  else if ∃ i, ch.change i = .add then
    if ch.oldEvents = ∅ then .add ch.wanted else .mod ch.wanted
  else if ch.wanted = ∅ then .del ch.deleted
  else .mod ch.wanted

/-- A change by its three parts. -/
def EventChange.ofParts (fd : ℕ) (old : Finset Io) (read write closed : Change) : EventChange where
  fd := fd
  oldEvents := old
  change
    | .read => read
    | .write => write
    | .closed => closed

theorem EventChange.operation_ofParts : ∀ (old : Finset Io) (read write closed : Change),
    (ofParts 0 old read write closed).operation = (ofParts 0 old read write closed).expected := by
  decide

/-- **The table computes what is wanted.** Every entry registers what is wanted after the change:
    with `EPOLL_CTL_ADD` if nothing was registered, with `EPOLL_CTL_DEL` if nothing is to stay. -/
theorem EventChange.operation_eq (ch : EventChange) : ch.operation = ch.expected := by
  have hparts : ch = ofParts ch.fd ch.oldEvents (ch.change .read) (ch.change .write)
      (ch.change .closed) := by
    obtain ⟨fd, old, change⟩ := ch
    rw [ofParts, mk.injEq]
    refine ⟨rfl, rfl, funext fun i => ?_⟩
    cases i <;> rfl
  rw [hparts]
  exact operation_ofParts ..

/-! ## What the calls do -/

namespace Kernel

variable {k : Kernel} {fd : ℕ} {events old res : Finset Io} {a : CtlAnswers}

/-- Register these events for a descriptor, and none if there are none. -/
def tell (k : Kernel) (fd : ℕ) (events : Finset Io) : Kernel :=
  if events = ∅ then
    match k fd with
    | .pollable _ => update k fd (.pollable none)
    | _ => k
  else update k fd (.pollable (some events))

/-- The descriptor can be watched, and the kernel refuses nothing. -/
def Willing (k : Kernel) (fd : ℕ) (a : CtlAnswers) : Prop :=
  (∃ interest, k fd = .pollable interest) ∧ a.first = false ∧ a.retry = false

theorem interest_tell_self : (k.tell fd events).interest fd =
    if events = ∅ then none else some events := by
  unfold tell interest
  by_cases h : events = ∅
  · cases hk : k fd <;> simp [h, hk]
  · simp [h]

theorem tell_of_ne {e : ℕ} (he : e ≠ fd) : k.tell fd events e = k e := by
  unfold tell
  by_cases h : events = ∅
  · cases hk : k fd <;> simp [h, he]
  · simp [h, he]

theorem interest_tell_of_ne {e : ℕ} (he : e ≠ fd) :
    (k.tell fd events).interest e = k.interest e := by
  rw [interest, interest, tell_of_ne he]

/-- `EPOLL_CTL_ADD` and `EPOLL_CTL_MOD` are retried as one another. -/
theorem ctlOrRetry_register {op : EpollOp} (hop : op ≠ .del) (hevents : events ≠ ∅) :
    k.ctlOrRetry op fd events a = (k.tell fd events, true) ∨
      k.ctlOrRetry op fd events a = (k, false) ∧ ¬ k.Willing fd a := by
  obtain ⟨first, retry⟩ := a
  rw [tell, if_neg hevents]
  cases hk : k fd with
  | closed => cases op <;> simp_all [ctlOrRetry, epollCtl, Willing]
  | unpollable => cases op <;> simp_all [ctlOrRetry, epollCtl, Willing]
  | pollable interest =>
    cases first
    · cases op <;> cases interest <;> cases retry <;> simp_all [ctlOrRetry, epollCtl, Willing]
    · cases op <;> simp_all [ctlOrRetry, epollCtl, Willing]

/-- `EPOLL_CTL_DEL` is content with a descriptor that is not registered. -/
theorem ctlOrRetry_unregister :
    k.ctlOrRetry .del fd events a = (k.tell fd ∅, true) ∨
      k.ctlOrRetry .del fd events a = (k, false) ∧ ¬ k.Willing fd a := by
  obtain ⟨first, retry⟩ := a
  rw [tell, if_pos rfl]
  cases hk : k fd with
  | closed => simp [ctlOrRetry, epollCtl, hk]
  | unpollable => simp [ctlOrRetry, epollCtl, hk]
  | pollable interest =>
    cases first
    · cases interest with
      | none =>
        have hsame : update k fd (.pollable none) = k := by rw [← hk, update_eq_self]
        simp [ctlOrRetry, epollCtl, hk, hsame]
      | some events => simp [ctlOrRetry, epollCtl, hk]
    · simp [ctlOrRetry, epollCtl, hk, Willing]

/-- `epoll_apply_one_change` registers what is wanted, or leaves the kernel as it is. -/
theorem applyOneChange_spec (ch : EventChange) (hch : ∃ i, ch.change i ≠ .none) :
    k.applyOneChange ch a = (k.tell ch.fd ch.wanted, true) ∨
      k.applyOneChange ch a = (k, false) ∧ ¬ k.Willing ch.fd a := by
  have hsome : ¬ ∀ i, ch.change i = .none := not_forall.mpr hch
  unfold applyOneChange
  rw [ch.operation_eq, EventChange.expected, if_neg hsome]
  by_cases hadd : ∃ i, ch.change i = .add
  · have hwanted : ch.wanted ≠ ∅ := by
      obtain ⟨i, hi⟩ := hadd
      apply Finset.ne_empty_of_mem
      exact Finset.mem_filter.mpr ⟨Finset.mem_univ i, .inl hi⟩
    rw [if_pos hadd]
    by_cases hold : ch.oldEvents = ∅
    · rw [if_pos hold]
      exact ctlOrRetry_register (by decide) hwanted
    · rw [if_neg hold]
      exact ctlOrRetry_register (by decide) hwanted
  · rw [if_neg hadd]
    by_cases hwanted : ch.wanted = ∅
    · rw [if_pos hwanted, hwanted]
      exact ctlOrRetry_unregister
    · rw [if_neg hwanted]
      exact ctlOrRetry_register (by decide) hwanted

end Kernel

theorem EventChange.exists_change_of {fd : ℕ} {old events : Finset Io} {c : Change}
    (hevents : events ≠ ∅) (hc : c ≠ .none) : ∃ i, (of fd old events c).change i ≠ .none := by
  obtain ⟨i, hi⟩ := Finset.nonempty_iff_ne_empty.mpr hevents
  exact ⟨i, by simpa [of, hi] using hc⟩

theorem EventChange.wanted_of_add (fd : ℕ) (old events : Finset Io) :
    (of fd old events .add).wanted = old ∪ events := by
  ext i
  by_cases hi : i ∈ events <;> simp [wanted, of, hi]

theorem EventChange.wanted_of_del (fd : ℕ) (old events : Finset Io) :
    (of fd old events .del).wanted = old \ events := by
  ext i
  by_cases hi : i ∈ events <;> simp [wanted, of, hi]

section Calls

variable {k : Kernel} {fd : ℕ} {old events : Finset Io} (a : CtlAnswers)

/-- `epoll_nochangelist_add` -/
theorem epollops_add (hevents : events ≠ ∅) :
    epollops.add k fd old events a = (k.tell fd (old ∪ events), true) ∨
      epollops.add k fd old events a = (k, false) ∧ ¬ k.Willing fd a := by
  rw [← EventChange.wanted_of_add fd]
  exact k.applyOneChange_spec _ (EventChange.exists_change_of hevents (by decide))

/-- `epoll_nochangelist_del` -/
theorem epollops_del (hevents : events ≠ ∅) :
    epollops.del k fd old events a = (k.tell fd (old \ events), true) ∨
      epollops.del k fd old events a = (k, false) ∧ ¬ k.Willing fd a := by
  rw [← EventChange.wanted_of_del fd]
  exact k.applyOneChange_spec _ (EventChange.exists_change_of hevents (by decide))

end Calls

end ReechatBase.Libevent
