import ReechatBase.RingBuffer.Counters
import ReechatBase.Lib.RelyGuarantee

/-!
# The two sides of a shared RingBuffer

One thread writes into the ring and one reads from it, each from counter values that it loaded
earlier. The shared state carries two history variables: every byte ever published, and how many
of them have been consumed. The writer only ever adds to the first and the reader to the second;
this is what each side relies on while it works with a stale view.

- `WriterView`, `ReaderView`: what a side knows, whatever the other one does meanwhile;
- `Coherent`: the invariant that ties the memory to the history;
- one specification for each member function, under the discipline of its side.
-/

namespace ReechatBase.RingBuffer

open Lib Lib.Prog Lib.Cyclic

/-- The memory of a ring with its history. -/
structure Shared where
  mem : Mem
  published : List UInt8
  consumed : ℕ

/-- The history after an action that has led to the memory `m`. -/
def Shared.record (sh : PowShape) (s : Shared) : Act → Mem → Shared
  | .addWriteCount len, m =>
    ⟨m, s.published ++ window s.mem.dataArr sh.cap s.mem.writeCount.toNat len.toNat, s.consumed⟩
  | .addReadCount len, m => ⟨m, s.published, s.consumed + len.toNat⟩
  | _, m => ⟨m, s.published, s.consumed⟩

/-- One action on the memory and its history. -/
def Shared.exec (sh : PowShape) (ndebug : Bool) : Exec sig Shared := fun a s =>
  (RingBuffer.exec ndebug a s.mem).map fun rm => (rm.1, s.record sh a rm.2)

/-- The history does not influence a program. -/
theorem run_shared (sh : PowShape) {ndebug : Bool} {α : Type} (p : Prog sig α) (s : Shared) :
    (p.run (Shared.exec sh ndebug) s).map (fun vt => (vt.1, vt.2.mem)) =
      p.run (RingBuffer.exec ndebug) s.mem := by
  induction p generalizing s with
  | ret a => rfl
  | act a k ih =>
    have hmem : ∀ m, (s.record sh a m).mem = m := by
      intro m
      cases a <;> rfl
    simp only [run_act, Shared.exec]
    cases RingBuffer.exec ndebug a s.mem with
    | none => rfl
    | some rm =>
      simp only [Option.map_some, Option.bind_some]
      rw [ih, hmem]

/-- A program on the ring of a larger state, whose effect on the memory is known. -/
theorem run_lift_of_mem {S : Signature} {σ α : Type} {sh : PowShape} {ndebug : Bool}
    {E : Embedding sig S} {L : Lens σ Shared} {exec : Exec S σ}
    (hexec : ∀ a t, (exec (E.act a) t).map (fun rt => (E.res a rt.1, rt.2)) =
      (Shared.exec sh ndebug a (L.get t)).map fun rt => (rt.1, L.set rt.2 t))
    {p : Prog sig α} {s : σ} {v : α} {m : Mem}
    (h : p.run (RingBuffer.exec ndebug) (L.get s).mem = some (v, m)) :
    ∃ x : Shared, x.mem = m ∧ (p.lift E).run exec s = some (v, L.set x s) := by
  rw [← run_shared sh] at h
  obtain ⟨⟨v', x⟩, hx, heq⟩ := Option.map_eq_some_iff.mp h
  cases heq
  exact ⟨x, rfl, by rw [run_lift hexec, hx, Option.map_some]⟩

/-- The history describes the memory: the content of the ring is what has been published and not
    yet consumed, and it fits into the array. -/
structure Coherent (sh : PowShape) (s : Shared) : Prop where
  consumed_le : s.consumed ≤ s.published.length
  size_eq : s.mem.size = s.published.length - s.consumed
  size_le : s.mem.size ≤ sh.cap
  content_eq : s.mem.content sh = s.published.drop s.consumed

namespace Coherent

variable {sh : PowShape} {s : Shared}

/-- Consuming unread bytes. -/
theorem addRead (h : Coherent sh s) {n : UInt32} (hn : n.toNat ≤ s.mem.size) :
    Coherent sh ⟨s.mem.addRead n, s.published, s.consumed + n.toNat⟩ where
  consumed_le := by
    have := h.size_eq
    have := h.consumed_le
    simp only
    omega
  size_eq := by
    rw [Mem.size_addRead _ hn, h.size_eq, Nat.sub_sub]
  size_le := by
    rw [Mem.size_addRead _ hn]
    exact (Nat.sub_le _ _).trans h.size_le
  content_eq := by
    rw [Mem.content_addRead sh _ hn, h.content_eq, List.drop_drop]

/-- Publishing the bytes behind the content. -/
theorem addWrite (h : Coherent sh s) {n : UInt32} (hn : s.mem.size + n.toNat ≤ sh.cap) :
    Coherent sh ⟨s.mem.addWrite n,
      s.published ++ window s.mem.dataArr sh.cap s.mem.writeCount.toNat n.toNat,
      s.consumed⟩ where
  consumed_le := by
    have := h.consumed_le
    simp only [List.length_append]
    omega
  size_eq := by
    rw [Mem.size_addWrite sh _ hn, h.size_eq, List.length_append, length_window,
      Nat.sub_add_comm h.consumed_le]
  size_le := by
    rwa [Mem.size_addWrite sh _ hn]
  content_eq := by
    rw [Mem.content_addWrite sh _ hn, h.content_eq, List.drop_append_of_le_length h.consumed_le]

/-- Storing into a cell that holds no unread byte. -/
theorem storeByte (h : Coherent sh s) {i : ℕ} (b : UInt8)
    (hi : ∀ j < s.mem.size, i ≠ (s.mem.readCount.toNat + j) % sh.cap) :
    Coherent sh ⟨s.mem.setData (Function.update s.mem.dataArr i b), s.published, s.consumed⟩ where
  consumed_le := h.consumed_le
  size_eq := h.size_eq
  size_le := h.size_le
  content_eq := by
    rw [← h.content_eq]
    exact window_congr fun j hj => Function.update_of_ne (hi j hj).symm _ _

end Coherent

/-- What the writer may assume of the reader. -/
structure WriterRely (s t : Shared) : Prop where
  published : t.published = s.published
  writeCount : t.mem.writeCount = s.mem.writeCount
  dataArr : t.mem.dataArr = s.mem.dataArr
  consumed : s.consumed ≤ t.consumed

/-- What the reader may assume of the writer. -/
structure ReaderRely (s t : Shared) : Prop where
  published : s.published <+: t.published
  readCount : t.mem.readCount = s.mem.readCount
  consumed : t.consumed = s.consumed

theorem WriterRely.refl (s : Shared) : WriterRely s s := ⟨rfl, rfl, rfl, le_rfl⟩

theorem WriterRely.trans {s t u : Shared} (h : WriterRely s t) (h' : WriterRely t u) :
    WriterRely s u :=
  ⟨h'.published.trans h.published, h'.writeCount.trans h.writeCount, h'.dataArr.trans h.dataArr,
    h.consumed.trans h'.consumed⟩

theorem ReaderRely.refl (s : Shared) : ReaderRely s s := ⟨List.prefix_rfl, rfl, rfl⟩

theorem ReaderRely.trans {s t u : Shared} (h : ReaderRely s t) (h' : ReaderRely t u) :
    ReaderRely s u :=
  ⟨h.published.trans h'.published, h'.readCount.trans h.readCount,
    h'.consumed.trans h.consumed⟩

/-- A cell that holds an unread byte. -/
def Unread (sh : PowShape) (m : Mem) (i : ℕ) : Prop :=
  ∃ j < m.size, i = (m.readCount.toNat + j) % sh.cap

/-- When the writer may perform an action: it stores into cells of the array that hold no unread
    byte. With `strict`, assertions must hold. -/
def writerSafe (sh : PowShape) (strict : Prop) : Act → Shared → Prop
  | .storeByte i _, s => i < sh.cap ∧ ¬ Unread sh s.mem i
  | .assertion p, _ => strict → p = true
  | _, _ => True

/-- When the reader may perform an action: it loads from cells that hold an unread byte. -/
def readerSafe (sh : PowShape) (strict : Prop) : Act → Shared → Prop
  | .loadByte i, s => Unread sh s.mem i
  | .assertion p, _ => strict → p = true
  | _, _ => True

/-- The discipline of the writer. What has been published is only ever extended, and becomes
    `goal` if it changes at all. -/
def writerDisc (sh : PowShape) (ndebug : Bool) (strict : Prop) (goal : List UInt8) :
    Discipline sig Shared where
  sem a s r t := Shared.exec sh ndebug a s = some (r, t)
  inv := Coherent sh
  rely := WriterRely
  guar s t := ReaderRely s t ∧ (t.published = s.published ∨ t.published = goal)
  safe := writerSafe sh strict
  rely_refl := .refl
  rely_trans := .trans

/-- How what has been published may change while the reader works: with `quiet`, not at all. -/
def Grows (quiet : Prop) (V V' : List UInt8) : Prop :=
  V <+: V' ∧ (quiet → V' = V)

theorem Grows.refl (quiet : Prop) (V : List UInt8) : Grows quiet V V :=
  ⟨List.prefix_rfl, fun _ => rfl⟩

theorem Grows.trans {quiet : Prop} {V V' V'' : List UInt8} (h : Grows quiet V V')
    (h' : Grows quiet V' V'') : Grows quiet V V'' :=
  ⟨h.1.trans h'.1, fun hq => (h'.2 hq).trans (h.2 hq)⟩

/-- The discipline of the reader. -/
def readerDisc (sh : PowShape) (ndebug : Bool) (strict quiet : Prop) : Discipline sig Shared where
  sem a s r t := Shared.exec sh ndebug a s = some (r, t)
  inv := Coherent sh
  rely s t := ReaderRely s t ∧ Grows quiet s.published t.published
  guar := WriterRely
  safe := readerSafe sh strict
  rely_refl s := ⟨.refl s, .refl _ _⟩
  rely_trans h h' := ⟨h.1.trans h'.1, h.2.trans h'.2⟩

/-! ## The reader's view -/

/-- What the reader knows: at least `V` has been published, and where it stands itself. -/
structure ReaderView (quiet : Prop) (V : List UInt8) (r : UInt32) (c : ℕ) (s : Shared) : Prop where
  published : Grows quiet V s.published
  readCount : s.mem.readCount = r
  consumed : s.consumed = c

section Reader

variable {sh : PowShape} {ndebug : Bool} {strict quiet : Prop} {V : List UInt8} {r : UInt32}
  {c : ℕ} {s : Shared}

theorem ReaderView.of_rely {t : Shared} (h : ReaderView quiet V r c s)
    (hst : (readerDisc sh ndebug strict quiet).rely s t) : ReaderView quiet V r c t :=
  ⟨h.published.trans hst.2, hst.1.readCount.trans h.readCount,
    hst.1.consumed.trans h.consumed⟩

/-- Where the writer may publish, the reader's view is stable under all it does. -/
theorem ReaderView.of_readerRely {t : Shared} (h : ReaderView False V r c s)
    (hst : ReaderRely s t) : ReaderView False V r c t :=
  ⟨h.published.trans ⟨hst.published, False.elim⟩, hst.readCount.trans h.readCount,
    hst.consumed.trans h.consumed⟩

theorem ReaderView.length_le (h : ReaderView quiet V r c s) : V.length ≤ s.published.length :=
  h.published.1.length_le

/-- An action of the reader that changes nothing. -/
theorem wp_reader_query {a : Act} {R : sig.Res a → Shared → Prop} (hs : ReaderView quiet V r c s)
    (hsafe : ∀ t, ReaderView quiet V r c t → Coherent sh t → readerSafe sh strict a t)
    (hres : ∀ t x u, ReaderView quiet V r c t → Coherent sh t →
      Shared.exec sh ndebug a t = some (x, u) → u = t ∧ R x t)
    (hstable : ∀ x t u, R x t → (readerDisc sh ndebug strict quiet).rely t u → R x u) :
    wp (readerDisc sh ndebug strict quiet) (act a ret) R s := by
  intro t hst ht
  have hview := hs.of_rely hst
  refine ⟨hsafe t hview ht, fun x u hxu => ?_⟩
  obtain ⟨rfl, hR⟩ := hres t x u hview ht hxu
  exact ⟨ht, .refl _, fun v huv _ => hstable x _ v hR huv⟩

theorem wp_reader_loadReadCount (hs : ReaderView quiet V r c s) :
    wp (readerDisc sh ndebug strict quiet) loadReadCount
      (fun x t => x = r ∧ ReaderView quiet V r c t) s := by
  refine wp_reader_query hs (fun _ _ _ => trivial) ?_ fun x t u h hu => ⟨h.1, h.2.of_rely hu⟩
  intro t x u hview _ hxu
  cases (show some (t.mem.readCount, t) = some (x, u) from hxu)
  exact ⟨rfl, hview.readCount, hview⟩

/-- A load of `write_count_` tells the reader how much has been published by now. -/
theorem wp_reader_loadWriteCount (hs : ReaderView quiet V r c s) :
    wp (readerDisc sh ndebug strict quiet) loadWriteCount (fun w t => ∃ V', Grows quiet V V' ∧
      ReaderView quiet V' r c t ∧ c + (w - r).toNat = V'.length ∧ (w - r).toNat ≤ sh.cap) s := by
  refine wp_reader_query hs (fun _ _ _ => trivial) ?_ fun x t u h hu => ?_
  · intro t x u hview ht hxu
    cases (show some (t.mem.writeCount, t) = some (x, u) from hxu)
    have hsize := ht.size_eq
    have hle := ht.size_le
    have hc := ht.consumed_le
    rw [Mem.size, hview.readCount] at hsize hle
    rw [hview.consumed] at hsize hc
    exact ⟨rfl, t.published, hview.published,
      ⟨.refl _ _, hview.readCount, hview.consumed⟩, by omega, hle⟩
  · obtain ⟨V', hV, hview, hlen, hcap⟩ := h
    exact ⟨V', hV, hview.of_rely hu, hlen, hcap⟩

/-- An assertion, where the reader can prove it or the discipline lets it fail. -/
theorem wp_reader_assertion {p : Bool} (hs : ReaderView quiet V r c s) (hp : strict → p = true) :
    wp (readerDisc sh ndebug strict quiet) (assertion p)
      (fun _ t => ReaderView quiet V r c t) s := by
  refine wp_reader_query hs (fun _ _ _ => hp) ?_ fun x t u h hu => h.of_rely hu
  intro t x u hview _ hxu
  simp only [Shared.exec, RingBuffer.exec, Option.map_eq_some_iff, Option.ite_none_right_eq_some,
    Option.some.injEq, Prod.mk.injEq, Shared.record] at hxu
  obtain ⟨_, ⟨_, rfl⟩, _, rfl⟩ := hxu
  exact ⟨rfl, hview⟩

/-- A load from the unread region yields the byte that has been published there. -/
theorem wp_reader_loadByte (hs : ReaderView quiet V r c s) {i j : ℕ}
    (hi : i = (r.toNat + j) % sh.cap) (hj : c + j < V.length) :
    wp (readerDisc sh ndebug strict quiet) (loadByte i)
      (fun b t => b = V[c + j] ∧ ReaderView quiet V r c t) s := by
  have hsize : ∀ t, ReaderView quiet V r c t → Coherent sh t → j < t.mem.size := by
    intro t hview ht
    rw [ht.size_eq, hview.consumed]
    have := hview.length_le
    omega
  refine wp_reader_query hs ?_ ?_ fun x t u h hu => ⟨h.1, h.2.of_rely hu⟩
  · intro t hview ht
    exact ⟨j, hsize t hview ht, by rw [hi, hview.readCount]⟩
  · intro t x u hview ht hxu
    cases (show some (t.mem.dataArr i, t) = some (x, u) from hxu)
    refine ⟨rfl, ?_, hview⟩
    -- the cell holds the byte of the content at `j`, which is the byte published at `c + j`
    have hread : (t.mem.content sh)[j]? = some (t.mem.dataArr i) := by
      have hlt : j < (t.mem.content sh).length := by simpa using hsize t hview ht
      rw [List.getElem?_eq_getElem hlt]
      simp [Mem.content, hi, hview.readCount]
    have hpub : (t.published.drop t.consumed)[j]? = some V[c + j] := by
      rw [List.getElem?_drop, hview.consumed]
      have hlt : c + j < t.published.length := by
        have hlen := hview.length_le
        omega
      rw [List.getElem?_eq_getElem hlt, hview.published.1.getElem hj]
    rw [ht.content_eq, hpub] at hread
    exact (Option.some.inj hread).symm

/-- Consuming what the reader has seen published. -/
theorem wp_reader_addReadCount (hs : ReaderView quiet V r c s) {n : UInt32}
    (hn : c + n.toNat ≤ V.length) :
    wp (readerDisc sh ndebug strict quiet) (addReadCount n)
      (fun _ t => ReaderView quiet V (r + n) (c + n.toNat) t) s := by
  intro t hst ht
  have hview := hs.of_rely hst
  refine ⟨trivial, fun x u hxu => ?_⟩
  cases (show some ((), (⟨t.mem.addRead n, t.published, t.consumed + n.toNat⟩ : Shared)) =
    some (x, u) from hxu)
  have hlen := hview.length_le
  -- the ring still holds at least what the reader has seen
  have hfit : n.toNat ≤ t.mem.size := by
    rw [ht.size_eq, hview.consumed]
    omega
  refine ⟨ht.addRead hfit, ⟨rfl, rfl, rfl, Nat.le_add_right _ _⟩, fun v huv _ => ?_⟩
  have hnew : ReaderView quiet V (r + n) (c + n.toNat)
      ⟨t.mem.addRead n, t.published, t.consumed + n.toNat⟩ :=
    ⟨hview.published, by rw [Mem.readCount_addRead, hview.readCount], by rw [hview.consumed]⟩
  exact hnew.of_rely huv

/-! ### Member functions of the reader -/

/-- `AvailableRead` fails its assertion on a full ring. Where assertions must hold, nothing may
    be published meanwhile and the ring must have room. -/
theorem wp_availableRead (hs : ReaderView quiet V r c s)
    (hroom : strict → quiet ∧ V.length < c + sh.cap) :
    wp (readerDisc sh ndebug strict quiet) (availableRead sh.toShape) (fun n t => ∃ V',
      Grows quiet V V' ∧ ReaderView quiet V' r c t ∧ c + n.toNat = V'.length ∧
        n.toNat ≤ sh.cap) s := by
  refine wp_seq (wp_reader_loadWriteCount hs) ?_
  rintro w t _ ⟨V', hV, hview, hlen, hcap⟩
  refine wp_seq (wp_reader_loadReadCount hview) ?_
  rintro r t _ ⟨rfl, hview⟩
  refine wp_seq (wp_reader_assertion hview fun h => ?_) ?_
  · -- with nothing published meanwhile, the ring has room and `capacity_ > size` holds
    obtain ⟨hq, hlt⟩ := hroom h
    rw [decide_eq_true_eq, UInt32.lt_iff_toNat_lt, sh.capacity_toNat]
    rw [hV.2 hq] at hlen
    omega
  · exact fun _ t _ hview u hu _ => ⟨V', hV, hview.of_rely hu, hlen, hcap⟩

theorem wp_availableSeriesRead (hs : ReaderView quiet V r c s) :
    wp (readerDisc sh ndebug strict quiet) (availableSeriesRead sh.toShape) (fun n t => ∃ V',
      Grows quiet V V' ∧ ReaderView quiet V' r c t ∧ c ≤ V'.length ∧
        n.toNat = seriesLen sh.cap (r.toNat % sh.cap) (V'.length - c)) s := by
  rw [availableSeriesRead_eq]
  refine wp_seq (wp_reader_loadReadCount hs) ?_
  rintro r t _ ⟨rfl, hview⟩
  refine wp_seq (wp_reader_loadWriteCount hview) ?_
  rintro w t _ ⟨V', hV, hview, hlen, hcap⟩
  refine wp_seq (wp_reader_assertion hview fun _ => ?_) ?_
  · exact decide_eq_true (sh.le_capacity.mpr hcap)
  · refine fun _ t _ hview u hu _ => ⟨V', hV, hview.of_rely hu, by omega, ?_⟩
    rw [seriesReadLen_toNat sh hcap, show V'.length - c = (w - r).toNat by omega]

theorem wp_currentSeriesReadHead (hs : ReaderView quiet V r c s) :
    wp (readerDisc sh ndebug strict quiet) (currentSeriesReadHead sh.toShape)
      (fun i t => i = r.toNat % sh.cap ∧ ReaderView quiet V r c t) s := by
  refine wp_seq (wp_reader_loadReadCount hs) ?_
  rintro _ t _ ⟨rfl, hview⟩
  exact fun u hu _ => ⟨sh.mask_toNat _, hview.of_rely hu⟩

/-- Copying a part of what the reader has seen published. -/
theorem wp_loadBytes {i j n : ℕ} (hs : ReaderView quiet V r c s)
    (hi : ∀ k < n, i + k = (r.toNat + (j + k)) % sh.cap) (hn : c + j + n ≤ V.length) :
    wp (readerDisc sh ndebug strict quiet) (loadBytes i n)
      (fun bs t => bs = (V.drop (c + j)).take n ∧ ReaderView quiet V r c t) s := by
  induction n generalizing i j s with
  | zero => exact fun t ht _ => ⟨by simp, hs.of_rely ht⟩
  | succ n ih =>
    refine wp_seq (wp_reader_loadByte hs (hi 0 (Nat.succ_pos n)) (by omega)) ?_
    rintro b t _ ⟨rfl, hview⟩
    refine wp_seq (ih (j := j + 1) hview (fun k hk => ?_) (by omega)) ?_
    · have := hi (k + 1) (by omega)
      rw [show j + 1 + k = j + (k + 1) by omega, ← this]
      omega
    · rintro bs t _ ⟨rfl, hview⟩
      refine fun u hu _ => ⟨?_, hview.of_rely hu⟩
      rw [List.drop_eq_getElem_cons (show c + j < V.length by omega), List.take_succ_cons]
      rfl

/-- Copying the contiguous span at the read head. -/
theorem wp_loadBytes_head {n : ℕ} (hs : ReaderView quiet V r c s)
    (hfit : r.toNat % sh.cap + n ≤ sh.cap) (hn : c + n ≤ V.length) :
    wp (readerDisc sh ndebug strict quiet) (loadBytes (r.toNat % sh.cap) n)
      (fun bs t => bs = (V.drop c).take n ∧ ReaderView quiet V r c t) s := by
  refine wp_loadBytes (j := 0) hs (fun k hk => ?_) hn
  rw [Nat.zero_add, add_mod_of_lt (by omega)]

theorem wp_consumeSeriesReadLen (hs : ReaderView quiet V r c s) {n : UInt32}
    (hfit : r.toNat % sh.cap + n.toNat ≤ sh.cap) (hn : c + n.toNat ≤ V.length) :
    wp (readerDisc sh ndebug strict quiet) (consumeSeriesReadLen sh.toShape n)
      (fun _ t => ReaderView quiet V (r + n) (c + n.toNat) t) s := by
  refine wp_seq (wp_reader_loadReadCount hs) ?_
  rintro _ t _ ⟨rfl, hview⟩
  refine wp_seq (wp_reader_assertion hview fun _ => ?_) ?_
  · rw [decide_eq_true_eq, sh.le_capacity, sh.mask_add_toNat _ (by omega)]
    exact hfit
  · exact fun _ t _ hview => wp_reader_addReadCount hview hn

end Reader

/-! ## The writer's view -/

/-- What the writer knows: exactly what has been published, its own counter, the array, and that
    at least `free` cells hold no unread byte. -/
structure WriterView (sh : PowShape) (P : List UInt8) (w : UInt32) (arr : ℕ → UInt8) (free : ℕ)
    (s : Shared) : Prop where
  published : s.published = P
  writeCount : s.mem.writeCount = w
  dataArr : s.mem.dataArr = arr
  free_le : P.length + free ≤ sh.cap + s.consumed

section Writer

variable {sh : PowShape} {ndebug : Bool} {strict : Prop} {goal P : List UInt8} {w : UInt32}
  {arr : ℕ → UInt8} {free : ℕ} {s : Shared}

/-- While the reader moves, unread bytes only become fewer. -/
theorem WriterView.of_rely {t : Shared} (h : WriterView sh P w arr free s)
    (hst : WriterRely s t) : WriterView sh P w arr free t where
  published := hst.published.trans h.published
  writeCount := hst.writeCount.trans h.writeCount
  dataArr := hst.dataArr.trans h.dataArr
  free_le := h.free_le.trans (Nat.add_le_add_left hst.consumed _)

theorem WriterView.mono {free' : ℕ} (h : WriterView sh P w arr free s) (hle : free' ≤ free) :
    WriterView sh P w arr free' s :=
  ⟨h.published, h.writeCount, h.dataArr, by have := h.free_le; omega⟩

theorem WriterView.size_add_le (h : WriterView sh P w arr free s) (hs : Coherent sh s) :
    s.mem.size + free ≤ sh.cap := by
  have := h.free_le
  have := hs.consumed_le
  rw [hs.size_eq, h.published]
  rw [h.published] at this
  omega

/-- The writer's view of a ring with room for `free` bytes. -/
theorem WriterView.of_room (hs : Coherent sh s) (hroom : s.mem.size + free ≤ sh.cap) :
    WriterView sh s.published s.mem.writeCount s.mem.dataArr free s := by
  refine ⟨rfl, rfl, rfl, ?_⟩
  have hsize := hs.size_eq
  have hle := hs.consumed_le
  omega

theorem WriterView.of_coherent (hs : Coherent sh s) :
    WriterView sh s.published s.mem.writeCount s.mem.dataArr 0 s :=
  .of_room hs hs.size_le

/-- An action of the writer that changes nothing. -/
theorem wp_writer_query {a : Act} {R : sig.Res a → Shared → Prop}
    (hs : WriterView sh P w arr free s)
    (hsafe : ∀ t, WriterView sh P w arr free t → Coherent sh t → writerSafe sh strict a t)
    (hres : ∀ t x u, WriterView sh P w arr free t → Coherent sh t →
      Shared.exec sh ndebug a t = some (x, u) → u = t ∧ R x t)
    (hstable : ∀ x t u, R x t → WriterRely t u → R x u) :
    wp (writerDisc sh ndebug strict goal) (act a ret) R s := by
  intro t hst ht
  have hview := hs.of_rely hst
  refine ⟨hsafe t hview ht, fun x u hxu => ?_⟩
  obtain ⟨rfl, hR⟩ := hres t x u hview ht hxu
  exact ⟨ht, ⟨.refl _, .inl rfl⟩, fun v huv _ => hstable x _ v hR huv⟩

theorem wp_writer_loadWriteCount (hs : WriterView sh P w arr free s) :
    wp (writerDisc sh ndebug strict goal) loadWriteCount
      (fun x t => x = w ∧ WriterView sh P w arr free t) s := by
  refine wp_writer_query hs (fun _ _ _ => trivial) ?_ fun x t u h hu => ⟨h.1, h.2.of_rely hu⟩
  intro t x u hview _ hxu
  cases (show some (t.mem.writeCount, t) = some (x, u) from hxu)
  exact ⟨rfl, hview.writeCount, hview⟩

/-- A load of `read_count_` tells the writer how many cells are free by now. -/
theorem wp_writer_loadReadCount (hs : WriterView sh P w arr free s) :
    wp (writerDisc sh ndebug strict goal) loadReadCount (fun r t => ∃ free', free ≤ free' ∧
      WriterView sh P w arr free' t ∧ (w - r).toNat + free' = sh.cap) s := by
  refine wp_writer_query hs (fun _ _ _ => trivial) ?_ fun x t u h hu => ?_
  · intro t x u hview ht hxu
    cases (show some (t.mem.readCount, t) = some (x, u) from hxu)
    have hfree := hview.size_add_le ht
    have hsize := ht.size_eq
    have hc := ht.consumed_le
    have hP := congrArg List.length hview.published
    rw [Mem.size, hview.writeCount] at hfree hsize
    exact ⟨rfl, sh.cap - (w - t.mem.readCount).toNat, by omega,
      ⟨hview.published, hview.writeCount, hview.dataArr, by omega⟩, by omega⟩
  · obtain ⟨free', hle, hview, hcap⟩ := h
    exact ⟨free', hle, hview.of_rely hu, hcap⟩

/-- An assertion that the writer can prove. -/
theorem wp_writer_assertion {p : Bool} (hs : WriterView sh P w arr free s) (hp : p = true) :
    wp (writerDisc sh ndebug strict goal) (assertion p)
      (fun _ t => WriterView sh P w arr free t) s := by
  refine wp_writer_query hs (fun _ _ _ _ => hp) ?_ fun x t u h hu => h.of_rely hu
  intro t x u hview _ hxu
  subst hp
  have hok : Shared.exec sh ndebug (.assertion true) t = some ((), t) := by
    simp only [Shared.exec, RingBuffer.exec, Bool.or_true, if_true]
    rfl
  cases hok.symm.trans hxu
  exact ⟨rfl, hview⟩

/-- A store into the free part of the array. -/
theorem wp_writer_storeByte (hs : WriterView sh P w arr free s) {i j : ℕ} (b : UInt8)
    (hi : i = (w.toNat + j) % sh.cap) (hj : j < free) :
    wp (writerDisc sh ndebug strict goal) (storeByte i b)
      (fun _ t => WriterView sh P w (Function.update arr i b) free t) s := by
  intro t hst ht
  have hview := hs.of_rely hst
  have hfree := hview.size_add_le ht
  -- the cell is free, however far the reader has got
  have hne : ∀ k < t.mem.size, i ≠ (t.mem.readCount.toNat + k) % sh.cap := by
    intro k hk
    rw [hi, ← hview.writeCount]
    exact t.mem.free_cell_ne sh hk (by omega)
  refine ⟨⟨by rw [hi]; exact Nat.mod_lt _ sh.cap_pos, fun ⟨k, hk, heq⟩ => hne k hk heq⟩,
    fun x u hxu => ?_⟩
  cases (show some ((), (⟨t.mem.setData (Function.update t.mem.dataArr i b), t.published,
    t.consumed⟩ : Shared)) = some (x, u) from hxu)
  refine ⟨ht.storeByte b hne, ⟨⟨List.prefix_rfl, rfl, rfl⟩, .inl rfl⟩, fun v huv _ => ?_⟩
  have hnew : WriterView sh P w (Function.update arr i b) free
      ⟨t.mem.setData (Function.update t.mem.dataArr i b), t.published, t.consumed⟩ :=
    ⟨hview.published, hview.writeCount, by rw [← hview.dataArr]; rfl, hview.free_le⟩
  exact hnew.of_rely huv

/-- Publishing the bytes that stand behind the content. -/
theorem wp_writer_addWriteCount (hs : WriterView sh P w arr free s) {n : UInt32}
    (hn : n.toNat ≤ free) (hgoal : P ++ window arr sh.cap w.toNat n.toNat = goal) :
    wp (writerDisc sh ndebug strict goal) (addWriteCount n)
      (fun _ t => WriterView sh goal (w + n) arr (free - n.toNat) t) s := by
  intro t hst ht
  have hview := hs.of_rely hst
  have hfree := hview.size_add_le ht
  refine ⟨trivial, fun x u hxu => ?_⟩
  cases (show some ((), (⟨t.mem.addWrite n,
    t.published ++ window t.mem.dataArr sh.cap t.mem.writeCount.toNat n.toNat,
    t.consumed⟩ : Shared)) = some (x, u) from hxu)
  have hpub : t.published ++ window t.mem.dataArr sh.cap t.mem.writeCount.toNat n.toNat = goal := by
    rw [hview.published, hview.dataArr, hview.writeCount, hgoal]
  refine ⟨ht.addWrite (by omega), ⟨⟨List.prefix_append _ _, rfl, rfl⟩, .inr hpub⟩,
    fun v huv _ => ?_⟩
  have hlen := congrArg List.length hgoal
  have hold := hview.free_le
  rw [List.length_append, length_window] at hlen
  refine WriterView.of_rely (s := ⟨t.mem.addWrite n, _, t.consumed⟩) ⟨hpub, ?_, ?_, ?_⟩ huv
  · rw [Mem.writeCount_addWrite, hview.writeCount]
  · rw [Mem.dataArr_addWrite, hview.dataArr]
  · show goal.length + (free - n.toNat) ≤ sh.cap + t.consumed
    omega

/-! ### Member functions of the writer -/

theorem wp_storeBytes {i : ℕ} {bs : List UInt8} (hs : WriterView sh P w arr free s)
    (hi : ∀ k < bs.length, ∃ j < free, i + k = (w.toNat + j) % sh.cap) :
    wp (writerDisc sh ndebug strict goal) (storeBytes i bs)
      (fun _ t => WriterView sh P w (storeAt arr i bs) free t) s := by
  induction bs generalizing i arr s with
  | nil =>
    rw [storeAt_nil]
    exact fun t ht _ => hs.of_rely ht
  | cons b bs ih =>
    -- one byte, then the rest one cell further on
    obtain ⟨j, hj, heq⟩ := hi 0 (by simp)
    refine wp_seq (wp_writer_storeByte hs b heq hj) ?_
    intro _ t _ hview
    rw [storeAt_cons]
    refine ih hview fun k hk => ?_
    obtain ⟨j', hj', heq'⟩ := hi (k + 1) (by simpa using hk)
    exact ⟨j', hj', by rw [← heq']; omega⟩

theorem wp_availableWrite (hs : WriterView sh P w arr free s) :
    wp (writerDisc sh ndebug strict goal) (availableWrite sh.toShape)
      (fun n t => free ≤ n.toNat ∧ WriterView sh P w arr n.toNat t) s := by
  refine wp_seq (wp_writer_loadWriteCount hs) ?_
  rintro w t _ ⟨rfl, hview⟩
  refine wp_seq (wp_writer_loadReadCount hview) ?_
  rintro r t _ ⟨free', hle, hview, hcap⟩
  refine wp_seq (wp_writer_assertion hview ?_) ?_
  · rw [decide_eq_true_eq, ge_iff_le, sh.le_capacity]
    omega
  · intro _ t _ hview u hu _
    have hn := capacity_sub_size_toNat sh (x := w - r) (by omega)
    rw [show sh.cap - (w - r).toNat = free' by omega] at hn
    rw [hn]
    exact ⟨hle, hview.of_rely hu⟩

theorem wp_currentSeriesWriteHead (hs : WriterView sh P w arr free s) :
    wp (writerDisc sh ndebug strict goal) (currentSeriesWriteHead sh.toShape)
      (fun i t => i = w.toNat % sh.cap ∧ WriterView sh P w arr free t) s := by
  refine wp_seq (wp_writer_loadWriteCount hs) ?_
  rintro _ t _ ⟨rfl, hview⟩
  exact fun u hu _ => ⟨sh.mask_toNat _, hview.of_rely hu⟩

theorem wp_availableSeriesWrite (hs : WriterView sh P w arr free s) :
    wp (writerDisc sh ndebug strict goal) (availableSeriesWrite sh.toShape)
      (fun n t => ∃ free', free ≤ free' ∧ WriterView sh P w arr free' t ∧
        n.toNat = seriesLen sh.cap (w.toNat % sh.cap) free') s := by
  rw [availableSeriesWrite_eq]
  refine wp_seq (wp_writer_loadReadCount hs) ?_
  rintro r t _ ⟨free', hle, hview, hcap⟩
  refine wp_seq (wp_writer_loadWriteCount hview) ?_
  rintro _ t _ ⟨rfl, hview⟩
  refine wp_seq (wp_writer_assertion hview ?_) ?_
  · rw [decide_eq_true_eq, ge_iff_le, sh.le_capacity]
    omega
  · intro _ t _ hview u hu _
    refine ⟨free', hle, hview.of_rely hu, ?_⟩
    rw [seriesWriteLen_toNat sh (by omega)]
    congr 1
    omega

theorem wp_consumeSeriesWriteLen (hs : WriterView sh P w arr free s) {n : UInt32}
    (hfit : w.toNat % sh.cap + n.toNat ≤ sh.cap) (hn : n.toNat ≤ free)
    (hgoal : P ++ window arr sh.cap w.toNat n.toNat = goal) :
    wp (writerDisc sh ndebug strict goal) (consumeSeriesWriteLen sh.toShape n)
      (fun _ t => WriterView sh goal (w + n) arr (free - n.toNat) t) s := by
  refine wp_seq (wp_writer_loadWriteCount hs) ?_
  rintro _ t _ ⟨rfl, hview⟩
  refine wp_seq (wp_writer_assertion hview ?_) ?_
  · rw [decide_eq_true_eq, sh.le_capacity, sh.mask_add_toNat _ (by omega)]
    exact hfit
  · exact fun _ t _ hview => wp_writer_addWriteCount hview hn hgoal

/-- Filling the contiguous span at the write head and publishing it. -/
theorem wp_fillSpan (hs : WriterView sh P w arr free s) (b : Block)
    (hfit : w.toNat % sh.cap + b.len.toNat ≤ sh.cap) (hn : b.len.toNat ≤ free) :
    wp (writerDisc sh ndebug strict (P ++ b.bytes)) (do
        storeBytes (w.toNat % sh.cap) b.bytes
        consumeSeriesWriteLen sh.toShape b.len)
      (fun _ t => ∃ arr', WriterView sh (P ++ b.bytes) (w + b.len) arr' (free - b.len.toNat) t)
      s := by
  have hlen := b.length_eq
  refine wp_seq (wp_storeBytes hs fun k hk => ⟨k, by omega, ?_⟩) ?_
  · rw [add_mod_of_lt (by omega)]
  · intro _ t _ hview
    refine wp_mono (fun _ u _ h => ⟨_, h⟩) (wp_consumeSeriesWriteLen hview hfit hn ?_)
    rw [window_eq_span hfit, ← hlen, span_storeAt]

/-- `WriteContent` publishes the whole block, or nothing when it does not fit. -/
def WriteContentPost (sh : PowShape) (P : List UInt8) (w : UInt32) (arr : ℕ → UInt8) (free : ℕ)
    (b : Block) (ok : Bool) (t : Shared) : Prop :=
  if ok then ∃ arr' free', WriterView sh (P ++ b.bytes) (w + b.len) arr' free' t
  else free < b.len.toNat ∧ WriterView sh P w arr free t

/-- The last two statements of `WriteContent`, after the block has been copied. -/
theorem wp_writeContent_publish {free' : ℕ} (b : Block)
    (hs : WriterView sh P w (store arr sh.cap w.toNat b.bytes) free' s)
    (hn : b.len.toNat ≤ free') (hle : b.len.toNat ≤ sh.cap) :
    wp (writerDisc sh ndebug strict (P ++ b.bytes)) (do
        addWriteCount b.len
        ret true)
      (WriteContentPost sh P w arr free b) s := by
  refine wp_seq (wp_writer_addWriteCount hs hn ?_) ?_
  · rw [← b.length_eq, window_store (by rw [b.length_eq]; exact hle)]
  · exact fun _ t _ hview u hu _ => ⟨_, _, hview.of_rely hu⟩

theorem wp_writeContent (hs : WriterView sh P w arr free s) (b : Block) :
    wp (writerDisc sh ndebug strict (P ++ b.bytes)) (writeContent sh.toShape b.bytes b.len)
      (WriteContentPost sh P w arr free b) s := by
  have hlen := b.length_eq
  refine wp_seq (wp_writer_loadWriteCount hs) ?_
  rintro w t _ ⟨rfl, hview⟩
  refine wp_seq (wp_writer_loadReadCount hview) ?_
  rintro r t _ ⟨free', hle, hview, hcap⟩
  refine wp_seq (wp_writer_assertion hview ?_) ?_
  · rw [decide_eq_true_eq, ge_iff_le, sh.le_capacity]
    omega
  intro _ t _ hview
  have hfree := capacity_sub_size_toNat sh (x := w - r) (by omega)
  have hidx := sh.mask_lt w
  dsimp only
  split
  · next hroom =>
    rw [UInt32.lt_iff_toNat_lt, hfree] at hroom
    exact fun u hu _ => ⟨by omega, (hview.mono hle).of_rely hu⟩
  · next hroom =>
    rw [UInt32.lt_iff_toNat_lt, hfree] at hroom
    split
    · next hcase =>
      -- the block fits before the end of the array
      rw [sh.le_capacity, sh.mask_add_toNat _ (by omega)] at hcase
      rw [sh.mask_toNat, ← hlen, List.take_length]
      refine wp_seq (wp_storeBytes hview fun k hk => ⟨k, by omega, ?_⟩) ?_
      · rw [add_mod_of_lt (by omega)]
      · intro _ t _ hview
        have hstored : WriterView sh P w (store arr sh.cap w.toNat b.bytes) free' t := by
          rwa [store, if_pos (by omega)]
        exact wp_writeContent_publish b hstored (by omega) (by omega)
    · next hcase =>
      -- the block is cut at the end of the array
      rw [sh.le_capacity, sh.mask_add_toNat _ (by omega)] at hcase
      have htail := sh.capacity_sub_mask_toNat w
      have hrest : (b.len - (sh.capacity - (w &&& sh.maxIndex))).toNat =
          (b.bytes.drop (sh.cap - w.toNat % sh.cap)).length := by
        rw [List.length_drop, hlen, UInt32.toNat_sub_of_le _ _
          (by rw [UInt32.le_iff_toNat_le, htail]; omega), htail]
      rw [sh.mask_toNat, htail, hrest, List.take_length]
      refine wp_seq (wp_storeBytes hview fun k hk => ⟨k, ?_, ?_⟩) ?_
      · rw [List.length_take] at hk
        omega
      · rw [List.length_take] at hk
        rw [add_mod_of_lt (by omega)]
      intro _ t _ hview
      -- the rest goes to the front of the array
      refine wp_seq (wp_storeBytes hview fun k hk => ⟨sh.cap - w.toNat % sh.cap + k, ?_, ?_⟩) ?_
      · rw [List.length_drop] at hk
        omega
      · rw [List.length_drop] at hk
        rw [add_mod_of_ge (by omega) (by omega)]
        omega
      · intro _ t _ hview
        have hstored : WriterView sh P w (store arr sh.cap w.toNat b.bytes) free' t := by
          rwa [store, if_neg (by omega)]
        exact wp_writeContent_publish b hstored (by omega) (by omega)

end Writer

end ReechatBase.RingBuffer
