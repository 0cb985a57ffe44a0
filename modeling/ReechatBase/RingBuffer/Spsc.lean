import ReechatBase.RingBuffer.Discipline
import ReechatBase.RingBuffer.Fifo

/-!
# One writer and one reader

A writer that runs `WriteContent` or fills the span at the write head, and a reader that copies
from the span at the read head, interleaved at every load, store and byte copy. Each side works
from counter values that it loaded earlier.

Main result: `spsc_safe`. In every reachable configuration the cell that the writer stores next
holds no unread byte, the cell that the reader copies next does, no assertion is about to fail,
and what the reader has handed on is a prefix of what the writer has published. Each block written
is published whole, behind what was published before, or not at all (`write_publishes`).
-/

namespace ReechatBase.RingBuffer.Spsc

open Lib Lib.Prog Lib.BoundedFifo

/-! ## The system -/

/-- The two threads. -/
inductive Side where
  | writer
  | reader
  deriving DecidableEq

/-- The actions: those on the ring, and the reader handing on the bytes of a finished read. -/
inductive Act where
  | ring (a : RingBuffer.Act)
  | deliver (bytes : List UInt8)

def sig : Signature where
  Act := Act
  Res
    | .ring a => RingBuffer.sig.Res a
    | .deliver _ => Unit

/-- The ring, and everything the reader has handed on so far. -/
structure State where
  ring : Shared
  obtained : List UInt8

def ringActs : Embedding RingBuffer.sig sig where
  act := .ring
  res _ r := r

def ringPart : Lens State Shared where
  get := State.ring
  set x s := { s with ring := x }
  get_set _ _ := rfl
  set_get _ := rfl
  set_set _ _ _ := rfl

/-- The effect of an action. -/
inductive Sem (sh : PowShape) (ndebug : Bool) : (a : sig.Act) → State → sig.Res a → State → Prop
  | ring {a : RingBuffer.Act} {s : State} {r : RingBuffer.sig.Res a} {x : Shared} :
      Shared.exec sh ndebug a s.ring = some (r, x) →
      Sem sh ndebug (.ring a) s r { s with ring := x }
  | deliver {bytes : List UInt8} {s : State} :
      Sem sh ndebug (.deliver bytes) s () { s with obtained := s.obtained ++ bytes }

/-- One operation of the writer. -/
def writeOnce (sh : Shape) (op : Op) : Prog sig Unit := do
  let _ ← (op.prog sh).lift ringActs
  ret ()

/-- One operation of the reader. -/
def readOnce (sh : Shape) (n : UInt32) : Prog sig Unit := do
  let e ← ((Op.consume n).prog sh).lift ringActs
  perform (S := sig) (.deliver e.delivered)

/-- What a thread may do next: the writer writes a block in either way, the reader reads. -/
inductive Next (sh : Shape) : Side → Unit → Prog sig Unit → Prop
  | write (b : Block) : Next sh .writer () (writeOnce sh (.write b))
  | fill (b : Block) : Next sh .writer () (writeOnce sh (.fill b))
  | read (n : UInt32) : Next sh .reader () (readOnce sh n)

/-- The effect of an action as a function. -/
def exec (sh : PowShape) (ndebug : Bool) : Exec sig State
  | .ring a, s => (Shared.exec sh ndebug a s.ring).map fun rx => (rx.1, { s with ring := rx.2 })
  | .deliver bytes, s => some ((), { s with obtained := s.obtained ++ bytes })

theorem sem_of_exec {sh : PowShape} {ndebug : Bool} {a : sig.Act} {s t : State} {r : sig.Res a}
    (h : exec sh ndebug a s = some (r, t)) : Sem sh ndebug a s r t := by
  cases a with
  | ring a =>
    obtain ⟨⟨r', x⟩, hx, heq⟩ := Option.map_eq_some_iff.mp h
    cases heq
    exact .ring hx
  | deliver bytes =>
    cases h
    exact .deliver

def threads (sh : PowShape) (ndebug : Bool) : Threads sig State Side Unit where
  sem _ := Sem sh ndebug
  next := Next sh.toShape

/-- Initially both threads are idle on some ring. Its content counts as published. -/
def Init (sh : PowShape) (c : Config sig State Side Unit) : Prop :=
  ∃ r : Ring sh, c = ⟨fun _ => ret (), ⟨⟨r.mem, r.content, 0⟩, []⟩⟩

/-! ## Specifications of the operations -/

section Specs

variable {sh : PowShape} {ndebug : Bool} {strict : Prop} {s : Shared}

/-- A write of the block `b` has accepted all of it or nothing, and what it has accepted follows
    what was published before. -/
def WritePost (P : List UInt8) (b : Block) (e : Event UInt8) (t : Shared) : Prop :=
  (e.accepted = b.bytes ∨ e.accepted = []) ∧ t.published = P ++ e.accepted

theorem wp_write {P : List UInt8} {w : UInt32} {arr : ℕ → UInt8} {free : ℕ} (b : Block)
    (hs : WriterView sh P w arr free s) :
    wp (writerDisc sh ndebug strict (P ++ b.bytes)) ((Op.write b).prog sh.toShape)
      (WritePost P b) s := by
  refine wp_seq (wp_writeContent hs b) ?_
  rintro (_ | _) t _ hpost u hu _
  · exact ⟨.inr rfl, by simpa using (hpost.2.of_rely hu).published⟩
  · obtain ⟨arr', free', hview⟩ := hpost
    exact ⟨.inl rfl, (hview.of_rely hu).published⟩

theorem wp_fill {P : List UInt8} {w : UInt32} {arr : ℕ → UInt8} {free : ℕ} (b : Block)
    (hs : WriterView sh P w arr free s) :
    wp (writerDisc sh ndebug strict (P ++ b.bytes)) ((Op.fill b).prog sh.toShape)
      (WritePost P b) s := by
  refine wp_seq (wp_availableSeriesWrite hs) ?_
  rintro n t _ ⟨free', _, hview, hn⟩
  split
  · next hle =>
    have hidx := sh.mask_lt w
    rw [UInt32.le_iff_toNat_le, hn, seriesLen] at hle
    refine wp_seq (wp_currentSeriesWriteHead hview) ?_
    rintro _ t _ ⟨rfl, hview⟩
    rw [← bind_assoc]
    refine wp_seq (wp_fillSpan hview b (by omega) (by omega)) ?_
    rintro _ t _ ⟨arr', hview⟩ u hu _
    exact ⟨.inl rfl, (hview.of_rely hu).published⟩
  · -- the block does not fit
    exact fun u hu _ => ⟨.inr rfl, by simpa using (hview.of_rely hu).published⟩

/-- The bytes of a read are the next ones published. -/
theorem wp_consume {quiet : Prop} {V : List UInt8} {r : UInt32} {c : ℕ} (n : UInt32)
    (hs : ReaderView quiet V r c s) :
    wp (readerDisc sh ndebug strict quiet) ((Op.consume n).prog sh.toShape)
      (fun e t => ∃ V' r' k, V <+: V' ∧ e.delivered = (V'.drop c).take k ∧ c + k ≤ V'.length ∧
        ReaderView quiet V' r' (c + k) t) s := by
  refine wp_seq (wp_availableSeriesRead hs) ?_
  rintro m t _ ⟨V', hV, hview, hcV', hm⟩
  split
  · next hle =>
    have hidx := sh.mask_lt r
    rw [UInt32.le_iff_toNat_le, hm, seriesLen] at hle
    refine wp_seq (wp_currentSeriesReadHead hview) ?_
    rintro _ t _ ⟨rfl, hview⟩
    refine wp_seq (wp_loadBytes_head hview (n := n.toNat) (by omega) (by omega)) ?_
    rintro _ t _ ⟨rfl, hview⟩
    refine wp_seq (wp_consumeSeriesReadLen hview (by omega) (by omega)) ?_
    exact fun _ t _ hview u hu _ =>
      ⟨V', r + n, n.toNat, hV.1, rfl, by omega, hview.of_rely hu⟩
  · refine fun u hu _ => ⟨V', r, 0, hV.1, by simp, by omega, hview.of_rely hu⟩

end Specs

/-! ## The proof outline -/

variable {sh : PowShape} {ndebug : Bool}

/-- What each side relies on. -/
def rely : Side → State → State → Prop
  | .writer, s, t => WriterRely s.ring t.ring
  | .reader, s, t => ReaderRely s.ring t.ring ∧ t.obtained = s.obtained

/-- What each side guarantees to the other. -/
def guar : Side → State → State → Prop
  | .writer => rely .reader
  | .reader => rely .writer

/-- When a side may perform an action. -/
def safe (sh : PowShape) : Side → sig.Act → State → Prop
  | .writer, .ring a, s => writerSafe sh True a s.ring
  | .reader, .ring a, s => readerSafe sh True a s.ring
  | _, .deliver _, _ => True

/-- An idle reader has handed on everything it has consumed. -/
def idle : Side → Unit → State → Prop
  | .writer, _, _ => True
  | .reader, _, s => s.obtained = s.ring.published.take s.ring.consumed

/-- The invariant: a coherent ring, and nothing handed on that was not published. -/
structure Inv (sh : PowShape) (s : State) : Prop where
  coherent : Coherent sh s.ring
  obtained : s.obtained <+: s.ring.published

def outline (sh : PowShape) : Threads.Outline (S := sig) (σ := State) (ι := Side) (ρ := Unit) where
  inv := Inv sh
  rely := rely
  guar := guar
  safe := safe sh
  idle := idle
  rely_refl := by
    rintro (_ | _) s
    · exact WriterRely.refl s.ring
    · exact ⟨ReaderRely.refl s.ring, rfl⟩
  rely_trans := by
    rintro (_ | _) s t u h h'
    · exact WriterRely.trans h h'
    · exact ⟨h.1.trans h'.1, h'.2.trans h.2⟩
  compat := by
    rintro (_ | _) (_ | _) hne s t _ _ h
    · exact absurd rfl hne
    · exact h
    · exact h
    · exact absurd rfl hne

theorem within_writer (goal : List UInt8) :
    Within (writerDisc sh ndebug True goal) ((outline sh).disc (threads sh ndebug) .writer)
      ringActs ringPart where
  sem := by
    rintro a t r _ ⟨h⟩
    exact ⟨_, h, rfl⟩
  safe _ _ h := h
  rely _ _ h := h
  inv _ h := h.coherent

theorem within_reader :
    Within (readerDisc sh ndebug True False) ((outline sh).disc (threads sh ndebug) .reader)
      ringActs ringPart where
  sem := by
    rintro a t r _ ⟨h⟩
    exact ⟨_, h, rfl⟩
  safe _ _ h := h
  rely _ _ h := ⟨h.1, h.1.published, False.elim⟩
  inv _ h := h.coherent

/-- An operation of the writer keeps its specification in the system. -/
theorem wp_writer {s : State} {op : Op} {goal : List UInt8} {Q : Event UInt8 → Shared → Prop}
    (h : wp (writerDisc sh ndebug True goal) (op.prog sh.toShape) Q s.ring) :
    wp ((outline sh).disc (threads sh ndebug) .writer) ((op.prog sh.toShape).lift ringActs)
      (fun e t => Q e t.ring) s := by
  refine wp_mono (fun _ _ _ hQ => hQ.1) (wp_lift (within_writer goal) (P := fun _ => True)
    (fun _ _ _ _ _ => trivial) ?_ h trivial)
  rintro t x - hinv hx ⟨hguar, -⟩
  exact ⟨⟨hx, hinv.obtained.trans hguar.published⟩, ⟨hguar, rfl⟩, trivial⟩

/-- **What a write publishes.** However the reader moves meanwhile, a block written in either way
    is published whole, behind all that was published before, or not at all. -/
theorem write_publishes {s : State} (hinv : Inv sh s) (b : Block) {op : Op}
    (hop : op = .write b ∨ op = .fill b) :
    wp ((outline sh).disc (threads sh ndebug) .writer) ((op.prog sh.toShape).lift ringActs)
      (fun e t => WritePost s.ring.published b e t.ring) s := by
  have hview := WriterView.of_coherent hinv.coherent
  rcases hop with rfl | rfl
  · exact wp_writer (wp_write b hview)
  · exact wp_writer (wp_fill b hview)

theorem wp_writeOnce {s : State} (hinv : Inv sh s) (b : Block) {op : Op}
    (hop : op = .write b ∨ op = .fill b) :
    wp ((outline sh).disc (threads sh ndebug) .writer) (writeOnce sh.toShape op)
      (idle .writer) s :=
  wp_seq (write_publishes hinv b hop) fun _ _ _ _ _ _ _ => trivial

theorem wp_readOnce {s : State} (n : UInt32) (hinv : Inv sh s) (hidle : idle .reader () s) :
    wp ((outline sh).disc (threads sh ndebug) .reader) (readOnce sh.toShape n)
      (idle .reader) s := by
  have hview : ReaderView False s.ring.published s.ring.mem.readCount s.ring.consumed s.ring :=
    ⟨.refl _ _, rfl, rfl⟩
  -- nothing is handed on before the operation has returned
  refine wp_seq (wp_lift within_reader (P := fun t => t.obtained = s.obtained)
    (fun _ _ h hst _ => hst.2.trans h) ?_
    (wp_consume n hview) rfl) ?_
  · rintro t x ht hinv hx hguar
    have hobt : t.obtained <+: x.published := hguar.published ▸ hinv.obtained
    exact ⟨⟨hx, hobt⟩, hguar, ht⟩
  rintro e t _ ⟨⟨V, r, k, hV, he, hk, hview⟩, hobt⟩ u hu hinv'
  refine ⟨trivial, ?_⟩
  rintro _ _ ⟨⟩
  have hviewu : ReaderView False V r (s.ring.consumed + k) u.ring :=
    hview.of_rely (within_reader.rely t u hu)
  have hobtu : u.obtained = s.obtained := hu.2.trans hobt
  -- the bytes handed on so far are everything consumed so far
  have hnew : u.obtained ++ e.delivered = u.ring.published.take u.ring.consumed := by
    calc u.obtained ++ e.delivered
        = s.ring.published.take s.ring.consumed ++ (V.drop s.ring.consumed).take k := by
          rw [hobtu, he, hidle]
      _ = V.take s.ring.consumed ++ (V.drop s.ring.consumed).take k := by
          rw [take_of_isPrefix hV hinv.coherent.consumed_le]
      _ = V.take (s.ring.consumed + k) := List.take_add.symm
      _ = u.ring.published.take u.ring.consumed := by
          rw [hviewu.consumed, take_of_isPrefix hviewu.published.1 hk]
  refine ⟨⟨hinv'.coherent, ?_⟩, .refl _, fun v hv _ => ?_⟩
  · -- what is handed on stays within what is published
    rw [hnew]
    exact List.take_prefix _ _
  · have hst := hv.1
    show v.obtained = v.ring.published.take v.ring.consumed
    rw [hv.2]
    show u.obtained ++ e.delivered = _
    rw [hnew, hst.consumed]
    exact (take_of_isPrefix hst.published hinv'.coherent.consumed_le).symm

theorem outline_next {side : Side} {v : Unit} {p : Prog sig Unit} {s : State} (hinv : Inv sh s)
    (hidle : idle side v s) (hp : Next sh.toShape side v p) :
    wp ((outline sh).disc (threads sh ndebug) side) p (idle side) s := by
  cases hp with
  | write b => exact wp_writeOnce hinv b (.inl rfl)
  | fill b => exact wp_writeOnce hinv b (.inr rfl)
  | read n => exact wp_readOnce n hinv hidle

theorem outline_init {c : Config sig State Side Unit} (hc : Init sh c) :
    (outline sh).Holds (threads sh ndebug) c := by
  obtain ⟨r, rfl⟩ := hc
  refine ⟨⟨⟨Nat.zero_le _, ?_, r.size_le, rfl⟩, List.nil_prefix⟩, ?_⟩
  · simp [Ring.content]
  · rintro (_ | _)
    · exact fun _ _ _ => trivial
    · intro t hst _
      show t.obtained = t.ring.published.take t.ring.consumed
      rw [hst.2, hst.1.consumed]
      rfl

/-- **SPSC safety.** However the two threads are interleaved, the writer never stores into a
    cell that holds an unread byte, the reader never copies any other cell, no assertion fails,
    and what the reader has handed on is a prefix of what the writer has published. -/
theorem spsc_safe (sh : PowShape) (ndebug : Bool) {c : Config sig State Side Unit}
    (hc : ((threads sh ndebug).lts (Init sh)).Reachable c) :
    (∀ i b k, c.prog .writer = act (S := sig) (Act.ring (.storeByte i b)) k →
      i < sh.cap ∧ ¬ Unread sh c.shared.ring.mem i) ∧
    (∀ i k, c.prog .reader = act (S := sig) (Act.ring (.loadByte i)) k →
      Unread sh c.shared.ring.mem i) ∧
    (∀ side p k, c.prog side = act (S := sig) (Act.ring (.assertion p)) k → p = true) ∧
    c.shared.obtained <+: c.shared.ring.published ∧
    c.shared.ring.consumed ≤ c.shared.ring.published.length ∧
    (c.prog .reader = ret () →
      c.shared.obtained = c.shared.ring.published.take c.shared.ring.consumed) := by
  have h : (outline sh).Holds (threads sh ndebug) c :=
    (outline sh).sound (fun _ => outline_init) (fun _ _ _ _ hinv hidle hp =>
      outline_next hinv hidle hp) hc
  refine ⟨fun i b k hp => h.safe _ hp, fun i k hp => h.safe _ hp, ?_, h.inv.obtained,
    h.inv.coherent.consumed_le, fun hp => h.idle _ hp⟩
  rintro (_ | _) p k hp
  · exact h.safe _ hp trivial
  · exact h.safe _ hp trivial

/-- A ring of four bytes. -/
def four : PowShape := .ofLog 2 (by decide)

/-- An empty ring whose counters are about to wrap. -/
def wrappingRing : Ring four where
  mem := ⟨fun _ => 0, 0xFFFFFFFF, 0xFFFFFFFF⟩
  size_le := by decide

/-- The writer publishes one byte and is about to store another, while the reader is about to
    copy the first. -/
def midway : Option (Config sig State Side Unit) :=
  Threads.replay (fun _ => exec four false)
    ⟨fun _ => ret (), ⟨⟨wrappingRing.mem, wrappingRing.content, 0⟩, []⟩⟩
    (.start .writer (writeOnce four.toShape (.write ⟨[7], 1, rfl⟩)) ::
      (List.replicate 5 (.tick .writer) ++
      .start .writer (writeOnce four.toShape (.fill ⟨[8], 1, rfl⟩)) ::
      (List.replicate 4 (.tick .writer) ++
      .start .reader (readOnce four.toShape 1) :: List.replicate 4 (.tick .reader))))

theorem reachable_midway {c : Config sig State Side Unit} (h : midway = some c) :
    ((threads four false).lts (Init four)).Reachable c := by
  refine Threads.reachable_of_replay (fun _ _ _ _ _ h => sem_of_exec h)
    (.init ⟨wrappingRing, rfl⟩) ?_ h
  intro i p v hp
  simp only [List.mem_cons, List.mem_append, List.mem_replicate, Threads.Command.start.injEq,
    reduceCtorEq, and_false, false_or, or_false] at hp
  rcases hp with ⟨rfl, rfl⟩ | ⟨rfl, rfl⟩ | ⟨rfl, rfl⟩
  · exact .write _
  · exact .fill _
  · exact .read _

theorem spsc_safe_midway : ∃ c, midway = some c ∧ ¬ Unread four c.shared.ring.mem 0 ∧
    Unread four c.shared.ring.mem 3 ∧ c.shared.obtained <+: c.shared.ring.published := by
  refine ⟨_, rfl, ?_⟩
  have h := spsc_safe four false (reachable_midway rfl)
  exact ⟨(h.1 0 8 _ rfl).2, h.2.1 3 _ rfl, h.2.2.2.1⟩

end ReechatBase.RingBuffer.Spsc
