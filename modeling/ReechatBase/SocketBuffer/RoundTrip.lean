import ReechatBase.SocketBuffer.Unread

/-!
# Typed integers through a SocketBuffer

A client appends integers of mixed types, consumes what was unread before it began, and reads the
integers back with the matching calls. Between any two of these calls the buffer may grow, compact
itself, or start afresh.

- `Session`: such a client, in any interleaving of its calls;
- `Session.Inv`: the unread bytes are what is left of the old ones, followed by the integers
  appended and not yet read;
- `readAll_of_prependAll`: integers put in front are read back in reverse order;
- `integers_round_trip`: both, together with what is promised of the bytes themselves.
-/

namespace ReechatBase.SocketBuffer

open Lib Lib.Cyclic Lib.Endian
open TcpSocket (ByteOrder)

variable {b b' : SocketBuffer} {fresh : ℕ → UInt8} {o : ByteOrder} {maxAlloc : ℕ}

/-! ## Single calls -/

/-- On a host that cannot provide `2 ^ 62` bytes the sums of `grow` do not wrap. -/
theorem writeFits_of_le (h : Valid b) (hcap : b.capacity.toNat ≤ 2 ^ 62) {len : UInt64}
    (hlen : len.toNat ≤ 2 ^ 62) : WriteFits b len := by
  have hreserved := h.reserved_le
  exact fun _ => ⟨by omega, fun _ => by omega⟩

theorem IntType.size_le (t : IntType) : t.size.toNat ≤ 2 ^ 62 := by
  cases t <;> decide

/-- A value can always be appended. -/
theorem append_value_spec (h : Valid b) (hcap : b.capacity.toNat ≤ 2 ^ 62) (v : Value) :
    ∃ b', v.append fresh o b = some b' := by
  obtain ⟨b', hb', -⟩ := write_spec fresh (d := v.chunk o) h (writeFits_of_le h hcap v.type.size_le)
  exact ⟨b', (v.append_eq fresh o b).trans hb'⟩

/-- The bytes of a value appended are found behind those that were unread. -/
theorem unread_of_append (h : Valid b) {v : Value} (hb' : v.append fresh o b = some b') :
    Valid b' ∧ b'.unread = b.unread ++ v.bytes o := by
  rw [Value.append_eq] at hb'
  exact valid_of_write h hb'

/-- The calls that may move the unread bytes and leave them alone otherwise. -/
def Op.MakesRoom : Op → Prop
  | .reserve _ => True
  | .ensureWritableBytes _ => True
  | .toText => True
  | _ => False

theorem makesRoom_spec (h : Valid b) {c : Op} (hc : c.MakesRoom) {out : List UInt8}
    (hrun : c.run fresh b = some (out, b')) : Valid b' ∧ b'.unread = b.unread := by
  cases c with
  | reserve len =>
    have hmoved := moved_of_reserve h (of_map_mk hrun)
    exact ⟨hmoved.valid, hmoved.unread⟩
  | ensureWritableBytes len =>
    have hmoved := (moved_of_ensureWritableBytes h (of_map_mk hrun)).1
    exact ⟨hmoved.valid, hmoved.unread⟩
  | toText =>
    obtain ⟨e, he, hd⟩ := Option.bind_eq_some_iff.mp (of_map_mk hrun)
    obtain ⟨hvalid, hunread⟩ := valid_of_write h he
    -- the NUL that was appended is taken back
    obtain ⟨hle, -⟩ := of_assertion_bind hd
    obtain ⟨hu, hvalid', -, hunread'⟩ := unwriteBytes_spec hvalid (UInt64.le_iff_toNat_le.mp hle)
    cases hu.symm.trans hd
    refine ⟨hvalid', ?_⟩
    rw [hunread', hunread, List.length_append]
    exact List.take_left' rfl
  | _ => exact absurd hc id

/-- A read consumes unread bytes and moves nothing. -/
theorem readOp_spec (h : Valid b) {r : ReadOp} (hr : r.size.toNat ≤ b.unread.length) :
    ∃ b', r.run o b = some b' ∧ Valid b' ∧ b'.unread = b.unread.drop r.size.toNat ∧
      b'.capacity = b.capacity := by
  refine ⟨_, run_readOp h hr, ?_⟩
  split
  · obtain ⟨hvalid, hunread⟩ := skip_spec h r.size
    exact ⟨hvalid, hunread, b.capacity_skip r.size⟩
  · rw [length_unread] at hr
    obtain ⟨hvalid, hunread⟩ := advanced_spec h hr
    exact ⟨hvalid, hunread, rfl⟩

/-! ## Sessions -/

/-- The bytes of a list of values. -/
def encode (o : ByteOrder) (vs : List Value) : List UInt8 := vs.flatMap (Value.bytes o)

/-- A client with its buffer: what is left of the bytes that were unread at the start, the values
    appended since, and the values read back. -/
structure Session where
  buffer : SocketBuffer
  old : List UInt8
  appended : List Value
  returned : List Value

namespace Session

/-- The session begins. -/
def start (b : SocketBuffer) : Session := ⟨b, b.unread, [], []⟩

/-- One call. The values appended are read once the old bytes are gone, each with the call for its
    type. -/
inductive Step (o : ByteOrder) (maxAlloc : ℕ) : Session → Session → Prop
  | append {s : Session} {fresh : ℕ → UInt8} {v : Value} {b' : SocketBuffer} :
      v.append fresh o s.buffer = some b' → b'.capacity.toNat ≤ maxAlloc →
      Step o maxAlloc s { s with buffer := b', appended := s.appended ++ [v] }
  | makeRoom {s : Session} {fresh : ℕ → UInt8} {c : Op} {out : List UInt8} {b' : SocketBuffer} :
      c.MakesRoom → c.run fresh s.buffer = some (out, b') → b'.capacity.toNat ≤ maxAlloc →
      Step o maxAlloc s { s with buffer := b' }
  | consume {s : Session} {r : ReadOp} {b' : SocketBuffer} :
      r.size.toNat ≤ s.old.length → r.run o s.buffer = some b' →
      Step o maxAlloc s { s with buffer := b', old := s.old.drop r.size.toNat }
  | read {s : Session} {v w : Value} {b' : SocketBuffer} :
      s.old = [] → s.appended[s.returned.length]? = some w →
      Value.read o s.buffer w.type = some (v, b') →
      Step o maxAlloc s { s with buffer := b', returned := s.returned ++ [v] }

/-- The sessions that begin with the buffer `b`. -/
def lts (o : ByteOrder) (maxAlloc : ℕ) (b : SocketBuffer) : Lts Session Unit where
  init s := s = start b
  step s _ t := Step o maxAlloc s t

/-- The unread bytes are what is left of the old ones and the values not yet read. -/
structure Inv (o : ByteOrder) (maxAlloc : ℕ) (s : Session) : Prop where
  valid : Valid s.buffer
  capacity_le : s.buffer.capacity.toNat ≤ maxAlloc
  unread : s.buffer.unread = s.old ++ encode o (s.appended.drop s.returned.length)
  returned : s.returned <+: s.appended

theorem inv_start (h : Valid b) (hcap : b.capacity.toNat ≤ maxAlloc) :
    Inv o maxAlloc (start b) where
  valid := h
  capacity_le := hcap
  unread := by simp [start, encode]
  returned := List.prefix_rfl

/-- The value that is read next stands at the front. -/
theorem Inv.unread_next {s : Session} (h : Inv o maxAlloc s) (hold : s.old = []) {w : Value}
    (hw : s.appended[s.returned.length]? = some w) :
    s.buffer.unread = w.bytes o ++ encode o (s.appended.drop (s.returned.length + 1)) := by
  obtain ⟨hlt, hget⟩ := List.getElem?_eq_some_iff.mp hw
  rw [h.unread, hold, List.nil_append, List.drop_eq_getElem_cons hlt, hget]
  rfl

/-- **One call keeps the invariant.** -/
theorem Inv.step {s t : Session} (h : Inv o maxAlloc s) (hst : Step o maxAlloc s t) :
    Inv o maxAlloc t := by
  have hle := h.returned.length_le
  cases hst with
  | append hb' hcap =>
    obtain ⟨hvalid, hunread⟩ := unread_of_append h.valid hb'
    refine ⟨hvalid, hcap, ?_, h.returned.trans (List.prefix_append _ _)⟩
    show _ = s.old ++ encode o ((s.appended ++ [_]).drop s.returned.length)
    rw [hunread, h.unread, List.drop_append_of_le_length hle, encode, encode, List.flatMap_append,
      List.append_assoc]
    simp
  | makeRoom hc hrun hcap =>
    obtain ⟨hvalid, hunread⟩ := makesRoom_spec h.valid hc hrun
    exact ⟨hvalid, hcap, hunread.trans h.unread, h.returned⟩
  | @consume r c hr hrun =>
    have hall : r.size.toNat ≤ s.buffer.unread.length := by
      rw [h.unread, List.length_append]
      omega
    obtain ⟨d, hd, hvalid, hunread, hcap⟩ := readOp_spec (o := o) h.valid hall
    obtain rfl : d = c := Option.some.inj (hd.symm.trans hrun)
    refine ⟨hvalid, hcap ▸ h.capacity_le, ?_, h.returned⟩
    -- only old bytes are taken
    rw [hunread, h.unread, List.drop_append_of_le_length hr]
  | @read v w _ hold hv hread =>
    obtain ⟨hd, hvalid, hunread⟩ := read_of_bytes h.valid (h.unread_next hold hv)
    cases hd.symm.trans hread
    have hcap := s.buffer.capacity_skip v.type.size
    refine ⟨hvalid, hcap ▸ h.capacity_le, ?_, ?_⟩
    · show _ = s.old ++ encode o (s.appended.drop (s.returned ++ [v]).length)
      rw [hunread, hold, List.length_append]
      rfl
    · -- the value returned is the one that was appended there
      obtain ⟨hlt, hget⟩ := List.getElem?_eq_some_iff.mp hv
      obtain ⟨rest, hrest⟩ := h.returned
      have hreturned : s.returned ++ [v] = s.appended.take (s.returned.length + 1) := by
        rw [List.take_succ_eq_append_getElem hlt, hget, ← hrest, List.take_left' rfl]
      show s.returned ++ [v] <+: s.appended
      rw [hreturned]
      exact List.take_prefix _ _

theorem inv_of_reachable (h : Valid b) (hcap : b.capacity.toNat ≤ maxAlloc) {s : Session}
    (hs : (lts o maxAlloc b).Reachable s) : Inv o maxAlloc s :=
  hs.invariant (fun _ hs => hs ▸ inv_start h hcap) fun _ _ _ h hst => h.step hst

/-- No call of the session fails an assertion: a value can be appended, an old byte taken, and the
    value that is next can be read. -/
structure Alive (o : ByteOrder) (s : Session) : Prop where
  append : ∀ fresh v, ∃ b', Value.append fresh o s.buffer v = some b'
  consume : ∀ r : ReadOp, r.size.toNat ≤ s.old.length → ∃ b', r.run o s.buffer = some b'
  read : s.old = [] → ∀ v, s.appended[s.returned.length]? = some v →
    ∃ b', Value.read o s.buffer v.type = some (v, b')

theorem Inv.alive {s : Session} (h : Inv o maxAlloc s) (hmax : maxAlloc ≤ 2 ^ 62) :
    Alive o s where
  append fresh v := append_value_spec h.valid (h.capacity_le.trans hmax) v
  consume r hr := by
    have hall : r.size.toNat ≤ s.buffer.unread.length := by
      rw [h.unread, List.length_append]
      omega
    obtain ⟨b', hb', -⟩ := readOp_spec (o := o) h.valid hall
    exact ⟨b', hb'⟩
  read hold v hv := ⟨_, (read_of_bytes h.valid (h.unread_next hold hv)).1⟩

/-- Everything old is taken, and as many values read as were appended. -/
def Finished (s : Session) : Prop := s.old = [] ∧ s.returned.length = s.appended.length

theorem Inv.finished {s : Session} (h : Inv o maxAlloc s) (hs : Finished s) :
    s.returned = s.appended ∧ s.buffer.length = 0 := by
  refine ⟨h.returned.eq_of_length hs.2, ?_⟩
  have hempty : s.buffer.unread = [] := by
    rw [h.unread, hs.1, hs.2, List.drop_length]
    rfl
  apply UInt64.toNat_inj.mp
  rw [← length_unread, hempty]
  rfl

/-- What is left of the old bytes can be skipped at once. -/
theorem exists_drained (hb : Valid b) (hcap : b.capacity.toNat ≤ maxAlloc) {s : Session}
    (hs : (lts o maxAlloc b).Reachable s) :
    ∃ t, (lts o maxAlloc b).Reachable t ∧ t.old = [] ∧ t.appended = s.appended := by
  have hinv := inv_of_reachable hb hcap hs
  have hle : s.old.length ≤ s.buffer.unread.length := by
    rw [hinv.unread, List.length_append]
    exact Nat.le_add_right _ _
  have hsize : (UInt64.ofNat s.old.length).toNat = s.old.length := by
    have hlt := s.buffer.length.toNat_lt
    rw [length_unread] at hle
    exact UInt64.toNat_ofNat_of_lt' (Nat.lt_of_le_of_lt hle hlt)
  have hstep : Step o maxAlloc s _ :=
    .consume (r := .skip (UInt64.ofNat s.old.length)) hsize.le rfl
  refine ⟨_, .step (l := ()) hs trivial hstep, ?_, rfl⟩
  exact List.drop_of_length_le hsize.ge

/-- Every session can be finished: all values appended so far are read. -/
theorem exists_finished (hb : Valid b) (hcap : b.capacity.toNat ≤ maxAlloc) {s : Session}
    (hs : (lts o maxAlloc b).Reachable s) :
    ∃ t, (lts o maxAlloc b).Reachable t ∧ Finished t ∧ t.appended = s.appended := by
  obtain ⟨t, ht, hold, happ⟩ := exists_drained hb hcap hs
  rw [← happ]
  clear hs happ
  -- by induction on the number of values not yet read
  obtain ⟨k, hk⟩ := Nat.exists_eq_add_of_le (inv_of_reachable hb hcap ht).returned.length_le
  induction k generalizing t with
  | zero => exact ⟨t, ht, ⟨hold, hk.symm⟩, rfl⟩
  | succ k ih =>
    have hlt : t.returned.length < t.appended.length := by omega
    have hv := List.getElem?_eq_getElem hlt
    have hinv := inv_of_reachable hb hcap ht
    obtain ⟨hread, -⟩ := read_of_bytes hinv.valid (hinv.unread_next hold hv)
    have hstep : Step o maxAlloc t _ := .read hold hv hread
    obtain ⟨u, hu, hfin, happ⟩ := ih _ (.step (l := ()) ht trivial hstep) hold (by
      show t.appended.length = (t.returned ++ [_]).length + k
      rw [List.length_append, List.length_singleton]
      omega)
    exact ⟨u, hu, hfin, happ⟩

end Session

/-! ## Values in front -/

/-- Prepend the values one after the other. -/
def prependAll (o : ByteOrder) : List Value → SocketBuffer → Option SocketBuffer
  | [], b => some b
  | v :: vs, b => do
    let b ← v.prepend o b
    prependAll o vs b

/-- Read values of the given types one after the other. -/
def readAll (o : ByteOrder) : List IntType → SocketBuffer → Option (List Value × SocketBuffer)
  | [], b => some ([], b)
  | t :: ts, b => do
    let (v, b) ← Value.read o b t
    let (vs, b) ← readAll o ts b
    return (v :: vs, b)

/-- Values whose bytes stand at the front are read. -/
theorem readAll_of_bytes (h : Valid b) {vs : List Value} {rest : List UInt8}
    (hunread : b.unread = encode o vs ++ rest) :
    ∃ b', readAll o (vs.map Value.type) b = some (vs, b') ∧ Valid b' ∧ b'.unread = rest := by
  induction vs generalizing b with
  | nil => exact ⟨b, rfl, h, hunread⟩
  | cons v vs ih =>
    have hfront : b.unread = v.bytes o ++ (encode o vs ++ rest) := by
      rw [hunread, encode, List.flatMap_cons, List.append_assoc]
      rfl
    obtain ⟨hread, hvalid, hskip⟩ := read_of_bytes h hfront
    obtain ⟨b', hb', hvalid', hrest⟩ := ih hvalid hskip
    refine ⟨b', ?_, hvalid', hrest⟩
    simp only [List.map_cons, readAll, hread, Option.bind_eq_bind, Option.bind_some, hb']
    rfl

/-- Where the front room suffices for all of them, the values are prepended, and the last one comes
    first. -/
theorem prependAll_spec (h : Valid b) {vs : List Value}
    (hroom : (encode o vs).length ≤ b.prependableBytes.toNat) :
    ∃ b', prependAll o vs b = some b' ∧ Valid b' ∧
      b'.unread = encode o vs.reverse ++ b.unread := by
  induction vs generalizing b with
  | nil => exact ⟨b, rfl, h, rfl⟩
  | cons v vs ih =>
    have hlen : (encode o (v :: vs)).length = v.type.size.toNat + (encode o vs).length := by
      rw [encode, List.flatMap_cons, List.length_append, v.length_bytes]
      rfl
    rw [hlen] at hroom
    have hle : v.type.size ≤ b.prependableBytes :=
      UInt64.le_iff_toNat_le.mpr ((Nat.le_add_right _ _).trans hroom)
    obtain ⟨c, hc, hvalid, hunread⟩ := prepend_spec (d := v.chunk o) h
      ((Nat.le_add_right _ _).trans hroom)
    -- the front room has shrunk by the size of the value
    have hroom' : (encode o vs).length ≤ c.prependableBytes.toNat := by
      have hindex : c.prependableBytes = b.prependableBytes - v.type.size := by
        obtain ⟨-, hc⟩ := of_assertion_bind hc
        obtain ⟨-, hc⟩ := of_assertion_bind hc
        cases hc
        rfl
      rw [hindex, UInt64.toNat_sub_of_le _ _ hle]
      omega
    obtain ⟨b', hb', hvalid', hunread'⟩ := ih hvalid hroom'
    refine ⟨b', ?_, hvalid', ?_⟩
    · rw [prependAll, Value.prepend_eq, hc]
      exact hb'
    · rw [hunread', hunread, List.reverse_cons, encode, encode, List.flatMap_append]
      simp [Value.chunk, Chunk.object, Value.bytes]

/-- **Values put in front** are read back in the reverse order of prepending, ahead of what was
    unread before. -/
theorem readAll_of_prependAll (h : Valid b) {vs : List Value}
    (hroom : (encode o vs).length ≤ b.prependableBytes.toNat) :
    ∃ b₁ b₂, prependAll o vs b = some b₁ ∧
      readAll o (vs.reverse.map Value.type) b₁ = some (vs.reverse, b₂) ∧
      b₂.unread = b.unread := by
  obtain ⟨b₁, hb₁, hvalid, hunread⟩ := prependAll_spec h hroom
  obtain ⟨b₂, hb₂, -, hrest⟩ := readAll_of_bytes hvalid hunread
  exact ⟨b₁, b₂, hb₁, hb₂, hrest⟩

/-! ## Main result -/

/-- **Typed integers round-trip through SocketBuffer.** Let no array of `2 ^ 62` bytes be available.
    From every buffer that the public calls can reach without a `Truncate` that wraps: whatever
    integers a session appends, and wherever the buffer grows, compacts or starts afresh in it, no
    assertion fails, the integers read back are those appended, in their order, all of them can be
    read, and then the buffer is empty; integers put in front come back in reverse order. The
    unsigned reads return the same 16 bits as the signed ones. The bytes of an integer are found in
    the buffer behind its append, on a little-endian host in network byte order, and `evppbswap_64`
    is an involution. -/
theorem integers_round_trip (o : ByteOrder) (maxAlloc : ℕ) (hmax : maxAlloc ≤ 2 ^ 62)
    {b : SocketBuffer} (hb : (calls o maxAlloc).ReachableBy NoWrap b) :
    (∀ s, (Session.lts o maxAlloc b).Reachable s → s.Alive o ∧ s.returned <+: s.appended ∧
      (s.Finished → s.returned = s.appended ∧ s.buffer.length = 0) ∧
      (∀ fresh (v : Value) b', v.append fresh o s.buffer = some b' →
        b'.unread = s.buffer.unread ++ v.bytes o) ∧
      ∃ t, (Session.lts o maxAlloc b).Reachable t ∧ t.Finished ∧ t.appended = s.appended) ∧
    (∀ vs : List Value, (encode o vs).length ≤ b.prependableBytes.toNat →
      ∃ b₁ b₂, prependAll o vs b = some b₁ ∧
        readAll o (vs.reverse.map Value.type) b₁ = some (vs.reverse, b₂) ∧
        b₂.unread = b.unread) ∧
    b.peekUInt16 o = (b.peekInt16 o).map Int16.toUInt16 ∧
    b.readUInt16 o = (b.readInt16 o).map (fun xb => (xb.1.toUInt16, xb.2)) ∧
    (∀ v : Value, v.bytes .little = (toBytes v.type.size.toNat v.bits).reverse) ∧
    ∀ x : UInt64, evppbswap64 (evppbswap64 x) = x := by
  obtain ⟨hvalid, hcap⟩ := valid_of_reachable hb
  refine ⟨fun s hs => ?_, fun vs hroom => readAll_of_prependAll hvalid hroom, (uint16_eq b o).1,
    (uint16_eq b o).2, Value.bytes_little, evppbswap64_evppbswap64⟩
  have hinv := Session.inv_of_reachable hvalid hcap hs
  exact ⟨hinv.alive hmax, hinv.returned, hinv.finished,
    fun _ _ _ hb' => (unread_of_append hinv.valid hb').2, Session.exists_finished hvalid hcap hs⟩

theorem integers_round_trip_prepend : ∃ b₁ b₂,
    prependAll .little [.int16 (-2), .int32 5] threeBytes = some b₁ ∧
    readAll .little [.int32, .int16] b₁ = some ([.int32 5, .int16 (-2)], b₂) ∧
    b₂.unread = [1, 2, 3] :=
  (integers_round_trip .little (2 ^ 40) (by decide) (threeBytes_reachable .little)).2.1
    [.int16 (-2), .int32 5] (by decide)

/-- The session on a buffer after `Truncate(SIZE_MAX)`, when `AppendInt8(5)` has been called. -/
def oneAppended : Session := { Session.start wrappedBuffer with
  buffer := { wrappedBuffer with buffer := storeAt (fun _ => 0) 7 [5], writeIndex := 8 }
  appended := [.int8 5] }

/-- The same session when the bytes that were unread before have been skipped. -/
def lostValue : Session := { oneAppended with
  buffer := oneAppended.buffer.reset
  old := oneAppended.old.drop (ReadOp.skip wrappedBuffer.length).size.toNat }

/-- **After a Truncate that has wrapped** a value is lost: `write_index_` stands one in front of
    `read_index_`, so that `AppendInt8(5)` makes the buffer look empty, and skipping what was unread
    before starts it afresh. `ReadInt8` then fails its assertion. -/
theorem truncate_loses_value : (calls .little (2 ^ 40)).Reachable wrappedBuffer ∧
    (Session.lts .little (2 ^ 40) wrappedBuffer).Reachable lostValue ∧
    lostValue.old = [] ∧ Value.read .little lostValue.buffer .int8 = none ∧
    ¬ lostValue.Alive .little := by
  have hwrite : Value.append (fun _ => 0) .little (Session.start wrappedBuffer).buffer (.int8 5) =
      some oneAppended.buffer := rfl
  have happend : Session.Step .little (2 ^ 40) (Session.start wrappedBuffer) oneAppended :=
    .append hwrite (by decide)
  -- `length()` is zero now, so that `Skip` starts the buffer afresh
  have hreset : (ReadOp.skip wrappedBuffer.length).run .little oneAppended.buffer =
      some oneAppended.buffer.reset := congrArg some (if_neg (by decide))
  have hlen : oneAppended.old.length = (ReadOp.skip wrappedBuffer.length).size.toNat := by
    simp only [oneAppended, Session.start, length_unread, ReadOp.size]
  have hskip : Session.Step .little (2 ^ 40) oneAppended lostValue := .consume hlen.ge hreset
  have hstart : (Session.lts .little (2 ^ 40) wrappedBuffer).Reachable
      (Session.start wrappedBuffer) := .init rfl
  have hold : lostValue.old = [] := by
    simp only [lostValue]
    exact List.drop_of_length_le hlen.le
  refine ⟨wrappedBuffer_reachable .little, ?_, hold, rfl, fun h => ?_⟩
  · exact .step (l := ()) (.step (l := ()) hstart trivial happend) trivial hskip
  · obtain ⟨b', hb'⟩ := h.read hold (.int8 5) rfl
    cases hb'

end ReechatBase.SocketBuffer
