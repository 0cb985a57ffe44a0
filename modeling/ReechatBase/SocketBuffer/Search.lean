import ReechatBase.SocketBuffer.ReadFromFD
import ReechatBase.Lib.Search

/-!
# Searching a SocketBuffer

`FindCRLF` and `FindEOL` of `socket_buffer.hpp`, from the first unread byte or from a position that
the caller has kept. `ReadFromFD` may move the unread bytes, so that positions are kept relative to
`data()`.

Main result: `find_resume`, on how far back a search in vain has to be resumed when more bytes have
been read.
-/

namespace ReechatBase.SocketBuffer

open Lib Lib.Cyclic
open TcpSocket (ByteOrder)

def kCRLF : List UInt8 := [13, 10]

variable (b : SocketBuffer)

/-! ## The functions -/

/-- `std::search(first, last, kCRLF, kCRLF + 2)` returns `last` in vain. -/
def stdSearch (first last : UInt64) : Option UInt64 := do
  let bytes ← b.loadBytes first (last - first)
  return ((search kCRLF bytes).map fun i => first + UInt64.ofNat i).getD last

def memchr (start : UInt64) (c : UInt8) (n : UInt64) : Option (Option UInt64) := do
  let bytes ← b.loadBytes start n
  return (bytes.findIdx? (· = c)).map fun i => start + UInt64.ofNat i

/-- `FindCRLF()` -/
def findCRLF : Option (Option UInt64) := do
  let crlf ← b.stdSearch b.readIndex b.writeIndex
  return if crlf = b.writeIndex then none else some crlf

/-- `FindCRLF(start)` -/
def findCRLFFrom (start : UInt64) : Option (Option UInt64) := do
  assertion (b.readIndex ≤ start)
  assertion (start ≤ b.writeIndex)
  let crlf ← b.stdSearch start b.writeIndex
  return if crlf = b.writeIndex then none else some crlf

/-- `FindEOL()` -/
def findEOL : Option (Option UInt64) := b.memchr b.readIndex 10 b.length

/-- `FindEOL(start)` -/
def findEOLFrom (start : UInt64) : Option (Option UInt64) := do
  assertion (b.readIndex ≤ start)
  assertion (start ≤ b.writeIndex)
  b.memchr start 10 (b.writeIndex - start)

/-- `data() + i` -/
def position (i : ℕ) : UInt64 := b.readIndex + UInt64.ofNat i

/-! ## What they find -/

variable {b} {b' : SocketBuffer} {k : ℕ} {ys : List UInt8}

@[simp] theorem position_zero : b.position 0 = b.readIndex := by
  simp [position]

theorem Valid.toNat_position (h : Valid b) (hk : k ≤ b.unread.length) :
    (b.position k).toNat = b.readIndex.toNat + k := by
  have hread := h.read_le
  have hwrite := b.writeIndex.toNat_lt
  have hlen := h.length_toNat
  rw [length_unread] at hk
  have hlt : k < UInt64.size := by
    show k < 2 ^ 64
    omega
  have hof : (UInt64.ofNat k).toNat = k := UInt64.toNat_ofNat_of_lt' hlt
  rw [position, toNat_add (by omega), hof]

theorem Valid.toNat_rest (h : Valid b) (hk : k ≤ b.unread.length) :
    (b.writeIndex - b.position k).toNat = b.unread.length - k := by
  have hread := h.read_le
  have hlen := h.length_toNat
  have hpos := h.toNat_position hk
  rw [length_unread] at hk ⊢
  rw [UInt64.toNat_sub_of_le _ _ (UInt64.le_iff_toNat_le.mpr (by omega)), hpos]
  omega

/-- What a search from `data() + k` on looks at. -/
theorem Valid.loadRest (h : Valid b) (hk : k ≤ b.unread.length) {n : UInt64}
    (hn : n.toNat = b.unread.length - k) :
    b.loadBytes (b.position k) n = some (b.unread.drop k) := by
  have hread := h.read_le
  have hwrite := h.write_le
  have hlen := h.length_toNat
  have hpos := h.toNat_position hk
  have hlength := b.length_unread
  have hfit : (b.position k).toNat + n.toNat ≤ b.capacity.toNat := by omega
  rw [SocketBuffer.loadBytes, assertion_bind hfit, hpos, hn, hlength, SocketBuffer.unread,
    drop_span _ _ (by omega)]
  rfl

theorem position_position (i : ℕ) :
    b.position k + UInt64.ofNat i = b.position (k + i) := by
  rw [position, position, UInt64.add_assoc, UInt64.ofNat_add]

/-- The positions that a search from `data() + k` on can return. -/
theorem Valid.position_ne_write (h : Valid b) {i : ℕ} (hi : i < b.unread.length) :
    b.position i ≠ b.writeIndex := by
  intro heq
  have hpos := h.toNat_position hi.le
  have hlen := h.length_toNat
  rw [length_unread] at hi
  rw [heq] at hpos
  omega

theorem Valid.stdSearch (h : Valid b) (hk : k ≤ b.unread.length) :
    b.stdSearch (b.position k) b.writeIndex =
      some (((search kCRLF (b.unread.drop k)).map fun i => b.position (k + i)).getD
        b.writeIndex) := by
  rw [SocketBuffer.stdSearch, h.loadRest hk (h.toNat_rest hk)]
  simp only [position_position]
  rfl

/-- `FindCRLF(data() + k)` returns the first CRLF from there on. -/
theorem Valid.findCRLFFrom (h : Valid b) (hk : k ≤ b.unread.length) :
    b.findCRLFFrom (b.position k) =
      some ((search kCRLF (b.unread.drop k)).map fun i => b.position (k + i)) := by
  have hread := h.read_le
  have hlen := h.length_toNat
  have hpos := h.toNat_position hk
  have hlength := b.length_unread
  have hlow : b.readIndex ≤ b.position k := UInt64.le_iff_toNat_le.mpr (by omega)
  have hhigh : b.position k ≤ b.writeIndex := UInt64.le_iff_toNat_le.mpr (by omega)
  rw [SocketBuffer.findCRLFFrom, assertion_bind hlow, assertion_bind hhigh, h.stdSearch hk]
  cases hsearch : search kCRLF (b.unread.drop k) with
  | none => simp
  | some i =>
    -- a CRLF does not begin at the end of the unread bytes
    have hocc := (search_eq_some_iff.mp hsearch).1.add_length_le
    have hne : b.position (k + i) ≠ b.writeIndex := by
      apply h.position_ne_write
      rw [List.length_drop] at hocc
      have htwo : kCRLF.length = 2 := rfl
      omega
    simp [hne]

theorem Valid.findCRLF (h : Valid b) :
    b.findCRLF = some ((search kCRLF b.unread).map b.position) := by
  have hfrom := h.findCRLFFrom (Nat.zero_le b.unread.length)
  have hread : b.readIndex ≤ b.writeIndex := UInt64.le_iff_toNat_le.mpr h.read_le
  rw [SocketBuffer.findCRLFFrom, position_zero, assertion_bind (UInt64.le_refl b.readIndex),
    assertion_bind hread] at hfrom
  rw [SocketBuffer.findCRLF, hfrom]
  simp

/-- `memchr` finds what a search for one character finds. -/
theorem findIdx?_eq_search (c : UInt8) (xs : List UInt8) :
    xs.findIdx? (· = c) = search [c] xs := by
  induction xs with
  | nil => rfl
  | cons x xs ih =>
    rw [List.findIdx?_cons, search, ih]
    by_cases hx : x = c
    · simp [hx]
    · simp [hx, Ne.symm hx]

/-- `FindEOL(data() + k)` returns the first LF from there on. -/
theorem Valid.findEOLFrom (h : Valid b) (hk : k ≤ b.unread.length) :
    b.findEOLFrom (b.position k) =
      some ((search [10] (b.unread.drop k)).map fun i => b.position (k + i)) := by
  have hread := h.read_le
  have hlen := h.length_toNat
  have hpos := h.toNat_position hk
  have hlength := b.length_unread
  have hlow : b.readIndex ≤ b.position k := UInt64.le_iff_toNat_le.mpr (by omega)
  have hhigh : b.position k ≤ b.writeIndex := UInt64.le_iff_toNat_le.mpr (by omega)
  rw [SocketBuffer.findEOLFrom, assertion_bind hlow, assertion_bind hhigh, SocketBuffer.memchr,
    h.loadRest hk (h.toNat_rest hk)]
  simp only [position_position, ← findIdx?_eq_search]
  rfl

theorem Valid.findEOL (h : Valid b) :
    b.findEOL = some ((search [10] b.unread).map b.position) := by
  have hfrom := h.findEOLFrom (Nat.zero_le b.unread.length)
  have hread : b.readIndex ≤ b.writeIndex := UInt64.le_iff_toNat_le.mpr h.read_le
  rw [SocketBuffer.findEOLFrom, position_zero, assertion_bind (UInt64.le_refl b.readIndex),
    assertion_bind hread] at hfrom
  rw [SocketBuffer.findEOL, SocketBuffer.length, hfrom]
  simp

/-! ## Resuming a search -/

/-- A CRLF that begins in the first part and was not complete there -/
theorem crlf_across {xs : List UInt8} (hnone : search kCRLF xs = none) :
    (∃ i < xs.length, OccursAt kCRLF (xs ++ ys) i) ↔
      xs.getLast? = some 13 ∧ ys.head? = some 10 := by
  rcases xs.eq_nil_or_concat' with rfl | ⟨zs, x, rfl⟩
  · simp
  · have hdrop : (zs ++ [x] ++ ys).drop zs.length = x :: ys := by simp
    have hat : OccursAt kCRLF (zs ++ [x] ++ ys) zs.length ↔ x = 13 ∧ ys.head? = some 10 := by
      rw [OccursAt, hdrop]
      cases ys with
      | nil => simp [kCRLF]
      | cons y ys => simp [kCRLF, eq_comm]
    rw [List.getLast?_concat, Option.some_inj, ← hat]
    constructor
    · rintro ⟨i, hi, hocc⟩
      -- it would have been found if it had ended in the first part
      have hlate : ¬ i + kCRLF.length ≤ (zs ++ [x]).length :=
        fun hle => search_eq_none_iff.mp hnone i (hocc.of_append hle)
      have hone : (zs ++ [x]).length = zs.length + 1 := by simp
      have htwo : kCRLF.length = 2 := rfl
      obtain rfl : i = zs.length := by omega
      exact hocc
    · intro hocc
      exact ⟨zs.length, by simp, hocc⟩

/-- What the searches find in `b'`, whose unread bytes are those of `b` and more behind them. -/
structure Resumes (b b' : SocketBuffer) (ys : List UInt8) : Prop where
  crlf : b'.findCRLF = some ((search kCRLF (b.unread ++ ys)).map b'.position)
  eol : b'.findEOL = some ((search [10] (b.unread ++ ys)).map b'.position)
  /-- From the last of the old bytes on, `FindCRLF` finds what it finds in all. -/
  crlf_resumed : b.findCRLF = some none →
    b'.findCRLFFrom (b'.position (b.unread.length - 1)) = b'.findCRLF
  /-- From the first of the new bytes on, it misses a CRLF across the old end. -/
  crlf_late : b.findCRLF = some none →
    (b'.findCRLFFrom (b'.position b.unread.length) = b'.findCRLF ↔
      ¬ (b.unread.getLast? = some 13 ∧ ys.head? = some 10))
  eol_resumed : b.findEOL = some none →
    b'.findEOLFrom (b'.position b.unread.length) = b'.findEOL

/-- Positions of the unread bytes differ. -/
theorem Valid.map_position_inj (h : Valid b) {x y : Option ℕ}
    (hx : ∀ i ∈ x, i ≤ b.unread.length) (hy : ∀ i ∈ y, i ≤ b.unread.length) :
    x.map b.position = y.map b.position ↔ x = y := by
  constructor
  · intro heq
    cases x with
    | none =>
      rw [Option.map_none, eq_comm, Option.map_eq_none_iff] at heq
      exact heq.symm
    | some i =>
      rw [Option.map_some, eq_comm, Option.map_eq_some_iff] at heq
      obtain ⟨j, rfl, hj⟩ := heq
      have hi := h.toNat_position (hx i rfl)
      have hj' := h.toNat_position (hy j rfl)
      rw [hj] at hj'
      exact congrArg some (by omega)
  · exact fun heq => heq ▸ rfl

theorem Valid.resumes (h : Valid b) (h' : Valid b') (hunread : b'.unread = b.unread ++ ys) :
    Resumes b b' ys := by
  have hlength : b'.unread.length = b.unread.length + ys.length := by
    rw [hunread, List.length_append]
  refine ⟨hunread ▸ h'.findCRLF, hunread ▸ h'.findEOL, fun hnone => ?_, fun hnone => ?_,
    fun hnone => ?_⟩
  · rw [h.findCRLF, Option.some_inj, Option.map_eq_none_iff] at hnone
    rw [h'.findCRLFFrom (by omega), h'.findCRLF, hunread,
      search_resume hnone (Nat.sub_le _ 1) fun i hi => ?_, Option.map_map]
    · rfl
    · have htwo : kCRLF.length = 2 := rfl
      omega
  · rw [h.findCRLF, Option.some_inj, Option.map_eq_none_iff] at hnone
    have hlate : (search kCRLF ys).map (fun i => b'.position (b.unread.length + i)) =
        ((search kCRLF ys).map (b.unread.length + ·)).map b'.position := by
      rw [Option.map_map]
      rfl
    rw [← crlf_across hnone, h'.findCRLFFrom (by omega), h'.findCRLF, hunread, List.drop_left,
      Option.some_inj, hlate, h'.map_position_inj, eq_comm, search_resume_end_iff]
    · simp
    · intro i hi
      obtain ⟨j, hj, rfl⟩ := Option.map_eq_some_iff.mp hi
      have hle := le_length_of_search hj
      omega
    · intro i hi
      rw [hunread]
      exact le_length_of_search hi
  · rw [h.findEOL, Option.some_inj, Option.map_eq_none_iff] at hnone
    rw [h'.findEOLFrom (by omega), h'.findEOL, hunread,
      search_resume hnone (le_refl _) fun i hi => ?_, Option.map_map]
    · rfl
    · have hone : [(10 : UInt8)].length = 1 := rfl
      omega

/-- **Resuming a search.** Let no array of `2 ^ 62` bytes be available. In every buffer that the
    public calls can reach without a `Truncate` that wraps, and whatever `ReadFromFD` then reads:
    `FindCRLF` and `FindEOL` fail no assertion and find the first occurrence in the unread bytes; a
    `FindEOL` in vain may be resumed at the new bytes, and a `FindCRLF` in vain at the last of the
    old bytes, but at the new ones only if no CRLF lies across. -/
theorem find_resume (o : ByteOrder) (maxAlloc : ℕ) (hmax : maxAlloc ≤ 2 ^ 62)
    (hb : (calls o maxAlloc).ReachableBy NoWrap b) (fresh : ℕ → UInt8) {d : Chunk}
    (hd : (Readv.data d).Possible b) :
    ∃ b', b.readFromFD fresh (.data d) = some (.ok d.len, b') ∧ Resumes b b' d.bytes := by
  obtain ⟨hvalid, hcap⟩ := valid_of_reachable hb
  have happends : Appends fresh b (.data d) := appends_of_valid hvalid (hcap.trans hmax) hd
  obtain ⟨b', hread, hvalid', hunread⟩ := happends
  exact ⟨b', hread, hvalid.resumes hvalid' hunread⟩

/-- The default buffer after `Append` of a line whose LF is still to come -/
def halfLine : SocketBuffer := { defaultBuffer with
  buffer := storeAt (fun _ => 0) 8 [65, 13], writeIndex := 10 }

theorem halfLine_reachable (o : ByteOrder) :
    (calls o (2 ^ 40)).ReachableBy NoWrap halfLine :=
  .step (l := (fun _ => 0, .op (.append ⟨[65, 13], 2, rfl⟩))) (defaultBuffer_reachable o)
    (fun n h => by cases h) ⟨(fun r h => by cases h), rfl, by decide⟩

theorem find_resume_half : ∃ b',
    halfLine.readFromFD (fun _ => 0) (.data ⟨[10, 66], 2, rfl⟩) = some (.ok 2, b') ∧
      Resumes halfLine b' [10, 66] :=
  find_resume .little (2 ^ 40) (by decide) (halfLine_reachable .little) _
    ⟨65534, rfl, by decide⟩

end ReechatBase.SocketBuffer
