import ReechatBase.SocketBuffer.RoundTrip

/-!
# ReadFromFD

`ReadFromFD` lets the kernel fill the free cells first and a second buffer on the stack behind
them, and appends what has spilled over. This file shows that the split leaves no trace in the
unread bytes, at every fill level and for every number of bytes delivered.

Main result: `readFromFD_appends`.
-/

namespace ReechatBase.SocketBuffer

open Lib Lib.Cyclic
open TcpSocket (ByteOrder)

variable {b : SocketBuffer} {fresh : ℕ → UInt8}

/-- After the call: nothing has changed after an error; otherwise the bytes delivered are appended,
    and the call returns their number. -/
def Appends (fresh : ℕ → UInt8) (b : SocketBuffer) : Readv → Prop
  | .error errno => b.readFromFD fresh (.error errno) = some (.error errno, b)
  | .data d => ∃ b', b.readFromFD fresh (.data d) = some (.ok d.len, b') ∧ Valid b' ∧
      b'.unread = b.unread ++ d.bytes

/-- At most `sizeof extrabuf` bytes spill over. -/
theorem spilled_le (h : Valid b) {d : Chunk} (hd : (Readv.data d).Possible b) :
    d.len.toNat ≤ b.free + 65536 := by
  obtain ⟨writable, hw, hle⟩ := hd
  obtain ⟨n, hn, hnfree⟩ := h.writableBytes
  obtain rfl : n = writable := Option.some.inj (hn.symm.trans hw)
  have hsize : extrabufSize.toNat = 65536 := rfl
  rw [iov] at hle
  -- with one vector nothing can spill over
  split at hle
  · simp [hsize] at hle
    omega
  · simp at hle
    omega

/-- **ReadFromFD.** -/
theorem appends_of_valid (h : Valid b) (hcap : b.capacity.toNat ≤ 2 ^ 62) {r : Readv}
    (hr : r.Possible b) : Appends fresh b r := by
  cases r with
  | error errno =>
    obtain ⟨n, hn, -⟩ := h.writableBytes
    rw [Appends, readFromFD, hn]
    rfl
  | data d =>
    have hspill := spilled_le h hr
    rcases Nat.lt_or_ge b.free d.len.toNat with hgt | hle
    · -- the free cells are filled, and the rest is appended behind them
      obtain ⟨n, hn, hnfree, heq⟩ := @readFromFD_of_gt b fresh h d hgt
      obtain ⟨hvalid, hunread⟩ := extended_take_spec h hn hnfree
      have hrest : (d.drop n hn).len.toNat ≤ 2 ^ 62 := by
        have hsub : (d.len - n).toNat = d.len.toNat - n.toNat :=
          UInt64.toNat_sub_of_le _ _ (UInt64.le_iff_toNat_le.mpr (by omega))
        show (d.len - n).toNat ≤ 2 ^ 62
        omega
      obtain ⟨b', hb', hvalid', hunread'⟩ := write_spec fresh (d := d.drop n hn) hvalid
        (writeFits_of_le hvalid hcap hrest)
      refine ⟨b', ?_, hvalid', hunread'.trans hunread⟩
      rw [heq, hb']
      rfl
    · exact ⟨_, readFromFD_of_le h hle, extended_spec h hle⟩

/-- **ReadFromFD appends exactly what the kernel delivered.** Let no array of `2 ^ 62` bytes be
    available. In every buffer that the public calls can reach without a `Truncate` that wraps, for
    every outcome of `::readv` over the vectors passed, `ReadFromFD` fails no assertion; it appends
    the bytes delivered to the unread bytes and keeps the indices in order, and changes nothing on
    an error. -/
theorem readFromFD_appends (o : ByteOrder) (maxAlloc : ℕ) (hmax : maxAlloc ≤ 2 ^ 62)
    {b : SocketBuffer} (hb : (calls o maxAlloc).ReachableBy NoWrap b) (fresh : ℕ → UInt8)
    {r : Readv} (hr : r.Possible b) : Appends fresh b r := by
  obtain ⟨hvalid, hcap⟩ := valid_of_reachable hb
  exact appends_of_valid hvalid (hcap.trans hmax) hr

theorem readFromFD_appends_four : Appends (fun _ => 0) threeBytes (.data ⟨[4, 5, 6, 7], 4, rfl⟩) :=
  readFromFD_appends .little (2 ^ 40) (by decide) (threeBytes_reachable .little) _
    ⟨65533, rfl, by decide⟩

/-- The default buffer after `Truncate(SIZE_MAX)` and a `ReadFromFD` that has delivered one byte. -/
def oneDelivered : SocketBuffer := { wrappedBuffer with
  buffer := storeAt (fun _ => 0) 7 [9], writeIndex := 8 }

/-- **After a Truncate that has wrapped** the bytes delivered are lost: the kernel delivers one, and
    the buffer looks empty. -/
theorem readFromFD_after_wrap : (calls .little (2 ^ 40)).Reachable wrappedBuffer ∧
    (Readv.data (.single 9)).Possible wrappedBuffer ∧
    wrappedBuffer.readFromFD (fun _ => 0) (.data (.single 9)) = some (.ok 1, oneDelivered) ∧
    oneDelivered.unread = [] ∧ ¬ Appends (fun _ => 0) wrappedBuffer (.data (.single 9)) := by
  have hrun : wrappedBuffer.readFromFD (fun _ => 0) (.data (.single 9)) =
      some (.ok 1, oneDelivered) := rfl
  refine ⟨wrappedBuffer_reachable .little, ⟨65537, rfl, by decide⟩, hrun, rfl, fun h => ?_⟩
  obtain ⟨b', hb', -, hunread⟩ := h
  cases hrun.symm.trans hb'
  -- nothing is unread, and yet one byte more than before should be
  have hlen := congrArg List.length hunread
  have hnone : oneDelivered.unread.length = 0 := rfl
  have hone : (Chunk.single 9).bytes.length = 1 := rfl
  rw [List.length_append, hnone, hone] at hlen
  omega

end ReechatBase.SocketBuffer
