import ReechatBase.RingBuffer.Basic
import ReechatBase.Lib.Cyclic

/-!
# Counter arithmetic of RingBuffer

`read_count_` and `write_count_` run freely modulo `2 ^ 32`. As long as their difference stays
within the capacity, masking them with `max_index_` gives array indices and subtracting them
gives sizes, also when one or both have wrapped. This file states these facts once; nothing
after it reasons about `UInt32` again.
-/

namespace ReechatBase.RingBuffer

open Lib Lib.Prog Lib.Cyclic

/-! ## The capacity -/

namespace PowShape

/-- The ring that the constructor builds for the capacity `2 ^ log`. -/
def ofLog (log : ℕ) (hlog : log ≤ 31) : PowShape where
  toShape := Shape.ofCapacity (UInt32.ofNat (2 ^ log))
  log := log
  log_le := hlog
  capacity_eq := by
    have hlt : 2 ^ log < 2 ^ 32 := Nat.pow_lt_pow_right (by decide) (by omega)
    exact UInt32.toNat_ofNat_of_lt' hlt
  maxIndex_eq := rfl

variable (sh : PowShape)

/-- The capacity as a number. -/
def cap : ℕ := 2 ^ sh.log

@[simp] theorem capacity_toNat : sh.capacity.toNat = sh.cap := sh.capacity_eq

theorem cap_pos : 0 < sh.cap :=
  Nat.two_pow_pos _

theorem cap_le : sh.cap ≤ 2 ^ 31 :=
  Nat.pow_le_pow_right (by decide) sh.log_le

/-- The capacity divides the period of the counters, so wrapped counters still give the right
    array index. -/
theorem cap_dvd : sh.cap ∣ 2 ^ 32 :=
  Nat.pow_dvd_pow 2 (by have := sh.log_le; omega)

@[simp] theorem maxIndex_toNat : sh.maxIndex.toNat = sh.cap - 1 := by
  have hone : (1 : UInt32) ≤ sh.capacity := by
    rw [UInt32.le_iff_toNat_le, capacity_toNat]
    exact sh.cap_pos
  rw [sh.maxIndex_eq, UInt32.toNat_sub_of_le _ _ hone, UInt32.toNat_one, capacity_toNat]

@[simp] theorem and_maxIndex (x : ℕ) : x &&& (sh.cap - 1) = x % sh.cap :=
  Nat.and_two_pow_sub_one_eq_mod _ _

/-- Masking with `max_index_` is reduction modulo the capacity. -/
theorem mask_toNat (x : UInt32) : (x &&& sh.maxIndex).toNat = x.toNat % sh.cap := by
  simp

theorem le_capacity {x : UInt32} : x ≤ sh.capacity ↔ x.toNat ≤ sh.cap := by
  rw [UInt32.le_iff_toNat_le, capacity_toNat]

theorem mask_lt (x : UInt32) : x.toNat % sh.cap < sh.cap :=
  Nat.mod_lt _ sh.cap_pos

/-- `index + len <= capacity_` is decided without overflow. -/
theorem mask_add_toNat (x : UInt32) {n : UInt32} (hn : n.toNat ≤ sh.cap) :
    ((x &&& sh.maxIndex) + n).toNat = x.toNat % sh.cap + n.toNat := by
  have hlt := sh.mask_lt x
  have hle := sh.cap_le
  rw [UInt32.toNat_add, mask_toNat]
  omega

/-- `capacity_ - index` does not underflow. -/
theorem capacity_sub_mask_toNat (x : UInt32) :
    (sh.capacity - (x &&& sh.maxIndex)).toNat = sh.cap - x.toNat % sh.cap := by
  have hle : x &&& sh.maxIndex ≤ sh.capacity := by
    rw [UInt32.le_iff_toNat_le, mask_toNat, capacity_toNat]
    exact (sh.mask_lt x).le
  rw [UInt32.toNat_sub_of_le _ _ hle, mask_toNat, capacity_toNat]

/-- Adding to a counter moves its index, also when the counter wraps. -/
theorem add_toNat_mod (x n : UInt32) : (x + n).toNat % sh.cap = (x.toNat + n.toNat) % sh.cap := by
  rw [UInt32.toNat_add, Nat.mod_mod_of_dvd _ sh.cap_dvd]

end PowShape

/-! ## Sizes -/

/-- The number of published bytes not yet consumed: `write_count_ - read_count_`. -/
def Mem.size (m : Mem) : ℕ := (m.writeCount - m.readCount).toNat

/-- The bytes published and not yet consumed, in stream order. -/
def Mem.content (sh : PowShape) (m : Mem) : List UInt8 :=
  window m.dataArr sh.cap m.readCount.toNat m.size

@[simp] theorem Mem.length_content (sh : PowShape) (m : Mem) :
    (m.content sh).length = m.size := by
  simp [Mem.content]

/-- The index of the writer is the index of the reader moved by the size. -/
theorem Mem.writeCount_mod (sh : PowShape) (m : Mem) :
    m.writeCount.toNat % sh.cap = (m.readCount.toNat + m.size) % sh.cap := by
  have h := sh.add_toNat_mod m.readCount (m.writeCount - m.readCount)
  rwa [show m.readCount + (m.writeCount - m.readCount) = m.writeCount by
    rw [UInt32.add_comm, UInt32.sub_add_cancel]] at h

/-- Publishing moves the size up. -/
theorem size_add_write {w r n : UInt32} (h : (w - r).toNat + n.toNat < 2 ^ 32) :
    (w + n - r).toNat = (w - r).toNat + n.toNat := by
  have := w.toNat_lt
  have := r.toNat_lt
  simp only [UInt32.toNat_sub, UInt32.toNat_add] at *
  omega

/-- Consuming moves the size down. -/
theorem size_add_read {w r n : UInt32} (h : n.toNat ≤ (w - r).toNat) :
    (w - (r + n)).toNat = (w - r).toNat - n.toNat := by
  have := w.toNat_lt
  have := r.toNat_lt
  have := n.toNat_lt
  simp only [UInt32.toNat_sub, UInt32.toNat_add] at *
  omega

/-- The free space as the code computes it. -/
theorem capacity_sub_size_toNat (sh : PowShape) {x : UInt32} (h : x.toNat ≤ sh.cap) :
    (sh.capacity - x).toNat = sh.cap - x.toNat := by
  rw [UInt32.toNat_sub_of_le _ _ (sh.le_capacity.mpr h), sh.capacity_toNat]

/-! ## Spans -/

/-- The length of a span of `n` positions from index `i` on, cut at the end of the array. -/
def seriesLen (cap i n : ℕ) : ℕ := min n (cap - i)

/-- The result of `AvailableSeriesRead` for the counters it has loaded. -/
def seriesReadLen (sh : Shape) (readCount writeCount : UInt32) : UInt32 :=
  if writeCount - readCount = 0 then 0
  else if (readCount &&& sh.maxIndex) + (writeCount - readCount) ≤ sh.capacity then
    writeCount - readCount
  else
    sh.capacity - (readCount &&& sh.maxIndex)

/-- The result of `AvailableSeriesWrite` for the counters it has loaded. -/
def seriesWriteLen (sh : Shape) (readCount writeCount : UInt32) : UInt32 :=
  if (writeCount &&& sh.maxIndex) + (sh.capacity - (writeCount - readCount)) > sh.capacity then
    sh.capacity - (writeCount &&& sh.maxIndex)
  else
    sh.capacity - (writeCount - readCount)

theorem availableSeriesRead_eq (sh : Shape) : availableSeriesRead sh = (do
    let readCount ← loadReadCount
    let writeCount ← loadWriteCount
    assertion (sh.capacity ≥ writeCount - readCount)
    ret (seriesReadLen sh readCount writeCount)) := by
  simp only [availableSeriesRead, seriesReadLen, apply_ite ret]

theorem availableSeriesWrite_eq (sh : Shape) : availableSeriesWrite sh = (do
    let readCount ← loadReadCount
    let writeCount ← loadWriteCount
    assertion (sh.capacity ≥ writeCount - readCount)
    ret (seriesWriteLen sh readCount writeCount)) := by
  simp only [availableSeriesWrite, seriesWriteLen, apply_ite ret]

theorem seriesReadLen_toNat (sh : PowShape) {r w : UInt32} (h : (w - r).toNat ≤ sh.cap) :
    (seriesReadLen sh.toShape r w).toNat = seriesLen sh.cap (r.toNat % sh.cap) (w - r).toNat := by
  have hlt := sh.mask_lt r
  simp only [seriesReadLen, seriesLen]
  split
  · next h0 => simp [h0]
  · split
    · next hfit =>
      rw [sh.le_capacity, sh.mask_add_toNat _ h] at hfit
      omega
    · next hfit =>
      rw [sh.le_capacity, sh.mask_add_toNat _ h] at hfit
      rw [sh.capacity_sub_mask_toNat]
      omega

theorem seriesWriteLen_toNat (sh : PowShape) {r w : UInt32} (h : (w - r).toNat ≤ sh.cap) :
    (seriesWriteLen sh.toShape r w).toNat =
      seriesLen sh.cap (w.toNat % sh.cap) (sh.cap - (w - r).toNat) := by
  have hfree := capacity_sub_size_toNat sh h
  have hlt := sh.mask_lt w
  simp only [seriesWriteLen, seriesLen]
  split
  · next hgt =>
    rw [gt_iff_lt, UInt32.lt_iff_toNat_lt, sh.capacity_toNat, sh.mask_add_toNat _ (by omega),
      hfree] at hgt
    rw [sh.capacity_sub_mask_toNat]
    omega
  · next hgt =>
    rw [gt_iff_lt, UInt32.lt_iff_toNat_lt, sh.capacity_toNat, sh.mask_add_toNat _ (by omega),
      hfree] at hgt
    rw [hfree]
    omega

/-- A block that does not fit before the end of the array is longer than the space there. -/
theorem tailLeft_le (sh : PowShape) {w len : UInt32}
    (hcut : ¬ (w &&& sh.maxIndex) + len ≤ sh.capacity) :
    (sh.capacity - (w &&& sh.maxIndex)).toNat ≤ len.toNat := by
  have hidx := sh.mask_lt w
  have hcap := sh.cap_le
  rw [sh.le_capacity, UInt32.toNat_add, sh.mask_toNat] at hcut
  rw [sh.capacity_sub_mask_toNat]
  omega

/-- `WriteContent` uses the first `len` bytes only. -/
theorem writeContent_take (sh : PowShape) (content : List UInt8) (len : UInt32) :
    writeContent sh.toShape (content.take len.toNat) len = writeContent sh.toShape content len := by
  simp only [writeContent]
  refine bind_congr fun w => bind_congr fun r => bind_congr fun _ => ?_
  split
  · rfl
  · split
    · rw [List.take_take, Nat.min_self]
    · next hcut =>
      -- the cut lies within the first `len` bytes
      have hle := tailLeft_le sh hcut
      have hrest := UInt32.toNat_sub_of_le _ _ (UInt32.le_iff_toNat_le.mpr hle)
      rw [List.take_take, Nat.min_eq_left hle, List.drop_take, hrest, List.take_take, Nat.min_self]

/-! ## Publishing and consuming a block -/

namespace Mem

variable (sh : PowShape) (m : Mem)

@[simp] theorem size_setData (arr : ℕ → UInt8) : (m.setData arr).size = m.size := rfl

theorem size_addRead {n : UInt32} (hn : n.toNat ≤ m.size) :
    (m.addRead n).size = m.size - n.toNat :=
  size_add_read hn

theorem size_addWrite {n : UInt32} (hn : m.size + n.toNat ≤ sh.cap) :
    (m.addWrite n).size = m.size + n.toNat := by
  have hle := sh.cap_le
  exact size_add_write (show m.size + n.toNat < 2 ^ 32 by omega)

/-- After `n` bytes have been consumed, the content has lost its first `n` bytes. -/
theorem content_addRead {n : UInt32} (hn : n.toNat ≤ m.size) :
    (m.addRead n).content sh = (m.content sh).drop n.toNat := by
  rw [content, content, m.size_addRead hn, drop_window _ _ _ hn]
  exact window_congr_mod (sh.add_toNat_mod _ _)

/-- After the `n` bytes behind the content have been published, they are appended to it. -/
theorem content_addWrite {n : UInt32} (hn : m.size + n.toNat ≤ sh.cap) :
    (m.addWrite n).content sh =
      m.content sh ++ window m.dataArr sh.cap m.writeCount.toNat n.toNat := by
  -- the window grows at its back, where the index of the writer stands
  rw [content, content, m.size_addWrite sh hn, window_add]
  exact congrArg _ (window_congr_mod (m.writeCount_mod sh).symm)

/-- A cell of the free part of the array, counted from the writer's index, holds no unread
    byte. -/
theorem free_cell_ne {i j : ℕ} (hi : i < m.size) (hj : m.size + j < sh.cap) :
    (m.writeCount.toNat + j) % sh.cap ≠ (m.readCount.toNat + i) % sh.cap := by
  -- both cells counted from the index of the reader
  have hw : (m.writeCount.toNat + j) % sh.cap = (m.readCount.toNat + m.size + j) % sh.cap := by
    rw [Nat.add_mod, m.writeCount_mod sh, ← Nat.add_mod]
  rw [hw]
  exact (mod_ne_mod (by omega) (by omega)).symm

/-- Storing a block behind the content leaves the content alone. -/
theorem content_store {bs : List UInt8} (hfit : m.size + bs.length ≤ sh.cap) :
    (m.setData (store m.dataArr sh.cap m.writeCount.toNat bs)).content sh = m.content sh := by
  apply window_congr
  intro i hi
  exact store_of_ne (by omega) fun j hj => (m.free_cell_ne sh hi (by omega)).symm

/-- **Publishing a block.** Storing a block behind the content and then moving the writer's
    counter appends the block to the content. -/
theorem content_publish {bs : List UInt8} {n : UInt32} (hn : bs.length = n.toNat)
    (hfit : m.size + n.toNat ≤ sh.cap) :
    ((m.setData (store m.dataArr sh.cap m.writeCount.toNat bs)).addWrite n).content sh =
      m.content sh ++ bs := by
  rw [content_addWrite sh _ (by simpa using hfit), m.content_store sh (by omega), dataArr_setData,
    writeCount_setData, ← hn, window_store (by omega)]

end Mem

end ReechatBase.RingBuffer
