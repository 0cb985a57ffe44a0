import Mathlib.Data.List.Infix
import Mathlib.Order.Basic
import Mathlib.Tactic.Common

/-!
# Length-prefixed framing

A stream is cut into frames by headers of a fixed length, each of which gives the length of the
payload behind it. A header that announces an empty payload is illegal and stops the parse for
ever.

- `Format.parse`: the complete frames of a stream, in order, up to the first illegal header;
- `parse_isPrefix`: a longer stream has the same frames and possibly more;
- `parse_eq_append`: a parse that has got through some frames goes on behind them;
- `parse_flatten`: a concatenation of frames is parsed into these frames.
-/

namespace ReechatBase.Lib.Framing

variable {α : Type*}

/-- A frame format: the length of a header, and the payload length that a header announces. -/
structure Format (α : Type*) where
  headerLen : ℕ
  headerLen_pos : 0 < headerLen
  payloadLen : List α → ℕ

namespace Format

variable (F : Format α)

/-- The length of the frame that begins the stream. -/
def frameLen (s : List α) : ℕ := F.headerLen + F.payloadLen (s.take F.headerLen)

/-- The first frame of a stream, when it is complete and its header is legal. -/
def next (s : List α) : Option (List α) :=
  if F.headerLen ≤ s.length ∧ F.payloadLen (s.take F.headerLen) ≠ 0 ∧ F.frameLen s ≤ s.length then
    some (s.take (F.frameLen s))
  else
    none

/-- At most `k` frames of a stream. -/
def parseUpTo : ℕ → List α → List (List α)
  | 0, _ => []
  | k + 1, s =>
    match F.next s with
    | none => []
    | some f => f :: parseUpTo k (s.drop f.length)

/-- The complete frames of a stream up to the first illegal header. -/
def parse (s : List α) : List (List α) :=
  F.parseUpTo s.length s

/-- What the parse leaves: an incomplete frame, or everything from an illegal header on. -/
def unparsed (s : List α) : List α :=
  s.drop (F.parse s).flatten.length

/-- A complete frame with a legal header, on its own. -/
def IsFrame (f : List α) : Prop :=
  F.next f = some f

variable {F} {s t f : List α}

/-! ## The first frame -/

theorem next_eq_some : F.next s = some f ↔ F.headerLen ≤ s.length ∧
    F.payloadLen (s.take F.headerLen) ≠ 0 ∧ F.frameLen s ≤ s.length ∧
      f = s.take (F.frameLen s) := by
  simp only [next, Option.ite_none_right_eq_some, Option.some.injEq, and_assoc]
  exact and_congr_right' (and_congr_right' (and_congr_right' eq_comm))

theorem length_of_next (h : F.next s = some f) : f.length = F.frameLen s := by
  obtain ⟨_, _, hlen, rfl⟩ := next_eq_some.mp h
  exact List.length_take_of_le hlen

theorem next_isPrefix (h : F.next s = some f) : f <+: s := by
  obtain ⟨_, _, _, rfl⟩ := next_eq_some.mp h
  exact List.take_prefix _ _

theorem length_pos_of_next (h : F.next s = some f) : 0 < f.length := by
  rw [length_of_next h]
  exact Nat.add_pos_left F.headerLen_pos _

theorem frameLen_append (h : F.headerLen ≤ s.length) : F.frameLen (s ++ t) = F.frameLen s := by
  rw [frameLen, frameLen, List.take_append_of_le_length h]

/-- A frame that is complete stays the first frame when more arrives. -/
theorem next_append (h : F.next s = some f) : F.next (s ++ t) = some f := by
  obtain ⟨hhead, hpay, hlen, rfl⟩ := next_eq_some.mp h
  have hfl : F.frameLen (s ++ t) = F.frameLen s := frameLen_append hhead
  -- what arrives later changes neither the header nor what it announces
  refine next_eq_some.mpr ⟨?_, ?_, ?_, ?_⟩
  · exact hhead.trans (by simp)
  · rwa [List.take_append_of_le_length hhead]
  · rw [hfl]
    exact hlen.trans (by simp)
  · rw [hfl, List.take_append_of_le_length hlen]

theorem next_of_isPrefix (h : F.next s = some f) (hst : s <+: t) : F.next t = some f := by
  obtain ⟨u, rfl⟩ := hst
  exact next_append h

/-! ## The parse -/

/-- More fuel than elements changes nothing. -/
theorem parseUpTo_eq {k : ℕ} (hk : s.length ≤ k) : F.parseUpTo k s = F.parse s := by
  induction k using Nat.strongRecOn generalizing s with
  | _ k ih =>
    cases hs : F.next s with
    | none => cases k <;> cases hl : s.length <;> simp [parse, parseUpTo, hs, hl]
    | some f =>
      have hpos := length_pos_of_next hs
      have hle := (next_isPrefix hs).length_le
      obtain ⟨k, rfl⟩ : ∃ j, k = j + 1 := ⟨k - 1, by omega⟩
      obtain ⟨n, hn⟩ : ∃ j, s.length = j + 1 := ⟨s.length - 1, by omega⟩
      -- the rest behind the frame is shorter than both counts of fuel
      have hdrop : (s.drop f.length).length = s.length - f.length := List.length_drop
      simp only [parse, hn, parseUpTo, hs]
      rw [ih k (by omega) (by omega), ih n (by omega) (by omega)]

theorem parse_of_next_none (h : F.next s = none) : F.parse s = [] := by
  rw [parse]
  cases s.length <;> simp [parseUpTo, h]

theorem parse_of_next_some (h : F.next s = some f) :
    F.parse s = f :: F.parse (s.drop f.length) := by
  have hpos := length_pos_of_next h
  have hle := (next_isPrefix h).length_le
  obtain ⟨n, hn⟩ : ∃ j, s.length = j + 1 := ⟨s.length - 1, by omega⟩
  have hdrop : (s.drop f.length).length = s.length - f.length := List.length_drop
  rw [parse, hn, parseUpTo, h]
  simp only
  rw [parseUpTo_eq (by omega)]

/-- Induction along the parse of a stream. -/
theorem parse_induction {P : List α → Prop} (hnone : ∀ s, F.next s = none → P s)
    (hsome : ∀ s f, F.next s = some f → P (s.drop f.length) → P s) (s : List α) : P s := by
  induction hn : s.length using Nat.strongRecOn generalizing s with
  | _ n ih =>
    cases hs : F.next s with
    | none => exact hnone s hs
    | some f =>
      have hpos := length_pos_of_next hs
      have hle := (next_isPrefix hs).length_le
      exact hsome s f hs (ih _ (by rw [List.length_drop]; omega) _ rfl)

/-- The frames of a stream, put together, begin the stream. -/
theorem flatten_parse_isPrefix (F : Format α) (s : List α) : (F.parse s).flatten <+: s := by
  induction s using F.parse_induction with
  | hnone s h => simp [parse_of_next_none h]
  | hsome s f h ih =>
    rw [parse_of_next_some h, List.flatten_cons]
    -- the frame is the front of the stream, and the induction speaks of the rest
    obtain ⟨u, hu⟩ := next_isPrefix h
    rw [← hu, List.drop_left] at ih
    rw [← hu, List.drop_left]
    exact (List.prefix_append_right_inj f).mpr ih

/-- **Growing streams.** When more arrives, the frames stay and others may follow. -/
theorem parse_isPrefix (h : s <+: t) : F.parse s <+: F.parse t := by
  induction s using F.parse_induction generalizing t with
  | hnone s hs =>
    rw [parse_of_next_none hs]
    exact List.nil_prefix
  | hsome s f hs ih =>
    rw [parse_of_next_some hs, parse_of_next_some (next_of_isPrefix hs h)]
    exact List.cons_prefix_cons.mpr ⟨rfl, ih (h.drop _)⟩

/-- **Going on with a parse.** Behind frames it has got through, the parse is that of the rest. -/
theorem parse_eq_append {ds : List (List α)} (h : ds <+: F.parse s) :
    F.parse s = ds ++ F.parse (s.drop ds.flatten.length) := by
  induction ds generalizing s with
  | nil => simp
  | cons d ds ih =>
    cases hs : F.next s with
    | none => simp [parse_of_next_none hs] at h
    | some f =>
      rw [parse_of_next_some hs] at h ⊢
      -- both parses begin with the same frame
      obtain ⟨rfl, htail⟩ := List.cons_prefix_cons.mp h
      rw [ih htail, List.drop_drop, List.flatten_cons, List.length_append, List.cons_append]

/-- The parse is through when no frame is next. -/
theorem eq_parse_of_next_none {ds : List (List α)} (h : ds <+: F.parse s)
    (hnone : F.next (s.drop ds.flatten.length) = none) : ds = F.parse s := by
  rw [parse_eq_append h, parse_of_next_none hnone, List.append_nil]

/-- The next frame extends the part of the parse got through. -/
theorem append_prefix_parse {ds : List (List α)} (h : ds <+: F.parse s)
    (hnext : F.next (s.drop ds.flatten.length) = some f) : ds ++ [f] <+: F.parse s := by
  rw [parse_eq_append h, parse_of_next_some hnext]
  exact (List.prefix_append_right_inj ds).mpr (List.cons_prefix_cons.mpr ⟨rfl, List.nil_prefix⟩)

/-- No frame is next in what the parse leaves. -/
theorem next_unparsed (F : Format α) (s : List α) : F.next (F.unparsed s) = none := by
  cases hs : F.next (F.unparsed s) with
  | none => rfl
  | some f =>
    -- a next frame would have been parsed
    have hlen := (append_prefix_parse List.prefix_rfl hs).length_le
    rw [List.length_append] at hlen
    exact absurd hlen (Nat.not_succ_le_self _)

/-- **Round trip.** A concatenation of frames is parsed into these frames. -/
theorem parse_flatten {fs : List (List α)} (hfs : ∀ f ∈ fs, F.IsFrame f) :
    F.parse fs.flatten = fs := by
  induction fs with
  | nil =>
    apply parse_of_next_none
    have := F.headerLen_pos
    simp [next]
    omega
  | cons f fs ih =>
    have hf : F.next (f ++ fs.flatten) = some f := next_append (hfs f List.mem_cons_self)
    rw [List.flatten_cons, parse_of_next_some hf, List.drop_left,
      ih fun g hg => hfs g (List.mem_cons_of_mem f hg)]

end Format

end ReechatBase.Lib.Framing
