import Mathlib.Data.Finset.SDiff
import Mathlib.Data.List.Nodup
import Mathlib.Data.Set.Insert
import ReechatBase.Libevent.Evmap

/-!
# What evmap keeps

`Keeps` is what `evmap_check_integrity_` looks for: on every descriptor the list of its events,
and how many of them wait for what. `evmap_io_add_` and `evmap_io_del_` keep it, and they call the
backend for exactly what the events of a descriptor now wait for together and did not before, or
no longer wait for.
-/

namespace ReechatBase.Libevent

open Function

variable {ε β α : Type} [DecidableEq ε]

namespace EventIoMap

/-- The events on a descriptor. -/
def list (m : EventIoMap ε) (fd : ℕ) : List ε :=
  match m.entries fd with
  | some ctx => ctx.events
  | none => []

/-- What they wait for together. -/
def wanted (m : EventIoMap ε) (fd : ℕ) : Finset Io :=
  match m.entries fd with
  | some ctx => ctx.old
  | none => ∅

/-- The map holds the events `I`, each on its descriptor. -/
structure Keeps (fdOf : ε → ℤ) (events : ε → Finset Io) (m : EventIoMap ε) (I : Set ε) : Prop where
  bound : ∀ fd, m.nentries ≤ fd → m.entries fd = none
  nodup : ∀ fd, (m.list fd).Nodup
  mem : ∀ fd e, e ∈ m.list fd ↔ e ∈ I ∧ fdOf e = fd
  count : ∀ fd ctx, m.entries fd = some ctx →
    ∀ i, ctx.count i = ctx.events.countP fun e => decide (i ∈ events e)

variable {fdOf : ε → ℤ} {events : ε → Finset Io} {m : EventIoMap ε} {I : Set ε} {fd : ℕ}

omit [DecidableEq ε] in
theorem list_of_entry {ctx : EvmapIo ε} (h : m.entries fd = some ctx) : m.list fd = ctx.events := by
  rw [list, h]

omit [DecidableEq ε] in
theorem wanted_of_entry {ctx : EvmapIo ε} (h : m.entries fd = some ctx) :
    m.wanted fd = ctx.old := by
  rw [wanted, h]

omit [DecidableEq ε] in
@[simp] theorem list_set_self (m : EventIoMap ε) (fd : ℕ) (ctx : EvmapIo ε) :
    (m.set fd ctx).list fd = ctx.events := by
  simp [list, set]

omit [DecidableEq ε] in
@[simp] theorem wanted_set_self (m : EventIoMap ε) (fd : ℕ) (ctx : EvmapIo ε) :
    (m.set fd ctx).wanted fd = ctx.old := by
  simp [wanted, set]

omit [DecidableEq ε] in
theorem list_set_of_ne (m : EventIoMap ε) {fd e : ℕ} (he : e ≠ fd) (ctx : EvmapIo ε) :
    (m.set fd ctx).list e = m.list e := by
  simp [list, set, he]

omit [DecidableEq ε] in
theorem init_keeps : (init : EventIoMap ε).Keeps fdOf events ∅ where
  bound _ _ := rfl
  nodup _ := List.nodup_nil
  mem fd e := iff_of_false List.not_mem_nil fun h => h.1
  count _ _ h := by cases h

omit [DecidableEq ε] in
/-- A kind of event is wanted on a descriptor if some event there waits for it. -/
theorem Keeps.mem_wanted (hm : m.Keeps fdOf events I) {i : Io} :
    i ∈ m.wanted fd ↔ ∃ e ∈ I, fdOf e = fd ∧ i ∈ events e := by
  have hlist : i ∈ m.wanted fd ↔ ∃ e ∈ m.list fd, i ∈ events e := by
    cases hctx : m.entries fd with
    | none => simp [wanted, list, hctx]
    | some ctx =>
      rw [wanted_of_entry hctx, list_of_entry hctx]
      simp [EvmapIo.old, hm.count fd ctx hctx i, List.countP_eq_zero]
  rw [hlist]
  constructor
  · intro h
    obtain ⟨e, he, hi⟩ := h
    obtain ⟨hI, hfd⟩ := (hm.mem fd e).mp he
    exact ⟨e, hI, hfd, hi⟩
  · intro h
    obtain ⟨e, hI, hfd, hi⟩ := h
    exact ⟨e, (hm.mem fd e).mpr ⟨hI, hfd⟩, hi⟩

omit [DecidableEq ε] in
/-- What is wanted depends on the events only. -/
theorem Keeps.wanted_eq {m' : EventIoMap ε} (hm : m.Keeps fdOf events I)
    (hm' : m'.Keeps fdOf events I) : m.wanted = m'.wanted := by
  funext fd
  ext i
  rw [hm.mem_wanted, hm'.mem_wanted]

/-! ## Room for an entry -/

omit [DecidableEq ε] in
theorem lt_doubled (slot : ℕ) {fuel n : ℕ} (hn : 0 < n) (hfuel : slot < n + fuel) :
    slot < doubled slot fuel n := by
  induction fuel generalizing n with
  | zero => exact hfuel
  | succ fuel ih =>
    unfold doubled
    split
    · exact ih (by omega) (by omega)
    · omega

omit [DecidableEq ε] in
/-- `evmap_make_space` makes room, and changes no entry. -/
theorem Keeps.makeSpace (hm : m.Keeps fdOf events I) {realloc : Bool} {m' : EventIoMap ε}
    (h : m.makeSpace fd realloc = some m') :
    m'.Keeps fdOf events I ∧ fd < m'.nentries := by
  unfold EventIoMap.makeSpace at h
  split at h
  · next hle =>
    split at h
    · obtain rfl := Option.some.inj h
      have hlt : fd < doubled fd (fd + 1) (if m.nentries = 0 then 32 else m.nentries) := by
        apply lt_doubled
        · split <;> omega
        · split <;> omega
      exact ⟨⟨fun e he => hm.bound e (hle.trans (hlt.le.trans he)), hm.nodup, hm.mem, hm.count⟩,
        hlt⟩
    · cases h
  · next hlt =>
    obtain rfl := Option.some.inj h
    exact ⟨hm, not_le.mp hlt⟩

omit [DecidableEq ε] in
/-- An empty entry is as good as none. -/
theorem Keeps.setInit (hm : m.Keeps fdOf events I) (hfd : fd < m.nentries)
    (hnone : m.entries fd = none) :
    (m.set fd .init).Keeps fdOf events I := by
  have hlist : (m.set fd .init).list = m.list := by
    funext e
    by_cases he : e = fd
    · rw [he, list_set_self, list, hnone]
      rfl
    · exact list_set_of_ne m he _
  refine ⟨fun e he => ?_, hlist ▸ hm.nodup, hlist ▸ hm.mem, fun e ctx hctx => ?_⟩
  · -- the entry lies inside the table
    have hne : e ≠ fd := (hfd.trans_le he).ne'
    exact (update_of_ne hne ..).trans (hm.bound e he)
  · by_cases he : e = fd
    · have hinit : EvmapIo.init = ctx := by simpa [set, he] using hctx
      intro i
      rw [← hinit]
      rfl
    · exact hm.count e ctx (by simpa [set, he] using hctx)

omit [DecidableEq ε] in
/-- `GET_IO_SLOT_AND_CTOR` finds an entry or makes an empty one. -/
theorem Keeps.getOrConstruct (hm : m.Keeps fdOf events I) (hfd : fd < m.nentries) {calloc : Bool}
    {m' : EventIoMap ε} {ctx : EvmapIo ε} (h : m.getOrConstruct fd calloc = some (m', ctx)) :
    m'.Keeps fdOf events I ∧ fd < m'.nentries ∧ m'.entries fd = some ctx := by
  unfold EventIoMap.getOrConstruct at h
  cases hentry : m.entries fd with
  | some ctx' =>
    rw [hentry] at h
    obtain ⟨rfl, rfl⟩ : m = m' ∧ ctx' = ctx := by simpa using h
    exact ⟨hm, hfd, hentry⟩
  | none =>
    rw [hentry] at h
    cases calloc
    · cases h
    · obtain ⟨rfl, rfl⟩ : m.set fd .init = m' ∧ EvmapIo.init = ctx := by simpa using h
      exact ⟨hm.setInit hfd hentry, hfd, update_self ..⟩

end EventIoMap

/-! ## Adding an event -/

section Add

open EventIoMap

variable {fdOf : ε → ℤ} {events : ε → Finset Io} {m : EventIoMap ε} {I : Set ε} {fd : ℕ} {ev : ε}
  (op : Eventop β α) (b : β)

omit [DecidableEq ε] in
/-- An event enters the list of its descriptor. -/
theorem EventIoMap.Keeps.add (hm : m.Keeps fdOf events I) {ctx : EvmapIo ε}
    (hctx : m.entries fd = some ctx) (hfd : fdOf ev = fd) (hev : ev ∉ I) :
    (m.set fd ⟨ev :: ctx.events, fun i =>
      if i ∈ events ev then ctx.count i + 1 else ctx.count i⟩).Keeps fdOf events (insert ev I) := by
  have hmem : ∀ e, e ∈ ctx.events ↔ e ∈ I ∧ fdOf e = fd := by
    rw [← list_of_entry hctx]
    exact hm.mem fd
  refine ⟨fun e he => ?_, fun e => ?_, fun e x => ?_, fun e ctx' hctx' i => ?_⟩
  · have hne : e ≠ fd := by
      intro heq
      rw [heq] at he
      cases hctx.symm.trans (hm.bound fd he)
    exact (update_of_ne hne ..).trans (hm.bound e he)
  · by_cases he : e = fd
    · rw [he, list_set_self]
      refine List.nodup_cons.mpr ⟨fun h => hev ((hmem ev).mp h).1, ?_⟩
      -- the event was on no list
      rw [← list_of_entry hctx]
      exact hm.nodup fd
    · rw [list_set_of_ne m he]
      exact hm.nodup e
  · by_cases he : e = fd
    · rw [he, list_set_self, List.mem_cons, hmem, Set.mem_insert_iff]
      constructor
      · intro h
        rcases h with rfl | ⟨hx, hxfd⟩
        · exact ⟨.inl rfl, hfd⟩
        · exact ⟨.inr hx, hxfd⟩
      · intro h
        exact h.1.imp_right fun hx => ⟨hx, h.2⟩
    · rw [list_set_of_ne m he, hm.mem, Set.mem_insert_iff]
      refine and_congr_left fun hx => (or_iff_right fun heq => he ?_).symm
      -- the event belongs to no other descriptor
      rw [heq, hfd] at hx
      exact_mod_cast hx.symm
  · by_cases he : e = fd
    · obtain rfl : _ = ctx' := by simpa [EventIoMap.set, he] using hctx'
      rw [List.countP_cons, ← hm.count fd ctx hctx i]
      by_cases hi : i ∈ events ev <;> simp [hi]
    · exact hm.count e ctx' (by simpa [EventIoMap.set, he] using hctx') i

omit [DecidableEq ε] in
/-- `evmap_io_add_`, from the entry of the descriptor on: the backend is told what was not wanted
    before. -/
theorem addTo_spec (hm : m.Keeps fdOf events I) {ctx : EvmapIo ε}
    (hctx : m.entries fd = some ctx) (hfd : fdOf ev = fd) (hev : ev ∉ I) (a : α) :
    (∃ b', (b' = b ∨ ¬ events ev ⊆ m.wanted fd ∧
          op.add b fd (m.wanted fd) (events ev \ m.wanted fd) a = (b', false)) ∧
        addTo op m b fd ctx ev (events ev) a = (m, b', -1)) ∨
      ∃ m' b' r, r ≠ -1 ∧ addTo op m b fd ctx ev (events ev) a = (m', b', r) ∧
        m'.Keeps fdOf events (insert ev I) ∧
        (events ev ⊆ m.wanted fd ∧ b' = b ∨
          ¬ events ev ⊆ m.wanted fd ∧
            op.add b fd (m.wanted fd) (events ev \ m.wanted fd) a = (b', true)) := by
  -- a counter that has become 1 was 0, so nothing waited for that kind
  have hres : ((events ev).filter fun i =>
      (if i ∈ events ev then ctx.count i + 1 else ctx.count i) = 1) = events ev \ m.wanted fd := by
    rw [wanted_of_entry hctx]
    ext i
    by_cases hi : i ∈ events ev <;> simp [hi, EvmapIo.old]
  have hkeeps := hm.add hctx hfd hev
  unfold addTo
  simp only [hres, ← wanted_of_entry hctx]
  by_cases hmany : ∃ i, (if i ∈ events ev then ctx.count i + 1 else ctx.count i) > 0xffff
  · rw [if_pos hmany]
    -- more than 0xffff events wait for one kind
    exact .inl ⟨b, .inl rfl, rfl⟩
  · rw [if_neg hmany]
    by_cases hsub : events ev ⊆ m.wanted fd
    · rw [if_pos (Finset.sdiff_eq_empty_iff_subset.mpr hsub)]
      exact .inr ⟨_, b, 0, by decide, rfl, hkeeps, .inl ⟨hsub, rfl⟩⟩
    · rw [if_neg (mt Finset.sdiff_eq_empty_iff_subset.mp hsub)]
      cases hadd : op.add b fd (m.wanted fd) (events ev \ m.wanted fd) a with
      | mk b' ok =>
        cases ok
        · exact .inl ⟨b', .inr ⟨hsub, rfl⟩, rfl⟩
        · exact .inr ⟨_, b', 1, by decide, rfl, hkeeps, .inr ⟨hsub, rfl⟩⟩

omit [DecidableEq ε] in
/-- An event without a descriptor is on no list. -/
theorem EventIoMap.Keeps.addNeg (hm : m.Keeps fdOf events I) (hneg : fdOf ev < 0) :
    m.Keeps fdOf events (insert ev I) where
  bound := hm.bound
  nodup := hm.nodup
  count := hm.count
  mem fd e := by
    rw [hm.mem, Set.mem_insert_iff]
    refine and_congr_left fun he => (or_iff_right fun heq => ?_).symm
    rw [heq] at he
    omega

omit [DecidableEq ε] in
/-- **`evmap_io_add_`** adds the event, or fails and leaves the map as it was but for its room. The
    backend is called for what nothing on the descriptor waited for before, if there is any. -/
theorem evmapIoAdd_spec (hm : m.Keeps fdOf events I) (hev : ev ∉ I) (a : IoAddAnswers α) :
    ∃ m' b' r, evmapIoAdd op m b (fdOf ev) ev (events ev) a = (m', b', r) ∧
      (r = -1 ∧ m'.Keeps fdOf events I ∧
          (b' = b ∨ ¬ events ev ⊆ m.wanted (fdOf ev).toNat ∧
            op.add b (fdOf ev).toNat (m.wanted (fdOf ev).toNat)
              (events ev \ m.wanted (fdOf ev).toNat) a.backend = (b', false)) ∨
        r ≠ -1 ∧ m'.Keeps fdOf events (insert ev I) ∧
          ((0 ≤ fdOf ev → events ev ⊆ m.wanted (fdOf ev).toNat) ∧ b' = b ∨
            0 ≤ fdOf ev ∧ ¬ events ev ⊆ m.wanted (fdOf ev).toNat ∧
              op.add b (fdOf ev).toNat (m.wanted (fdOf ev).toNat)
                (events ev \ m.wanted (fdOf ev).toNat) a.backend = (b', true))) := by
  unfold evmapIoAdd
  by_cases hneg : fdOf ev < 0
  · rw [if_pos hneg]
    exact ⟨m, b, 0, rfl, .inr ⟨by decide, hm.addNeg hneg,
      .inl ⟨fun hpos => absurd hpos (not_le.mpr hneg), rfl⟩⟩⟩
  rw [if_neg hneg]
  have hpos : 0 ≤ fdOf ev := not_lt.mp hneg
  cases hspace : m.makeSpace (fdOf ev).toNat a.realloc with
  | none => exact ⟨m, b, -1, rfl, .inl ⟨rfl, hm, .inl rfl⟩⟩
  | some m₁ =>
    obtain ⟨hm₁, hlt⟩ := hm.makeSpace hspace
    cases hget : m₁.getOrConstruct (fdOf ev).toNat a.calloc with
    | none => exact ⟨m₁, b, -1, by simp only [hget], .inl ⟨rfl, hm₁, .inl rfl⟩⟩
    | some mc =>
      obtain ⟨m₂, ctx⟩ := mc
      obtain ⟨hm₂, -, hctx⟩ := hm₁.getOrConstruct hlt hget
      have hfd : fdOf ev = (fdOf ev).toNat := (Int.toNat_of_nonneg hpos).symm
      have hspec := addTo_spec op b hm₂ hctx hfd hev a.backend
      -- room and an empty entry change nothing of what is wanted
      rw [← hm.wanted_eq hm₂] at hspec
      rcases hspec with ⟨b', hb, heq⟩ | ⟨m', b', r, hr, heq, hkeeps, hb⟩
      · exact ⟨m₂, b', -1, by simp only [hget]; exact heq, .inl ⟨rfl, hm₂, hb⟩⟩
      · refine ⟨m', b', r, by simp only [hget]; exact heq, .inr ⟨hr, hkeeps, ?_⟩⟩
        rcases hb with ⟨hsub, hb⟩ | ⟨hsub, hb⟩
        · exact .inl ⟨fun _ => hsub, hb⟩
        · exact .inr ⟨hpos, hsub, hb⟩

end Add

/-! ## Deleting an event -/

section Del

open EventIoMap

variable {fdOf : ε → ℤ} {events : ε → Finset Io} {m : EventIoMap ε} {I : Set ε} {fd : ℕ} {ev : ε}
  (op : Eventop β α) (b : β)

/-- An event leaves the list of its descriptor. -/
theorem EventIoMap.Keeps.del (hm : m.Keeps fdOf events I) {ctx : EvmapIo ε}
    (hctx : m.entries fd = some ctx) (hfd : fdOf ev = fd) (hev : ev ∈ ctx.events) :
    (m.set fd ⟨ctx.events.erase ev, fun i =>
      if i ∈ events ev then ctx.count i - 1 else ctx.count i⟩).Keeps fdOf events (I \ {ev}) := by
  have hmem : ∀ e, e ∈ ctx.events ↔ e ∈ I ∧ fdOf e = fd := by
    rw [← list_of_entry hctx]
    exact hm.mem fd
  have hnodup : ctx.events.Nodup := by
    rw [← list_of_entry hctx]
    exact hm.nodup fd
  refine ⟨fun e he => ?_, fun e => ?_, fun e x => ?_, fun e ctx' hctx' i => ?_⟩
  · have hne : e ≠ fd := by
      intro heq
      rw [heq] at he
      cases hctx.symm.trans (hm.bound fd he)
    exact (update_of_ne hne ..).trans (hm.bound e he)
  · by_cases he : e = fd
    · rw [he, list_set_self]
      exact hnodup.erase ev
    · rw [list_set_of_ne m he]
      exact hm.nodup e
  · by_cases he : e = fd
    · rw [he, list_set_self, hnodup.mem_erase_iff, hmem, Set.mem_sdiff, Set.mem_singleton_iff]
      tauto
    · rw [list_set_of_ne m he, hm.mem, Set.mem_sdiff, Set.mem_singleton_iff]
      refine and_congr_left fun hx => (and_iff_left fun heq => he ?_).symm
      rw [heq, hfd] at hx
      exact_mod_cast hx.symm
  · by_cases he : e = fd
    · obtain rfl : _ = ctx' := by simpa [EventIoMap.set, he] using hctx'
      -- the counters of what the event waits for go down by one
      have hcount := List.countP_erase (fun e => decide (i ∈ events e)) ctx.events ev
      rw [hcount, ← hm.count fd ctx hctx i]
      by_cases hi : i ∈ events ev <;> simp [hi, hev]
    · exact hm.count e ctx' (by simpa [EventIoMap.set, he] using hctx') i

omit [DecidableEq ε] in
theorem EventIoMap.Keeps.delNeg (hm : m.Keeps fdOf events I) (hneg : fdOf ev < 0) :
    m.Keeps fdOf events (I \ {ev}) where
  bound := hm.bound
  nodup := hm.nodup
  count := hm.count
  mem fd e := by
    rw [hm.mem, Set.mem_sdiff, Set.mem_singleton_iff]
    refine and_congr_left fun he => (and_iff_left fun heq => ?_).symm
    rw [heq] at he
    omega

/-- **`evmap_io_del_`** deletes an event of the map: no assertion fails, the entry is there, and the
    backend is called for what nothing on the descriptor waits for any more, if there is any. -/
theorem evmapIoDel_spec (hm : m.Keeps fdOf events I) (hev : ev ∈ I) (a : α) :
    ∃ m' b' r, evmapIoDel op m b (fdOf ev) ev (events ev) a = some (m', b', r) ∧
      m'.Keeps fdOf events (I \ {ev}) ∧
      ((0 ≤ fdOf ev → events ev ⊆ m'.wanted (fdOf ev).toNat) ∧ b' = b ∨
        0 ≤ fdOf ev ∧ ¬ events ev ⊆ m'.wanted (fdOf ev).toNat ∧
          b' = (op.del b (fdOf ev).toNat (m.wanted (fdOf ev).toNat)
            (events ev \ m'.wanted (fdOf ev).toNat) a).1) := by
  unfold evmapIoDel
  by_cases hneg : fdOf ev < 0
  · rw [if_pos hneg]
    exact ⟨m, b, 0, rfl, hm.delNeg hneg,
      .inl ⟨fun hpos => absurd hpos (not_le.mpr hneg), rfl⟩⟩
  rw [if_neg hneg]
  have hpos : 0 ≤ fdOf ev := not_lt.mp hneg
  have hfd : fdOf ev = (fdOf ev).toNat := (Int.toNat_of_nonneg hpos).symm
  have hlist : ev ∈ m.list (fdOf ev).toNat := (hm.mem _ ev).mpr ⟨hev, hfd⟩
  cases hctx : m.entries (fdOf ev).toNat with
  | none =>
    rw [list, hctx] at hlist
    cases hlist
  | some ctx =>
    -- the event is on the list of its descriptor, so that the table reaches so far
    have hroom : ¬ m.nentries ≤ (fdOf ev).toNat := by
      intro hle
      cases hctx.symm.trans (hm.bound _ hle)
    have hmem : ev ∈ ctx.events := by rwa [list_of_entry hctx] at hlist
    -- the event itself is counted, so that no counter is 0
    have hassert : (∀ i ∈ events ev, 0 < ctx.count i) ∧ ev ∈ ctx.events := by
      refine ⟨fun i hi => ?_, hmem⟩
      rw [hm.count _ ctx hctx i, List.countP_pos_iff]
      exact ⟨ev, hmem, decide_eq_true hi⟩
    have hkeeps := hm.del hctx hfd hmem
    -- a counter that has become 0 was the last of its kind
    have hres : ((events ev).filter fun i =>
        (if i ∈ events ev then ctx.count i - 1 else ctx.count i) = 0) =
        events ev \ (m.set (fdOf ev).toNat ⟨ctx.events.erase ev, fun i =>
          if i ∈ events ev then ctx.count i - 1 else ctx.count i⟩).wanted (fdOf ev).toNat := by
      rw [wanted_set_self]
      ext i
      by_cases hi : i ∈ events ev <;> simp [hi, EvmapIo.old]
    rw [if_neg hroom]
    simp only [if_pos hassert, hres, ← wanted_of_entry hctx]
    split
    · next hempty =>
      exact ⟨_, b, 0, rfl, hkeeps, .inl ⟨fun _ => Finset.sdiff_eq_empty_iff_subset.mp hempty, rfl⟩⟩
    · next hne =>
      exact ⟨_, _, _, rfl, hkeeps, .inr ⟨hpos, mt Finset.sdiff_eq_empty_iff_subset.mpr hne, rfl⟩⟩

end Del

/-! ## Activating events -/

section Active

open EventIoMap

variable {fdOf : ε → ℤ} {events : ε → Finset Io} {m : EventIoMap ε} {I : Set ε}

omit [DecidableEq ε] in
/-- **`evmap_io_active_`** activates the events on the descriptor that wait for any of what has
    happened, each once and for that. -/
theorem evmapIoActive_spec (hm : m.Keeps fdOf events I) (fd : ℤ) (what : Finset Io) :
    ((evmapIoActive m events fd what).map Prod.fst).Nodup ∧
      ∀ e w, (e, w) ∈ evmapIoActive m events fd what ↔
        0 ≤ fd ∧ e ∈ I ∧ fdOf e = fd ∧ w = events e ∩ what ∧ w ≠ ∅ := by
  unfold evmapIoActive
  by_cases hout : fd < 0 ∨ (m.nentries : ℤ) ≤ fd
  · rw [if_pos hout]
    refine ⟨List.nodup_nil, fun e w => iff_of_false List.not_mem_nil fun h => ?_⟩
    obtain ⟨hpos, hI, hfd, -⟩ := h
    -- outside the table there are no events
    have hbound := hm.bound fd.toNat (by omega)
    have hlist : e ∈ m.list fd.toNat :=
      (hm.mem _ e).mpr ⟨hI, hfd.trans (Int.toNat_of_nonneg hpos).symm⟩
    rw [list, hbound] at hlist
    cases hlist
  · rw [if_neg hout]
    have hpos : 0 ≤ fd := by omega
    have hmem := hm.mem fd.toNat
    rw [Int.toNat_of_nonneg hpos, list] at hmem
    cases hctx : m.entries fd.toNat with
    | none =>
      refine ⟨List.nodup_nil, fun e w => iff_of_false List.not_mem_nil fun h => ?_⟩
      have hlist := (hmem e).mpr ⟨h.2.1, h.2.2.1⟩
      rw [hctx] at hlist
      cases hlist
    | some ctx =>
      have hnodup := hm.nodup fd.toNat
      rw [list_of_entry hctx] at hnodup
      simp only [hctx] at hmem
      refine ⟨?_, fun e w => ?_⟩
      · have hfst : (Prod.fst ∘ fun e => (e, events e ∩ what)) = id := rfl
        rw [List.map_map, hfst, List.map_id]
        exact hnodup.filter _
      · simp only [List.mem_map, List.mem_filter, decide_eq_true_eq, Prod.mk.injEq, hmem]
        constructor
        · intro h
          obtain ⟨e', ⟨⟨hI, hfd⟩, hne⟩, rfl, rfl⟩ := h
          exact ⟨hpos, hI, hfd, rfl, hne⟩
        · intro h
          obtain ⟨-, hI, hfd, rfl, hne⟩ := h
          exact ⟨e, ⟨⟨hI, hfd⟩, hne⟩, rfl, rfl⟩

end Active

end ReechatBase.Libevent
