import StDns.Protocol.Decoder

/-!
# What the decoder touches

`Running` are the rounds of every level that a decoding opens: it starts at the outermost level, goes on as the rounds
do, and enters a new level at every call that a pointer makes. What a round reads, calls and subtracts is listed by
`roundReads`, `roundCall` and `roundSubs`. All rounds stay inside the buffer iff all pointers met do
(`running_inside_iff`), and then the decoding returns (`parseDomain_returns`). When no level goes on behind a pointer,
every level adds its own bytes once (`length_parseDomain_le`).
-/

namespace StDns.Protocol

open Lib Wire

/-! ## Rounds of a decoding -/

/-- `Running m n b w levels b' w' c`: the decoding of the window `w` at `b` comes to state `c` of the loop of a level
that began at `b'` with window `w'` and may open `levels` more. -/
inductive Running (m : Bytes) (n b w : Nat) : Nat → Nat → Nat → Cursor → Prop
  | start : Running m n b w 20 b w ⟨0, []⟩
  | next {levels b' w' : Nat} {c c' : Cursor} : Running m n b w levels b' w' c →
      parseReRound m n b' w' (below m n levels) c = .next c' → Running m n b w levels b' w' c'
  | call {levels b' w' pos : Nat} {c : Cursor} : Running m n b w (levels + 1) b' w' c → c.actualLen < w' →
      PointsTo m (b' + c.actualLen) pos → pos ≠ b' → Running m n b w levels pos (sub64 n pos) ⟨0, []⟩

theorem Running.window_lt {m : Bytes} {n b w levels b' w' : Nat} {c : Cursor} (hw : w < 2 ^ 64)
    (h : Running m n b w levels b' w' c) : w' < 2 ^ 64 := by
  induction h with
  | start => exact hw
  | next _ _ ih => exact ih
  | call => exact sub64_lt _ _

/-- The indices that a round reads. -/
def roundReads (m : Bytes) (b w : Nat) (c : Cursor) : List Nat :=
  if c.actualLen < w then
    match m[b + c.actualLen]? with
    | none => [b + c.actualLen]
    | some x =>
      if 192 ≤ x.toNat then [b + c.actualLen, b + c.actualLen, b + c.actualLen + 1]
      else if x.toNat < 64 ∧ c.actualLen + 1 + x.toNat ≤ w then
        (b + c.actualLen) :: (List.range x.toNat).map fun i => b + (c.actualLen + 1) + i
      else [b + c.actualLen]
  else []

/-- The target of the pointer at index `i`, when both its bytes are there. -/
def pointerAt (m : Bytes) (i : Nat) : Option Nat :=
  match m[i]?, m[i + 1]? with
  | some x, some y => if 192 ≤ x.toNat then some (pointerPos x y) else none
  | _, _ => none

/-- The `begin` and `maxParse` of the recursive call that a round makes. -/
def roundCall (m : Bytes) (n b w : Nat) (c : Cursor) : Option (Nat × Nat) :=
  if c.actualLen < w then
    match pointerAt m (b + c.actualLen) with
    | some pos => if pos ≠ b then some (pos, sub64 n pos) else none
    | none => none
  else none

/-- The subtractions of sizes that a round makes, minuend first. -/
def roundSubs (m : Bytes) (n b w : Nat) (c : Cursor) : List (Nat × Nat) :=
  if c.actualLen < w then
    match m[b + c.actualLen]? with
    | none => []
    | some x =>
      if 192 ≤ x.toNat then
        match roundCall m n b w c with
        | some (pos, _) => [(n, pos)]
        | none => []
      else if x.toNat < 64 ∧ x ≠ 0 then [(w, c.actualLen + 1)]
      else []
  else []

theorem pointerAt_eq_some {m : Bytes} {i pos : Nat} : pointerAt m i = some pos ↔ PointsTo m i pos := by
  rw [pointsTo_iff, pointerAt]
  constructor
  · intro h
    split at h
    · rename_i x y hx hy
      split at h
      · rename_i hlo
        exact ⟨x, y, hx, hlo, hy, Option.some.inj h⟩
      · cases h
    · cases h
  · rintro ⟨x, y, hx, hlo, hy, rfl⟩
    simp only [hx, hy, if_pos hlo]

theorem roundCall_eq_some {m : Bytes} {n b w : Nat} {c : Cursor} {p : Nat × Nat} :
    roundCall m n b w c = some p ↔
      c.actualLen < w ∧ ∃ pos, PointsTo m (b + c.actualLen) pos ∧ pos ≠ b ∧ p = (pos, sub64 n pos) := by
  unfold roundCall
  constructor
  · intro h
    split at h
    · rename_i haw
      split at h
      · rename_i pos hp
        split at h
        · rename_i hne
          exact ⟨haw, pos, pointerAt_eq_some.1 hp, hne, (Option.some.inj h).symm⟩
        · cases h
      · cases h
    · cases h
  · rintro ⟨haw, pos, hp, hne, rfl⟩
    rw [if_pos haw, pointerAt_eq_some.2 hp]
    simp only [if_pos hne]

/-! ## Staying inside the buffer -/

/-- A round that reads, calls and subtracts inside a buffer of `n` bytes. -/
structure RoundInside (m : Bytes) (n b w : Nat) (c : Cursor) : Prop where
  reads : ∀ i ∈ roundReads m b w c, i < n
  call : ∀ p, roundCall m n b w c = some p → p.1 < n ∧ p.2 ≤ n - p.1
  subs : ∀ p ∈ roundSubs m n b w c, p.2 ≤ p.1

/-- A pointer at the head of a round has both its bytes and its target inside the buffer. -/
def PointerInside (m : Bytes) (n b w : Nat) (c : Cursor) : Prop :=
  ∀ x, c.actualLen < w → m[b + c.actualLen]? = some x → 192 ≤ x.toNat →
    b + c.actualLen + 1 < n ∧ ∀ pos, PointsTo m (b + c.actualLen) pos → pos < n

section Inside

variable {m : Bytes} {n b w : Nat}

theorem PointerInside.call {c : Cursor} {p : Nat × Nat} (hn : n < 2 ^ 64) (h : PointerInside m n b w c)
    (hp : roundCall m n b w c = some p) : p.1 < n ∧ p.2 ≤ n - p.1 := by
  obtain ⟨haw, pos, hpt, _, rfl⟩ := roundCall_eq_some.1 hp
  obtain ⟨x, y, hx, hlo, _⟩ := pointsTo_iff.1 hpt
  have hlt := (h x haw hx hlo).2 pos hpt
  exact ⟨hlt, (sub64_of_le hlt.le hn).le⟩

/-- Pointers are all that a round has to fear: the window keeps everything else inside. -/
theorem roundInside_iff {c : Cursor} (hn : n < 2 ^ 64) (hb : b < n) (hw : w ≤ n - b) :
    RoundInside m n b w c ↔ PointerInside m n b w c := by
  constructor
  · intro h x haw hx hlo
    refine ⟨h.reads _ ?_, fun pos hp => ?_⟩
    · unfold roundReads
      simp [haw, hx, hlo]
    · by_cases hne : pos = b
      · rw [hne]; exact hb
      · exact (h.call _ (roundCall_eq_some.2 ⟨haw, pos, hp, hne, rfl⟩)).1
  · intro h
    refine ⟨fun i hi => ?_, fun p hp => h.call hn hp, fun p hp => ?_⟩
    · unfold roundReads at hi
      split at hi
      · rename_i haw
        split at hi
        · rw [List.mem_singleton] at hi; omega
        · rename_i x hx
          split at hi
          · rename_i hlo
            have hsec := (h x haw hx hlo).1
            simp only [List.mem_cons, List.not_mem_nil, or_false] at hi
            omega
          · split at hi
            · rename_i hfit
              simp only [List.mem_cons, List.mem_map, List.mem_range] at hi
              rcases hi with rfl | ⟨j, hj, rfl⟩ <;> omega
            · rw [List.mem_singleton] at hi; omega
      · cases hi
    · unfold roundSubs at hp
      split at hp
      · rename_i haw
        split at hp
        · cases hp
        · split at hp
          · split at hp
            · rename_i pos rest hc
              rw [List.mem_singleton] at hp
              subst hp
              exact (h.call hn hc).1.le
            · cases hp
          · split at hp
            · rw [List.mem_singleton] at hp
              subst hp
              exact haw
            · cases hp
      · cases hp

/-- While calls stay inside, so does every window of a run. -/
theorem Running.window {levels b' w' : Nat} {c : Cursor} (hb : b < n) (hw : w ≤ n - b)
    (h : ∀ levels b' w' c, Running m n b w levels b' w' c →
      ∀ p, roundCall m n b' w' c = some p → p.1 < n ∧ p.2 ≤ n - p.1)
    (hr : Running m n b w levels b' w' c) : b' < n ∧ w' ≤ n - b' := by
  induction hr with
  | start => exact ⟨hb, hw⟩
  | next _ _ ih => exact ih
  | call hrun haw hp hne _ => exact h _ _ _ _ hrun _ (roundCall_eq_some.2 ⟨haw, _, hp, hne, rfl⟩)

/-- A round inside the buffer of which the memory has every byte does not end for want of a byte. -/
theorem RoundInside.done_ret {self : Nat → Nat → Parsed} {c : Cursor} {r : Parsed} (hi : RoundInside m n b w c)
    (hm : n ≤ m.length)
    (hs : ∀ p, roundCall m n b w c = some p → (self p.1 p.2).ret ≠ none) (h : RoundOf m n b w self c (.done r)) :
    r.ret ≠ none := by
  have hget : ∀ i ∈ roundReads m b w c, ∃ x, m[i]? = some x := fun i hi' =>
    ⟨_, List.getElem?_eq_getElem (Nat.lt_of_lt_of_le (hi.reads i hi') hm)⟩
  cases h with
  | headBeyond haw hx =>
    obtain ⟨x, hx'⟩ := hget (b + c.actualLen) (by unfold roundReads; simp [haw, hx])
    rw [hx] at hx'; cases hx'
  | labelBeyond haw hx hlo hhi hfit hlong =>
    rename_i x
    have hlast := hi.reads (b + (c.actualLen + 1) + (x.toNat - 1)) (by
      unfold roundReads
      simp only [haw, if_true, hx]
      rw [if_neg (by omega), if_pos ⟨hhi, hfit⟩]
      exact List.mem_cons_of_mem _ (List.mem_map.2 ⟨x.toNat - 1, List.mem_range.2 (by omega), rfl⟩))
    omega
  | pointerBeyond haw hx hlo hx' =>
    obtain ⟨y, hy⟩ := hget (b + c.actualLen + 1) (by unfold roundReads; simp [haw, hx, hlo])
    rw [hx'] at hy; cases hy
  | pointerFault haw hp hne hr => exact absurd hr (hs _ (roundCall_eq_some.2 ⟨haw, _, hp, hne, rfl⟩))
  | _ => simp

/-- **A decoding inside the buffer returns**: it never reads a byte that is not there. -/
theorem parseDomain_returns (hm : n ≤ m.length) (hn : n < 2 ^ 64) (hb : b < n) (hw : w ≤ n - b)
    (h : ∀ levels b' w' c, Running m n b w levels b' w' c → PointerInside m n b' w' c) :
    (parseDomain m n b w []).ret ≠ none := by
  have window : ∀ {levels b' w' c}, Running m n b w levels b' w' c → b' < n ∧ w' ≤ n - b' := fun hr =>
    hr.window hb hw fun _ _ _ _ hr _ hp => (h _ _ _ _ hr).call hn hp
  -- induction on the levels left; within a level the loop keeps that its rounds belong to the run
  have level : ∀ levels b' w' c, Running m n b w levels b' w' c → (decodeFrom m n levels b' w' c).ret ≠ none := by
    intro levels
    induction levels with
    | zero =>
      intro b' w' c hr
      have hw' : w' < 2 ^ 64 := by have := window hr; omega
      refine decodeFrom_rule hw' (I := fun c => Running m n b w 0 b' w' c) (Q := fun r => r.ret ≠ none)
        (fun c c' hc hs => hc.next (hs.eq hw')) (fun c r hc hs => ?_) c hr
      have hin := (roundInside_iff hn (window hc).1 (window hc).2).2 (h _ _ _ _ hc)
      exact hin.done_ret hm (fun p _ => by simp [parseRe]) hs
    | succ levels ih =>
      intro b' w' c hr
      have hw' : w' < 2 ^ 64 := by have := window hr; omega
      refine decodeFrom_rule hw' (I := fun c => Running m n b w (levels + 1) b' w' c) (Q := fun r => r.ret ≠ none)
        (fun c c' hc hs => hc.next (hs.eq hw')) (fun c r hc hs => ?_) c hr
      have hin := (roundInside_iff hn (window hc).1 (window hc).2).2 (h _ _ _ _ hc)
      refine hin.done_ret hm (fun p hp => ?_) hs
      obtain ⟨haw, pos, hpt, hne, rfl⟩ := roundCall_eq_some.1 hp
      exact ih pos (sub64 n pos) ⟨0, []⟩ (hc.call haw hpt hne)
  exact level 20 b w ⟨0, []⟩ .start

end Inside

/-- **Bounds**: every round of a decoding, those of every recursive call included, stays inside the buffer iff every
pointer that a round meets has both its bytes and its target inside the buffer. -/
theorem running_inside_iff (m : Bytes) (n b w : Nat) (hn : n < 2 ^ 64) (hb : b < n) (hw : w ≤ n - b) :
    (∀ levels b' w' c, Running m n b w levels b' w' c → RoundInside m n b' w' c) ↔
      ∀ levels b' w' c, Running m n b w levels b' w' c → PointerInside m n b' w' c := by
  constructor
  · intro h levels b' w' c hr
    have hwin := hr.window hb hw fun _ _ _ _ hr => (h _ _ _ _ hr).call
    exact (roundInside_iff hn hwin.1 hwin.2).1 (h _ _ _ _ hr)
  · intro h levels b' w' c hr
    have hwin := hr.window hb hw fun _ _ _ _ hr _ hp => (h _ _ _ _ hr).call hn hp
    exact (roundInside_iff hn hwin.1 hwin.2).2 (h _ _ _ _ hr)

/-- A label closed by a pointer to a name in front of it, which is decoded too. -/
theorem running_inside_iff_at :
    Running [1, 97, 0, 1, 98, 192, 0] 7 3 4 19 0 7 ⟨0, []⟩ ∧
      ∀ levels b' w' c, Running [1, 97, 0, 1, 98, 192, 0] 7 3 4 levels b' w' c →
        RoundInside [1, 97, 0, 1, 98, 192, 0] 7 b' w' c := by
  constructor
  · have hlabel : Running [1, 97, 0, 1, 98, 192, 0] 7 3 4 20 3 4 ⟨2, [98]⟩ := .next .start rfl
    exact .call hlabel (by decide) (pointerAt_eq_some.1 (by decide)) (by decide)
  refine (running_inside_iff [1, 97, 0, 1, 98, 192, 0] 7 3 4 (by decide) (by decide) (by decide)).2
    fun levels b' w' c _ x _ hx hhigh => ?_
  obtain ⟨hi, hget⟩ := List.getElem?_eq_some_iff.1 hx
  -- the only byte that begins a pointer is the last but one
  have hfive : b' + c.actualLen = 5 := by
    have hall : ∀ i : Fin 7, 192 ≤ ([1, 97, 0, 1, 98, 192, 0] : Bytes)[i].toNat → i.val = 5 := by decide
    exact hall ⟨b' + c.actualLen, hi⟩ (hget ▸ hhigh)
  rw [hfive]
  refine ⟨by decide, fun pos hpos => ?_⟩
  obtain rfl : 0 = pos := Option.some.inj (show pointerAt [1, 97, 0, 1, 98, 192, 0] 5 = some pos from
    pointerAt_eq_some.2 hpos)
  decide

/-- A pointer to an offset outside the buffer is followed. -/
theorem running_outside : ¬∀ (m : Bytes) (n b w : Nat), m.length = n → n < 2 ^ 64 → b < n → w ≤ n - b →
    ∀ levels b' w' c, Running m n b w levels b' w' c → RoundInside m n b' w' c := by
  intro h
  have hin := h [192, 5] 2 0 2 rfl (by decide) (by decide) (by decide) _ _ _ _ .start
  have hcall := hin.call (5, sub64 2 5) (by decide)
  exact absurd hcall.1 (by decide)

/-! ## The length of the text -/

/-- The level goes no further from here. -/
def Rests (m : Bytes) (n levels b w : Nat) (c : Cursor) : Prop :=
  ∀ c', parseReRound m n b w (below m n levels) c ≠ .next c'

/-- Where the text of a pointer has been joined, the level rests. -/
def JoinRests (m : Bytes) (n levels b w : Nat) (c : Cursor) : Prop :=
  ∀ pos c', PointsTo m (b + c.actualLen) pos → parseReRound m n b w (below m n levels) c = .next c' →
    Rests m n levels b w c'

/-- A byte of a reserved kind behind a pointer makes the level rest. -/
theorem joinRests_of_reserved {m : Bytes} {n levels b w : Nat} {c : Cursor} (hw : w < 2 ^ 64)
    (h : ∀ pos, PointsTo m (b + c.actualLen) pos →
      ∃ x : UInt8, m[b + c.actualLen + 2]? = some x ∧ 64 ≤ x.toNat ∧ x.toNat < 192) : JoinRests m n levels b w c := by
  intro pos c' hp hc c'' hc'
  obtain ⟨x, hx, hlo, hhi⟩ := h pos hp
  have hs : RoundOf m n b w (below m n levels) c _ := round_spec hw
  rw [hc] at hs
  cases hs with
  | label hl hlab =>
    obtain ⟨h0, hn, -⟩ := slice_of_holds_label hl hlab
    obtain ⟨y, -, hy, hy192, -⟩ := pointsTo_iff.1 hp
    rw [h0] at hy
    cases hy
    have := hl.2
    omega
  | pointerJoin =>
    rcases Nat.lt_or_ge (c.actualLen + 2) w with haw | haw
    · rw [round_reserved haw hx hlo hhi] at hc'; cases hc'
    · rw [round_windowEnd haw] at hc'; cases hc'

section Length

variable {m : Bytes} {b w : Nat}

/-- What a level has decoded: no more than it consumed, or it rests and holds the text of a level below. -/
def LevelText (m : Bytes) (levels b w : Nat) (c : Cursor) : Prop :=
  (c.domain.length ≤ c.actualLen ∧ c.actualLen ≤ m.length) ∨
    (Rests m m.length levels b w c ∧ c.domain.length ≤ (levels + 1) * m.length)

theorem LevelText.length_le {levels : Nat} {c : Cursor} (h : LevelText m levels b w c) :
    c.domain.length ≤ (levels + 1) * m.length := by
  rcases h with ⟨h, hm⟩ | ⟨_, h⟩
  · rw [Nat.succ_mul]; omega
  · exact h

/-- One level adds its own bytes once, when the levels below keep their bound. -/
theorem length_decodeFrom_le {levels b' w' : Nat} {c : Cursor} (hw : w' < 2 ^ 64)
    (hj : ∀ c, Running m m.length b w levels b' w' c → JoinRests m m.length levels b' w' c)
    (hs : ∀ c pos, Running m m.length b w levels b' w' c → c.actualLen < w' → PointsTo m (b' + c.actualLen) pos →
      pos ≠ b' → (below m m.length levels pos (sub64 m.length pos)).domain.length ≤ levels * m.length)
    (hr : Running m m.length b w levels b' w' c) (hc : LevelText m levels b' w' c) :
    (decodeFrom m m.length levels b' w' c).domain.length ≤ (levels + 1) * m.length := by
  refine decodeFrom_rule hw (I := fun c => Running m m.length b w levels b' w' c ∧ LevelText m levels b' w' c)
    (Q := fun r => r.domain.length ≤ (levels + 1) * m.length) ?_ ?_ c ⟨hr, hc⟩
  · rintro c c' ⟨hr, ht⟩ h
    have he := h.eq hw
    refine ⟨hr.next he, ?_⟩
    rcases ht with ⟨hlen, _⟩ | ⟨hrest, _⟩
    swap
    · exact absurd he (hrest c')
    cases h with
    | @label l hl hx hfit =>
      have happ := length_appendLabel_le c.domain l
      have hin := hx.length_le (List.cons_ne_nil _ _)
      rw [List.length_cons] at hin
      left
      simp only
      constructor <;> omega
    | @pointerJoin haw pos k hp hne hk0 hk hd =>
      have hbelow := hs c pos hr haw hp hne
      obtain ⟨x, y, hx, -⟩ := pointsTo_iff.1 hp
      have hin := (List.getElem?_eq_some_iff.1 hx).1
      refine .inr ⟨hj c hr pos _ hp he, ?_⟩
      simp only [List.length_append, List.length_singleton, Nat.succ_mul]
      omega
  · rintro c r ⟨hr, ht⟩ h
    have hle := ht.length_le
    cases h with
    | @pointerFirst haw pos k hp hne hk0 hk hd =>
      have hbelow := hs c pos hr haw hp hne
      simp only [Nat.succ_mul]; omega
    | _ => exact hle

end Length

/-- **Length**: when every level rests behind the text of a pointer, each of the 21 levels adds its own bytes once. -/
theorem length_parseDomain_le (m : Bytes) (b w : Nat) (hw : w < 2 ^ 64)
    (h : ∀ levels b' w' c, Running m m.length b w levels b' w' c → JoinRests m m.length levels b' w' c) :
    (parseDomain m m.length b w []).domain.length ≤ 21 * m.length := by
  have level : ∀ levels b' w', Running m m.length b w levels b' w' ⟨0, []⟩ →
      (decodeFrom m m.length levels b' w' ⟨0, []⟩).domain.length ≤ (levels + 1) * m.length := by
    intro levels
    induction levels with
    | zero =>
      intro b' w' hr
      refine length_decodeFrom_le (hr.window_lt hw) (fun c => h _ _ _ c) (fun c pos _ _ _ _ => ?_) hr (.inl (by simp))
      simp [parseRe]
    | succ levels ih =>
      intro b' w' hr
      refine length_decodeFrom_le (hr.window_lt hw) (fun c => h _ _ _ c) (fun c pos hr haw hp hne => ?_) hr
        (.inl (by simp))
      exact ih pos _ (hr.call haw hp hne)
  exact level 20 b w .start

/-- `b`, then `a` with a pointer to it; the byte behind the pointer is of a reserved kind, so the level rests there. -/
theorem length_parseDomain_le_at :
    (parseDomain [1, 98, 0, 1, 97, 192, 0, 64] 8 3 5 []).domain.length ≤ 21 * 8 := by
  refine length_parseDomain_le [1, 98, 0, 1, 97, 192, 0, 64] 3 5 (by decide) ?_
  intro levels b' w' c hr
  -- the only pointer is at index 5
  refine joinRests_of_reserved (hr.window_lt (by decide)) fun pos hp => ⟨64, ?_, by decide, by decide⟩
  obtain ⟨x, y, hx, hlo, -⟩ := pointsTo_iff.1 hp
  obtain ⟨hi, rfl⟩ := List.getElem?_eq_some_iff.1 hx
  have all : ∀ i : Fin 8, 192 ≤ ([1, 98, 0, 1, 97, 192, 0, 64] : Bytes)[i].toNat → i = 5 := by decide
  have h5 : b' + c.actualLen = 5 := congrArg Fin.val (all ⟨b' + c.actualLen, hi⟩ hlo)
  rw [h5]
  rfl

/-- Two levels of eight pointers each over a label of 24 bytes. -/
def fanMessage : Bytes :=
  24 :: List.replicate 24 97 ++ [0] ++
    (1 :: 98 :: (List.replicate 8 [192, 0]).flatten ++ [0]) ++ (1 :: 99 :: (List.replicate 8 [192, 26]).flatten ++ [0])

example : fanMessage.length = 64 := by decide

/-- Pointers behind pointers multiply the text. -/
theorem length_parseDomain_long : ¬∀ (m : Bytes) (b w : Nat), m.length ≤ 65535 → w < 2 ^ 64 →
    (parseDomain m m.length b w []).domain.length ≤ 21 * m.length := by
  intro h
  have := h fanMessage 45 19 (by decide) (by decide)
  exact absurd this (by decide +kernel)

end StDns.Protocol
