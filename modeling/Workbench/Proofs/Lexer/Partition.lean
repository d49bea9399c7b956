import Workbench.Proofs.Lexer

/-!
**Every byte in one place.**

The lexer cuts a text into segments and places each of them: as a token, or as an error. So the ranges of
the tokens and those of the errors, merged by where they start, are the ranges of the segments. These are
not empty, each starts where the one before it ends, the first at the start of the text, and the last ends
at its end: they tile the text.
-/

namespace Workbench

/-! ### Tilings -/

/-- Ranges that tile the bytes from an offset to another: none is empty, and each starts where the one
before it ends. -/
inductive TextRange.Tile : Nat → List TextRange → Nat → Prop
  | nil (offset : Nat) : Tile offset [] offset
  | cons {r : TextRange} {rest : List TextRange} {stop : Nat} (solid : r.start < r.stop)
      (next : Tile r.stop rest stop) : Tile r.start (r :: rest) stop

/-- Whether the byte at `offset` is one of the range. -/
def TextRange.covers (offset : Nat) (r : TextRange) : Bool :=
  decide (r.start ≤ offset) && decide (offset < r.stop)

namespace TextRange.Tile

variable {start stop : Nat} {ranges : List TextRange}

theorem le (h : Tile start ranges stop) : start ≤ stop := by
  induction h with
  | nil => exact Nat.le_refl _
  | cons solid next ih => exact Nat.le_trans (Nat.le_of_lt solid) ih

theorem start_le (h : Tile start ranges stop) : ∀ r ∈ ranges, start ≤ r.start := by
  induction h with
  | nil => nofun
  | cons solid next ih =>
    intro s mem
    rcases List.mem_cons.1 mem with rfl | mem
    · exact Nat.le_refl _
    · exact Nat.le_trans (Nat.le_of_lt solid) (ih s mem)

theorem solid (h : Tile start ranges stop) : ∀ r ∈ ranges, r.start < r.stop := by
  induction h with
  | nil => nofun
  | cons solid next ih =>
    intro s mem
    rcases List.mem_cons.1 mem with rfl | mem
    · exact solid
    · exact ih s mem

theorem apart (h : Tile start ranges stop) : ranges.Pairwise fun r s => r.stop ≤ s.start := by
  induction h with
  | nil => exact .nil
  | cons solid next ih => exact List.pairwise_cons.2 ⟨next.start_le, ih⟩

/-- Each byte that is tiled is covered once, and no other byte is covered. -/
theorem countP_covers (h : Tile start ranges stop) (offset : Nat) :
    ranges.countP (covers offset) = if start ≤ offset ∧ offset < stop then 1 else 0 := by
  induction h with
  | nil n => rw [List.countP_nil, if_neg (by omega)]
  | @cons r rest stop solid next ih =>
    have bound := next.le
    rw [List.countP_cons, ih, covers]
    by_cases before : offset < r.start
    · rw [if_neg (by omega), if_neg (by simp; omega), if_neg (by omega)]
    · by_cases within : offset < r.stop
      · rw [if_neg (by omega), if_pos (by simp; omega), if_pos (by omega)]
      · by_cases behind : offset < stop
        · rw [if_pos (by omega), if_neg (by simp; omega), if_pos (by omega)]
        · rw [if_neg (by omega), if_neg (by simp; omega), if_neg (by omega)]

/-- Ranges that are a tiling in another order are that tiling once they are sorted. -/
theorem mergeSort_eq {others : List TextRange} (h : Tile start ranges stop) (perm : others.Perm ranges) :
    others.mergeSort (fun r s => decide (r.start ≤ s.start)) = ranges := by
  have sorted : (others.mergeSort fun r s => decide (r.start ≤ s.start)).Pairwise
      fun r s => decide (r.start ≤ s.start) = true :=
    List.pairwise_mergeSort (fun a b c hab hbc => by simp at *; omega) (fun a b => by simp; omega) others
  have tiled : ranges.Pairwise fun r s => decide (r.start ≤ s.start) = true :=
    h.apart.imp fun {r s} apart => decide_eq_true (Nat.le_trans r.start_le_stop apart)
  refine ((List.mergeSort_perm others _).trans perm).eq_of_pairwise ?_ sorted tiled
  intro r s mr ms hrs hsr
  -- two ranges of a tiling that start together are one
  have mem : r ∈ ranges := perm.mem_iff.1 (List.mem_mergeSort.1 mr)
  have starts : r.start = s.start := Nat.le_antisymm (of_decide_eq_true hrs) (of_decide_eq_true hsr)
  obtain ⟨i, hi, rfl⟩ := List.getElem_of_mem mem
  obtain ⟨j, hj, rfl⟩ := List.getElem_of_mem ms
  have apart := List.pairwise_iff_getElem.1 h.apart
  have solid := h.solid
  rcases Nat.lt_trichotomy i j with lt | rfl | lt
  · have := apart i j hi hj lt
    have := solid _ mem
    omega
  · rfl
  · have := apart j i hj hi lt
    have := solid _ ms
    omega

end TextRange.Tile

/-! ### What the segments cover -/

namespace Lexer

/-- The ranges of segments that start at `offset`. -/
def rangesFrom : Nat → List Segment → List TextRange
  | _, [] => []
  | offset, s :: rest =>
    let stop := offset + (String.ofList s.text).utf8ByteSize
    TextRange.of offset stop :: rangesFrom stop rest

theorem byteLength_pos {cs : List Char} (h : cs ≠ []) : 0 < Text.byteLength cs := by
  obtain ⟨c, rest, rfl⟩ := List.exists_cons_of_ne_nil h
  have positive := c.utf8Size_pos
  rw [Text.byteLength]
  omega

theorem tile_rangesFrom {segments : List Segment} (solid : ∀ s ∈ segments, s.text ≠ []) (offset : Nat) :
    TextRange.Tile offset (rangesFrom offset segments)
      (offset + Text.byteLength (segments.flatMap Segment.text)) := by
  induction segments generalizing offset with
  | nil => exact .nil offset
  | cons s rest ih =>
    have size := byteLength_pos (solid s List.mem_cons_self)
    have rest := ih (fun u mem => solid u (List.mem_cons_of_mem _ mem)) (offset + Text.byteLength s.text)
    rw [rangesFrom, utf8ByteSize_ofList, List.flatMap_cons, byteLength_append, ← Nat.add_assoc]
    have stops : (TextRange.of offset (offset + Text.byteLength s.text)).stop =
        offset + Text.byteLength s.text := Nat.max_eq_right (Nat.le_add_right _ _)
    exact .cons (by rw [stops]; exact Nat.lt_add_of_pos_right size) (by rwa [stops])

/-- The tokens and the errors share the ranges of the segments among them. -/
theorem perm_rangesFrom (offset : Nat) (segments : List Segment) :
    ((place offset segments).tokens.map Token.range ++
      (place offset segments).errors.map LexError.range).Perm (rangesFrom offset segments) := by
  induction segments generalizing offset with
  | nil => exact .refl _
  | cons s rest ih =>
    have rest := ih (offset + (String.ofList s.text).utf8ByteSize)
    rw [place, rangesFrom]
    cases verdict : s.verdict with
    | token kind => exact rest.cons _
    | _ => exact List.perm_middle.trans (rest.cons _)

theorem sublist_rangesFrom (offset : Nat) (segments : List Segment) :
    ((place offset segments).tokens.map Token.range).Sublist (rangesFrom offset segments) ∧
      ((place offset segments).errors.map LexError.range).Sublist (rangesFrom offset segments) := by
  induction segments generalizing offset with
  | nil => exact ⟨.refl _, .refl _⟩
  | cons s rest ih =>
    obtain ⟨tokens, errors⟩ := ih (offset + (String.ofList s.text).utf8ByteSize)
    rw [place, rangesFrom]
    cases verdict : s.verdict with
    | token kind => exact ⟨tokens.cons_cons _, errors.cons _⟩
    | _ => exact ⟨tokens.cons _, errors.cons_cons _⟩

theorem mem_rangesFrom {r : TextRange} {offset : Nat} {segments : List Segment}
    (h : r ∈ rangesFrom offset segments) :
    ∃ before s after, segments = before ++ s :: after ∧
      r.start = offset + Text.byteLength (before.flatMap Segment.text) ∧
      r.stop = r.start + Text.byteLength s.text := by
  induction segments generalizing offset with
  | nil => cases h
  | cons s rest ih =>
    rw [rangesFrom, utf8ByteSize_ofList] at h
    rcases List.mem_cons.1 h with rfl | mem
    · exact ⟨[], s, rest, rfl, rfl, Nat.max_eq_right (Nat.le_add_right _ _)⟩
    · obtain ⟨before, u, after, rfl, starts, stops⟩ := ih mem
      refine ⟨s :: before, u, after, rfl, ?_, stops⟩
      rw [starts, List.flatMap_cons, byteLength_append, Nat.add_assoc]

theorem solid_joinStrays {segments : List Segment} (solid : ∀ s ∈ segments, s.text ≠ []) :
    ∀ s ∈ joinStrays segments, s.text ≠ [] := by
  induction segments with
  | nil => exact solid
  | cons s rest ih =>
    have first : s.text ≠ [] := solid s List.mem_cons_self
    have ih := ih fun u mem => solid u (List.mem_cons_of_mem _ mem)
    rw [joinStrays]
    split
    · next t ts joined =>
      rw [joined] at ih
      split
      · intro u mem
        rcases List.mem_cons.1 mem with rfl | mem
        · exact List.append_ne_nil_of_left_ne_nil first _
        · exact ih u (List.mem_cons_of_mem _ mem)
      · intro u mem
        rcases List.mem_cons.1 mem with rfl | mem
        · exact first
        · exact ih u mem
    · intro u mem
      rwa [List.mem_singleton.1 mem]

end Lexer

/-! ### What a text is cut into -/

/-- `piece` is what `text` reads in `range`, and both ends of the range stand between whole characters. -/
def TextRange.Reads (text : String) (range : TextRange) (piece : String) : Prop :=
  ∃ before after, text = before ++ piece ++ after ∧ range.start = before.utf8ByteSize ∧
    range.stop = (before ++ piece).utf8ByteSize

/-- The ranges of all tokens and all errors. -/
def LexResult.ranges (result : LexResult) : List TextRange :=
  result.tokens.map Token.range ++ result.errors.map LexError.range

/-- The tokens and errors partition the text. -/
structure LexResult.Partitions (result : LexResult) (text : String) : Prop where
  /-- No token is empty, and each reads what the text does in its range. -/
  tokens : ∀ t ∈ result.tokens, t.image ≠ "" ∧ t.range.Reads text t.image
  /-- Errors are about whole characters, too. -/
  errors : ∀ e ∈ result.errors, ∃ piece ≠ "", e.range.Reads text piece
  tokens_in_order : (result.tokens.map Token.range).Pairwise fun r s => r.stop ≤ s.start
  errors_in_order : (result.errors.map LexError.range).Pairwise fun r s => r.stop ≤ s.start
  /-- Sorted by where they start, the ranges tile the text. -/
  tiled : TextRange.Tile 0 (result.ranges.mergeSort fun r s => decide (r.start ≤ s.start))
    text.utf8ByteSize
  /-- Every byte of the text is in one range, and no range leaves the text. -/
  once : ∀ offset, result.ranges.countP (TextRange.covers offset) =
    if offset < text.utf8ByteSize then 1 else 0

namespace Lexer

theorem tile_tokenize (keywords : List String) (text : String) :
    TextRange.Tile 0 (rangesFrom 0 (joinStrays (segments keywords text.toList))) text.utf8ByteSize := by
  have solid : ∀ s ∈ segments keywords text.toList, s.text ≠ [] := by
    intro s mem
    obtain ⟨c, rest, n, -, spelled⟩ := classify_of_mem_segmentsFrom mem
    rw [spelled]
    exact List.cons_ne_nil _ _
  have size : Text.byteLength ((joinStrays (segments keywords text.toList)).flatMap Segment.text) =
      text.utf8ByteSize := by
    rw [flatMap_joinStrays, segments, flatMap_segmentsFrom, List.drop_zero, ← utf8ByteSize_ofList,
      String.ofList_toList]
  simpa [size] using tile_rangesFrom (solid_joinStrays solid) 0

theorem reads_of_split {text : String} {range : TextRange} {before piece after : List Char}
    (split : text.toList = before ++ piece ++ after) (start : range.start = Text.byteLength before)
    (stop : range.stop = range.start + Text.byteLength piece) : range.Reads text (String.ofList piece) := by
  refine ⟨String.ofList before, String.ofList after, ?_, ?_, ?_⟩
  · apply String.toList_injective
    simpa using split
  · rw [start, utf8ByteSize_ofList]
  · rw [stop, start, ← String.ofList_append, utf8ByteSize_ofList, byteLength_append]

theorem reads_of_mem {keywords : List String} {text : String} {r : TextRange}
    (h : r ∈ rangesFrom 0 (joinStrays (segments keywords text.toList))) :
    ∃ piece ≠ "", r.Reads text piece := by
  have solid := (tile_tokenize keywords text).solid r h
  obtain ⟨before, s, after, eq, start, stop⟩ := mem_rangesFrom h
  refine ⟨String.ofList s.text, ?_, ?_⟩
  · intro empty
    have : s.text = [] := by simpa using congrArg String.toList empty
    rw [this] at stop
    simp [Text.byteLength] at stop
    omega
  · have split : text.toList = before.flatMap Segment.text ++ s.text ++ after.flatMap Segment.text := calc
      text.toList = (joinStrays (segments keywords text.toList)).flatMap Segment.text := by
        rw [flatMap_joinStrays, segments, flatMap_segmentsFrom, List.drop_zero]
      _ = before.flatMap Segment.text ++ s.text ++ after.flatMap Segment.text := by
        rw [eq]
        simp
    exact reads_of_split split (by simpa using start) stop

/-- **The tokens and errors of a text partition it.** Whatever the keywords are, no token is empty and each
has for its image what the text reads in its range, between whole characters; tokens stand one behind the
other and so do errors; and together, sorted by where they start, their ranges cover every byte of the text
once. -/
theorem partitions_tokenize (keywords : List String) (text : String) :
    (tokenize keywords text).Partitions text := by
  have tile := tile_tokenize keywords text
  have perm : (tokenize keywords text).ranges.Perm
      (rangesFrom 0 (joinStrays (segments keywords text.toList))) := perm_rangesFrom 0 _
  obtain ⟨tokens, errors⟩ := sublist_rangesFrom 0 (joinStrays (segments keywords text.toList))
  constructor
  case tokens =>
    intro t mem
    have positive := (inOrder_tokenize keywords text).solid t mem
    obtain ⟨before, after, split, start⟩ := mem_tokenize mem
    have size : t.image.utf8ByteSize = Text.byteLength t.image.toList := by
      rw [← utf8ByteSize_ofList, String.ofList_toList]
    constructor
    · intro empty
      rw [Token.stop, empty] at positive
      exact absurd positive (Nat.lt_irrefl _)
    · rw [← t.image.ofList_toList]
      refine reads_of_split split start ?_
      show max t.offset t.stop = t.offset + Text.byteLength t.image.toList
      rw [Nat.max_eq_right (Nat.le_of_lt positive), Token.stop, size]
  case errors =>
    intro e mem
    exact reads_of_mem (errors.subset (List.mem_map_of_mem mem))
  case tokens_in_order => exact tile.apart.sublist tokens
  case errors_in_order => exact tile.apart.sublist errors
  case tiled => rwa [tile.mergeSort_eq perm]
  case once =>
    intro offset
    rw [perm.countP_eq, tile.countP_covers]
    simp

end Lexer

end Workbench
