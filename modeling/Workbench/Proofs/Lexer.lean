import Workbench.Text.Lines
import Workbench.Token.Lexer

/-!
**Tokens spell their text.**

Each rule of the lexer only says how far a segment reaches, so the segments of a text put together are
the text, and joining stray characters changes nothing about that. A segment becomes a token or an
error. Hence a text without errors is spelled by its tokens, and in any text each token stands where its
offset says, one behind the other.
-/

namespace Workbench

/-- Tokens in the order of a text: each has some text, and ends before the next one starts. -/
structure Token.InOrder (tokens : List Token) : Prop where
  solid : ∀ t ∈ tokens, t.offset < t.stop
  apart : tokens.Pairwise fun t u => t.stop ≤ u.offset

namespace Lexer

theorem flatMap_segmentsFrom (keywords : List String) (taken : Nat) (cs : List Char) :
    (segmentsFrom keywords taken cs).flatMap Segment.text = cs.drop taken := by
  fun_induction segmentsFrom keywords taken cs with
  | case1 taken => simp
  | case2 taken c rest ih => simpa using ih
  | case3 c rest verdict n eq ih => simp [ih]

theorem flatMap_joinStrays (segments : List Segment) :
    (joinStrays segments).flatMap Segment.text = segments.flatMap Segment.text := by
  induction segments with
  | nil => rfl
  | cons s rest ih =>
    rw [joinStrays]
    split
    · next t ts joined =>
      rw [joined] at ih
      split
      · simp [← ih]
      · simp [← ih]
    · next joined =>
      rw [joined] at ih
      simp [← ih]

theorem images_place {offset : Nat} {segments : List Segment} (h : (place offset segments).errors = []) :
    (place offset segments).tokens.map Token.image =
      segments.map fun s => String.ofList s.text := by
  induction segments generalizing offset with
  | nil => rfl
  | cons s rest ih =>
    rw [place] at h ⊢
    cases verdict : s.verdict with
    | token kind =>
      simp only [verdict] at h ⊢
      simp [ih h]
    | _ => simp [verdict] at h

/-- A text in which the lexer finds no fault is spelled by its tokens. -/
theorem join_images_tokenize {keywords : List String} {text : String}
    (h : (tokenize keywords text).errors = []) :
    String.join ((tokenize keywords text).tokens.map Token.image) = text := by
  have images := images_place h
  apply String.toList_injective
  rw [String.toList_join]
  calc
    ((tokenize keywords text).tokens.map Token.image).flatMap String.toList
      = (joinStrays (segments keywords text.toList)).flatMap Segment.text := by
        rw [tokenize, images, List.flatMap_map]
        simp
    _ = text.toList := by
        rw [flatMap_joinStrays, segments, flatMap_segmentsFrom, List.drop_zero]

/-! ### Where tokens stand -/

theorem utf8ByteSize_ofList (cs : List Char) : (String.ofList cs).utf8ByteSize = Text.byteLength cs := by
  induction cs with
  | nil => rfl
  | cons c cs ih =>
    rw [Text.byteLength, ← ih]
    simp [String.ofList_cons]

theorem utf8ByteSize_eq (s : String) : s.utf8ByteSize = Text.byteLength s.toList := by
  rw [← utf8ByteSize_ofList, String.ofList_toList]

theorem byteLength_append (xs ys : List Char) :
    Text.byteLength (xs ++ ys) = Text.byteLength xs + Text.byteLength ys := by
  induction xs with
  | nil => simp [Text.byteLength]
  | cons c xs ih =>
    rw [List.cons_append, Text.byteLength, Text.byteLength, ih]
    omega

/-- A token is a segment at its place. -/
theorem mem_place {t : Token} {offset : Nat} {segments : List Segment}
    (h : t ∈ (place offset segments).tokens) :
    ∃ before s after, segments = before ++ s :: after ∧ s.verdict = .token t.kind ∧
      t.image = String.ofList s.text ∧
      t.offset = offset + Text.byteLength (before.flatMap Segment.text) := by
  induction segments generalizing offset with
  | nil => cases h
  | cons s rest ih =>
    have later : t ∈ (place (offset + (String.ofList s.text).utf8ByteSize) rest).tokens →
        ∃ before s' after, s :: rest = before ++ s' :: after ∧ s'.verdict = .token t.kind ∧
          t.image = String.ofList s'.text ∧
          t.offset = offset + Text.byteLength (before.flatMap Segment.text) := by
      intro mem
      obtain ⟨before, s', after, rfl, verdict, image, stands⟩ := ih mem
      refine ⟨s :: before, s', after, rfl, verdict, image, ?_⟩
      rw [stands, utf8ByteSize_ofList, List.flatMap_cons, byteLength_append, Nat.add_assoc]
    rw [place] at h
    cases verdict : s.verdict with
    | token kind =>
      simp only [verdict] at h
      rcases List.mem_cons.1 h with rfl | mem
      · exact ⟨[], s, rest, rfl, verdict, rfl, rfl⟩
      · exact later mem
    | _ =>
      simp only [verdict] at h
      exact later h

/-- A token stands in its text where its offset says. -/
theorem mem_tokenize {keywords : List String} {text : String} {t : Token}
    (h : t ∈ (tokenize keywords text).tokens) :
    ∃ before after, text.toList = before ++ t.image.toList ++ after ∧
      t.offset = Text.byteLength before := by
  obtain ⟨before, s, after, eq, -, image, stands⟩ := mem_place h
  refine ⟨before.flatMap Segment.text, after.flatMap Segment.text, ?_, by simpa using stands⟩
  calc
    text.toList = (joinStrays (segments keywords text.toList)).flatMap Segment.text := by
      rw [flatMap_joinStrays, segments, flatMap_segmentsFrom, List.drop_zero]
    _ = before.flatMap Segment.text ++ t.image.toList ++ after.flatMap Segment.text := by
      rw [eq, image]
      simp

/-! ### What a visible token begins with -/

theorem take_runLength (p : Char → Bool) (cs : List Char) :
    cs.take (runLength p cs) = cs.takeWhile p := by
  induction cs with
  | nil => rfl
  | cons c cs ih =>
    unfold runLength at ih ⊢
    rw [List.takeWhile_cons]
    split
    · rw [List.length_cons, List.take_succ_cons, ih]
    · rfl

theorem drop_runLength (p : Char → Bool) (cs : List Char) :
    cs.drop (runLength p cs) = cs.dropWhile p := by
  induction cs with
  | nil => rfl
  | cons c cs ih =>
    unfold runLength at ih ⊢
    rw [List.takeWhile_cons, List.dropWhile_cons]
    split
    · rw [List.length_cons, List.drop_succ_cons, ih]
    · rfl

/-- A character, followed by `rest`, with which no token begins but a keyword that is no word. -/
structure Leads (c : Char) (rest : List Char) : Prop where
  blank : Text.isBlank c = false
  part : isNamePart c = false
  quote : isQuote c = false
  comment : c = '/' → rest.head? ≠ some '/' ∧ rest.head? ≠ some '*'
  caret : c = '^' → ∀ d ∈ rest.head?, isNameStart d = false

/-- The visible token that begins with `c` is of this kind, and takes this many characters of `rest`. -/
inductive Begins (keywords : List String) (c : Char) (rest : List Char) : TokenKind → Nat → Prop
  | word (start : isNameStart c = true)
    (known : String.ofList (c :: rest.take (runLength isNamePart rest)) ∈ keywords) :
    Begins keywords c rest .keyword (runLength isNamePart rest)
  | name (start : isNameStart c = true)
    (unknown : String.ofList (c :: rest.take (runLength isNamePart rest)) ∉ keywords) :
    Begins keywords c rest .identifier (runLength isNamePart rest)
  | caret (escape : c = '^') (start : ∃ d ∈ rest.head?, isNameStart d = true) :
    Begins keywords c rest .identifier (runLength isNamePart rest)
  | number (digit : c.isDigit = true) : Begins keywords c rest .number (numberExtent rest)
  | string {n : Nat} (quote : isQuote c = true) (closed : closeString c false rest = some n) :
    Begins keywords c rest .string n
  | sign {n : Nat} (leads : Leads c rest) (longest : longestKeyword keywords (c :: rest) = n + 1) :
    Begins keywords c rest .keyword n

/-- All that a visible token can be: one case for each rule that finds visible tokens. -/
theorem begins_of_classify {keywords : List String} {c : Char} {rest : List Char} {kind : TokenKind}
    {n : Nat} (h : classify keywords c rest = (.token kind, n)) (visible : kind.isHidden = false) :
    Begins keywords c rest kind n := by
  unfold classify at h
  split at h
  · cases h
    cases visible
  next blank =>
  split at h
  · cases h
    cases visible
  next line =>
  split at h
  · split at h <;> cases h
    cases visible
  next block =>
  split at h
  · next start =>
    by_cases known : String.ofList (c :: rest.take (runLength isNamePart rest)) ∈ keywords
    · simp only [List.contains_eq_mem, known, decide_true, if_true] at h
      cases h
      exact .word start known
    · simp only [List.contains_eq_mem, known, decide_false] at h
      cases h
      exact .name start known
  next start =>
  split at h
  · next caret =>
    cases h
    simp only [Bool.and_eq_true, beq_iff_eq, Option.any_eq_true] at caret
    exact .caret caret.1 caret.2
  next caret =>
  split at h
  · next digit =>
    cases h
    exact .number digit
  next digit =>
  split at h
  · next quote =>
    split at h <;> cases h
    exact .string quote ‹_›
  next quote =>
  split at h
  · cases h
  next m longest =>
  cases h
  have leads : Leads c rest := by
    constructor
    case blank => simpa using blank
    case part =>
      rw [Bool.not_eq_true] at start digit
      rw [isNameStart, Bool.or_eq_false_iff] at start
      rw [isNamePart, Char.isAlphanum, start.1, start.2, digit]
      rfl
    case quote => simpa using quote
    case comment =>
      rintro rfl
      exact ⟨by simpa using line, by simpa using block⟩
    case caret =>
      rintro rfl d head
      simpa [Option.mem_def.1 head] using caret
  exact .sign leads longest

theorem mem_of_mem_joinStrays {s : Segment} {segments : List Segment} (h : s ∈ joinStrays segments)
    (token : s.verdict ≠ .stray) : s ∈ segments := by
  induction segments with
  | nil => cases h
  | cons u rest ih =>
    rw [joinStrays] at h
    split at h
    · next v vs joined =>
      rw [joined] at ih
      split at h
      · rcases List.mem_cons.1 h with rfl | mem
        · exact absurd rfl token
        · exact List.mem_cons_of_mem _ (ih (List.mem_cons_of_mem _ mem))
      · rcases List.mem_cons.1 h with rfl | mem
        · exact List.mem_cons_self
        · exact List.mem_cons_of_mem _ (ih mem)
    · rw [List.mem_singleton.1 h]
      exact List.mem_cons_self

theorem classify_of_mem_segmentsFrom {keywords : List String} {taken : Nat} {cs : List Char}
    {s : Segment} (h : s ∈ segmentsFrom keywords taken cs) :
    ∃ c rest n, classify keywords c rest = (s.verdict, n) ∧ s.text = c :: rest.take n := by
  fun_induction segmentsFrom keywords taken cs with
  | case1 => cases h
  | case2 taken c rest ih => exact ih h
  | case3 c rest verdict n eq ih =>
    rcases List.mem_cons.1 h with rfl | mem
    · exact ⟨c, rest, n, eq, rfl⟩
    · exact ih mem

/-- A token begins with its first character. -/
theorem exists_classify {keywords : List String} {text : String} {t : Token}
    (h : t ∈ (tokenize keywords text).tokens) :
    ∃ c rest n, classify keywords c rest = (.token t.kind, n) ∧
      t.image = String.ofList (c :: rest.take n) := by
  obtain ⟨before, s, after, eq, verdict, image, -⟩ := mem_place h
  have mem : s ∈ joinStrays (segments keywords text.toList) := by
    rw [eq]
    simp
  obtain ⟨c, rest, n, classified, spelled⟩ :=
    classify_of_mem_segmentsFrom (mem_of_mem_joinStrays mem (by rw [verdict]; nofun))
  rw [verdict] at classified
  exact ⟨c, rest, n, classified, by rw [image, spelled]⟩

/-! ### Identifiers -/

/-- An identifier is made of name characters, after a caret at most. -/
theorem identifier_of_classify {keywords : List String} {c : Char} {rest : List Char} {n : Nat}
    (h : classify keywords c rest = (.token .identifier, n)) :
    (isNameStart c = true ∨ c = '^') ∧ ∀ d ∈ rest.take n, isNamePart d = true := by
  have parts : ∀ d ∈ rest.take (runLength isNamePart rest), isNamePart d = true := by
    rw [take_runLength]
    exact List.all_eq_true.1 List.all_takeWhile
  cases begins_of_classify h rfl with
  | name start => exact ⟨.inl start, parts⟩
  | caret escape => exact ⟨.inr escape, parts⟩

/-- No point stands in an identifier. -/
theorem not_mem_image_of_identifier {keywords : List String} {text : String} {t : Token}
    (h : t ∈ (tokenize keywords text).tokens) (kind : t.kind = .identifier) :
    '.' ∉ t.image.toList := by
  obtain ⟨c, rest, n, classified, image⟩ := exists_classify h
  rw [kind] at classified
  obtain ⟨first, parts⟩ := identifier_of_classify classified
  rw [image, String.toList_ofList, List.mem_cons]
  rintro (rfl | mem)
  · exact absurd first (by decide)
  · exact absurd (parts _ mem) (by decide)

/-! ### One behind the other -/

theorem inOrder_place {segments : List Segment}
    (solid : ∀ s ∈ segments, s.verdict ≠ .stray → s.text ≠ []) (offset : Nat) :
    Token.InOrder (place offset segments).tokens ∧
      ∀ t ∈ (place offset segments).tokens, offset ≤ t.offset := by
  induction segments generalizing offset with
  | nil => exact ⟨⟨nofun, .nil⟩, nofun⟩
  | cons s rest ih =>
    obtain ⟨ordered, behind⟩ := ih (fun u mem => solid u (List.mem_cons_of_mem _ mem))
      (offset + (String.ofList s.text).utf8ByteSize)
    have further : ∀ t ∈ (place (offset + (String.ofList s.text).utf8ByteSize) rest).tokens,
        offset ≤ t.offset := fun t mem => Nat.le_trans (Nat.le_add_right _ _) (behind t mem)
    rw [place]
    cases verdict : s.verdict with
    | token kind =>
      have some : s.text ≠ [] := solid s List.mem_cons_self (by rw [verdict]; nofun)
      have size : 0 < (String.ofList s.text).utf8ByteSize := by
        obtain ⟨c, cs, eq⟩ := List.exists_cons_of_ne_nil some
        have positive := c.utf8Size_pos
        rw [utf8ByteSize_ofList, eq, Text.byteLength]
        omega
      refine ⟨⟨?_, List.pairwise_cons.2 ⟨behind, ordered.apart⟩⟩, ?_⟩
      · rintro t mem
        rcases List.mem_cons.1 mem with rfl | mem
        · exact Nat.lt_add_of_pos_right size
        · exact ordered.solid t mem
      · rintro t mem
        rcases List.mem_cons.1 mem with rfl | mem
        · exact Nat.le_refl _
        · exact further t mem
    | _ => exact ⟨ordered, further⟩

/-- The tokens of a text stand one behind the other. -/
theorem inOrder_tokenize (keywords : List String) (text : String) :
    Token.InOrder (tokenize keywords text).tokens := by
  refine (inOrder_place (fun s mem token => ?_) 0).1
  obtain ⟨c, rest, n, -, spelled⟩ := classify_of_mem_segmentsFrom (mem_of_mem_joinStrays mem token)
  rw [spelled]
  exact List.cons_ne_nil _ _

end Lexer

end Workbench
