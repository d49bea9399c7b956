import Workbench.DomainModel.Grammar
import Workbench.Proofs.Linking.Exports
import Workbench.Proofs.Parser.WellFormed

/-!
**What a reference is resolved to.**

A reference is answered by the first fitting description in the scope of the nearest container that has
one, from the node that holds the reference on. If no container has one, the document of the smallest
address that exports one answers. In a tree that was parsed the containers come to an end, also those of a
node that was replaced while the tree was built, so every scope around a reference is asked and the search
stops. The order in which the documents are listed plays no part.
-/

namespace Workbench

namespace Linking

/-- The nodes around a reference, from the one that holds it on. -/
def around (a : Ast) (r : Reference) (k : Nat) : Option NodeId :=
  r.place.bind fun place => a.climb k place.holder

/-- Which description is the answer to a reference, or that there is none. -/
inductive Answers (index : UriMap (List Description)) (a : Ast) (locals : LocalScopes)
    (r : Reference) : Resolution → Prop
  | near {k : Nat} {c : NodeId} {d : Description} (container : around a r k = some c)
      (first : (locals.get c).find? (fits a.types r.text r.target) = some d)
      (nearest : ∀ j < k, ∀ b, around a r j = some b →
        ∀ e ∈ locals.get b, ¬ fits a.types r.text r.target e) :
      Answers index a locals r (.resolved d)
  | far {uri : DocumentUri} {ds : List Description} {d : Description}
      (notNear : ∀ k c, around a r k = some c → ∀ e ∈ locals.get c, ¬ fits a.types r.text r.target e)
      (exported : index.get? uri = some ds)
      (first : ds.find? (fits a.types r.text r.target) = some d)
      (least : ∀ less < uri, ∀ es, index.get? less = some es →
        ∀ e ∈ es, ¬ fits a.types r.text r.target e) :
      Answers index a locals r (.resolved d)
  | nowhere
      (notNear : ∀ k c, around a r k = some c → ∀ e ∈ locals.get c, ¬ fits a.types r.text r.target e)
      (notFar : ∀ uri ds, index.get? uri = some ds → ∀ e ∈ ds, ¬ fits a.types r.text r.target e) :
      Answers index a locals r (.unresolved (unresolvedMessage a.types r))

/-- No scope around a reference and no document has a description that fits. -/
def Unanswered (index : UriMap (List Description)) (a : Ast) (locals : LocalScopes)
    (r : Reference) : Prop :=
  (∀ k c, around a r k = some c → ∀ e ∈ locals.get c, ¬ fits a.types r.text r.target e) ∧
    ∀ uri ds, index.get? uri = some ds → ∀ e ∈ ds, ¬ fits a.types r.text r.target e

/-- The nodes around a reference exist, and they come to an end. -/
structure Enclosed (a : Ast) (r : Reference) : Prop where
  ends : ∃ k, around a r k = none
  within : ∀ k c, around a r k = some c → c < a.nodes.size

variable {index : UriMap (List Description)} {a : Ast} {locals : LocalScopes} {r : Reference}
  {x : Resolution} {d : Description}

/-! ### The walk along containers -/

theorem find?_eq_none_iff {ds : List Description} :
    ds.find? (fits a.types r.text r.target) = none ↔ ∀ e ∈ ds, ¬ fits a.types r.text r.target e :=
  List.find?_eq_none

theorem around_of_place_eq_none (unplaced : r.place = none) (k : Nat) : around a r k = none := by
  rw [around, unplaced]
  rfl

theorem around_of_place {place : Place} (isPlace : r.place = some place) :
    around a r = fun k => a.climb k place.holder := by
  funext k
  rw [around, isPlace]
  rfl

/-- The walk from the holder of a reference asks every scope around it. -/
theorem Enclosed.getElem?_ancestors (enclosed : Enclosed a r) {place : Place}
    (isPlace : r.place = some place) (k : Nat) : (a.ancestors place.holder)[k]? = around a r k := by
  obtain ⟨ends, within⟩ := enclosed
  rw [around_of_place isPlace] at ends within ⊢
  exact Ast.getElem?_ancestors ends within k

/-- The nearest local description is that of the first container in whose scope one fits. -/
theorem nearest?_eq_some (enclosed : Enclosed a r) (found : nearest? a r locals = some d) :
    ∃ k c, around a r k = some c ∧ (locals.get c).find? (fits a.types r.text r.target) = some d ∧
      ∀ j < k, ∀ b, around a r j = some b → ∀ e ∈ locals.get b, ¬ fits a.types r.text r.target e := by
  unfold nearest? at found
  split at found
  · cases found
  · next place isPlace =>
    obtain ⟨before, c, after, split, first, nearer⟩ := List.findSome?_eq_some_iff.1 found
    have walk := enclosed.getElem?_ancestors isPlace
    rw [split] at walk
    refine ⟨before.length, c, ?_, first, fun j less b isAround => ?_⟩
    · rw [← walk]
      simp
    · rw [← walk, List.getElem?_append_left less] at isAround
      exact find?_eq_none_iff.1 (nearer b (List.mem_of_getElem? isAround))

theorem nearest?_eq_none (enclosed : Enclosed a r) (missed : nearest? a r locals = none) (k : Nat)
    (c : NodeId) (isAround : around a r k = some c) :
    ∀ e ∈ locals.get c, ¬ fits a.types r.text r.target e := by
  unfold nearest? at missed
  split at missed
  · next unplaced =>
    rw [around_of_place_eq_none unplaced] at isAround
    cases isAround
  · next place isPlace =>
    rw [← enclosed.getElem?_ancestors isPlace] at isAround
    exact find?_eq_none_iff.1 (List.findSome?_eq_none_iff.1 missed c (List.mem_of_getElem? isAround))

/-! ### The answer -/

/-- Where the containers come to an end, resolving yields the answer. -/
theorem answers_resolve (locals : LocalScopes) (addressed : Addressed index)
    (enclosed : Enclosed a r) :
    Answers index a locals r (resolve a r { locals, exported := exportedIn index }) := by
  unfold resolve
  cases near : nearest? a r locals with
  | some d =>
    obtain ⟨k, c, container, first, nearest⟩ := nearest?_eq_some enclosed near
    exact .near container first nearest
  | none =>
    have notNear := nearest?_eq_none enclosed near
    dsimp only
    rw [smallest_fitting addressed]
    cases far : index.values.findSome? (·.find? (fits a.types r.text r.target)) with
    | some d =>
      obtain ⟨uri, ds, exported, first, least⟩ := (index.findSome?_values_eq_some_iff _ d).1 far
      exact .far notNear exported first fun less isLess es known =>
        find?_eq_none_iff.1 (least less isLess es known)
    | none =>
      have notFar := (index.findSome?_values_eq_none_iff _).1 far
      exact .nowhere notNear fun uri ds exported => find?_eq_none_iff.1 (notFar uri ds exported)

/-- There is no answer exactly where nothing fits. -/
theorem Answers.unresolved_iff (answers : Answers index a locals r x) :
    (∃ message, x = .unresolved message) ↔ Unanswered index a locals r := by
  have fitting : ∀ {ds : List Description} {d : Description},
      ds.find? (fits a.types r.text r.target) = some d →
        ¬ ∀ e ∈ ds, ¬ fits a.types r.text r.target e :=
    fun first none => none _ (List.mem_of_find?_eq_some first) (List.find?_some first)
  cases answers with
  | near container first nearest =>
    exact ⟨nofun, fun unanswered => absurd (unanswered.1 _ _ container) (fitting first)⟩
  | far notNear exported first least =>
    exact ⟨nofun, fun unanswered => absurd (unanswered.2 _ _ exported) (fitting first)⟩
  | nowhere notNear notFar => exact ⟨fun _ => ⟨notNear, notFar⟩, fun _ => ⟨_, rfl⟩⟩

/-- In a well-formed tree the nodes around every reference exist, and they come to an end. -/
theorem enclosed_of_wellFormed (wellFormed : a.WellFormed) (mem : r ∈ a.references) :
    Enclosed a r := by
  have holder : ∀ k x y, a.climb k x = some y → x < a.nodes.size → y < a.nodes.size := by
    intro k
    induction k with
    | zero =>
      rintro x y same isNode
      cases same
      exact isNode
    | succ k ih =>
      intro x y climbed isNode
      obtain ⟨container, isContainer, rest⟩ := Option.bind_eq_some_iff.1 climbed
      obtain ⟨place, isPlace, rfl⟩ := Option.map_eq_some_iff.1 isContainer
      obtain ⟨n, found, isPlace⟩ := Option.bind_eq_some_iff.1 isPlace
      exact ih _ y rest (wellFormed.inRange.holders n (Array.mem_of_getElem? found) place isPlace)
  cases isPlace : r.place with
  | none =>
    have nowhere : ∀ k, around a r k = none := around_of_place_eq_none isPlace
    refine ⟨⟨0, nowhere 0⟩, fun k c isAround => ?_⟩
    rw [nowhere] at isAround
    cases isAround
  | some place =>
    have bound := wellFormed.inRange.referenceHolders r mem place isPlace
    refine ⟨?_, fun k c isAround => ?_⟩
    · rw [around_of_place isPlace]
      exact wellFormed.ends place.holder
    · rw [around_of_place isPlace] at isAround
      exact holder k _ c isAround bound

/-! ### References of a parse -/

/-- **Resolving a reference of a parsed text finds its answer**, in whichever order the documents of the
index are listed. The search along the containers ends, whether the holder hangs in the tree or not, and
it fails exactly where no scope and no document has a description that fits. -/
theorem resolve_parse (p : Parser) (lexed : LexResult) {r : Reference}
    (mem : r ∈ (p.parse lexed).ast.references) (locals : LocalScopes)
    {index : UriMap (List Description)} (addressed : Addressed index) :
    Enclosed (p.parse lexed).ast r ∧
      ∃ x, Answers index (p.parse lexed).ast locals r x ∧
        (∀ documents, documents.Perm index.entries →
          resolve (p.parse lexed).ast r { locals, exported := listed documents } = x) ∧
        ((∃ message, x = .unresolved message) ↔
          Unanswered index (p.parse lexed).ast locals r) := by
  have wellFormed : (p.parse lexed).ast.WellFormed := by
    rw [Parser.parse_eq]
    exact Parser.wellFormed_finish ((p.reaches_ended lexed).tidy (p.tidy_opened lexed))
  have enclosed := enclosed_of_wellFormed wellFormed mem
  have answers := answers_resolve locals addressed enclosed
  exact ⟨enclosed, _, answers, fun documents perm => resolve_listed addressed perm _ r locals,
    answers.unresolved_iff⟩

/-- A text with one reference. -/
def extension : ParseResult := (DomainModel.parser {}).parseText "class C extends X \x7b\x7d"

/-- A class `X`, exported by a document. -/
def exportedClass (uri : DocumentUri) : Description :=
  { name := "X", type := DomainModel.classType, uri, node := 1, nameRange := none }

/-- Two documents that export a class `X` each. -/
def twoExports : UriMap (List Description) :=
  (UriMap.empty.insert "b" [exportedClass "b"]).insert "a" [exportedClass "a"]

/-- No local scopes, and the two documents listed from the greater address to the smaller one. -/
def backwards : LinkContext :=
  { locals := .empty, exported := listed twoExports.entries.reverse }

/-- The class of the document with the smaller address is the answer, although it is listed last. -/
theorem resolve_parse_extension :
    ∃ r ∈ extension.ast.references, Addressed twoExports ∧ Enclosed extension.ast r ∧
      Answers twoExports extension.ast .empty r (.resolved (exportedClass "a")) ∧
      twoExports.entries.reverse.Perm twoExports.entries ∧
      resolve extension.ast r backwards = .resolved (exportedClass "a") := by
  have addressed : Addressed twoExports := by
    intro uri ds known d mem
    simp only [twoExports, UriMap.get?_insert, UriMap.get?_empty] at known
    split at known
    · next here =>
      cases known
      rw [List.mem_singleton.1 mem, here]
      rfl
    · split at known
      · next here =>
        cases known
        rw [List.mem_singleton.1 mem, here]
        rfl
      · cases known
  have perm := twoExports.entries.reverse_perm
  have resolved : extension.ast.references[0]?.map (resolve extension.ast · backwards) =
      some (.resolved (exportedClass "a")) := by decide +kernel
  obtain ⟨r, found, eq⟩ := Option.map_eq_some_iff.1 resolved
  have mem := Array.mem_of_getElem? found
  obtain ⟨enclosed, x, answers, same, -⟩ := resolve_parse (DomainModel.parser {}) _ mem .empty addressed
  obtain rfl := (same _ perm).symm.trans eq
  exact ⟨r, mem, addressed, enclosed, answers, perm, eq⟩

end Linking

end Workbench
