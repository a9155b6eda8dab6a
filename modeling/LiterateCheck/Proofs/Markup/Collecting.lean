import LiterateCheck.Proofs.Markup.Sections
import Mathlib.Data.List.Forall2

/-!
# The fences of a tree

However deep a code block stands, it is found by its address: the index of a node among its
siblings, from the top of the tree down. Addresses in the order of their numbers are the document
from top to bottom.

1. The code blocks of a tree, with their addresses, are those that the addresses lead to, in the
   order of the addresses (`mem_placedFrom_iff`, `pairwise_placedFrom`).
2. A code block is a fence exactly when the words of its language and of what follows it begin with
   a tag for MoonBit, and the fence has these words (`ofCode?_eq_some_iff`).
3. So the fences of a tree are those blocks, in that order (`ofNodes_collects`).
-/

namespace LiterateCheck

namespace Markup

/-! ## Code blocks and their addresses -/

/-- The code block that an address leads to, from a node down. -/
def Node.codeAt? : Node → List Nat → Option Code
  | .block code, [] => some code
  | .container _ children, i :: rest => children[i]?.bind fun child => child.codeAt? rest
  | .block _, _ :: _ => none
  | .container .., [] => none

/-- The code block that an address leads to, from a row of nodes down. -/
def codeAt? (nodes : List Node) : List Nat → Option Code
  | [] => none
  | i :: rest => nodes[i]?.bind fun node => node.codeAt? rest

theorem Node.codeAt?_container (kind : ContainerKind) (children : List Node) (place : List Nat) :
    (Node.container kind children).codeAt? place = Markup.codeAt? children place := by
  cases place with
  | nil => rfl
  | cons i rest => rfl

mutual

/-- The code blocks of a node with their addresses, in document order. -/
def Node.placed : Node → List (List Nat × Code)
  | .block code => [([], code)]
  | .container _ children => placedFrom 0 children

/-- The code blocks of a row of nodes with their addresses, the first node counted as `first`. -/
def placedFrom (first : Nat) : List Node → List (List Nat × Code)
  | [] => []
  | node :: others =>
    (node.placed.map fun (place, code) => (first :: place, code)) ++ placedFrom (first + 1) others

end

mutual

theorem Node.map_snd_placed (node : Node) : node.placed.map Prod.snd = node.codes := by
  cases node with
  | block code => rfl
  | container kind children => exact map_snd_placedFrom 0 children

theorem map_snd_placedFrom (first : Nat) (nodes : List Node) :
    (placedFrom first nodes).map Prod.snd = Node.codesOfList nodes := by
  cases nodes with
  | nil => rfl
  | cons node others =>
    rw [placedFrom, Node.codesOfList, List.map_append, map_snd_placedFrom (first + 1) others,
      List.map_map, ← Node.map_snd_placed node]
    rfl

end

mutual

theorem Node.mem_placed_iff (node : Node) {place : List Nat} {code : Code} :
    (place, code) ∈ node.placed ↔ node.codeAt? place = some code := by
  cases node with
  | block held =>
    rw [Node.placed, List.mem_singleton, Prod.mk.injEq]
    cases place with
    | nil =>
      show _ ↔ some held = some code
      rw [Option.some.injEq, eq_comm (a := held)]
      exact and_iff_right rfl
    | cons i rest =>
      show _ ↔ none = some code
      simp
  | container kind children =>
    rw [Node.placed, mem_placedFrom_iff 0 children, Node.codeAt?_container]
    constructor
    · rintro ⟨i, rest, rfl, h⟩
      rwa [Nat.zero_add]
    · intro h
      cases place with
      | nil => cases h
      | cons i rest => exact ⟨i, rest, by rw [Nat.zero_add], h⟩

/-- The addresses are those that lead to code blocks. -/
theorem mem_placedFrom_iff (first : Nat) (nodes : List Node) {place : List Nat} {code : Code} :
    (place, code) ∈ placedFrom first nodes ↔
      ∃ i rest, place = (first + i) :: rest ∧ codeAt? nodes (i :: rest) = some code := by
  cases nodes with
  | nil =>
    constructor
    · intro h
      cases h
    · rintro ⟨i, rest, -, h⟩
      cases h
  | cons node others =>
    rw [placedFrom, List.mem_append, List.mem_map, mem_placedFrom_iff (first + 1) others]
    constructor
    · rintro (⟨⟨rest, held⟩, hmem, hpair⟩ | ⟨i, rest, rfl, h⟩)
      · obtain ⟨rfl, rfl⟩ := Prod.mk.inj hpair
        exact ⟨0, rest, rfl, (Node.mem_placed_iff node).1 hmem⟩
      · exact ⟨i + 1, rest, by rw [Nat.add_assoc, Nat.add_comm 1], h⟩
    · rintro ⟨_ | i, rest, rfl, h⟩
      · exact .inl ⟨(rest, code), (Node.mem_placed_iff node).2 h, rfl⟩
      · exact .inr ⟨i, rest, by rw [Nat.add_assoc, Nat.add_comm 1], h⟩

end

mutual

theorem Node.pairwise_placed (node : Node) : node.placed.Pairwise fun a b => a.1 < b.1 := by
  cases node with
  | block code => exact List.pairwise_singleton _ _
  | container kind children => exact pairwise_placedFrom 0 children

/-- The addresses come in their order, so what stands before in the document comes before. -/
theorem pairwise_placedFrom (first : Nat) (nodes : List Node) :
    (placedFrom first nodes).Pairwise fun a b => a.1 < b.1 := by
  cases nodes with
  | nil => exact .nil
  | cons node others =>
    rw [placedFrom, List.pairwise_append]
    refine ⟨?_, pairwise_placedFrom (first + 1) others, ?_⟩
    · rw [List.pairwise_map]
      refine (Node.pairwise_placed node).imp fun {a b} hlt => ?_
      exact List.cons_lt_cons_iff.2 (.inr ⟨rfl, hlt⟩)
    · intro a ha b hb
      obtain ⟨inner, -, rfl⟩ := List.mem_map.1 ha
      obtain ⟨i, rest, hplace, -⟩ := (mem_placedFrom_iff (first + 1) others).1 hb
      rw [hplace]
      exact List.cons_lt_cons_iff.2 (.inl (by omega))

end

/-- The addresses of a tree, from its top, are those that lead to code blocks. -/
theorem mem_placedFrom_zero_iff {nodes : List Node} {place : List Nat} {code : Code} :
    (place, code) ∈ placedFrom 0 nodes ↔ codeAt? nodes place = some code := by
  rw [← Node.codeAt?_container .blockQuote]
  exact Node.mem_placed_iff (.container .blockQuote nodes)

end Markup

/-! ## What makes a code block a fence -/

open Markup (Code Node codeAt? placedFrom)

/-- The words of a code block that has a language: those of the language, then those of what
follows it. -/
def codeWords? (code : Code) : Option (List String) :=
  code.language?.map fun language => infoWords language ++ infoWords (code.meta?.getD "")

/-- Whether a word is a tag for MoonBit, in letters of either case. -/
def IsLanguageTag (word : String) : Prop :=
  word.toList.map Char.toLower = "mbt".toList ∨ word.toList.map Char.toLower = "moonbit".toList

theorem namesMoonBit_iff {info : String} :
    namesMoonBit info = true ↔ ∃ tag rest, infoWords info = tag :: rest ∧ IsLanguageTag tag := by
  have htag (tag : String) :
      languageTags.contains (String.ofList (Text.lowerAscii tag.toList)) = true ↔
        IsLanguageTag tag := by
    unfold languageTags IsLanguageTag Text.lowerAscii
    rw [List.contains_iff_mem, List.mem_cons, List.mem_singleton, ← String.toList_inj,
      ← String.toList_inj, String.toList_ofList, or_comm]
  unfold namesMoonBit
  cases infoWords info with
  | nil => simp
  | cons tag rest =>
    rw [htag]
    constructor
    · intro h
      exact ⟨tag, rest, rfl, h⟩
    · rintro ⟨_, _, heq, h⟩
      obtain ⟨rfl, rfl⟩ := List.cons.inj heq
      exact h

theorem ofCode?_eq_some_iff {code : Code} {fence : Fence} :
    Fence.ofCode? code = some fence ↔ ∃ language, code.language? = some language ∧
      namesMoonBit (Fence.joinInfo language code.meta?) = true ∧
      fence = ⟨Fence.joinInfo language code.meta?, code.value, code.span?⟩ := by
  unfold Fence.ofCode?
  cases code.language? with
  | none => simp
  | some language =>
    simp only [Option.bind_eq_bind, Option.bind_some]
    rw [Option.ite_none_right_eq_some, Option.some.injEq]
    constructor
    · rintro ⟨hnames, rfl⟩
      exact ⟨language, rfl, hnames, rfl⟩
    · rintro ⟨other, hlanguage, hnames, rfl⟩
      obtain rfl := Option.some.inj hlanguage
      exact ⟨hnames, rfl⟩

theorem isSome_ofCode?_iff {code : Code} :
    (Fence.ofCode? code).isSome = true ↔
      ∃ tag rest, codeWords? code = some (tag :: rest) ∧ IsLanguageTag tag := by
  rw [Option.isSome_iff_exists]
  simp only [ofCode?_eq_some_iff, namesMoonBit_iff, infoWords_joinInfo]
  unfold codeWords?
  cases code.language? with
  | none => simp
  | some language => simp

/-- A fence has the content and the lines of its block; its directive tokens are the words of the
block after the tag. -/
theorem eq_of_ofCode?_eq_some {code : Code} {fence : Fence} (h : Fence.ofCode? code = some fence) :
    fence.body = code.value ∧ fence.span? = code.span? ∧
      ∃ tag, codeWords? code = some (tag :: fence.directiveTokens) := by
  obtain ⟨language, hlanguage, hnames, rfl⟩ := ofCode?_eq_some_iff.1 h
  obtain ⟨tag, rest, hwords, -⟩ := namesMoonBit_iff.1 hnames
  refine ⟨rfl, rfl, tag, ?_⟩
  unfold codeWords? Fence.directiveTokens
  rw [hlanguage, Option.map_some, ← infoWords_joinInfo, hwords]
  rfl

/-! ## All fences -/

theorem forall₂_filterMap_ofCode? (placed : List (List Nat × Code)) :
    List.Forall₂ (fun block fence => Fence.ofCode? block.2 = some fence)
      (placed.filter fun block => (Fence.ofCode? block.2).isSome)
      ((placed.map Prod.snd).filterMap Fence.ofCode?) := by
  induction placed with
  | nil => exact .nil
  | cons block others ih =>
    rw [List.filter_cons, List.map_cons, List.filterMap_cons]
    cases hcode : Fence.ofCode? block.2 with
    | none => exact ih
    | some fence => exact .cons hcode ih

/-- **The fences of a tree.** They are the code blocks whose words begin with a tag for MoonBit, in
the order of their addresses, however deep they stand. Each has the content and the lines of its
block, and its directive tokens are the words after the tag. The words of an info string are those
of its two parts, blank or not. -/
theorem ofNodes_collects (nodes : List Node) :
    (∃ blocks : List (List Nat × Code),
      blocks.Pairwise (fun a b => a.1 < b.1) ∧
      (∀ place code, (place, code) ∈ blocks ↔ codeAt? nodes place = some code ∧
        ∃ tag rest, codeWords? code = some (tag :: rest) ∧ IsLanguageTag tag) ∧
      List.Forall₂ (fun block fence => fence.body = block.2.value ∧ fence.span? = block.2.span? ∧
        ∃ tag, codeWords? block.2 = some (tag :: fence.directiveTokens))
        blocks (Fence.ofNodes nodes)) ∧
    ∀ language meta?, infoWords (Fence.joinInfo language meta?) =
      infoWords language ++ infoWords (meta?.getD "") := by
  refine ⟨⟨(placedFrom 0 nodes).filter fun block => (Fence.ofCode? block.2).isSome, ?_, ?_, ?_⟩,
    infoWords_joinInfo⟩
  · exact (Markup.pairwise_placedFrom 0 nodes).filter _
  · intro place code
    rw [List.mem_filter, Markup.mem_placedFrom_zero_iff, isSome_ofCode?_iff]
  · unfold Fence.ofNodes
    rw [← Markup.map_snd_placedFrom 0 nodes]
    exact (forall₂_filterMap_ofCode? _).imp fun _ _ => eq_of_ofCode?_eq_some

/-- A blank language leaves the tag to what follows it; a blank inside a language parts its
words. -/
example :
    (Fence.ofNodes [.container .blockQuote [.container .listItem
        [.block ⟨some "\u00a0", some "MBT skip", "a", some ⟨1, 3⟩⟩],
        .block ⟨none, none, "b", none⟩],
      .block ⟨some "moonbit\u2003test", some " ", "c", none⟩]).map
        (fun fence => (fence.body, fence.directiveTokens, fence.span?)) =
      [("a", ["skip"], some ⟨1, 3⟩), ("c", ["test"], none)] := by decide

end LiterateCheck
