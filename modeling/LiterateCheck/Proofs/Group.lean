import Mathlib.Algebra.GroupWithZero.Nat
import LiterateCheck.Document
import LiterateCheck.Proofs.Directive

/-!
# What a table of groups holds

Blocks are added key by key. In the end a key's group holds the blocks that were meant for it, each
once, in the order in which they were added (`declared_place`), and a key has a group when some
block was meant for it (`mem_keys_place`).
-/

namespace LiterateCheck

theorem length_flatMap_addBlock (key : String) (block : CodeBlock) (groups : List Group) :
    ((addBlock key block groups).flatMap fun group => group.2).length =
      (groups.flatMap fun group => group.2).length + 1 := by
  fun_induction addBlock key block groups with
  | case1 => rfl
  | case2 k blocks others hlt =>
    rw [List.flatMap_cons, List.length_append, List.length_singleton]
    omega
  | case3 blocks others hlt =>
    simp only [List.flatMap_cons, List.length_append, List.length_singleton]
    omega
  | case4 k blocks others hlt hne ih =>
    rw [List.flatMap_cons, List.flatMap_cons, List.length_append, List.length_append, ih]
    omega

/-- The blocks of some placements that are meant for a key, in order. -/
def blocksFor (key : String) (placements : List Placement) : List CodeBlock :=
  (placements.filter fun placement => placement.groups.contains key).map Placement.block

namespace GroupTable

theorem mem_keys_iff (table : GroupTable) (key : String) :
    key ∈ table.keys ↔ (table.declared? key).isSome = true := by
  unfold keys declared?
  rw [List.lookup_isSome_iff]
  simp

theorem mem_keys_add (table : GroupTable) (key : String) (block : CodeBlock) (k : String) :
    k ∈ (table.add key block).keys ↔ k = key ∨ k ∈ table.keys := by
  rw [mem_keys_iff, mem_keys_iff]
  show ((addBlock key block table.groups).lookup k).isSome = true ↔ _
  rw [lookup_addBlock key block k table.sorted]
  by_cases hk : k = key
  · simp [hk]
  · simp [hk, declared?]

theorem mem_keys_push (table : GroupTable) (keys : List String) (block : CodeBlock) (k : String) :
    k ∈ (table.push keys block).keys ↔ k ∈ keys ∨ k ∈ table.keys := by
  unfold push
  induction keys generalizing table with
  | nil => simp
  | cons key others ih =>
    rw [List.foldl_cons, ih, mem_keys_add, List.mem_cons]
    constructor
    · rintro (h | h | h)
      · exact .inl (.inr h)
      · exact .inl (.inl h)
      · exact .inr h
    · rintro ((h | h) | h)
      · exact .inr (.inl h)
      · exact .inl h
      · exact .inr (.inr h)

/-- A block pushed to different keys stands last in each of their groups. -/
theorem declared_push (table : GroupTable) {keys : List String} (hkeys : keys.Nodup)
    (block : CodeBlock) (k : String) :
    (table.push keys block).declared k =
      table.declared k ++ if keys.contains k then [block] else [] := by
  unfold push
  induction keys generalizing table with
  | nil => simp
  | cons key others ih =>
    obtain ⟨hnew, hothers⟩ := List.nodup_cons.1 hkeys
    rw [List.foldl_cons, ih _ hothers, declared_add]
    by_cases hk : k = key
    · subst hk
      simp [hnew]
    · simp [hk]

theorem blockCount_push (table : GroupTable) (keys : List String) (block : CodeBlock) :
    (table.push keys block).blockCount = table.blockCount + keys.length := by
  unfold push
  induction keys generalizing table with
  | nil => rfl
  | cons key others ih =>
    have hadd : (table.add key block).blockCount = table.blockCount + 1 :=
      length_flatMap_addBlock ..
    rw [List.foldl_cons, ih, hadd, List.length_cons]
    omega

/-! ## Placing blocks -/

variable (table : GroupTable) {placements : List Placement}

theorem mem_keys_place (k : String) :
    k ∈ (table.place placements).keys ↔
      (∃ placement ∈ placements, k ∈ placement.groups) ∨ k ∈ table.keys := by
  unfold place
  induction placements generalizing table with
  | nil => simp
  | cons placement others ih =>
    rw [List.foldl_cons, ih, mem_keys_push]
    simp only [List.mem_cons, or_and_right, exists_or, exists_eq_left]
    constructor
    · rintro (h | h | h)
      · exact .inl (.inr h)
      · exact .inl (.inl h)
      · exact .inr h
    · rintro ((h | h) | h)
      · exact .inr (.inl h)
      · exact .inl h
      · exact .inr (.inr h)

theorem declared_place (h : ∀ placement ∈ placements, placement.groups.Nodup) (k : String) :
    (table.place placements).declared k = table.declared k ++ blocksFor k placements := by
  unfold place
  induction placements generalizing table with
  | nil => simp [blocksFor]
  | cons placement others ih =>
    obtain ⟨hplacement, hothers⟩ := List.forall_mem_cons.1 h
    rw [List.foldl_cons, ih _ hothers, declared_push _ hplacement, List.append_assoc]
    unfold blocksFor
    rw [List.filter_cons]
    split <;> rfl

theorem blockCount_place :
    (table.place placements).blockCount =
      table.blockCount + (placements.map fun placement => placement.groups.length).sum := by
  unfold place
  induction placements generalizing table with
  | nil => rfl
  | cons placement others ih =>
    rw [List.foldl_cons, ih, blockCount_push, List.map_cons, List.sum_cons]
    omega

end GroupTable

end LiterateCheck
