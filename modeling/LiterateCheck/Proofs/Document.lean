import LiterateCheck.Proofs.Group
import LiterateCheck.Proofs.Text.ByteOrder

/-!
# The table of some documents

What a table holds is read off the fences of the documents (`ofSources_holds`): a fence is kept
unless one of its tokens drops it, and it goes to the groups that its tokens ask for.
-/

namespace LiterateCheck

/-- A fence and the document it stands in. -/
structure SourceFence where
  document : Path
  fence : Fence

namespace SourceFence

/-- The groups that the fence is meant for. -/
def groups (source : SourceFence) : List String :=
  targets source.fence.directiveTokens

/-- The fence as a block of code. -/
def block (source : SourceFence) : CodeBlock where
  source := source.document
  code := codeFor source.fence.directiveTokens source.fence.body
  span? := source.fence.span?
  wrapped := wraps source.fence.directiveTokens

end SourceFence

/-- The fences of some documents that no token drops, in document order, then in the order of each
document. -/
def keptFences (sources : List (Path × String)) : List SourceFence :=
  (sources.flatMap fun (path, content) => (Fence.scan content).map (SourceFence.mk path)).filter
    fun source => !drops source.fence.directiveTokens

/-- The blocks of the fences that are meant for a group, in order. -/
def fencesFor (key : String) (sources : List (Path × String)) : List CodeBlock :=
  ((keptFences sources).filter fun source => source.groups.contains key).map SourceFence.block

theorem ofFence?_eq (path : Path) (fence : Fence) :
    Placement.ofFence? path fence =
      if drops fence.directiveTokens then none
      else some ⟨(SourceFence.mk path fence).groups, (SourceFence.mk path fence).block⟩ := by
  unfold Placement.ofFence?
  rw [interpret_eq]
  by_cases hdrops : drops fence.directiveTokens = true
  · rw [if_pos hdrops, if_pos hdrops]
  · rw [if_neg hdrops, if_neg hdrops]
    rfl

/-- The placements of some documents are those of the fences that are kept. -/
theorem placements_eq (sources : List (Path × String)) :
    (sources.flatMap fun (path, content) => Placement.ofDocument path content) =
      (keptFences sources).map fun source => ⟨source.groups, source.block⟩ := by
  have hdocument (path : Path) (fences : List Fence) :
      fences.filterMap (Placement.ofFence? path) =
        ((fences.map (SourceFence.mk path)).filter
          fun source => !drops source.fence.directiveTokens).map
            fun source => ⟨source.groups, source.block⟩ := by
    induction fences with
    | nil => rfl
    | cons fence others ih =>
      rw [List.filterMap_cons, ofFence?_eq, List.map_cons, List.filter_cons, ih]
      cases drops fence.directiveTokens <;> rfl
  unfold keptFences
  rw [List.filter_flatMap, List.map_flatMap]
  congr 1
  funext ⟨path, content⟩
  exact hdocument path (Fence.scan content)

namespace GroupTable

theorem declared_ofSources (sources : List (Path × String)) (key : String) :
    (ofSources sources).declared key = fencesFor key sources := by
  have hnodup : ∀ placement ∈ (keptFences sources).map fun source =>
      (⟨source.groups, source.block⟩ : Placement), placement.groups.Nodup := by
    intro placement hplacement
    obtain ⟨source, -, rfl⟩ := List.mem_map.1 hplacement
    exact nodup_targets _
  unfold ofSources
  rw [placements_eq, declared_place _ hnodup, declared_empty, List.nil_append]
  unfold blocksFor fencesFor
  rw [List.filter_map, List.map_map]
  rfl

theorem mem_keys_ofSources (sources : List (Path × String)) (key : String) :
    key ∈ (ofSources sources).keys ↔ ∃ source ∈ keptFences sources, key ∈ source.groups := by
  unfold ofSources
  rw [placements_eq, mem_keys_place]
  constructor
  · rintro (⟨placement, hplacement, hkey⟩ | hempty)
    · obtain ⟨source, hsource, rfl⟩ := List.mem_map.1 hplacement
      exact ⟨source, hsource, hkey⟩
    · exact absurd hempty List.not_mem_nil
  · rintro ⟨source, hsource, hkey⟩
    exact .inl ⟨_, List.mem_map_of_mem hsource, hkey⟩

/-- A fence that is meant for a group and for the baseline stands in both parts of what is written
for the group. -/
theorem twice_of_mem {sources : List (Path × String)} {key : String} {source : SourceFence}
    (hsource : source ∈ keptFences sources) (hkey : key ∈ source.groups)
    (hbaseline : baselineGroup ∈ source.groups) :
    [source.block, source.block].Sublist
      (fencesFor key sources ++ fencesFor baselineGroup sources) := by
  have hmem (k : String) (hk : k ∈ source.groups) : source.block ∈ fencesFor k sources :=
    List.mem_map_of_mem (List.mem_filter.2 ⟨hsource, by simpa using hk⟩)
  exact List.Sublist.append (List.singleton_sublist.2 (hmem key hkey))
    (List.singleton_sublist.2 (hmem baselineGroup hbaseline))

/-- **What the table of some documents holds.** A key has a group when some kept fence is meant for
it, and the group holds those fences as blocks, each once and in order. What is written for a key
other than the baseline's are its blocks and then those of the baseline, whether the key has a
group or not; so a fence meant for both is written twice. The keys come in the order of their
bytes, and every fence counts once for each group that it is meant for. -/
theorem ofSources_holds (sources : List (Path × String)) :
    (∀ key, key ∈ (ofSources sources).keys ↔
      ∃ source ∈ keptFences sources, key ∈ source.groups) ∧
    (∀ key ∈ (ofSources sources).keys,
      (ofSources sources).declared? key = some (fencesFor key sources)) ∧
    (∀ key, key ≠ baselineGroup → (ofSources sources).effective key =
      fencesFor key sources ++ fencesFor baselineGroup sources) ∧
    (ofSources sources).effective baselineGroup = fencesFor baselineGroup sources ∧
    (∀ source ∈ keptFences sources, ∀ key ∈ source.groups, key ≠ baselineGroup →
      baselineGroup ∈ source.groups →
        [source.block, source.block].Sublist ((ofSources sources).effective key)) ∧
    (ofSources sources).keys.Pairwise (fun a b => Text.bytes a < Text.bytes b) ∧
    (ofSources sources).blockCount =
      ((keptFences sources).map fun source => source.groups.length).sum := by
  have heffective : ∀ key, key ≠ baselineGroup → (ofSources sources).effective key =
      fencesFor key sources ++ fencesFor baselineGroup sources := by
    intro key hkey
    unfold effective baseline
    rw [if_neg hkey, declared_ofSources, declared_ofSources]
  refine ⟨mem_keys_ofSources sources, ?_, heffective, ?_, ?_, ?_, ?_⟩
  · intro key hkey
    obtain ⟨blocks, hblocks⟩ := Option.isSome_iff_exists.1 ((mem_keys_iff _ _).1 hkey)
    have hdeclared := declared_ofSources sources key
    unfold declared at hdeclared
    rw [hblocks, Option.getD_some] at hdeclared
    rw [hblocks, hdeclared]
  · unfold effective
    rw [if_pos rfl, declared_ofSources]
  · intro source hsource key hkey hne hbaseline
    rw [heffective key hne]
    exact twice_of_mem hsource hkey hbaseline
  · exact List.Pairwise.map _ (fun a b hlt => Text.bytes_lt_bytes hlt) (ofSources sources).sorted
  · unfold ofSources
    rw [placements_eq, blockCount_place, List.map_map]
    exact Nat.zero_add _

end GroupTable

end LiterateCheck
