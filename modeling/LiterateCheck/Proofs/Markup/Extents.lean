import Mathlib.Data.List.Infix
import LiterateCheck.Fence
import LiterateCheck.Proofs.Markup.TopLevel
import LiterateCheck.Proofs.Text.Splitting

/-!
# The lines of a fenced block

Whatever a document holds, a block of code takes the lines that its span says.
1. What a line has left behind its containers is the end of the line (`continueFrames_suffix`,
   `openFrames_sound`), so a row of a block holds no line feed.
2. Before each line an open fence has taken one row for each line since its own
   (`OpenFence.StandsBefore`), and every block that was closed was closed so (`Code.IsPlaced`). Both
   are kept by a line (`Sound.readLine`) and so by all of them (`Sound.readLines`).
3. So the body of a fence has no more lines than its span, the first one left out, with one
   exception: an empty body has a line of its own (`Fence.extent_of_mem_scan`).
-/

namespace LiterateCheck

namespace Markup

/-! ## What is left of a line -/

theorem Cell.unindented?_suffix {cells line : List Cell} (h : unindented? cells = some line) :
    line <:+ cells := by
  unfold unindented? at h
  split at h
  · cases h
    exact List.drop_suffix ..
  · cases h

namespace Container

theorem quoted?_suffix {cells rest : List Cell} (h : quoted? cells = some rest) :
    rest <:+ cells := by
  unfold quoted? at h
  split at h
  · rename_i tail hline
    cases h
    exact (List.drop_suffix ..).trans
      ((List.suffix_cons ..).trans (Cell.unindented?_suffix hline))
  · cases h

theorem indented?_suffix {width : Nat} {cells rest : List Cell}
    (h : indented? width cells = some rest) : rest <:+ cells := by
  unfold indented? at h
  split at h
  · cases h
    exact List.drop_suffix ..
  · cases h

theorem continue?_suffix {container after : Container} {cells rest : List Cell}
    (h : container.continue? cells = some (after, rest)) : rest <:+ cells := by
  unfold continue? at h
  split at h
  · obtain ⟨tail, htail, heq⟩ := Option.map_eq_some_iff.1 h
    cases heq
    exact quoted?_suffix htail
  · split at h
    · split at h
      · cases h
      · cases h
        exact List.drop_suffix ..
    · obtain ⟨tail, htail, heq⟩ := Option.map_eq_some_iff.1 h
      cases heq
      exact indented?_suffix htail
  · split at h
    · cases h
      exact List.drop_suffix ..
    · obtain ⟨tail, htail, heq⟩ := Option.map_eq_some_iff.1 h
      cases heq
      exact indented?_suffix htail

theorem listItem?_suffix {interrupts : Bool} {cells rest : List Cell} {item : Container}
    (h : listItem? interrupts cells = some (item, rest)) : rest <:+ cells := by
  unfold listItem? at h
  simp only [Option.bind_eq_bind, Option.bind_eq_some_iff] at h
  obtain ⟨line, hline, marker, -, h⟩ := h
  have hrest : line.drop marker <:+ cells :=
    (List.drop_suffix ..).trans (Cell.unindented?_suffix hline)
  split at h
  · split at h
    · cases h
    · cases h
      exact hrest
  · split at h
    · cases h
    · cases h
      exact (List.drop_suffix ..).trans hrest

theorem footnote?_suffix {cells rest : List Cell} {note : Container}
    (h : footnote? cells = some (note, rest)) : rest <:+ cells := by
  unfold footnote? at h
  simp only [Option.bind_eq_bind, Option.bind_eq_some_iff] at h
  obtain ⟨line, hline, h⟩ := h
  split at h
  · rename_i tail
    simp only [Option.bind_eq_some_iff] at h
    obtain ⟨after, -, h⟩ := h
    split at h
    · cases h
      exact (List.dropWhile_suffix _).trans ((List.drop_suffix ..).trans
        ((List.suffix_cons ..).trans ((List.suffix_cons ..).trans
          (Cell.unindented?_suffix hline))))
    · cases h
  · cases h

theorem start?_suffix {interrupts : Bool} {cells rest : List Cell} {container : Container}
    (h : start? interrupts cells = some (container, rest)) : rest <:+ cells := by
  unfold start? at h
  split at h
  · rename_i tail htail
    cases h
    exact quoted?_suffix htail
  · split at h
    · rename_i found hitem
      cases h
      exact listItem?_suffix hitem
    · exact footnote?_suffix h

end Container

theorem lineFeed_not_mem_text {cells : List Cell} {line : List Char}
    (h : cells <:+ Cell.ofText 0 line) (hline : '\n' ∉ line) : '\n' ∉ Cell.text cells := by
  intro hmem
  have hsuffix : Cell.text cells <:+ Cell.text (Cell.ofText 0 line) := h.filterMap _
  rw [Cell.text_ofText] at hsuffix
  exact hline (hsuffix.subset hmem)

/-! ## Fences and blocks in their place -/

/-- An open fence before a line: it has a row for each line since its own. -/
structure OpenFence.StandsBefore (fence : OpenFence) (number : Nat) : Prop where
  pos : 1 ≤ fence.start
  lines : fence.start + fence.rows.length + 1 = number
  plain : ∀ row ∈ fence.rows, '\n' ∉ row

/-- A block that was closed before or with a line. It ends with the line if it `feeds` into it, and
with the one before if it does not. -/
def Code.IsPlaced (code : Code) : Prop :=
  ∃ (fence : OpenFence) (number : Nat) (feeds : Bool), fence.StandsBefore number ∧
    code = fence.close (if feeds then number else number - 1) feeds

theorem OpenFence.StandsBefore.addRow {fence : OpenFence} {number : Nat}
    (h : fence.StandsBefore number) {cells : List Cell} (hcells : '\n' ∉ Cell.text cells) :
    (fence.addRow cells).StandsBefore (number + 1) where
  pos := h.pos
  lines := by
    have hlines := h.lines
    show fence.start + (fence.rows.length + 1) + 1 = number + 1
    omega
  plain := by
    refine List.forall_mem_cons.2 ⟨fun hmem => hcells ?_, h.plain⟩
    have hsuffix : Cell.text (Cell.dropSpaces fence.indent cells) <:+ Cell.text cells :=
      List.IsSuffix.filterMap _ (List.drop_suffix ..)
    exact hsuffix.subset hmem

theorem OpenFence.standsBefore_of_open? {fence : OpenFence} {number : Nat} {cells : List Cell}
    (hpos : 1 ≤ number) (h : open? number cells = some fence) :
    fence.StandsBefore (number + 1) := by
  unfold open? at h
  simp only [Option.bind_eq_bind, Option.bind_eq_some_iff] at h
  obtain ⟨line, -, mark, -, h⟩ := h
  split at h
  · cases h
  · split at h
    · cases h
    · cases h
      exact ⟨hpos, rfl, by simp⟩

namespace Flow

/-- The fence that is open stands before a line. -/
def StandsBefore (flow : Flow) (number : Nat) : Prop :=
  ∀ fence, flow.block = .fence fence → fence.StandsBefore number

theorem standsBefore_of_block_eq_idle {flow : Flow} (h : flow.block = .idle) (number : Nat) :
    flow.StandsBefore number := by
  intro fence hfence
  rw [h] at hfence
  cases hfence

theorem takeFresh_standsBefore (flow : Flow) {arrival : Arrival} (hpos : 1 ≤ arrival.number)
    (cells : List Cell) : (flow.takeFresh arrival cells).StandsBefore (arrival.number + 1) := by
  unfold takeFresh
  intro fence hfence
  split at hfence
  · cases hfence
  split at hfence
  · split at hfence <;> cases hfence
  dsimp only at hfence
  split at hfence
  · rename_i opened hopen
    cases hfence
    exact OpenFence.standsBefore_of_open? hpos hopen
  · -- no other line opens a fence
    repeat' split at hfence
    all_goals cases hfence

theorem takeAfterCandidate_standsBefore (headCells : Nat) {arrival : Arrival}
    (hpos : 1 ≤ arrival.number) (cells : List Cell) :
    (takeAfterCandidate headCells arrival cells).StandsBefore (arrival.number + 1) := by
  unfold takeAfterCandidate
  extract_lets row
  split
  · exact standsBefore_of_block_eq_idle rfl _
  · exact takeFresh_standsBefore takeText hpos cells

/-- **A line for the flow.** An open fence has a row more, and a block that ends has its place. -/
theorem take_standsBefore {flow : Flow} (arrival : Arrival) (hpos : 1 ≤ arrival.number)
    (hflow : flow.StandsBefore arrival.number) {cells : List Cell}
    (hcells : '\n' ∉ Cell.text cells) :
    (flow.take arrival cells).1.StandsBefore (arrival.number + 1) ∧
      ∀ code ∈ (flow.take arrival cells).2, code.IsPlaced := by
  unfold take
  split
  · exact ⟨takeFresh_standsBefore flow hpos cells, by simp⟩
  · exact ⟨takeAfterCandidate_standsBefore _ hpos cells, by simp⟩
  · rename_i fence hfence
    have hstands := hflow fence hfence
    split
    · refine ⟨takeFresh_standsBefore takeBreak hpos cells, ?_⟩
      rintro code ⟨⟩
      exact ⟨fence, arrival.number, false, hstands, rfl⟩
    · split
      · refine ⟨standsBefore_of_block_eq_idle rfl _, ?_⟩
        rintro code ⟨⟩
        exact ⟨fence, arrival.number, true, hstands, rfl⟩
      · refine ⟨?_, by simp⟩
        rintro other ⟨⟩
        exact hstands.addRow hcells
  · rename_i kind hkind
    split
    · exact ⟨takeFresh_standsBefore takeBreak hpos cells, by simp⟩
    · split
      · exact ⟨standsBefore_of_block_eq_idle rfl _, by simp⟩
      · refine ⟨?_, by simp⟩
        intro fence hfence
        rw [hkind] at hfence
        cases hfence

/-- A block that ends because something else begins has its place. -/
theorem isPlaced_of_finish {flow : Flow} {number : Nat} (hflow : flow.StandsBefore number)
    (lazy : Bool) : ∀ code ∈ flow.finish number lazy true, code.IsPlaced := by
  unfold finish
  split
  · rename_i fence hfence
    have hstands := hflow fence hfence
    cases lazy with
    | true =>
      rintro code ⟨⟩
      exact ⟨fence, number, false, hstands, rfl⟩
    | false =>
      rintro code ⟨⟩
      exact ⟨fence, number, true, hstands, rfl⟩
  · simp

theorem isPlaced_of_finish_last {flow : Flow} {number : Nat}
    (hflow : flow.StandsBefore (number + 1)) (lazy : Bool) :
    ∀ code ∈ flow.finish number lazy false, code.IsPlaced := by
  unfold finish
  split
  · rename_i fence hfence
    rw [Bool.and_false, if_neg Bool.false_ne_true]
    rintro code ⟨⟩
    exact ⟨fence, number + 1, false, hflow fence hfence, rfl⟩
  · simp

end Flow

/-! ## Readers -/

namespace Reader

/-- The blocks of a row of open containers. -/
def codesOfFrames (frames : List Frame) : List Code :=
  frames.flatMap fun frame => Node.codesOfList frame.children

/-- The blocks that were read. -/
def codes (reader : Reader) : List Code :=
  Node.codesOfList reader.nodes ++ codesOfFrames reader.frames

theorem codesOfFrames_putInto (node : Node) (frames : List Frame) :
    codesOfFrames (putInto node frames) ⊆ codesOfFrames frames ++ node.codes := by
  unfold codesOfFrames
  induction frames with
  | nil => simp [putInto]
  | cons frame inner ih =>
    cases inner with
    | nil => simp [putInto, Node.codesOfList_append, Node.codesOfList]
    | cons next inner =>
      rw [putInto, List.flatMap_cons, List.flatMap_cons, List.append_assoc]
      · exact List.append_subset.2
          ⟨List.subset_append_left .., List.subset_append_of_subset_right _ ih⟩
      · exact List.cons_ne_nil _ _

theorem codes_put? (reader : Reader) (node? : Option Node) :
    (reader.put? node?).codes ⊆ reader.codes ++ Node.codesOfList node?.toList := by
  cases node? with
  | none => exact List.subset_append_left ..
  | some node =>
    have hnode : Node.codesOfList (some node).toList = node.codes := List.append_nil _
    rw [hnode]
    unfold put? codes
    show Node.codesOfList (reader.put node).nodes ++ codesOfFrames (reader.put node).frames ⊆ _
    unfold put
    split
    · rename_i hframes
      rw [hframes]
      simp [Node.codesOfList_append, Node.codesOfList, codesOfFrames]
    · rw [List.append_assoc]
      exact List.append_subset.2 ⟨List.subset_append_left ..,
        List.subset_append_of_subset_right _ (codesOfFrames_putInto node _)⟩

/-- The containers hold the same blocks when they are closed into one node. -/
theorem codesOfList_close? (frames : List Frame) :
    Node.codesOfList (Frame.close? frames).toList = codesOfFrames frames := by
  induction frames with
  | nil => rfl
  | cons frame inner ih =>
    unfold codesOfFrames at ih ⊢
    rw [List.flatMap_cons, ← ih]
    simp [Frame.close?, Node.codesOfList, Node.codes, Node.codesOfList_append]

theorem codes_closeAfter (reader : Reader) (count : Nat) :
    (reader.closeAfter count).codes ⊆ reader.codes := by
  unfold closeAfter
  refine List.Subset.trans (codes_put? ..) ?_
  rw [codesOfList_close?]
  have hframes : codesOfFrames reader.frames =
      codesOfFrames (reader.frames.take count) ++ codesOfFrames (reader.frames.drop count) := by
    unfold codesOfFrames
    rw [← List.flatMap_append, List.take_append_drop]
  unfold codes
  rw [hframes, List.append_assoc]
  exact List.Subset.refl _

theorem codesOfFrames_continueFrames (frames : List Frame) (cells : List Cell) :
    codesOfFrames (continueFrames frames cells).1 = codesOfFrames frames := by
  induction frames generalizing cells with
  | nil => rfl
  | cons frame inner ih =>
    unfold continueFrames
    split
    · rfl
    · rename_i container rest _
      have hinner := ih rest
      unfold codesOfFrames at hinner ⊢
      dsimp only
      rw [List.flatMap_cons, List.flatMap_cons, hinner]

theorem continueFrames_suffix (frames : List Frame) (cells : List Cell) :
    (continueFrames frames cells).2.2 <:+ cells := by
  induction frames generalizing cells with
  | nil => exact List.suffix_refl _
  | cons frame inner ih =>
    unfold continueFrames
    split
    · exact List.suffix_refl _
    · rename_i container rest hrest
      exact (ih rest).trans (Container.continue?_suffix hrest)

/-- A reader before a line: an open fence has taken the lines since its own, and every block has its
place. -/
structure Sound (reader : Reader) (number : Nat) : Prop where
  standing : reader.flow.StandsBefore number
  placed : ∀ code ∈ reader.codes, code.IsPlaced

/-- The blocks of a later reader are those of an earlier one, and perhaps one more. -/
theorem placed_of_subset {reader after : Reader} {code? : Option Code}
    (h : ∀ code ∈ reader.codes, code.IsPlaced) (hcode : ∀ code ∈ code?, code.IsPlaced)
    (hsubset : after.codes ⊆ reader.codes ++ code?.toList) :
    ∀ code ∈ after.codes, code.IsPlaced := by
  intro code hmem
  rcases List.mem_append.1 (hsubset hmem) with hold | hnew
  · exact h code hold
  · exact hcode code (Option.mem_toList.1 hnew)

theorem codes_put?_block (reader : Reader) (code? : Option Code) :
    (reader.put? (code?.map .block)).codes ⊆ reader.codes ++ code?.toList := by
  have hput := codes_put? reader (code?.map .block)
  cases code? with
  | none => exact hput
  | some code => exact hput

theorem Sound.abandon {reader : Reader} {number : Nat} (h : reader.Sound number) (count : Nat) :
    (reader.abandon number count).Sound number where
  standing := Flow.standsBefore_of_block_eq_idle rfl number
  placed := by
    refine placed_of_subset h.placed (Flow.isPlaced_of_finish h.standing reader.lazy) ?_
    exact List.Subset.trans (codes_closeAfter _ count) (codes_put?_block ..)

theorem Sound.open {reader : Reader} {number : Nat} (h : reader.Sound number)
    (container : Container) :
    ({ reader with frames := reader.frames ++ [⟨container, []⟩] } : Reader).Sound number where
  standing := h.standing
  placed := by
    have hcodes : codesOfFrames (reader.frames ++ [⟨container, []⟩]) =
        codesOfFrames reader.frames := by
      simp [codesOfFrames, Node.codesOfList]
    have hplaced := h.placed
    unfold codes at hplaced ⊢
    rw [hcodes]
    exact hplaced

/-- Opening the containers of a line keeps what was read, and leaves the end of the line. -/
theorem openFrames_sound {number : Nat} (opening : Opening)
    (h : opening.reader.Sound number) :
    (openFrames number opening).reader.Sound number ∧
      (openFrames number opening).cells <:+ opening.cells := by
  fun_induction openFrames number opening with
  | case1 opening reader inAll hconcrete => exact ⟨h, List.suffix_refl _⟩
  | case2 opening reader inAll hconcrete hstart => exact ⟨h, List.suffix_refl _⟩
  | case3 opening reader inAll hconcrete container rest hstart reader' ih =>
    have hreader' : reader'.Sound number := by
      show Sound (if inAll = true then reader else reader.abandon number opening.count) number
      split
      · exact h
      · exact h.abandon opening.count
    obtain ⟨hsound, hsuffix⟩ := ih (hreader'.open container)
    exact ⟨hsound, hsuffix.trans (Container.start?_suffix hstart)⟩

/-- The end of a line closes containers, and nothing else. -/
theorem Sound.endLine {reader : Reader} {number : Nat} (h : reader.Sound number) (count : Nat)
    (lazy : Bool) : (reader.endLine count lazy).Sound number := by
  unfold Reader.endLine
  dsimp only
  by_cases hkept : (!lazy || (reader.acceptsLazy && reader.flow.acceptsLazy)) = true
  · rw [if_pos hkept]
    exact ⟨h.standing, h.placed⟩
  · rw [if_neg hkept]
    exact ⟨h.standing, fun code hmem => h.placed code (codes_closeAfter reader count hmem)⟩

theorem Sound.readLine {reader : Reader} {number : Nat} (h : reader.Sound number)
    (hpos : 1 ≤ number) {line : List Char} (hline : '\n' ∉ line) :
    (reader.readLine number line).Sound (number + 1) := by
  unfold Reader.readLine
  have hframes := codesOfFrames_continueFrames reader.frames (Cell.ofText 0 line)
  have hleft := continueFrames_suffix reader.frames (Cell.ofText 0 line)
  rcases hcontinued : continueFrames reader.frames (Cell.ofText 0 line) with ⟨frames, count, cells⟩
  rw [hcontinued] at hframes hleft
  dsimp only at hframes hleft ⊢
  have hcontinues : ({ reader with frames := frames } : Reader).Sound number := by
    refine ⟨h.standing, ?_⟩
    have hplaced := h.placed
    unfold codes at hplaced ⊢
    rw [hframes]
    exact hplaced
  obtain ⟨hopened, hsuffix⟩ :=
    openFrames_sound ⟨{ reader with frames := frames }, count, false, cells⟩ hcontinues
  generalize openFrames number ⟨{ reader with frames := frames }, count, false, cells⟩ = opening
    at hopened hsuffix ⊢
  have hcells := lineFeed_not_mem_text (hsuffix.trans hleft) hline
  generalize (opening.count != opening.reader.frames.length) = lazy
  obtain ⟨hflow, hcode⟩ :=
    Flow.take_standsBefore ⟨number, lazy, opening.pierces⟩ hpos hopened.standing hcells
  refine Sound.endLine ⟨hflow, ?_⟩ opening.count lazy
  exact placed_of_subset hopened.placed hcode (codes_put?_block ..)

theorem Sound.readLines {reader : Reader} {number : Nat} (h : reader.Sound number)
    (hpos : 1 ≤ number) {lines : List (List Char)} (hlines : ∀ line ∈ lines, '\n' ∉ line) :
    (reader.readLines number lines).Sound (number + lines.length) := by
  induction lines generalizing reader number with
  | nil => exact h
  | cons line others ih =>
    obtain ⟨hline, hothers⟩ := List.forall_mem_cons.1 hlines
    have hread := ih (h.readLine hpos hline) (Nat.le_add_left ..) hothers
    rw [List.length_cons, Nat.add_comm others.length, ← Nat.add_assoc]
    exact hread

theorem sound_start : start.Sound 1 where
  standing := Flow.standsBefore_of_block_eq_idle rfl 1
  placed := by simp [codes, start, Node.codesOfList, codesOfFrames]

theorem placed_finish {reader : Reader} (h : ∀ code ∈ reader.codes, code.IsPlaced) {number : Nat}
    {feeds : Bool} (hcode : ∀ code ∈ reader.flow.finish number reader.lazy feeds, code.IsPlaced) :
    ∀ code ∈ Node.codesOfList (reader.finish number feeds), code.IsPlaced := by
  have hclosed := placed_of_subset h hcode
    (List.Subset.trans (codes_closeAfter _ 0) (codes_put?_block reader _))
  intro code hmem
  exact hclosed code (List.mem_append_left _ hmem)

end Reader

/-- Every block of a document has its place. -/
theorem placed_outline (text : List Char) :
    ∀ code ∈ Node.codesOfList (outline text), code.IsPlaced := by
  unfold outline
  extract_lets shown rows
  have hrows : ∀ row ∈ rows, '\n' ∉ row := fun row hrow => Text.not_mem_of_mem_splitOn hrow
  have hne : rows ≠ [] := List.splitOn_ne_nil '\n' shown
  have hlength : 1 + rows.dropLast.length = rows.length := by
    have hpos := List.length_pos_of_ne_nil hne
    rw [List.length_dropLast]
    omega
  split
  · have hread := Reader.sound_start.readLines (Nat.le_refl 1) fun row hrow =>
      hrows row (List.dropLast_subset rows hrow)
    rw [hlength] at hread
    exact Reader.placed_finish hread.placed (Flow.isPlaced_of_finish hread.standing _)
  · have hread := Reader.sound_start.readLines (Nat.le_refl 1) hrows
    rw [Nat.add_comm] at hread
    exact Reader.placed_finish hread.placed (Flow.isPlaced_of_finish_last hread.standing _)

/-! ## Bodies and spans -/

namespace OpenFence

theorem length_lines_dropFinalFeed_le (text : List Char) :
    (Text.lines (dropFinalFeed text)).length ≤ (Text.lines text).length := by
  unfold dropFinalFeed
  split
  · rename_i hlast
    obtain ⟨front, rfl⟩ := List.getLast?_eq_some_iff.1 (beq_iff_eq.1 hlast)
    rw [List.dropLast_concat]
    unfold Text.lines
    rw [List.splitOn_append_cons_self, List.length_append]
    exact Nat.le_add_right ..
  · exact Nat.le_refl _

/-- A block shows a line for each of its rows at most, and one when it has none. -/
theorem length_lines_value_le {fence : OpenFence} (h : ∀ row ∈ fence.rows, '\n' ∉ row)
    (feeds : Bool) : (Text.lines (fence.value feeds)).length ≤ max 1 fence.rows.length := by
  unfold value
  have hplain : ∀ row ∈ fence.rows.reverse, '\n' ∉ row := fun row hrow =>
    h row (List.mem_reverse.1 hrow)
  have hlength : fence.rows.reverse.length = fence.rows.length := List.length_reverse
  rw [← hlength]
  clear hlength
  generalize fence.rows.reverse = rows at hplain
  by_cases hne : rows = []
  · subst hne
    cases feeds <;> decide
  · have hlines : Text.lines (Text.unlines rows) = rows :=
      List.splitOn_intercalate '\n' hplain hne
    have hcut : (Text.lines (dropFinalFeed (Text.unlines rows ++
        if feeds = true then ['\n'] else []))).length ≤ rows.length := by
      cases feeds with
      | true =>
        rw [if_pos rfl, dropFinalFeed_append, hlines]
      | false =>
        rw [if_neg Bool.false_ne_true, List.append_nil]
        exact (length_lines_dropFinalFeed_le _).trans_eq (congrArg _ hlines)
    dsimp only
    rw [flatMap_feed hne, List.cons_append, List.drop_succ_cons, List.drop_zero]
    omega

end OpenFence

theorem Code.IsPlaced.extent {code : Code} (h : code.IsPlaced) :
    ∃ first last, code.span? = some ⟨first, last⟩ ∧ 1 ≤ first ∧ first ≤ last ∧
      (Text.lines code.value.toList).length ≤ max 1 (last - first) := by
  obtain ⟨fence, number, feeds, hstands, rfl⟩ := h
  have hlines := hstands.lines
  have hle := OpenFence.length_lines_value_le hstands.plain feeds
  refine ⟨_, _, rfl, hstands.pos, ?_, ?_⟩
  · split <;> omega
  · unfold OpenFence.close
    dsimp only
    rw [String.toList_ofList]
    split <;> omega

end Markup

namespace Fence

theorem of_ofCode?_eq_some {code : Markup.Code} {fence : Fence} (h : ofCode? code = some fence) :
    fence.body = code.value ∧ fence.span? = code.span? := by
  unfold ofCode? at h
  simp only [Option.bind_eq_bind, Option.bind_eq_some_iff] at h
  obtain ⟨language, -, h⟩ := h
  split at h
  · rw [← Option.some.inj h]
    exact ⟨rfl, rfl⟩
  · cases h

/-- **Bodies fit into spans.** Every fence of a document has a span. Its body has no more lines than
the span has below the first one; but an empty body counts as a line, and the span of an empty fence
can end with its first line. -/
theorem extent_of_mem_scan {document : String} {fence : Fence} (h : fence ∈ scan document) :
    ∃ first last, fence.span? = some ⟨first, last⟩ ∧ 1 ≤ first ∧ first ≤ last ∧
      (Text.lines fence.body.toList).length ≤ max 1 (last - first) := by
  obtain ⟨code, hcode, hfence⟩ := List.mem_filterMap.1 h
  obtain ⟨hbody, hspan⟩ := of_ofCode?_eq_some hfence
  rw [hbody, hspan]
  exact (Markup.placed_outline _ code hcode).extent

end Fence

end LiterateCheck
