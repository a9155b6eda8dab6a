import LiterateCheck.Markup.Reader

/-!
# Fences outside containers

A document of fences alone is read without containers.
1. Between fences the reader holds nothing open (`settled`); the line of a fence without
   indentation opens a block (`readLine_opening`).
2. Inside the block (`inFence`) no line opens anything, whatever it looks like. A line that closes
   the block has the form `ClosesFence` (`closesFence_of_closes`); every other one is content
   (`readLines_content`).
3. What the block holds then are its lines, one under the other (`value_plain`).
-/

namespace LiterateCheck.Markup

/-- The marks of a fence. -/
def delimiter : List Char := ['\x60', '\x60', '\x60']

/-- A line that closes a fence of three backticks: at most three spaces, three or more backticks,
and then only spaces and tabs. -/
def ClosesFence (line : List Char) : Prop :=
  ∃ lead marks blanks, lead ≤ 3 ∧ 3 ≤ marks ∧ (∀ c ∈ blanks, c = ' ' ∨ c = '\t') ∧
    line = List.replicate lead ' ' ++ List.replicate marks '\x60' ++ blanks

/-! ## Indentation -/

namespace Cell

theorem indent_cons_of_isSpace {cell : Cell} (h : isSpace cell = true) (cells : List Cell) :
    indent (cell :: cells) = indent cells + 1 := by
  unfold indent
  rw [List.takeWhile_cons_of_pos h, List.length_cons]

theorem indent_cons_of_not_isSpace {cell : Cell} (h : ¬ isSpace cell = true)
    (cells : List Cell) : indent (cell :: cells) = 0 := by
  unfold indent
  rw [List.takeWhile_cons_of_neg h, List.length_nil]

theorem le_indent_append {blanks : List Cell} (h : ∀ cell ∈ blanks, isSpace cell = true)
    (cells : List Cell) : blanks.length ≤ indent (blanks ++ cells) := by
  unfold indent
  rw [List.takeWhile_append_of_pos h, List.length_append]
  exact Nat.le_add_right _ _

/-- Before the fourth column indentation is made of spaces, since a tab reaches that column. -/
theorem eq_replicate_append_of_indent (column : Nat) (line : List Char)
    (h : column + indent (ofText column line) < 4) :
    line = List.replicate (indent (ofText column line)) ' ' ++
      text ((ofText column line).drop (indent (ofText column line))) := by
  fun_induction ofText column line with
  | case1 => rfl
  | case2 column rest width ih =>
    have hfill : ∀ cell ∈ (List.range' 1 (width - 1)).map fill, isSpace cell = true := by
      intro cell hcell
      obtain ⟨step, -, rfl⟩ := List.mem_map.1 hcell
      rfl
    have hle := le_indent_append hfill (ofText (column + width) rest)
    rw [List.length_map, List.length_range'] at hle
    rw [List.cons_append, indent_cons_of_isSpace rfl] at h
    omega
  | case3 column c rest hc ih =>
    by_cases hspace : c = ' '
    · subst hspace
      rw [indent_cons_of_isSpace rfl] at h ⊢
      rw [List.replicate_succ, List.cons_append, List.drop_succ_cons, ← ih (by omega)]
    · have hnot : ¬ isSpace (char c) = true := fun hblank => hspace (beq_iff_eq.1 hblank)
      rw [indent_cons_of_not_isSpace hnot, List.replicate_zero, List.nil_append, List.drop_zero]
      exact (congrArg (List.cons c) (text_ofText (column + 1) rest)).symm

theorem unindented?_ofText {lead : Nat} (hlead : lead < 4) {line : List Char}
    (hline : indent (ofText lead line) = 0) :
    unindented? (ofText 0 (List.replicate lead ' ' ++ line)) = some (ofText lead line) := by
  have hcells (column : Nat) : ofText column (List.replicate lead ' ' ++ line) =
      List.replicate lead (char ' ') ++ ofText (column + lead) line := by
    clear hlead hline
    induction lead generalizing column with
    | zero => rfl
    | succ lead ih =>
      rw [List.replicate_succ, List.replicate_succ, List.cons_append, List.cons_append,
        Nat.add_comm lead, ← Nat.add_assoc, ← ih]
      rfl
  have hindent : indent (List.replicate lead (char ' ') ++ ofText lead line) = lead := by
    have hspaces : ∀ cell ∈ List.replicate lead (char ' '), isSpace cell = true := by
      intro cell hcell
      rw [List.eq_of_mem_replicate hcell]
      rfl
    unfold indent at hline ⊢
    rw [List.takeWhile_append_of_pos hspaces, List.length_append, hline, List.length_replicate,
      Nat.add_zero]
  unfold unindented?
  rw [hcells, Nat.zero_add, hindent, if_pos hlead, List.drop_left' List.length_replicate]

end Cell

/-! ## The fence -/

namespace OpenFence

/-- The open fence of a section that has some lines so far, the latest first. -/
def plain (start : Nat) (language? meta? : Option String) (rows : List (List Char)) : OpenFence :=
  ⟨'\x60', 3, 0, start, language?, meta?, rows⟩

/-- The first word of an info string. -/
def firstWord (info : List Char) : List Char :=
  info.takeWhile fun c => !isInfoSpace c

/-- What follows the first word of an info string. -/
def afterFirst (info : List Char) : List Char :=
  (info.dropWhile fun c => !isInfoSpace c).dropWhile isInfoSpace

/-- The fence that an info string opens. -/
def openedBy (start : Nat) (info : List Char) : OpenFence :=
  plain start (infoPart? (firstWord info)) (infoPart? (afterFirst info)) []

/-- The block of an info string and some lines. -/
def fenced (start : Nat) (info : List Char) (lines : List (List Char)) : Code where
  language? := infoPart? (firstWord info)
  meta? := infoPart? (afterFirst info)
  value := String.ofList (Text.unlines lines)
  span? := some ⟨start, start + lines.length + 1⟩

theorem drop_length_takeWhile {α : Type} (p : α → Bool) (items : List α) :
    items.drop (items.takeWhile p).length = items.dropWhile p := by
  calc items.drop (items.takeWhile p).length
      = (items.takeWhile p ++ items.dropWhile p).drop (items.takeWhile p).length := by
        rw [List.takeWhile_append_dropWhile]
    _ = items.dropWhile p := List.drop_left

theorem open?_opening (number : Nat) {info : List Char} (hinfo : '\x60' ∉ info)
    (hhead : ∀ c ∈ info.head?, isInfoSpace c = false) :
    open? number (Cell.ofText 0 (delimiter ++ info)) = some (openedBy number info) := by
  have hrun : (delimiter ++ info).takeWhile (· == '\x60') = delimiter := by
    have hmarks : ∀ c ∈ delimiter, (c == '\x60') = true := by simp [delimiter]
    have hnone : info.takeWhile (· == '\x60') = [] := by
      cases info with
      | nil => rfl
      | cons c rest =>
        exact List.takeWhile_cons_of_neg fun heq =>
          hinfo (beq_iff_eq.1 heq ▸ List.mem_cons_self ..)
    rw [List.takeWhile_append_of_pos hmarks, hnone, List.append_nil]
  have hfront : info.dropWhile isInfoSpace = info := by
    cases info with
    | nil => rfl
    | cons c rest => rw [List.dropWhile_cons, hhead c rfl, if_neg Bool.false_ne_true]
  have hline : Cell.unindented? (Cell.ofText 0 (delimiter ++ info)) =
      some (Cell.ofText 0 (delimiter ++ info)) := rfl
  have hcontains : info.contains '\x60' = false := by
    rw [List.contains_eq_mem]
    exact decide_eq_false hinfo
  unfold open?
  rw [hline]
  have hmark : (delimiter ++ info).head? = some '\x60' := rfl
  have hrest : (delimiter ++ info).dropWhile (· == '\x60') = info := by
    rw [← drop_length_takeWhile, hrun]
    exact List.drop_left
  simp only [Option.bind_eq_bind, Option.bind_some, Cell.text_ofText, hmark, hrun, hrest, hfront,
    hcontains, drop_length_takeWhile]
  rw [if_neg (by decide), if_neg (by decide)]
  rfl

/-- A line that closes the block is some marks alone, hardly indented. -/
theorem closesFence_of_closes {start : Nat} {language? meta? : Option String}
    {rows : List (List Char)} {line : List Char}
    (h : (plain start language? meta? rows).closes (Cell.ofText 0 line) = true) :
    ClosesFence line := by
  unfold closes at h
  split at h
  · rename_i rest hrest
    unfold Cell.unindented? at hrest
    split at hrest
    · rename_i hindent
      cases hrest
      have hline := Cell.eq_replicate_append_of_indent 0 line (by omega)
      generalize Cell.indent (Cell.ofText 0 line) = lead at hline hindent h
      generalize Cell.text ((Cell.ofText 0 line).drop lead) = shown at hline h
      simp only [Bool.and_eq_true, decide_eq_true_eq, List.all_eq_true] at h
      obtain ⟨hsize, hblank⟩ := h
      have hrun : shown.takeWhile (· == '\x60') =
          List.replicate (shown.takeWhile (· == '\x60')).length '\x60' :=
        List.eq_replicate_iff.2 ⟨rfl, fun c hc =>
          beq_iff_eq.1 (List.all_eq_true.1 List.all_takeWhile c hc)⟩
      refine ⟨lead, (shown.takeWhile (· == '\x60')).length,
        shown.drop (shown.takeWhile (· == '\x60')).length, by omega, hsize, ?_, ?_⟩
      · intro c hc
        simpa [isInfoSpace] using hblank c hc
      · rw [List.append_assoc, ← hrun, drop_length_takeWhile, List.takeWhile_append_dropWhile]
        exact hline
    · cases hrest
  · cases h

/-- What `closesFence_of_closes` shows is all that it takes. -/
theorem closes_of_closesFence {line : List Char} (h : ClosesFence line) (start : Nat)
    (language? meta? : Option String) (rows : List (List Char)) :
    (plain start language? meta? rows).closes (Cell.ofText 0 line) = true := by
  obtain ⟨lead, marks, blanks, hlead, hmarks, hblanks, rfl⟩ := h
  obtain ⟨more, rfl⟩ : ∃ more, marks = more + 1 := ⟨marks - 1, by omega⟩
  have hblank : ∀ c ∈ blanks, isInfoSpace c = true := by
    intro c hc
    rcases hblanks c hc with rfl | rfl <;> rfl
  have hnone : blanks.takeWhile (· == '\x60') = [] := by
    cases blanks with
    | nil => rfl
    | cons c others =>
      refine List.takeWhile_cons_of_neg fun hc => ?_
      have hspace := hblank c (List.mem_cons_self ..)
      rw [beq_iff_eq.1 hc] at hspace
      exact absurd hspace (by decide)
  have hrun : (List.replicate (more + 1) '\x60' ++ blanks).takeWhile (· == '\x60') =
      List.replicate (more + 1) '\x60' := by
    rw [List.takeWhile_append_of_pos (by simp), hnone, List.append_nil]
  have hrest : (List.replicate (more + 1) '\x60' ++ blanks).drop (more + 1) = blanks :=
    List.drop_left' List.length_replicate
  have hmark : (plain start language? meta? rows).mark = '\x60' := rfl
  unfold closes
  rw [List.append_assoc, Cell.unindented?_ofText (by omega) rfl]
  simp only [Cell.text_ofText, hmark, hrun, List.length_replicate, hrest,
    Bool.and_eq_true, decide_eq_true_eq, List.all_eq_true]
  exact ⟨hmarks, hblank⟩

instance (line : List Char) : Decidable (ClosesFence line) :=
  decidable_of_iff ((plain 0 none none []).closes (Cell.ofText 0 line) = true)
    ⟨closesFence_of_closes, fun h => closes_of_closesFence h 0 none none []⟩

theorem closes_delimiter (start : Nat) (language? meta? : Option String)
    (rows : List (List Char)) :
    (plain start language? meta? rows).closes (Cell.ofText 0 delimiter) = true := rfl

theorem addRow_plain (start : Nat) (language? meta? : Option String) (rows : List (List Char))
    (line : List Char) :
    (plain start language? meta? rows).addRow (Cell.ofText 0 line) =
      plain start language? meta? (line :: rows) := by
  have hline : Cell.dropSpaces 0 (Cell.ofText 0 line) = Cell.ofText 0 line := by
    unfold Cell.dropSpaces
    rw [Nat.zero_min, List.drop_zero]
  unfold addRow plain
  rw [hline, Cell.text_ofText]

theorem flatMap_feed {rows : List (List Char)} (h : rows ≠ []) :
    rows.flatMap ('\n' :: ·) = '\n' :: Text.unlines rows := by
  induction rows with
  | nil => exact absurd rfl h
  | cons row others ih =>
    cases others with
    | nil => simp [Text.unlines]
    | cons next others =>
      rw [List.flatMap_cons, ih (List.cons_ne_nil _ _)]
      unfold Text.unlines
      rw [List.intercalate_cons_cons]
      simp

theorem dropFinalFeed_append (text : List Char) : dropFinalFeed (text ++ ['\n']) = text := by
  unfold dropFinalFeed
  rw [List.getLast?_concat, if_pos (by decide), List.dropLast_concat]

theorem value_plain (start : Nat) (language? meta? : Option String) {rows : List (List Char)}
    (h : rows ≠ []) :
    (plain start language? meta? rows.reverse).value true = Text.unlines rows := by
  have hwritten : (plain start language? meta? rows.reverse).rows.reverse = rows :=
    List.reverse_reverse rows
  unfold value
  rw [hwritten, flatMap_feed h, if_pos rfl, List.cons_append]
  exact dropFinalFeed_append (Text.unlines rows)

end OpenFence

/-! ## Reading -/

theorem Flow.take_fence (fence : OpenFence) (number : Nat) (cells : List Cell) :
    (⟨.fence fence, false, .other⟩ : Flow).take ⟨number, false, false⟩ cells =
      if fence.closes cells then (takeBreak, some (fence.close number true))
      else (⟨.fence (fence.addRow cells), false, .other⟩, none) := rfl

namespace Reader

/-- The state outside all containers. -/
def outside (nodes : List Node) (flow : Flow) : Reader := ⟨nodes, [], flow, false, false⟩

/-- The state between two fences. -/
def settled (nodes : List Node) : Reader := outside nodes .start

/-- The state inside a fence. -/
def inFence (nodes : List Node) (fence : OpenFence) : Reader :=
  outside nodes ⟨.fence fence, false, .other⟩

theorem readLines_append (reader : Reader) (number : Nat) (front back : List (List Char)) :
    reader.readLines number (front ++ back) =
      (reader.readLines number front).readLines (number + front.length) back := by
  induction front generalizing reader number with
  | nil => rfl
  | cons line others ih =>
    rw [List.cons_append, readLines, readLines, ih, List.length_cons]
    congr 1
    omega

theorem put?_outside (nodes : List Node) (flow : Flow) (code? : Option Code) :
    (outside nodes flow).put? (code?.map .block) =
      outside (nodes ++ (code?.map .block).toList) flow := by
  cases code? with
  | none => exact congrArg (outside · flow) (List.append_nil nodes).symm
  | some code => rfl

theorem endLine_outside (nodes : List Node) {flow : Flow} (h : flow.acceptsLazy = false) :
    (outside nodes flow).endLine 0 false = outside nodes flow := by
  have hflow : (outside nodes flow).flow.acceptsLazy = false := h
  unfold endLine
  rw [hflow]
  rfl

theorem readLine_outside {nodes : List Node} {flow after : Flow} {number : Nat} {line : List Char}
    {code? : Option Code}
    (hopen : openFrames number ⟨outside nodes flow, 0, false, Cell.ofText 0 line⟩ =
      ⟨outside nodes flow, 0, false, Cell.ofText 0 line⟩)
    (hflow : flow.take ⟨number, false, false⟩ (Cell.ofText 0 line) = (after, code?))
    (hafter : after.acceptsLazy = false) :
    (outside nodes flow).readLine number line =
      outside (nodes ++ (code?.map .block).toList) after := by
  have hread : (outside nodes flow).readLine number line =
      ({ (outside nodes flow).put? (code?.map .block) with flow := after } : Reader).endLine 0
        false := by
    unfold outside at hopen ⊢
    unfold readLine
    simp only [continueFrames]
    rw [hopen]
    simp only [bne_self_eq_false, List.length_nil, hflow]
  rw [hread, put?_outside]
  exact endLine_outside _ hafter

theorem readLine_opening (nodes : List Node) (number : Nat) {info : List Char}
    (hinfo : '\x60' ∉ info) (hhead : ∀ c ∈ info.head?, OpenFence.isInfoSpace c = false) :
    (settled nodes).readLine number (delimiter ++ info) =
      inFence nodes (OpenFence.openedBy number info) := by
  have hopen : openFrames number
      ⟨outside nodes .start, 0, false, Cell.ofText 0 (delimiter ++ info)⟩ =
        ⟨outside nodes .start, 0, false, Cell.ofText 0 (delimiter ++ info)⟩ := by
    rw [openFrames]
    rfl
  have hflow : Flow.start.take ⟨number, false, false⟩ (Cell.ofText 0 (delimiter ++ info)) =
      (⟨.fence (OpenFence.openedBy number info), false, .other⟩, none) := by
    have hblank : Cell.isBlankLine (Cell.ofText 0 (delimiter ++ info)) = false := rfl
    have hline : Cell.unindented? (Cell.ofText 0 (delimiter ++ info)) =
        some (Cell.ofText 0 (delimiter ++ info)) := rfl
    change (Flow.start.takeFresh _ _, none) = _
    unfold Flow.takeFresh
    rw [hblank, hline, if_neg Bool.false_ne_true]
    simp only [OpenFence.open?_opening number hinfo hhead]
  have hread := readLine_outside hopen hflow rfl
  rwa [Option.map_none, Option.toList_none, List.append_nil] at hread

theorem readLine_inFence (nodes : List Node) (fence : OpenFence) (number : Nat)
    (line : List Char) :
    (inFence nodes fence).readLine number line =
      if fence.closes (Cell.ofText 0 line) then
        settled (nodes ++ [.block (fence.close number true)])
      else inFence nodes (fence.addRow (Cell.ofText 0 line)) := by
  have hopen : openFrames number ⟨inFence nodes fence, 0, false, Cell.ofText 0 line⟩ =
      ⟨inFence nodes fence, 0, false, Cell.ofText 0 line⟩ := by
    rw [openFrames]
    rfl
  by_cases hcloses : fence.closes (Cell.ofText 0 line) = true
  · have hflow : (⟨.fence fence, false, .other⟩ : Flow).take ⟨number, false, false⟩
        (Cell.ofText 0 line) = (.takeBreak, some (fence.close number true)) := by
      rw [Flow.take_fence, if_pos hcloses]
    rw [if_pos hcloses]
    exact readLine_outside hopen hflow rfl
  · have hflow : (⟨.fence fence, false, .other⟩ : Flow).take ⟨number, false, false⟩
        (Cell.ofText 0 line) =
          (⟨.fence (fence.addRow (Cell.ofText 0 line)), false, .other⟩, none) := by
      rw [Flow.take_fence, if_neg hcloses]
    have hread := readLine_outside hopen hflow rfl
    rw [if_neg hcloses]
    rwa [Option.map_none, Option.toList_none, List.append_nil] at hread

/-- Lines that do not close the block are its content, whatever they look like. -/
theorem readLines_content (nodes : List Node) (start : Nat) (language? meta? : Option String)
    {lines : List (List Char)} (h : ∀ line ∈ lines, ¬ ClosesFence line) (rows : List (List Char))
    (number : Nat) :
    (inFence nodes (.plain start language? meta? rows)).readLines number lines =
      inFence nodes (.plain start language? meta? (lines.reverse ++ rows)) := by
  induction lines generalizing rows number with
  | nil => rfl
  | cons line others ih =>
    obtain ⟨hline, hothers⟩ := List.forall_mem_cons.1 h
    have hopen : ¬ (OpenFence.plain start language? meta? rows).closes
        (Cell.ofText 0 line) = true :=
      fun hcloses => hline (OpenFence.closesFence_of_closes hcloses)
    rw [readLines, readLine_inFence, if_neg hopen, OpenFence.addRow_plain, ih hothers,
      List.reverse_cons, List.append_assoc, List.singleton_append]

/-- A block whose lines do not close it is read whole. -/
theorem readLines_fenced (nodes : List Node) (number : Nat) {info : List Char}
    (hinfo : '\x60' ∉ info) (hhead : ∀ c ∈ info.head?, OpenFence.isInfoSpace c = false)
    {lines : List (List Char)} (hne : lines ≠ []) (h : ∀ line ∈ lines, ¬ ClosesFence line) :
    (settled nodes).readLines number ((delimiter ++ info) :: lines ++ [delimiter]) =
      settled (nodes ++ [.block (OpenFence.fenced number info lines)]) := by
  have hcontent := readLines_content nodes number (OpenFence.infoPart? (OpenFence.firstWord info))
    (OpenFence.infoPart? (OpenFence.afterFirst info)) h [] (number + 1)
  rw [List.append_nil] at hcontent
  rw [List.cons_append, readLines, readLine_opening nodes number hinfo hhead, readLines_append]
  unfold OpenFence.openedBy
  rw [hcontent, readLines, readLines, readLine_inFence, if_pos (OpenFence.closes_delimiter ..)]
  unfold OpenFence.close OpenFence.fenced
  rw [OpenFence.value_plain _ _ _ hne, Nat.add_right_comm]
  rfl

end Reader

end LiterateCheck.Markup
