import LiterateCheck.Document
import LiterateCheck.Proofs.Markup.TopLevel
import LiterateCheck.Proofs.Text.LineEndings
import LiterateCheck.Proofs.Text.Words

/-!
# Scanning undoes writing

A document can be written section by section, each as a fenced block.
1. An info string of plain characters is read as it stands: its words are those of the two parts
   into which the fence cuts it (`infoWords_joinInfo`), so a section is a fence exactly when its
   first word names MoonBit (`ofCode?_code`).
2. The lines of the document are those of its sections (`lines_write`), which are read one section
   after the other (`readLines_write`).
3. So a scan gives back the sections that name MoonBit, with their bodies and their places
   (`scan_write`).
-/

namespace LiterateCheck

/-! ## Line endings -/

namespace Text

/-- A carriage return before each line feed. -/
def returns (text : List Char) : List Char :=
  text.flatMap fun c => if c = '\n' then ['\r', '\n'] else [c]

theorem normalizeLineEndings_returns {text : List Char} (h : '\r' ∉ text) :
    normalizeLineEndings (returns text) = text := by
  induction text with
  | nil => rfl
  | cons c rest ih =>
    have hc : c ≠ '\r' := (List.ne_of_not_mem_cons h).symm
    have hrest := List.not_mem_of_not_mem_cons h
    unfold returns at ih ⊢
    rw [List.flatMap_cons]
    by_cases hfeed : c = '\n'
    · subst hfeed
      exact congrArg (List.cons '\n') (ih hrest)
    · rw [if_neg hfeed, List.singleton_append, normalizeLineEndings_cons hc, ih hrest]

end Text

/-! ## Info strings -/

namespace Markup

theorem Node.codesOfList_blocks {α : Type} (code : α → Code) (items : List α) :
    codesOfList (items.map fun item => .block (code item)) = items.map code := by
  induction items with
  | nil => rfl
  | cons item others ih => exact congrArg (List.cons (code item)) ih

theorem decode_of_plain {text : List Char} (h : ∀ c ∈ text, c ≠ '\\' ∧ c ≠ '&') :
    decode text = text := by
  induction text with
  | nil => rw [decode]
  | cons c rest ih =>
    obtain ⟨⟨hslash, hand⟩, hrest⟩ := List.forall_mem_cons.1 h
    rw [decode.eq_4 c rest (fun _ _ heq _ => hslash heq) hand, ih hrest]

theorem OpenFence.isBlank_of_isInfoSpace (c : Char) (h : isInfoSpace c = true) :
    Text.isBlank c = true := by
  unfold isInfoSpace at h
  rcases (Bool.or_eq_true _ _).mp h with h | h <;> rw [beq_iff_eq.1 h] <;> rfl

/-- The fence cuts an info string between words. -/
theorem OpenFence.words_firstWord_append (info : List Char) :
    Text.words (firstWord info) ++ Text.words (afterFirst info) = Text.words info := by
  have hcut : firstWord info ++ info.dropWhile (fun c => !isInfoSpace c) = info :=
    List.takeWhile_append_dropWhile
  unfold afterFirst
  rw [Text.words_dropWhile isBlank_of_isInfoSpace]
  cases hrest : info.dropWhile (fun c => !isInfoSpace c) with
  | nil =>
    rw [hrest, List.append_nil] at hcut
    rw [hcut, Text.words_nil, List.append_nil]
  | cons c rest =>
    have hspace : isInfoSpace c = true := by
      have hhead := List.head?_dropWhile_not (fun c => !isInfoSpace c) info
      rw [hrest] at hhead
      simpa using hhead
    have hblank := isBlank_of_isInfoSpace c hspace
    rw [hrest] at hcut
    have hfirst := Text.words_append_blank [] rest hblank
    rw [Text.words_nil, List.nil_append, List.nil_append] at hfirst
    rw [hfirst, ← Text.words_append_blank (firstWord info) rest hblank, hcut]

end Markup

theorem infoWords_joinInfo (language : String) (meta? : Option String) :
    infoWords (Fence.joinInfo language meta?) =
      infoWords language ++ infoWords (meta?.getD "") := by
  have htag : Text.words (String.ofList (Text.trim language.toList)).toList =
      Text.words language.toList := by
    rw [String.toList_ofList, Text.words_trim]
  have hrest : Text.words (String.ofList (Text.trim (meta?.getD "").toList)).toList =
      Text.words (meta?.getD "").toList := by
    rw [String.toList_ofList, Text.words_trim]
  unfold infoWords Fence.joinInfo
  rw [← List.map_append, ← htag, ← hrest]
  generalize String.ofList (Text.trim language.toList) = tag
  generalize String.ofList (Text.trim (meta?.getD "").toList) = rest
  simp only
  split
  · rename_i hempty
    rw [String.isEmpty_iff.1 hempty, String.toList_empty, Text.words_nil, List.append_nil]
  · rw [String.toList_append, String.toList_append, List.append_assoc]
    have hspace : Text.isBlank ' ' = true := rfl
    exact congrArg _ (Text.words_append_blank tag.toList rest.toList hspace)

/-- What a fence tells: its body, its directive tokens and its place. -/
def Fence.reading (fence : Fence) : String × List String × Option Markup.LineSpan :=
  (fence.body, fence.directiveTokens, fence.span?)

/-- The block that a fence of a document becomes, by its reading. -/
def Placement.ofReading? (document : Path)
    (reading : String × List String × Option Markup.LineSpan) : Option Placement :=
  match interpret reading.1 reading.2.1 with
  | .discard => none
  | .keep code groups wrapped => some ⟨groups, ⟨document, code, reading.2.2, wrapped⟩⟩

/-! ## Sections -/

open Markup (ClosesFence Code LineSpan Node OpenFence decode decode_of_plain delimiter)

/-- A section of a document: an info string and the text below it. -/
structure Section where
  info : String
  body : String
  deriving DecidableEq, Repr

namespace Section

/-- The section as it is written. -/
def text (part : Section) : String :=
  "\x60\x60\x60" ++ part.info ++ "\n" ++ part.body ++ "\n\x60\x60\x60\n"

/-- The lines of the body. -/
def lines (part : Section) : List (List Char) :=
  Text.lines part.body.toList

/-- The lines of the section as it is written. -/
def rows (part : Section) : List (List Char) :=
  (delimiter ++ part.info.toList) :: part.lines ++ [delimiter]

/-- The words of the info string, between its spaces. -/
def tokens (part : Section) : List String :=
  ((part.info.toList.splitOn ' ').filter fun piece => !piece.isEmpty).map String.ofList

/-- Whether the first word is a language tag of MoonBit, in letters of either case. -/
def isMoonBit (part : Section) : Bool :=
  part.tokens.head?.any fun tag =>
    ["mbt", "moonbit"].contains (String.ofList (tag.toList.map Char.toLower))

/-- The info string is one line of printable ASCII that stands for itself, and no line of the body
closes the fence. -/
structure WellFormed (part : Section) : Prop where
  info_ne : part.info ≠ ""
  printable : ∀ c ∈ part.info.toList, ' ' ≤ c ∧ c ≤ '~'
  plain : ∀ c ∈ part.info.toList, c ≠ '\x60' ∧ c ≠ '\\' ∧ c ≠ '&'
  starts : part.info.toList.head? ≠ some ' '
  feeds : '\r' ∉ part.body.toList
  stays : ∀ line ∈ part.lines, ¬ ClosesFence line

/-- Sections written one after the other. -/
def write (parts : List Section) : String :=
  String.join (parts.map text)

/-- The document with a carriage return before each line feed. -/
def withReturns (document : String) : String :=
  String.ofList (Text.returns document.toList)

/-- Sections and the lines that they take when the first of them starts in a given line: one for
each delimiter, and those of the body in between. -/
def placed (line : Nat) : List Section → List (Section × LineSpan)
  | [] => []
  | part :: others =>
    (part, ⟨line, line + part.lines.length + 1⟩) :: placed (line + part.lines.length + 2) others

/-- The block that a section is read as. -/
def code (part : Section) (line : Nat) : Code :=
  OpenFence.fenced line part.info.toList part.lines

theorem lines_ne_nil (part : Section) : part.lines ≠ [] :=
  List.splitOn_ne_nil '\n' part.body.toList

theorem unlines_lines (part : Section) : Text.unlines part.lines = part.body.toList :=
  List.intercalate_splitOn '\n'

namespace WellFormed

variable {part : Section}

theorem isBlank_eq (h : part.WellFormed) :
    ∀ c ∈ part.info.toList, Text.isBlank c = (c == ' ') := by
  intro c hc
  obtain ⟨hlow, hhigh⟩ := h.printable c hc
  have hlow : 0x20 ≤ c.toNat := hlow
  have hhigh : c.toNat ≤ 0x7E := hhigh
  have hspace : (c == ' ') = decide (c.toNat = 0x20) := by
    rw [Bool.eq_iff_iff, beq_iff_eq, decide_eq_true_eq]
    exact Char.toNat_inj.symm
  rw [hspace]
  unfold Text.isBlank
  rw [Bool.eq_iff_iff]
  simp only [Bool.or_eq_true, Bool.and_eq_true, decide_eq_true_eq, beq_iff_eq]
  omega

theorem tokens_eq (h : part.WellFormed) : infoWords part.info = part.tokens := by
  unfold infoWords tokens
  rw [Text.words_eq_splitOn h.isBlank_eq]

theorem not_isInfoSpace_head (h : part.WellFormed) :
    ∀ c ∈ part.info.toList.head?, OpenFence.isInfoSpace c = false := by
  intro c hc
  rw [Bool.eq_false_iff]
  intro hspace
  have hblank := OpenFence.isBlank_of_isInfoSpace c hspace
  rw [h.isBlank_eq c (List.mem_of_mem_head? hc)] at hblank
  exact h.starts (beq_iff_eq.1 hblank ▸ hc)

theorem mark_not_mem (h : part.WellFormed) : '\x60' ∉ part.info.toList := fun hmem =>
  (h.plain '\x60' hmem).1 rfl

theorem decode_eq (h : part.WellFormed) {piece : List Char} (hpiece : piece ⊆ part.info.toList) :
    decode piece = piece :=
  decode_of_plain fun c hc => (h.plain c (hpiece hc)).2

theorem language?_code (h : part.WellFormed) (line : Nat) :
    (part.code line).language? = some (String.ofList (OpenFence.firstWord part.info.toList)) := by
  have hne : OpenFence.firstWord part.info.toList ≠ [] := by
    obtain ⟨c, rest, hinfo⟩ := List.exists_cons_of_ne_nil (mt String.toList_eq_nil_iff.1 h.info_ne)
    have hc : OpenFence.isInfoSpace c = false :=
      h.not_isInfoSpace_head c (by rw [hinfo, List.head?_cons]; rfl)
    unfold OpenFence.firstWord
    rw [hinfo, List.takeWhile_cons_of_pos (by rw [hc]; rfl)]
    exact List.cons_ne_nil _ _
  have hsubset : OpenFence.firstWord part.info.toList ⊆ part.info.toList :=
    (List.takeWhile_sublist _).subset
  unfold code OpenFence.fenced OpenFence.infoPart?
  rw [List.isEmpty_eq_false_iff.2 hne, h.decode_eq hsubset]
  rfl

theorem meta?_code (h : part.WellFormed) (line : Nat) :
    (part.code line).meta?.getD "" = String.ofList (OpenFence.afterFirst part.info.toList) := by
  have hsubset : OpenFence.afterFirst part.info.toList ⊆ part.info.toList :=
    ((List.dropWhile_sublist _).trans (List.dropWhile_sublist _)).subset
  unfold code OpenFence.fenced OpenFence.infoPart?
  rw [h.decode_eq hsubset]
  cases OpenFence.afterFirst part.info.toList <;> rfl

theorem infoWords_code (h : part.WellFormed) (line : Nat) :
    infoWords (Fence.joinInfo (String.ofList (OpenFence.firstWord part.info.toList))
      (part.code line).meta?) = part.tokens := by
  rw [infoWords_joinInfo, h.meta?_code, ← h.tokens_eq]
  unfold infoWords
  rw [String.toList_ofList, String.toList_ofList, ← List.map_append,
    OpenFence.words_firstWord_append]

theorem namesMoonBit_eq {info : String} (h : infoWords info = part.tokens) :
    namesMoonBit info = part.isMoonBit := by
  unfold namesMoonBit isMoonBit
  rw [h]
  cases part.tokens with
  | nil => rfl
  | cons tag others =>
    simp only [languageTags, Text.lowerAscii, List.contains_cons, List.contains_nil,
      List.head?_cons, Option.any_some]
    rw [Bool.or_false, Bool.or_false, Bool.or_comm]

theorem ofCode?_code (h : part.WellFormed) (line : Nat) :
    (Fence.ofCode? (part.code line)).map Fence.reading =
      if part.isMoonBit then
        some (part.body, part.tokens.drop 1, some ⟨line, line + part.lines.length + 1⟩)
      else none := by
  have hvalue : (part.code line).value = part.body := by
    unfold code OpenFence.fenced
    rw [unlines_lines, String.ofList_toList]
  have hwords := h.infoWords_code line
  unfold Fence.ofCode?
  rw [h.language?_code line, Option.bind_eq_bind, Option.bind_some, hvalue]
  generalize Fence.joinInfo _ (part.code line).meta? = info at hwords ⊢
  simp only [namesMoonBit_eq hwords]
  split
  · unfold Fence.reading Fence.directiveTokens
    rw [Option.map_some, hwords]
    rfl
  · rfl

end WellFormed

/-! ## Reading section by section -/

theorem toList_text_append (part : Section) (rest : List Char) :
    part.text.toList ++ rest =
      (delimiter ++ part.info.toList) ++
        '\n' :: (part.body.toList ++ '\n' :: (delimiter ++ '\n' :: rest)) := by
  have hopening : "\x60\x60\x60".toList = delimiter := rfl
  have hclosing : "\n\x60\x60\x60\n".toList = '\n' :: (delimiter ++ ['\n']) := rfl
  have hfeed : "\n".toList = ['\n'] := rfl
  unfold text
  simp only [String.toList_append, hopening, hclosing, hfeed, List.append_assoc,
    List.cons_append, List.nil_append]

theorem WellFormed.feed_not_mem {part : Section} (h : part.WellFormed) :
    '\n' ∉ delimiter ++ part.info.toList := by
  intro hmem
  rcases List.mem_append.1 hmem with hmem | hmem
  · revert hmem
    decide
  · exact absurd (h.printable '\n' hmem).1 (by decide)

theorem WellFormed.lines_text_append {part : Section} (h : part.WellFormed) (rest : List Char) :
    Text.lines (part.text.toList ++ rest) = part.rows ++ Text.lines rest := by
  have hdelimiter : delimiter.splitOn '\n' = [delimiter] := by decide
  unfold Text.lines
  rw [toList_text_append, List.splitOn_append_cons_self, List.splitOn_append_cons_self,
    List.splitOn_append_cons_self, List.splitOn_eq_singleton h.feed_not_mem, hdelimiter]
  unfold rows lines Text.lines
  simp only [List.append_assoc, List.cons_append, List.nil_append]

theorem toList_write_cons (part : Section) (others : List Section) :
    (write (part :: others)).toList = part.text.toList ++ (write others).toList := by
  unfold write
  rw [List.map_cons, String.join_cons, String.toList_append]

theorem lines_write {parts : List Section} (h : ∀ part ∈ parts, part.WellFormed) :
    Text.lines (write parts).toList = parts.flatMap rows ++ [[]] := by
  induction parts with
  | nil => rfl
  | cons part others ih =>
    obtain ⟨hpart, hothers⟩ := List.forall_mem_cons.1 h
    rw [toList_write_cons, hpart.lines_text_append, ih hothers, List.flatMap_cons,
      List.append_assoc]

theorem length_rows (part : Section) : part.rows.length = part.lines.length + 2 := by
  unfold rows
  rw [List.length_append, List.length_cons, List.length_singleton]

/-- The block of a section in its place. -/
def placedCode (place : Section × LineSpan) : Code :=
  place.1.code place.2.start

/-- Sections are read one after the other. -/
theorem readLines_write {parts : List Section} (h : ∀ part ∈ parts, part.WellFormed)
    (nodes : List Node) (line : Nat) :
    (Markup.Reader.settled nodes).readLines line (parts.flatMap rows) =
      Markup.Reader.settled
        (nodes ++ (placed line parts).map fun place => .block (placedCode place)) := by
  induction parts generalizing nodes line with
  | nil => exact congrArg Markup.Reader.settled (List.append_nil nodes).symm
  | cons part others ih =>
    obtain ⟨hpart, hothers⟩ := List.forall_mem_cons.1 h
    have hread : (Markup.Reader.settled nodes).readLines line part.rows =
        Markup.Reader.settled (nodes ++ [.block (part.code line)]) :=
      Markup.Reader.readLines_fenced nodes line hpart.mark_not_mem hpart.not_isInfoSpace_head
        part.lines_ne_nil hpart.stays
    rw [List.flatMap_cons, Markup.Reader.readLines_append, length_rows, hread, ih hothers,
      List.append_assoc]
    rfl

/-- The outline of a document has one block for each section. -/
theorem outline_write {parts : List Section} (h : ∀ part ∈ parts, part.WellFormed) :
    Markup.outline (write parts).toList =
      (placed 1 parts).map fun place => .block (placedCode place) := by
  have hmark : ((write parts).toList.head? == some '\uFEFF') = false := by
    cases parts with
    | nil => rfl
    | cons part others =>
      rw [toList_write_cons, toList_text_append]
      rfl
  have hread := readLines_write h [] 1
  unfold Markup.outline
  simp only [hmark, if_neg Bool.false_ne_true, lines_write h, List.getLast?_concat,
    List.dropLast_concat, beq_self_eq_true, if_pos]
  exact congrArg (Markup.Reader.finish · _ true) hread

theorem return_not_mem_write {parts : List Section} (h : ∀ part ∈ parts, part.WellFormed) :
    '\r' ∉ (write parts).toList := by
  induction parts with
  | nil => exact List.not_mem_nil
  | cons part others ih =>
    obtain ⟨hpart, hothers⟩ := List.forall_mem_cons.1 h
    have hinfo : '\r' ∉ part.info.toList := fun hmem =>
      absurd (hpart.printable '\r' hmem).1 (by decide)
    have hdelimiter : '\r' ∉ delimiter := by decide
    rw [toList_write_cons, toList_text_append]
    simp [hdelimiter, hinfo, hpart.feeds, ih hothers]

/-! ## What a scan gives back -/

/-- The sections that name MoonBit are the fences, in order. -/
theorem reading_placed {parts : List Section} (h : ∀ part ∈ parts, part.WellFormed) (line : Nat) :
    ((placed line parts).filterMap fun place =>
        (Fence.ofCode? (placedCode place)).map Fence.reading) =
      ((placed line parts).filter fun place => place.1.isMoonBit).map fun place =>
        (place.1.body, place.1.tokens.drop 1, some place.2) := by
  induction parts generalizing line with
  | nil => rfl
  | cons part others ih =>
    obtain ⟨hpart, hothers⟩ := List.forall_mem_cons.1 h
    have hcode : (Fence.ofCode? (placedCode (part, ⟨line, line + part.lines.length + 1⟩))).map
        Fence.reading = _ := hpart.ofCode?_code line
    rw [placed, List.filterMap_cons, List.filter_cons, hcode, ih hothers]
    cases part.isMoonBit <;> rfl

theorem rows_of_placed {parts : List Section} (line : Nat) :
    ∀ place ∈ placed line parts, ∃ front back,
      parts.flatMap rows = front ++ place.1.rows ++ back ∧ place.2.start = line + front.length ∧
        place.2.stop = place.2.start + place.1.lines.length + 1 := by
  induction parts generalizing line with
  | nil => exact fun place hplace => absurd hplace List.not_mem_nil
  | cons part others ih =>
    intro place hplace
    rcases List.mem_cons.1 hplace with rfl | hplace
    · exact ⟨[], others.flatMap rows, rfl, rfl, rfl⟩
    · obtain ⟨front, back, hrows, hstart, hstop⟩ := ih _ place hplace
      refine ⟨part.rows ++ front, back, ?_, ?_, hstop⟩
      · rw [List.flatMap_cons, hrows]
        simp only [List.append_assoc]
      · rw [hstart, List.length_append, length_rows]
        omega

/-- **Scanning undoes writing.** Of sections that are written one after the other, a scan gives
back, in order, those whose first word names MoonBit, each with its body, with the words after that
first one, and with the lines that it takes: from its opening delimiter on, through the lines of
its body, to the closing one. Carriage returns before the line feeds change nothing. -/
theorem scan_write {parts : List Section} (h : ∀ part ∈ parts, part.WellFormed) :
    ((Fence.scan (write parts)).map Fence.reading =
      ((placed 1 parts).filter fun place => place.1.isMoonBit).map fun place =>
        (place.1.body, place.1.tokens.drop 1, some place.2)) ∧
    Fence.scan (withReturns (write parts)) = Fence.scan (write parts) ∧
    (∀ place ∈ placed 1 parts, ∃ front back,
      Text.lines (write parts).toList = front ++ place.1.rows ++ back ∧
        place.2.start = front.length + 1 ∧
        place.2.stop = place.2.start + place.1.lines.length + 1) := by
  have hreturns := return_not_mem_write h
  refine ⟨?_, ?_, ?_⟩
  · unfold Fence.scan Fence.ofNodes
    rw [Text.normalizeLineEndings_eq_self hreturns, outline_write h, Node.codesOfList_blocks,
      List.filterMap_map, List.map_filterMap]
    exact reading_placed h 1
  · unfold Fence.scan withReturns
    rw [String.toList_ofList, Text.normalizeLineEndings_returns hreturns,
      Text.normalizeLineEndings_eq_self hreturns]
  · intro place hplace
    obtain ⟨front, back, hrows, hstart, hstop⟩ := rows_of_placed 1 place hplace
    refine ⟨front, back ++ [[]], ?_, ?_, hstop⟩
    · rw [lines_write h, hrows, List.append_assoc]
    · rw [hstart, Nat.add_comm]

theorem ofDocument_write (document : Path) {parts : List Section}
    (h : ∀ part ∈ parts, part.WellFormed) :
    Placement.ofDocument document (write parts) =
      ((placed 1 parts).filter fun place => place.1.isMoonBit).filterMap fun place =>
        Placement.ofReading? document (place.1.body, place.1.tokens.drop 1, some place.2) := by
  have hfence : Placement.ofFence? document =
      Placement.ofReading? document ∘ Fence.reading := rfl
  unfold Placement.ofDocument
  rw [hfence, ← List.filterMap_map, (scan_write h).1, List.filterMap_map]
  rfl

/-- What is asked of the characters of an info string, tested one after the other. -/
theorem isPlain_of_all {info : List Char} (h : info.all (fun c =>
      decide ((' ' ≤ c ∧ c ≤ '~') ∧ c ≠ '\x60' ∧ c ≠ '\\' ∧ c ≠ '&')) = true) (c : Char)
    (hc : c ∈ info) : (' ' ≤ c ∧ c ≤ '~') ∧ c ≠ '\x60' ∧ c ≠ '\\' ∧ c ≠ '&' :=
  of_decide_eq_true (List.all_eq_true.1 h c hc)

/-- Sections with a shorter fence, blank lines, other languages and tags of either case. -/
def sampleParts : List Section :=
  [⟨"mbt test", "\x60\x60\n\x60\x60\x60 mbt\n\n  let x = 1\n"⟩, ⟨"json", "> - # 1"⟩,
    ⟨"MoonBit  skip", ""⟩]

theorem scan_write_sample :
    (∀ part ∈ sampleParts, part.WellFormed) ∧
    (Fence.scan (withReturns (write sampleParts))).map Fence.reading =
      [("\x60\x60\n\x60\x60\x60 mbt\n\n  let x = 1\n", ["test"], some ⟨1, 7⟩),
        ("", ["skip"], some ⟨11, 13⟩)] := by
  have hparts : ∀ part ∈ sampleParts, part.WellFormed := by
    refine List.forall_mem_cons.2 ⟨?_, List.forall_mem_cons.2 ⟨?_, List.forall_mem_singleton.2 ?_⟩⟩
    all_goals exact ⟨by decide, fun c hc => (isPlain_of_all (by decide) c hc).1,
      fun c hc => (isPlain_of_all (by decide) c hc).2, by decide, by decide, by decide⟩
  obtain ⟨hscan, hreturns, -⟩ := scan_write hparts
  refine ⟨hparts, ?_⟩
  rw [hreturns, hscan]
  rfl

end Section

end LiterateCheck
