import LiterateCheck.Project.Generate
import LiterateCheck.Proofs.Disk.Hosting
import LiterateCheck.Proofs.Document
import LiterateCheck.Proofs.Run.Success
import Mathlib.Data.List.Forall2

/-!
# Documents read from a disk

Reading documents as a run goes gives what their contents in memory give.

1. A document is read as the text whose bytes it holds, or not at all (`ReadsAs`, `readsAs_iff`).
2. Documents that can be read add their blocks and their notices, in order, and leave the disk as
   it is (`run_readDocuments_append`).
3. So a run over documents that can all be read gives the table and the notices of their contents,
   and any other run fails on the first document that cannot be read, after the notices of those
   before it (`extract_reads`).
-/

namespace LiterateCheck

/-! ## One document -/

/-- What a document on a disk is read as: a text, or the reason why there is none. -/
inductive ReadsAs (disk : Disk) (cwd : Location) (document : Path) :
    Except SystemError String → Prop where
  /-- The document holds the bytes of the text. -/
  | text {content : String} (h : disk.bytesAt cwd document = .ok content.toUTF8) :
      ReadsAs disk cwd document (.ok content)
  /-- There are no bytes to read. -/
  | unreadable {reason : SystemError} (h : disk.bytesAt cwd document = .error reason) :
      ReadsAs disk cwd document (.error reason)
  /-- The document holds bytes that are those of no text. -/
  | notText {bytes : ByteArray} (h : disk.bytesAt cwd document = .ok bytes)
      (hbytes : ∀ content : String, content.toUTF8 ≠ bytes) :
      ReadsAs disk cwd document (.error .notText)

theorem readsAs_iff {disk : Disk} {cwd : Location} {document : Path}
    {result : Except SystemError String} :
    ReadsAs disk cwd document result ↔ disk.textAt cwd document = result := by
  unfold Disk.textAt
  constructor
  · intro h
    cases h with
    | text h =>
      rw [h]
      dsimp only
      rw [Disk.fromUTF8?_eq_some_iff.2 rfl]
    | unreadable h => rw [h]
    | notText h hbytes =>
      rw [h]
      dsimp only
      cases hread : String.fromUTF8? _ with
      | none => rfl
      | some text => exact absurd (Disk.fromUTF8?_eq_some_iff.1 hread) (hbytes text)
  · rintro rfl
    cases hbytes : disk.bytesAt cwd document with
    | error reason => exact .unreadable hbytes
    | ok bytes =>
      dsimp only
      cases hread : String.fromUTF8? bytes with
      | none =>
        refine .notText hbytes fun content hcontent => ?_
        rw [Disk.fromUTF8?_eq_some_iff.2 hcontent] at hread
        cases hread
      | some text =>
        obtain rfl := Disk.fromUTF8?_eq_some_iff.1 hread
        exact .text hbytes

/-- Reads one document and reports its notices. -/
def readDocument (cwd : Location) (document : Path) : Run (List Placement) := do
  match (← Run.disk).textAt cwd document with
  | .error reason => throw (.readDocument document reason)
  | .ok content =>
    let placements := Placement.ofDocument document content
    Run.notify (placements.filterMap Placement.notice?)
    return placements

variable {cwd : Location} {world : World} {document : Path}

theorem gives_readDocument {content : String}
    (h : ReadsAs world.disk cwd document (.ok content)) :
    Run.Gives (readDocument cwd document) world (Placement.ofDocument document content)
      { world with notices := world.notices ++ sourceNotices [(document, content)] } := by
  unfold readDocument
  rw [Run.gives_bind]
  refine ⟨_, _, Run.gives_disk.2 ⟨rfl, rfl⟩, ?_⟩
  rw [readsAs_iff.1 h]
  unfold sourceNotices
  rw [List.flatMap_singleton]
  exact Run.gives_bind.2 ⟨_, _, Run.gives_notify.2 rfl, Run.gives_pure.2 ⟨rfl, rfl⟩⟩

/-- A document that cannot be read is named by the failure; nothing is reported of it. -/
theorem run_readDocument_of_error {reason : SystemError}
    (h : ReadsAs world.disk cwd document (.error reason)) :
    (readDocument cwd document).run.run world =
      (.error (.readDocument document reason), world) := by
  unfold readDocument
  rw [Run.run_bind_of_gives (Run.gives_disk.2 ⟨rfl, rfl⟩), readsAs_iff.1 h]
  rfl

/-! ## Documents in order -/

/-- The documents that some sources are the contents of, in order. -/
def ReadAs (disk : Disk) (cwd : Location) (documents : List Path)
    (sources : List (Path × String)) : Prop :=
  List.Forall₂ (fun document source => source.1 = document ∧
    ReadsAs disk cwd document (.ok source.2)) documents sources

theorem readDocuments_cons (document : Path) (others : List Path) :
    readDocuments cwd (document :: others) = do
      let placements ← readDocument cwd document
      let rest ← readDocuments cwd others
      return placements ++ rest := by
  show (document :: others).mapM (readDocument cwd) >>= (fun placed => pure placed.flatten) =
    readDocument cwd document >>= fun placements =>
      (others.mapM (readDocument cwd) >>= fun placed => pure placed.flatten) >>= fun rest =>
        pure (placements ++ rest)
  simp only [List.mapM_cons, bind_assoc, pure_bind, List.flatten_cons]

theorem sourceNotices_cons (source : Path × String) (others : List (Path × String)) :
    sourceNotices (source :: others) = sourceNotices [source] ++ sourceNotices others := by
  unfold sourceNotices
  rw [List.flatMap_cons, List.filterMap_append, List.flatMap_singleton]

/-- Documents that can be read come first with their blocks and their notices; the others find the
disk as it was. -/
theorem run_readDocuments_append {front back : List Path} {sources : List (Path × String)}
    (hfront : ReadAs world.disk cwd front sources) :
    (readDocuments cwd (front ++ back)).run.run world =
      (readDocuments cwd back >>= fun rest => pure
        ((sources.flatMap fun (path, content) => Placement.ofDocument path content) ++
          rest)).run.run { world with notices := world.notices ++ sourceNotices sources } := by
  induction front generalizing sources world with
  | nil =>
    obtain rfl := List.forall₂_nil_left_iff.1 hfront
    show (readDocuments cwd back).run.run world =
      (readDocuments cwd back >>= pure).run.run { world with notices := world.notices ++ [] }
    rw [bind_pure, List.append_nil]
  | cons document front ih =>
    obtain ⟨⟨path, content⟩, others, ⟨rfl, hreads⟩, hothers, rfl⟩ :=
      List.forall₂_cons_left_iff.1 hfront
    have hrest : (readDocuments cwd (front ++ back)).run.run
        { world with notices := world.notices ++ sourceNotices [(path, content)] } = _ :=
      ih hothers
    rw [List.cons_append, readDocuments_cons, Run.run_bind_of_gives (gives_readDocument hreads),
      run_bind, hrest, ← run_bind, bind_assoc, sourceNotices_cons (path, content) others]
    simp only [pure_bind, List.flatMap_cons, List.append_assoc]

/-- Documents are all read, or one of them is the first that is not. -/
theorem readAs_or_exists_first (disk : Disk) (cwd : Location) (documents : List Path) :
    (∃ sources, ReadAs disk cwd documents sources) ∨
    ∃ front document back sources reason, documents = front ++ document :: back ∧
      ReadAs disk cwd front sources ∧ ReadsAs disk cwd document (.error reason) := by
  induction documents with
  | nil => exact .inl ⟨[], .nil⟩
  | cons document others ih =>
    cases hdocument : disk.textAt cwd document with
    | error reason =>
      exact .inr ⟨[], document, others, [], reason, rfl, .nil, readsAs_iff.2 hdocument⟩
    | ok content =>
      rcases ih with ⟨sources, hothers⟩ | ⟨front, failing, back, sources, reason, rfl, hfront, h⟩
      · exact .inl ⟨(document, content) :: sources, .cons ⟨rfl, readsAs_iff.2 hdocument⟩ hothers⟩
      · exact .inr ⟨document :: front, failing, back, (document, content) :: sources, reason, rfl,
          .cons ⟨rfl, readsAs_iff.2 hdocument⟩ hfront, h⟩

/-- The notices of some documents are one for each kept fence that is meant for the empty key. -/
theorem sourceNotices_eq (sources : List (Path × String)) :
    sourceNotices sources =
      ((keptFences sources).filter fun source => source.groups.contains "").map fun source =>
        .emptyGroupKey source.document (source.fence.span?.map (·.start)) := by
  unfold sourceNotices
  rw [placements_eq, List.filterMap_map, ← List.filterMap_eq_map, List.filterMap_filter]
  refine List.filterMap_congr fun source _ => ?_
  show (Placement.mk source.groups source.block).notice? = _
  unfold Placement.notice?
  rfl

theorem run_extract_of_readAs {world : World} {cwd : Location} {documents : List Path}
    {sources : List (Path × String)} (h : ReadAs world.disk cwd documents sources) :
    (extract cwd documents).run.run world = (.ok (GroupTable.ofSources sources),
      { world with notices := world.notices ++ sourceNotices sources }) := by
  have hrun : (readDocuments cwd (documents ++ [])).run.run world = _ :=
    run_readDocuments_append h
  rw [List.append_nil] at hrun
  unfold extract
  rw [run_bind, hrun]
  show (Except.ok (GroupTable.empty.place (_ ++ [])), _) = _
  rw [List.append_nil]
  rfl

/-- **Documents on a disk and in memory.** When every document holds a text, a run over them gives
the table of these texts and reports their notices. Otherwise it fails and names the first document
that cannot be read, after the notices of the documents before it. One of the two is the case. The
notices of some texts are one for each kept fence that is meant for the empty key, in order. -/
theorem extract_reads (world : World) (cwd : Location) (documents : List Path) :
    (∀ sources, ReadAs world.disk cwd documents sources →
      (extract cwd documents).run.run world = (.ok (GroupTable.ofSources sources),
        { world with notices := world.notices ++ sourceNotices sources })) ∧
    (∀ front document back sources reason, documents = front ++ document :: back →
      ReadAs world.disk cwd front sources → ReadsAs world.disk cwd document (.error reason) →
      (extract cwd documents).run.run world = (.error (.readDocument document reason),
        { world with notices := world.notices ++ sourceNotices sources })) ∧
    ((∃ sources, ReadAs world.disk cwd documents sources) ∨
      ∃ front document back sources reason, documents = front ++ document :: back ∧
        ReadAs world.disk cwd front sources ∧ ReadsAs world.disk cwd document (.error reason)) ∧
    ∀ sources, sourceNotices sources =
      ((keptFences sources).filter fun source => source.groups.contains "").map fun source =>
        .emptyGroupKey source.document (source.fence.span?.map (·.start)) := by
  refine ⟨fun sources => run_extract_of_readAs, ?_, readAs_or_exists_first _ _ _,
    sourceNotices_eq⟩
  rintro front document back sources reason rfl hfront hreason
  have hfail : (readDocument cwd document).run.run
      { world with notices := world.notices ++ sourceNotices sources } =
        (.error (.readDocument document reason),
          { world with notices := world.notices ++ sourceNotices sources }) :=
    run_readDocument_of_error hreason
  unfold extract
  rw [run_bind, run_readDocuments_append hfront, readDocuments_cons, bind_assoc,
    Run.run_bind_of_error hfail]

/-- A document whose only fence lists no name after `unless=`. -/
def namelessText : String := "```mbt unless=\nf\n```\n"

/-- The document, and a file that holds no text. -/
def mixedDisk : Disk :=
  (Disk.empty.put ["a.mbt.md"] (.file namelessText.toUTF8 false)).put ["b.mbt.md"]
    (.file ⟨#[0xff]⟩ false)

theorem readsAs_mixedDisk_a :
    ReadsAs mixedDisk [] ⟨"/a.mbt.md"⟩ (.ok namelessText) := by
  refine .text ?_
  unfold Disk.bytesAt
  rw [Disk.lookup_of_locate (Disk.find_of_follows (by decide) (.file (by decide) rfl))]

theorem readsAs_mixedDisk_b : ReadsAs mixedDisk [] ⟨"/b.mbt.md"⟩ (.error .notText) := by
  have hbytes : mixedDisk.bytesAt [] ⟨"/b.mbt.md"⟩ = .ok ⟨#[0xff]⟩ := by
    unfold Disk.bytesAt
    rw [Disk.lookup_of_locate (Disk.find_of_follows (by decide) (.file (by decide) rfl))]
  refine .notText hbytes fun content hcontent => ?_
  have hnone : String.fromUTF8? ⟨#[0xff]⟩ = none := by decide
  rw [Disk.fromUTF8?_eq_some_iff.2 hcontent] at hnone
  cases hnone

/-- The document is read twice, and reported twice; the file that holds no text ends the run. -/
theorem extract_reads_undecodable :
    (extract [] [⟨"/a.mbt.md"⟩, ⟨"/a.mbt.md"⟩]).run.run ⟨mixedDisk, []⟩ =
      (.ok (GroupTable.ofSources [(⟨"/a.mbt.md"⟩, namelessText), (⟨"/a.mbt.md"⟩, namelessText)]),
        ⟨mixedDisk, [.emptyGroupKey ⟨"/a.mbt.md"⟩ (some 1),
          .emptyGroupKey ⟨"/a.mbt.md"⟩ (some 1)]⟩) ∧
    (extract [] [⟨"/a.mbt.md"⟩, ⟨"/b.mbt.md"⟩, ⟨"/a.mbt.md"⟩]).run.run ⟨mixedDisk, []⟩ =
      (.error (.readDocument ⟨"/b.mbt.md"⟩ .notText),
        ⟨mixedDisk, [.emptyGroupKey ⟨"/a.mbt.md"⟩ (some 1)]⟩) := by
  have hnotices : sourceNotices [(⟨"/a.mbt.md"⟩, namelessText)] =
      [.emptyGroupKey ⟨"/a.mbt.md"⟩ (some 1)] := by decide +kernel
  obtain ⟨hread, -⟩ := extract_reads ⟨mixedDisk, []⟩ [] [⟨"/a.mbt.md"⟩, ⟨"/a.mbt.md"⟩]
  obtain ⟨-, hfail, -⟩ := extract_reads ⟨mixedDisk, []⟩ []
    [⟨"/a.mbt.md"⟩, ⟨"/b.mbt.md"⟩, ⟨"/a.mbt.md"⟩]
  refine ⟨?_, ?_⟩
  · rw [hread [(⟨"/a.mbt.md"⟩, namelessText), (⟨"/a.mbt.md"⟩, namelessText)]
      (.cons ⟨rfl, readsAs_mixedDisk_a⟩ (.cons ⟨rfl, readsAs_mixedDisk_a⟩ .nil)),
      sourceNotices_cons, hnotices]
    rfl
  · rw [hfail [⟨"/a.mbt.md"⟩] _ _ [(⟨"/a.mbt.md"⟩, namelessText)] _ rfl
      (.cons ⟨rfl, readsAs_mixedDisk_a⟩ .nil) readsAs_mixedDisk_b, hnotices]
    rfl

end LiterateCheck
