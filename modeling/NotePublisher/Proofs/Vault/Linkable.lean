import NotePublisher.Proofs.Document.Linkable
import NotePublisher.Proofs.Vault.Accounting
import NotePublisher.Proofs.Vault.Links

namespace NotePublisher

/-!
# Which files of a vault can be linked

A run publishes the documents of an index that are markdown and skips its other
files. A document that is published can be linked by its name, if links can be
written to that name. A file that is skipped can be linked too if the suffix of
markdown alone is its name: the path of its folder, with the slash, is a target
that names it (`Vault.buildIndex_linkable`).
-/

namespace DocumentPath

/-- A path that is written from components has no empty pieces. -/
theorem isTidy_intercalate
    {pieces : List Text}
    (pieces_ne_nil : pieces ≠ [])
    (areComponents : ∀ piece ∈ pieces, piece ≠ [] ∧ '/' ∉ piece) :
    IsTidy ⟨['/'].intercalate pieces⟩ := by
  intro _ emptyPiece
  rw [List.splitOn_intercalate '/' (fun piece member => (areComponents piece member).2)
    pieces_ne_nil] at emptyPiece
  exact (areComponents [] emptyPiece).1 rfl

end DocumentPath

namespace Vault

section Indexed

variable {root : Text} {excludes : List NamePattern} {session indexed : Session}
  {index : DocumentIndex} {document : DocumentPath}

/-- The paths of an index lead down by plain names and are written without empty pieces. -/
theorem normal_tidy_of_buildIndex
    (wellFormed : session.disk.top.WellFormed)
    (built : buildIndex root excludes session = .ok index indexed)
    (member : document ∈ index.documents) :
    document.IsNormal ∧ document.IsTidy := by
  rcases buildIndex_cases root excludes session with
    ⟨-, refused⟩ | ⟨home, folder, events, -, inside, listing⟩
  · rw [refused] at built
    cases built
  rw [listing] at built
  cases built
  have folderWellFormed := wellFormed.folderAt? inside
  obtain ⟨⟨content, present, -⟩, found⟩ := (mem_scannedDocuments_iff folderWellFormed).mp
    (DocumentIndex.documents_subset _ member)
  have plain := fun name isName => (folderWellFormed.valid_of_look present name isName).plain
  refine ⟨(location_documentAt plain found).2, ?_⟩
  obtain ⟨names, names_ne_nil, location_eq, -, document_eq⟩ :=
    (documentAt_eq_some_iff plain).mp found
  rw [document_eq]
  refine DocumentPath.isTidy_intercalate names_ne_nil fun name isName => ?_
  exact DocumentPath.isComponent_of_isPlain
    (plain _ (location_eq ▸ List.mem_map_of_mem isName))

/--
A document of an index that is markdown can be linked, by itself, exactly if
its name is a target, and by its name if its path holds nothing that links are
made of. Links are resolved to a file that a run skips only if the suffix alone
is its name, by the path of its folder with the slash, and there is such a link
exactly if that path is a target.
-/
theorem buildIndex_linkable
    (wellFormed : session.disk.top.WellFormed)
    (built : buildIndex root excludes session = .ok index indexed)
    (member : document ∈ index.documents)
    (urlBase : Text) :
    (document.isMarkdown = true →
        ∃ name, document.fileName = name ++ DocumentPath.markdownSuffix ∧
          (DocumentIndex.LinksTo ⟨[document]⟩ urlBase document ↔ WikiLink.IsTarget name) ∧
          ('|' ∉ document.text → ']' ∉ document.text →
            (∀ char ∈ document.text, Text.isLineBreak char = false) →
            (resolveLinks ⟨[document]⟩ urlBase
                (WikiLink.opening ++ name ++ WikiLink.closing)).links =
              [⟨WikiLink.opening ++ name ++ WikiLink.closing, name,
                .resolved document (document.url urlBase)⟩])) ∧
      ∀ options context start,
        (publishOne options context document start).1 = .skipped document →
        ∀ others : DocumentIndex,
          (∀ text, ∀ record ∈ (resolveLinks others urlBase text).links, ∀ url,
            record.outcome = .resolved document url →
            ∃ folder, record.target = folder ++ ['/'] ∧
              document.text = folder ++ '/' :: DocumentPath.markdownSuffix) ∧
          (document ∈ others.documents →
            (others.LinksTo urlBase document ↔
              ∃ folder, document.text = folder ++ '/' :: DocumentPath.markdownSuffix ∧
                WikiLink.IsTarget folder)) := by
  obtain ⟨normal, tidy⟩ := normal_tidy_of_buildIndex wellFormed built member
  constructor
  · intro markdown
    obtain ⟨name, name_ne_nil, named⟩ := DocumentPath.isMarkdown_iff.mp markdown
    exact ⟨name, named, document.linksTo_singleton_iff normal tidy name_ne_nil named,
      document.links_of_name normal tidy name_ne_nil named⟩
  · intro options context start skipped others
    have unmarked := publishOne_eq_skipped_iff.mp skipped
    refine ⟨fun text record listed url resolvedTo => ?_,
      document.linksTo_iff_of_unmarked normal tidy unmarked⟩
    rw [resolveLinks_links] at listed
    obtain ⟨link, -, rfl⟩ := List.mem_map.mp listed
    obtain ⟨target_ne_nil, found, -⟩ := LinkOutcome.ofTarget_eq_resolved_iff.mp resolvedTo
    exact (document.isNamedBy_iff_of_unmarked normal tidy unmarked target_ne_nil).mp
      (DocumentIndex.isNamedBy_of_resolve? found)

/-- A vault with files that are named by the suffix alone, and one that links to the other. -/
private def dottedVault : Folder :=
  .leaf (Utf8.encode ".md".toList) (.file ⟨0o644, ⟨#[]⟩⟩)
    (.folder (Utf8.encode "a".toList)
      (.leaf (Utf8.encode "..md".toList) (.file ⟨0o644, ⟨#[]⟩⟩)
        (.leaf (Utf8.encode ".md".toList) (.file ⟨0o644, ⟨#[]⟩⟩) .empty))
      (.leaf (Utf8.encode "b.md".toList) (.file ⟨0o644, Utf8.encode "[[a/]]".toList⟩)
        (.leaf (Utf8.encode "x|y.md".toList) (.file ⟨0o644, ⟨#[]⟩⟩) .empty)))

private def dottedDocuments : List DocumentPath :=
  [⟨"x|y.md".toList⟩, ⟨"b.md".toList⟩, ⟨"a/.md".toList⟩, ⟨"a/..md".toList⟩, ⟨".md".toList⟩]

private theorem buildIndex_dottedVault :
    buildIndex "vault".toList [] ⟨diskOf dottedVault, []⟩ =
      .ok ⟨dottedDocuments⟩ ⟨diskOf dottedVault, [.indexed 5 "vault".toList]⟩ :=
  buildIndex_of_scanned dottedVault (by decide +kernel) (by decide +kernel)
    (by decide +kernel) (by decide +kernel) (by decide +kernel)

theorem buildIndex_linkable_dottedVault :
    (diskOf dottedVault).top.WellFormed ∧
      ∃ index indexed,
        buildIndex "vault".toList [] ⟨diskOf dottedVault, []⟩ = .ok index indexed ∧
        index.documents = dottedDocuments ∧
        DocumentPath.isMarkdown ⟨"a/..md".toList⟩ = true ∧
        (resolveLinks ⟨[⟨"a/..md".toList⟩]⟩ [] "[[.]]".toList).links =
          [⟨"[[.]]".toList, ".".toList, .resolved ⟨"a/..md".toList⟩ "/a/.".toList⟩] ∧
        DocumentPath.isMarkdown ⟨"x|y.md".toList⟩ = true ∧
        ¬ DocumentIndex.LinksTo ⟨[⟨"x|y.md".toList⟩]⟩ [] ⟨"x|y.md".toList⟩ ∧
        (publishOne { root := "vault".toList } ⟨index, [], []⟩ ⟨".md".toList⟩ indexed).1 =
          .skipped ⟨".md".toList⟩ ∧
        ¬ index.LinksTo [] ⟨".md".toList⟩ ∧
        (publishOne { root := "vault".toList } ⟨index, [], []⟩ ⟨"a/.md".toList⟩ indexed).1 =
          .skipped ⟨"a/.md".toList⟩ ∧
        index.LinksTo [] ⟨"a/.md".toList⟩ := by
  have wellFormed : (diskOf dottedVault).top.WellFormed := by decide
  have linkable {document : DocumentPath} (member : document ∈ dottedDocuments) :=
    buildIndex_linkable wellFormed buildIndex_dottedVault member []
  have skipped {document : DocumentPath} (unmarked : document.isMarkdown = false) :
      (publishOne { root := "vault".toList } ⟨⟨dottedDocuments⟩, [], []⟩ document
        ⟨diskOf dottedVault, [.indexed 5 "vault".toList]⟩).1 = .skipped document :=
    publishOne_eq_skipped_iff.mpr unmarked
  have nameOf {document : DocumentPath} {name other : Text}
      (named : document.fileName = name ++ DocumentPath.markdownSuffix)
      (shown : document.fileName = other ++ DocumentPath.markdownSuffix) : name = other :=
    List.append_cancel_right (named.symm.trans shown)
  refine ⟨wellFormed, _, _, buildIndex_dottedVault, rfl, by decide, ?_, by decide, ?_,
    skipped (by decide), ?_, skipped (by decide), ?_⟩
  · obtain ⟨name, named, -, linked⟩ := (@linkable ⟨"a/..md".toList⟩ (by decide)).1 (by decide)
    obtain rfl : name = ".".toList := nameOf named (by decide)
    exact linked (by decide) (by decide) (by simp [Text.isLineBreak])
  · obtain ⟨name, named, byName, -⟩ := (@linkable ⟨"x|y.md".toList⟩ (by decide)).1 (by decide)
    obtain rfl : name = "x|y".toList := nameOf named (by decide)
    exact mt byName.mp (by decide)
  · have byFolder := ((@linkable ⟨".md".toList⟩ (by decide)).2 _ _ _
      (skipped (by decide)) ⟨dottedDocuments⟩).2 (by decide)
    refine mt byFolder.mp ?_
    rintro ⟨folder, written, -⟩
    -- The path is shorter than a slash and the suffix.
    have sized := congrArg List.length written
    simp [DocumentPath.markdownSuffix] at sized
  · have byFolder := ((@linkable ⟨"a/.md".toList⟩ (by decide)).2 _ _ _
      (skipped (by decide)) ⟨dottedDocuments⟩).2 (by decide)
    exact byFolder.mpr ⟨"a".toList, by decide, by decide⟩

/-- What a run over the vault publishes. -/
private def dottedPublished : List RewrittenDocument :=
  [⟨⟨"x|y.md".toList⟩, ⟨"x|y.md".toList⟩, [], []⟩,
    ⟨⟨"b.md".toList⟩, ⟨"b.md".toList⟩, "[](/a/)".toList,
      [⟨"[[a/]]".toList, "a/".toList, .resolved ⟨"a/.md".toList⟩ "/a/".toList⟩]⟩,
    ⟨⟨"a/..md".toList⟩, ⟨"a/..md".toList⟩, [], []⟩]

/-- A run skips a file to which a document that it publishes has a link. -/
theorem dottedVault_skipped_linked :
    ∃ index indexed report last,
      buildIndex "vault".toList [] ⟨diskOf dottedVault, []⟩ = .ok index indexed ∧
        ⟨"a/.md".toList⟩ ∈ index.documents ∧
        publish { root := "vault".toList } ⟨diskOf dottedVault, []⟩ = .ok report last ∧
        ⟨"a/.md".toList⟩ ∈ report.skipped ∧
        report.Resolves ⟨"a/.md".toList⟩ "/a/".toList := by
  let options : PublishOptions := { root := "vault".toList }
  have reported : reportOf? (publish options ⟨diskOf dottedVault, []⟩) =
      some ⟨dottedPublished, [⟨"a/.md".toList⟩, ⟨".md".toList⟩], []⟩ := by
    simp only [publish, compileExcludes, bind, EStateM.bind, pure, EStateM.pure, options,
      buildIndex_dottedVault]
    decide +kernel
  obtain ⟨last, done⟩ := exists_of_reportOf? reported
  have resolves : PublishReport.Resolves ⟨dottedPublished, [⟨"a/.md".toList⟩, ⟨".md".toList⟩], []⟩
      ⟨"a/.md".toList⟩ "/a/".toList :=
    ⟨_, List.mem_cons_of_mem _ List.mem_cons_self, _, List.mem_cons_self, rfl⟩
  exact ⟨_, _, _, last, buildIndex_dottedVault, by decide, done, List.mem_cons_self, resolves⟩

end Indexed

end Vault

end NotePublisher
