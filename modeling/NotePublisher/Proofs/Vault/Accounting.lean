import NotePublisher.Proofs.Vault.Conservation

namespace NotePublisher

/-!
# Every file is accounted for

A report splits the index into files that were skipped, documents that were
published and documents that failed, each in the order of the index. A
document failed exactly if it could not be read or stored when its turn came
(`Vault.failed_iff_failsWith`). Nothing is assumed about links in the vault.
-/

namespace PublishReport

variable (outcomes : List PublishOutcome)

/-- Published documents are reported in the order of their turns. -/
theorem published_sublist :
    ((ofOutcomes outcomes).published.map RewrittenDocument.source).Sublist
      (outcomes.map PublishOutcome.document) := by
  refine map_filterMap_sublist fun outcome _ rewritten found => ?_
  cases outcome <;> cases found
  rfl

theorem failures_sublist :
    ((ofOutcomes outcomes).failures.map PublishFailure.document).Sublist
      (outcomes.map PublishOutcome.document) := by
  refine map_filterMap_sublist fun outcome _ failure found => ?_
  cases outcome <;> cases found
  rfl

end PublishReport

namespace Vault

open Disk

/-- Why publishing a document fails when its turn comes: it is not read, or it is not stored. -/
inductive FailsWith
    (options : PublishOptions)
    (context : RewriteContext)
    (document : DocumentPath)
    (session : Session)
    (error : VaultError) : Prop where
  | unread {last : Session} :
      readDocument options.root document session = .error error last →
      FailsWith options context document session error
  | unstored {rewritten : RewrittenDocument} {prepared last : Session} :
      options.dryRun = false →
      prepareDocument options.root context document session = .ok rewritten prepared →
      persistDocument options.root rewritten.source rewritten.output rewritten.text prepared =
        .error error last →
      FailsWith options context document session error

section One

variable {options : PublishOptions} {context : RewriteContext} {document : DocumentPath}
  {session last : Session} {error : VaultError}

/-- Preparing a document fails in reading it only. -/
theorem prepareDocument_eq_error_iff
    {root : Text} :
    prepareDocument root context document session = .error error last ↔
      readDocument root document session = .error error last := by
  cases read : readDocument root document session <;>
    simp [prepareDocument, bind, EStateM.bind, read, VaultAction.noteAll, pure, EStateM.pure]

/-- A document fails with the error of its publishing. -/
theorem failsWith_iff :
    FailsWith options context document session error ↔
      ∃ last, publishMarkdown options context document session = .error error last := by
  constructor
  · rintro (unread | ⟨stores, prepared, unstored⟩)
    · exact ⟨_, publishMarkdown_of_unread (prepareDocument_eq_error_iff.mpr unread)⟩
    · exact ⟨_, by rw [publishMarkdown_of_prepared stores prepared, unstored]⟩
  · rintro ⟨last, failed⟩
    cases prepared : prepareDocument options.root context document session with
    | error cause unread =>
        rw [publishMarkdown_of_unread prepared] at failed
        cases failed
        exact .unread (prepareDocument_eq_error_iff.mp prepared)
    | ok rewritten ready =>
        cases stores : options.dryRun with
        | true =>
            simp only [publishMarkdown, stores, if_true, prepared] at failed
            cases failed
        | false =>
            rw [publishMarkdown_of_prepared stores prepared] at failed
            cases stored : persistDocument options.root rewritten.source rewritten.output
                rewritten.text ready with
            | ok _ after => simp [stored] at failed
            | error cause after =>
                simp only [stored] at failed
                cases failed
                exact .unstored stores prepared stored

/-- What is published is a text that was read, rewritten. -/
theorem eq_ofText_of_published
    {rewritten : RewrittenDocument}
    (done : publishMarkdown options context document session = .ok rewritten last) :
    ∃ text, rewritten = .ofText context document text := by
  obtain ⟨events, prepared⟩ := prepareDocument_eq options.root context document session
  cases read : session.disk.readText (Route.ofText (document.within options.root)) with
  | error cause =>
      simp only [read] at prepared
      rw [publishMarkdown_of_unread prepared] at done
      cases done
  | ok text =>
      simp only [read] at prepared
      refine ⟨text, ?_⟩
      cases stores : options.dryRun with
      | true =>
          simp only [publishMarkdown, stores, if_true, prepared] at done
          cases done
          rfl
      | false =>
          rw [publishMarkdown_of_prepared stores prepared] at done
          generalize persistDocument _ _ _ _ _ = stored at done
          cases stored <;> cases done
          rfl

/-- The outcome of publishing a file is about that file. -/
theorem document_publishOne
    (options : PublishOptions)
    (context : RewriteContext)
    (document : DocumentPath)
    (session : Session) :
    (publishOne options context document session).1.document = document := by
  cases markdown : document.isMarkdown with
  | false => simp [publishOne, markdown, PublishOutcome.document]
  | true =>
      cases done : publishMarkdown options context document session with
      | error error last => simp [publishOne_of_error markdown done, PublishOutcome.document]
      | ok rewritten last =>
          obtain ⟨text, rfl⟩ := eq_ofText_of_published done
          rw [publishOne_of_ok markdown done]
          rfl

/-- A markdown document fails when its turn comes exactly if it cannot be read or stored then. -/
theorem publishOne_eq_failed_iff
    (markdown : document.isMarkdown = true) :
    (publishOne options context document session).1 = .failed document error ↔
      FailsWith options context document session error := by
  rw [failsWith_iff]
  cases done : publishMarkdown options context document session with
  | ok rewritten last => simp [publishOne_of_ok markdown done]
  | error cause last => simp [publishOne_of_error markdown done]

/-- Exactly the files that are not markdown are skipped. -/
theorem publishOne_eq_skipped_iff :
    (publishOne options context document session).1 = .skipped document ↔
      document.isMarkdown = false := by
  cases markdown : document.isMarkdown with
  | false => simp [publishOne, markdown]
  | true =>
      cases done : publishMarkdown options context document session with
      | ok rewritten last => simp [publishOne_of_ok markdown done]
      | error cause last => simp [publishOne_of_error markdown done]

end One

section Each

variable (options : PublishOptions) (context : RewriteContext)

theorem publishEach_append
    (before after : List DocumentPath)
    (session : Session) :
    publishEach options context (before ++ after) session =
      let afterFirst := publishEach options context before session
      let afterAll := publishEach options context after afterFirst.2
      (afterFirst.1 ++ afterAll.1, afterAll.2) := by
  induction before generalizing session with
  | nil =>
      rfl
  | cons document others inductionHypothesis =>
      simp only [List.cons_append, publishEach_cons, inductionHypothesis]

/-- There is one outcome for each file, in order. -/
theorem map_document_publishEach
    (documents : List DocumentPath)
    (session : Session) :
    (publishEach options context documents session).1.map PublishOutcome.document = documents := by
  induction documents generalizing session with
  | nil =>
      rfl
  | cons document others inductionHypothesis =>
      rw [publishEach_cons, List.map_cons, document_publishOne, inductionHypothesis]

/-- The files that are not markdown are skipped. -/
theorem skipped_publishEach
    (documents : List DocumentPath)
    (session : Session) :
    (PublishReport.ofOutcomes (publishEach options context documents session).1).skipped =
      documents.filter fun document => !document.isMarkdown := by
  induction documents generalizing session with
  | nil =>
      rfl
  | cons document others inductionHypothesis =>
      have later := inductionHypothesis (publishOne options context document session).2
      have isAbout := document_publishOne options context document session
      have isSkipped := @publishOne_eq_skipped_iff options context document session
      rw [publishEach_cons]
      simp only [PublishReport.ofOutcomes] at later ⊢
      generalize (publishOne options context document session).1 = outcome at isAbout isSkipped
      cases outcome with
      | skipped path =>
          cases isAbout
          have unmarked := isSkipped.mp rfl
          simp only [List.filterMap_cons, later]
          rw [List.filter_cons_of_pos (by simp [unmarked])]
          rfl
      | published rewritten =>
          have markdown : document.isMarkdown ≠ false := mt isSkipped.mpr (by simp)
          simp only [List.filterMap_cons, later]
          rw [List.filter_cons_of_neg (by simpa using markdown)]
      | failed path error =>
          have markdown : document.isMarkdown ≠ false := mt isSkipped.mpr (by simp)
          simp only [List.filterMap_cons, later]
          rw [List.filter_cons_of_neg (by simpa using markdown)]

/-- A markdown document is reported as failed exactly if it failed when its turn came. -/
theorem mem_failures_publishEach_iff
    {before after : List DocumentPath}
    {document : DocumentPath}
    (distinct : (before ++ document :: after).Nodup)
    (markdown : document.isMarkdown = true)
    (session : Session)
    (error : VaultError) :
    ⟨document, error⟩ ∈ (PublishReport.ofOutcomes
        (publishEach options context (before ++ document :: after) session).1).failures ↔
      FailsWith options context document (publishEach options context before session).2 error := by
  have isAbout := map_document_publishEach options context (before ++ document :: after) session
  rw [PublishReport.mem_failures_iff, ← publishOne_eq_failed_iff markdown]
  simp only [publishEach_append, publishEach_cons] at isAbout ⊢
  constructor
  · intro failed
    -- No other outcome is about the document.
    exact List.inj_on_of_nodup_map (isAbout ▸ distinct) (by simp) failed
      (document_publishOne options context document _)
  · intro failed
    simp [failed]

end Each

/-- A report that splits an index into what was skipped, published and failed. -/
structure Accounted
    (options : PublishOptions)
    (context : RewriteContext)
    (start : Session)
    (documents : List DocumentPath)
    (report : PublishReport) : Prop where
  distinct : documents.Nodup
  skipped : report.skipped = documents.filter fun document => !document.isMarkdown
  published : (report.published.map RewrittenDocument.source).Sublist documents
  failures : (report.failures.map PublishFailure.document).Sublist documents
  exhaustive : documents.Perm
    (report.published.map RewrittenDocument.source ++ report.skipped ++
      report.failures.map PublishFailure.document)
  /-- Whether a document failed is decided at its turn, by reading and storing it. -/
  failed : ∀ before document after, documents = before ++ document :: after →
    document.isMarkdown = true → ∀ error,
      (⟨document, error⟩ ∈ report.failures ↔
        FailsWith options context document (publishEach options context before start).2 error)

/-- Publishing distinct documents accounts for each of them once. -/
theorem accounted_publishEach
    (options : PublishOptions)
    (context : RewriteContext)
    (start : Session)
    {documents : List DocumentPath}
    (distinct : documents.Nodup) :
    Accounted options context start documents
      (.ofOutcomes (publishEach options context documents start).1) := by
  have isAbout := map_document_publishEach options context documents start
  have published := PublishReport.published_sublist (publishEach options context documents start).1
  have failures := PublishReport.failures_sublist (publishEach options context documents start).1
  have exhaustive := PublishReport.perm_ofOutcomes (publishEach options context documents start).1
  rw [isAbout] at published failures exhaustive
  refine ⟨distinct, skipped_publishEach options context documents start, published, failures,
    exhaustive, ?_⟩
  rintro before document after rfl markdown error
  exact mem_failures_publishEach_iff options context distinct markdown start error

/-- A dry run changes nothing. -/
theorem disk_publishOne_dry
    {options : PublishOptions}
    (dry : options.dryRun = true)
    (context : RewriteContext)
    (document : DocumentPath)
    (session : Session) :
    (publishOne options context document session).2.disk = session.disk := by
  cases markdown : document.isMarkdown with
  | false => simp [publishOne, markdown]
  | true =>
      obtain ⟨events, prepared⟩ := prepareDocument_eq options.root context document session
      cases read : session.disk.readText (Route.ofText (document.within options.root)) with
      | error cause =>
          simp only [read] at prepared
          rw [publishOne_of_error markdown (publishMarkdown_of_unread prepared)]
      | ok text =>
          simp only [read] at prepared
          have done : publishMarkdown options context document session =
              .ok (.ofText context document text) ⟨session.disk, events⟩ := by
            simp only [publishMarkdown, dry, if_true, prepared]
          rw [publishOne_of_ok markdown done]

/-- A dry run leaves the disk alone. -/
theorem disk_publishEach_dry
    {options : PublishOptions}
    (dry : options.dryRun = true)
    (context : RewriteContext)
    (documents : List DocumentPath)
    (session : Session) :
    (publishEach options context documents session).2.disk = session.disk := by
  induction documents generalizing session with
  | nil =>
      rfl
  | cons document others inductionHypothesis =>
      rw [publishEach_cons, inductionHypothesis, disk_publishOne_dry dry]

/--
A run that fails changes nothing. The report of any other run accounts for the
files of the index, and a dry run changes nothing either.
-/
theorem publish_accounts
    (options : PublishOptions)
    (session : Session)
    (wellFormed : session.disk.top.WellFormed) :
    match publish options session with
    | .error _ last => last.disk = session.disk
    | .ok report last =>
        ∃ patterns index indexed,
          compileExcludes options.excludes = .ok patterns ∧
          buildIndex options.root patterns session = .ok index indexed ∧
          indexed.disk = session.disk ∧
          Accounted options (contextWith options index) (firstTurn options index indexed)
            index.documents report ∧
          (options.dryRun = true → last.disk = session.disk) := by
  rcases publish_cases options session with
    ⟨error, failed⟩ | ⟨patterns, index, indexed, events, compiled, built, unchanged, published⟩
  · rw [failed]
  · rw [published]
    obtain ⟨home, resolved, -, -⟩ := resolve_of_buildIndex built
    have listed := listed_of_buildIndex wellFormed built resolved
    refine ⟨patterns, index, indexed, compiled, built, unchanged,
      accounted_publishEach _ _ _ (List.Nodup.of_map _ listed.distinct), fun dry => ?_⟩
    exact (disk_publishEach_dry dry _ _ _).trans unchanged

/-- A vault with an attachment, a link to nothing and a document whose name is taken. -/
private def mixedVault : Folder :=
  .leaf (Utf8.encode "a.png".toList) (.file ⟨0o644, ⟨#[137, 80]⟩⟩)
    (.leaf (Utf8.encode "b.md".toList) (.link "gone.md".toList)
      (.leaf (Utf8.encode "c -d.md".toList) (.file ⟨0o600, Utf8.encode "kept".toList⟩)
        (.leaf (Utf8.encode "c:d.md".toList) (.file ⟨0o644, Utf8.encode "new".toList⟩) .empty)))

private theorem buildIndex_mixedVault :
    buildIndex "vault".toList [] ⟨diskOf mixedVault, []⟩ =
      .ok ⟨[⟨"c:d.md".toList⟩, ⟨"c -d.md".toList⟩, ⟨"b.md".toList⟩, ⟨"a.png".toList⟩]⟩
        ⟨diskOf mixedVault, [.indexed 4 "vault".toList]⟩ :=
  buildIndex_of_scanned mixedVault (by decide +kernel) (by decide +kernel)
    (by decide +kernel) (by decide +kernel) (by decide +kernel)

/-- A vault with documents of all three kinds. -/
theorem publish_accounts_mixedVault :
    (diskOf mixedVault).top.WellFormed ∧
      ∃ report last patterns index indexed,
        publish { root := "vault".toList } ⟨diskOf mixedVault, []⟩ = .ok report last ∧
          report.skipped = [⟨"a.png".toList⟩] ∧
          report.published.map RewrittenDocument.source = [⟨"c -d.md".toList⟩] ∧
          report.failures.map PublishFailure.document = [⟨"c:d.md".toList⟩, ⟨"b.md".toList⟩] ∧
          compileExcludes [] = .ok patterns ∧
          buildIndex "vault".toList patterns ⟨diskOf mixedVault, []⟩ = .ok index indexed ∧
          Accounted { root := "vault".toList } (contextWith { root := "vault".toList } index)
            (firstTurn { root := "vault".toList } index indexed) index.documents report := by
  have wellFormed : (diskOf mixedVault).top.WellFormed := by decide
  have accounts := publish_accounts { root := "vault".toList } ⟨diskOf mixedVault, []⟩ wellFormed
  have reported : reportOf? (publish { root := "vault".toList } ⟨diskOf mixedVault, []⟩) =
      some
        ⟨[⟨⟨"c -d.md".toList⟩, ⟨"c -d.md".toList⟩, "kept".toList, []⟩], [⟨"a.png".toList⟩],
          [⟨⟨"c:d.md".toList⟩, .write "vault/c -d.md".toList .alreadyExists⟩,
            ⟨⟨"b.md".toList⟩, .read "vault/b.md".toList .notFound⟩]⟩ := by
    simp only [publish, compileExcludes, bind, EStateM.bind, pure, EStateM.pure,
      buildIndex_mixedVault]
    decide +kernel
  obtain ⟨last, done⟩ := exists_of_reportOf? reported
  rw [done] at accounts
  obtain ⟨patterns, index, indexed, compiled, built, -, accounted, -⟩ := accounts
  exact ⟨wellFormed, _, last, patterns, index, indexed, done, rfl, rfl, rfl, compiled, built,
    accounted⟩

end Vault

end NotePublisher
