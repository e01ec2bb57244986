import NotePublisher.Proofs.Vault.Conservation

namespace NotePublisher

/-!
# Dry runs

A dry run foretells what a run that stores documents reports, for as long as
the path of the root leads to the vault (`Vault.publish_foretold`). A path that
goes through a folder of the vault may be lost when the run renames that
folder, and so may a relative path when the working folder is in the vault and
is renamed (`Vault.RootLost`); the documents after that are not read
(`Vault.windingVault_not_foretold`).
-/

namespace Vault

open Disk

/--
The path of the root leads to no folder, or it starts from a working folder
that is gone.
-/
def RootLost
    (root : Text)
    (disk : Disk) :
    Prop :=
  disk.isFolder (Route.ofText root) = false ∨
    (Route.ofText root).absolute = false ∧ disk.look disk.workingFolder ≠ some .folder

/-- How the outcome of a dry run is related to that of a run that stores documents. -/
inductive Foreseen (lost : Prop) : PublishOutcome → PublishOutcome → Prop where
  | same (outcome : PublishOutcome) :
      Foreseen lost outcome outcome
  | refused {rewritten : RewrittenDocument} {path : Text} {cause : DiskError} :
      ':' ∈ rewritten.source.text →
      Foreseen lost (.published rewritten) (.failed rewritten.source (.write path cause))
  | unread {outcome : PublishOutcome} {error : VaultError} :
      lost →
      outcome ≠ .skipped outcome.document →
      Foreseen lost outcome (.failed outcome.document error)

/-- A document that publishing moves has a colon in its path. -/
theorem mem_text_of_location_ne
    {document : DocumentPath}
    (different : document.output.location ≠ document.location) :
    ':' ∈ document.text := by
  by_contra absent
  exact different (by rw [DocumentPath.output, DocumentPath.publishedText_eq_self absent])

section Foretelling

variable {root : Text} {home : Location} {context : RewriteContext} {document : DocumentPath}
  {disk changed : Disk} {folder newFolder : Folder} {outcome : PublishOutcome}

theorem foretell_document
    (root : Text)
    (context : RewriteContext)
    (folder : Folder)
    (document : DocumentPath) :
    (foretell root context folder document).document = document := by
  rw [foretell]
  split
  · split <;> rfl
  · rfl

/-- What can be read is foretold to be published. -/
private theorem foretell_of_decoded
    {file : RegularFile}
    {text : Text}
    (markdown : document.isMarkdown = true)
    (present : folder.look document.location = some (.leaf (.file file)))
    (decoded : Utf8.decode? file.content = some text) :
    foretell root context folder document = .published (.ofText context document text) := by
  simp [foretell, markdown, Folder.textAt?_of_look present, decoded]

/-- What a step does was foretold, or the document was foretold to be published and is refused. -/
theorem PublishStep.foreseen
    (lost : Prop)
    (step : PublishStep root home context document disk folder outcome changed newFolder) :
    Foreseen lost (foretell root context folder document) outcome := by
  cases step with
  | skipped unmarked =>
      have foretold : foretell root context folder document = .skipped document := by
        simp [foretell, unmarked]
      rw [foretold]
      exact .same _
  | unreadable markdown present undecoded =>
      have foretold : foretell root context folder document =
          .failed document (.read (document.within root) .notText) := by
        simp [foretell, markdown, Folder.textAt?_of_look present, undecoded]
      rw [foretold]
      exact .same _
  | rewritten markdown present decoded _ _ _ _ =>
      rw [foretell_of_decoded markdown present decoded]
      exact .same _
  | moved markdown present decoded _ _ _ =>
      rw [foretell_of_decoded markdown present decoded]
      exact .same _
  | refused markdown present decoded different _ _ _ _ =>
      rw [foretell_of_decoded markdown present decoded]
      exact .refused (mem_text_of_location_ne different)

/-- A lost root explains why a document was not reached. -/
theorem Unreached.foreseen
    {lost : Prop}
    (isLost : lost)
    (folder : Folder)
    (unreached : Unreached root document outcome) :
    Foreseen lost (foretell root context folder document) outcome := by
  cases unreached with
  | skipped unmarked =>
      have foretold : foretell root context folder document = .skipped document := by
        simp [foretell, unmarked]
      rw [foretold]
      exact .same _
  | @unread cause markdown =>
      have sameDocument := foretell_document root context folder document
      have notSkipped : foretell root context folder document ≠ .skipped document := by
        rw [foretell, if_pos markdown]
        split <;> simp
      have foreseen : Foreseen lost (foretell root context folder document)
          (.failed (foretell root context folder document).document
            (.read (document.within root) cause)) :=
        .unread isLost (by rwa [sameDocument])
      rwa [sameDocument] at foreseen

/-- A step changes nothing in what is foretold of the documents after it. -/
theorem PublishStep.map_foretell
    {others : List DocumentPath}
    (step : PublishStep root home context document disk folder outcome changed newFolder)
    (pending : Pending folder (document :: others)) :
    others.map (foretell root context newFolder) = others.map (foretell root context folder) := by
  apply List.map_congr_left
  intro other member
  obtain ⟨file, present⟩ := pending.present other (List.mem_cons_of_mem document member)
  have kept := step.look_file (fun _ => pending.location_ne member) present
  rw [foretell, foretell, Folder.textAt?_of_look present, Folder.textAt?_of_look kept]

/-- The outcomes of a run are those foretold, as far as the root leads to the vault. -/
theorem PublishRun.foreseen
    {last : Disk}
    {lastFolder : Folder}
    {documents : List DocumentPath}
    {outcomes : List PublishOutcome}
    (run : PublishRun root home context disk folder documents outcomes last lastFolder)
    (pending : Pending folder documents) :
    List.Forall₂ (Foreseen (last.isFolder (Route.ofText root) = false))
      (documents.map (foretell root context folder)) outcomes := by
  induction run with
  | done => exact .nil
  | @lost _ folder _ _ lost unreached =>
      clear pending
      induction unreached with
      | nil => exact .nil
      | cons first _ inductionHypothesis =>
          exact .cons (first.foreseen (isFolder_of_lost lost) folder) inductionHypothesis
  | step _ step _ inductionHypothesis =>
      have later := inductionHypothesis (pending.after step)
      rw [step.map_foretell pending] at later
      exact .cons (step.foreseen _) later

end Foretelling

/-- A dry run reports what is foretold, and changes nothing. -/
theorem publishEach_dry
    {options : PublishOptions}
    {home : Location}
    {folder : Folder}
    (context : RewriteContext)
    (dry : options.dryRun = true)
    {documents : List DocumentPath}
    (session : Session)
    (reachable : Reachable session.disk options.root home folder)
    (pending : Pending folder documents) :
    (publishEach options context documents session).1 =
        documents.map (foretell options.root context folder) ∧
      (publishEach options context documents session).2.disk = session.disk := by
  induction documents generalizing session with
  | nil =>
      exact ⟨rfl, rfl⟩
  | cons document others inductionHypothesis =>
      have normal := pending.normal document List.mem_cons_self
      obtain ⟨file, present⟩ := pending.present document List.mem_cons_self
      obtain ⟨foretold, unchanged⟩ :=
        publishOne_dry context dry session reachable normal present
      obtain ⟨foretoldThen, unchangedThen⟩ := inductionHypothesis
        (publishOne options context document session).2 (unchanged ▸ reachable) pending.tail
      rw [publishEach_cons, List.map_cons, ← foretold, ← foretoldThen]
      exact ⟨rfl, unchangedThen.trans unchanged⟩

/--
One report foretells another: what is left out is refused for its path and otherwise the same,
unless the vault was lost.
-/
structure Foretells
    (lost : Prop)
    (dry real : PublishReport) : Prop where
  skipped : real.skipped = dry.skipped
  failed : ∀ failure ∈ dry.failures, ∃ error,
    ⟨failure.document, error⟩ ∈ real.failures ∧ (error = failure.error ∨ lost)
  published : real.published.Sublist dry.published
  removed : ∀ rewritten ∈ dry.published, rewritten ∉ real.published → ∃ error,
    ⟨rewritten.source, error⟩ ∈ real.failures ∧
      ((∃ path cause, error = .write path cause) ∧ ':' ∈ rewritten.source.text ∨ lost)

/-- A report is foretold the more easily, the more is taken for a lost root. -/
theorem Foretells.mono
    {lost wider : Prop}
    {dry real : PublishReport}
    (foretells : Foretells lost dry real)
    (isWider : lost → wider) :
    Foretells wider dry real where
  skipped := foretells.skipped
  failed failure reported := by
    obtain ⟨error, member, same⟩ := foretells.failed failure reported
    exact ⟨error, member, same.imp_right isWider⟩
  published := foretells.published
  removed rewritten reported missing := by
    obtain ⟨error, member, refused⟩ := foretells.removed rewritten reported missing
    exact ⟨error, member, refused.imp_right isWider⟩

section Reports

variable {lost : Prop} {dryOutcomes outcomes : List PublishOutcome}

/-- What is foretold happens, or is refused, or is not reached. -/
private theorem exists_foreseen
    (foreseen : List.Forall₂ (Foreseen lost) dryOutcomes outcomes)
    {foretold : PublishOutcome}
    (member : foretold ∈ dryOutcomes) :
    ∃ outcome ∈ outcomes, Foreseen lost foretold outcome := by
  induction foreseen with
  | nil => cases member
  | @cons _ outcome _ _ first _ inductionHypothesis =>
      rcases List.mem_cons.mp member with rfl | later
      · exact ⟨outcome, List.mem_cons_self, first⟩
      · obtain ⟨other, otherMember, related⟩ := inductionHypothesis later
        exact ⟨other, List.mem_cons_of_mem _ otherMember, related⟩

/-- What is skipped is foretold exactly. -/
private theorem skipped_eq_of_foreseen
    (foreseen : List.Forall₂ (Foreseen lost) dryOutcomes outcomes) :
    (PublishReport.ofOutcomes outcomes).skipped =
      (PublishReport.ofOutcomes dryOutcomes).skipped := by
  induction foreseen with
  | nil => rfl
  | @cons foretold _ _ _ first _ inductionHypothesis =>
      simp only [PublishReport.ofOutcomes] at inductionHypothesis ⊢
      cases first with
      | same => cases foretold <;> simp [inductionHypothesis]
      | refused _ => simp [inductionHypothesis]
      | unread _ notSkipped =>
          cases foretold with
          | skipped document => exact absurd rfl notSkipped
          | published rewritten => simp [inductionHypothesis]
          | failed document error => simp [inductionHypothesis]

/-- What is published was foretold, in the same order. -/
private theorem published_sublist_of_foreseen
    (foreseen : List.Forall₂ (Foreseen lost) dryOutcomes outcomes) :
    (PublishReport.ofOutcomes outcomes).published.Sublist
      (PublishReport.ofOutcomes dryOutcomes).published := by
  induction foreseen with
  | nil => exact .slnil
  | @cons foretold _ _ _ first _ inductionHypothesis =>
      simp only [PublishReport.ofOutcomes] at inductionHypothesis ⊢
      cases first with
      | same => cases foretold <;> simp [inductionHypothesis]
      | refused _ => exact inductionHypothesis.cons _
      | unread _ _ =>
          cases foretold with
          | skipped document => exact inductionHypothesis
          | published rewritten => exact inductionHypothesis.cons rewritten
          | failed document error => exact inductionHypothesis

/-- Outcomes that were foreseen make a report that was foretold. -/
theorem foretells_of_foreseen
    (foreseen : List.Forall₂ (Foreseen lost) dryOutcomes outcomes) :
    Foretells lost (.ofOutcomes dryOutcomes) (.ofOutcomes outcomes) where
  skipped := skipped_eq_of_foreseen foreseen
  published := published_sublist_of_foreseen foreseen
  failed failure reported := by
    obtain ⟨outcome, member, related⟩ :=
      exists_foreseen foreseen (PublishReport.mem_failures_iff.mp reported)
    cases related with
    | same => exact ⟨failure.error, PublishReport.mem_failures_iff.mpr member, .inl rfl⟩
    | @unread _ error isLost _ =>
        exact ⟨error, PublishReport.mem_failures_iff.mpr member, .inr isLost⟩
  removed rewritten reported missing := by
    obtain ⟨outcome, member, related⟩ :=
      exists_foreseen foreseen (PublishReport.mem_published_iff.mp reported)
    cases related with
    | same => exact absurd (PublishReport.mem_published_iff.mpr member) missing
    | @refused _ path cause colon =>
        exact ⟨.write path cause, PublishReport.mem_failures_iff.mpr member,
          .inl ⟨⟨path, cause, rfl⟩, colon⟩⟩
    | @unread _ error isLost _ =>
        exact ⟨error, PublishReport.mem_failures_iff.mpr member, .inr isLost⟩

end Reports

/-- A dry run changes nothing, and foretells a run that stores documents. -/
theorem publish_foretold
    {options : PublishOptions}
    {patterns : List NamePattern}
    {home : Location}
    {folder : Folder}
    (session : Session)
    (rooted : Rooted session.disk options.root home folder)
    (compiled : compileExcludes options.excludes = .ok patterns) :
    ∃ dry afterDry real afterReal,
      publish { options with dryRun := true } session = .ok dry afterDry ∧
        publish { options with dryRun := false } session = .ok real afterReal ∧
        afterDry.disk = session.disk ∧
        Foretells (RootLost options.root afterReal.disk) dry real := by
  let dryOptions : PublishOptions := { options with dryRun := true }
  let realOptions : PublishOptions := { options with dryRun := false }
  have wellFormed := rooted.folder_wellFormed
  have pending := @pending_indexOf folder patterns wellFormed
  obtain ⟨dryEvents, afterDryEvents, dryPublished⟩ :=
    @publish_eq _ _ dryOptions _ compiled session rooted
  obtain ⟨realEvents, afterRealEvents, realPublished⟩ :=
    @publish_eq _ _ realOptions _ compiled session rooted
  obtain ⟨foretold, unchanged⟩ := @publishEach_dry dryOptions _ _
    (contextOf dryOptions patterns folder) rfl _ ⟨session.disk, dryEvents⟩ rooted.reachable
    pending
  obtain ⟨lastFolder, run⟩ := @publishEach_run _ _ realOptions
    (contextOf realOptions patterns folder) rfl _ ⟨session.disk, realEvents⟩ rooted.reachable
    pending
  refine ⟨_, _, _, _, dryPublished, realPublished, unchanged, ?_⟩
  rw [foretold]
  exact (foretells_of_foreseen (run.foreseen pending)).mono .inl

/-- A vault in which a document fails that a dry run publishes: its output is taken. -/
theorem publish_foretold_collidingVault :
    ∃ dry afterDry real afterReal,
      publish { root := "vault".toList, dryRun := true } ⟨diskOf collidingVault, []⟩ =
          .ok dry afterDry ∧
        publish { root := "vault".toList, dryRun := false } ⟨diskOf collidingVault, []⟩ =
          .ok real afterReal ∧
        afterDry.disk = diskOf collidingVault ∧
        Foretells (RootLost "vault".toList afterReal.disk) dry real :=
  @publish_foretold { root := "vault".toList } [] _ _ ⟨diskOf collidingVault, []⟩
    rooted_collidingVault rfl

/-- A vault with a folder that is renamed when it is published. -/
def windingVault : Folder :=
  .leaf (Utf8.encode "0.md".toList) (.file ⟨0o644, Utf8.encode "hello".toList⟩)
    (.folder (Utf8.encode "a: b".toList)
      (.leaf (Utf8.encode "x.md".toList) (.file ⟨0o644, Utf8.encode "x".toList⟩) .empty)
      .empty)

/-- A path to the vault that leads through the folder that is renamed. -/
def windingRoot : Text :=
  "vault/a: b/..".toList

private theorem rooted_windingVault :
    Rooted (diskOf windingVault) windingRoot [Utf8.encode "vault".toList] windingVault where
  resolved := by decide +kernel
  inside := by decide
  linkFree := Folder.linkFree_of_holdsNoLink (by decide)
  wellFormed := by decide

private theorem buildIndex_windingVault :
    buildIndex windingRoot [] ⟨diskOf windingVault, []⟩ =
      .ok ⟨[⟨"a: b/x.md".toList⟩, ⟨"0.md".toList⟩]⟩
        ⟨diskOf windingVault, [.indexed 2 windingRoot]⟩ :=
  buildIndex_of_scanned windingVault (by decide +kernel) (by decide +kernel)
    (by decide +kernel) (by decide +kernel) (by decide +kernel)

/-- When the path to the vault is lost on the way, a document is not read though it could be. -/
theorem windingVault_not_foretold :
    Rooted (diskOf windingVault) windingRoot [Utf8.encode "vault".toList] windingVault ∧
      ∃ dry afterDry real afterReal,
        publish { root := windingRoot, dryRun := true } ⟨diskOf windingVault, []⟩ =
            .ok dry afterDry ∧
          publish { root := windingRoot, dryRun := false } ⟨diskOf windingVault, []⟩ =
            .ok real afterReal ∧
          ¬ Foretells False dry real := by
  refine ⟨rooted_windingVault, ?_⟩
  let moved : RewrittenDocument :=
    ⟨⟨"a: b/x.md".toList⟩, ⟨"a - b/x.md".toList⟩, "x".toList, []⟩
  let unread : RewrittenDocument := ⟨⟨"0.md".toList⟩, ⟨"0.md".toList⟩, "hello".toList, []⟩
  have dryReport : reportOf? (publish { root := windingRoot, dryRun := true }
      ⟨diskOf windingVault, []⟩) = some ⟨[moved, unread], [], []⟩ := by
    simp only [publish, compileExcludes, bind, EStateM.bind, pure, EStateM.pure,
      buildIndex_windingVault]
    decide +kernel
  have realReport : reportOf? (publish { root := windingRoot, dryRun := false }
      ⟨diskOf windingVault, []⟩) =
      some ⟨[moved], [], [⟨unread.source, .read "vault/a: b/../0.md".toList .notFound⟩]⟩ := by
    simp only [publish, compileExcludes, bind, EStateM.bind, pure, EStateM.pure,
      buildIndex_windingVault]
    decide +kernel
  obtain ⟨afterDry, dryDone⟩ := exists_of_reportOf? dryReport
  obtain ⟨afterReal, realDone⟩ := exists_of_reportOf? realReport
  refine ⟨_, afterDry, _, afterReal, dryDone, realDone, ?_⟩
  intro foretells
  obtain ⟨error, reported, isWrite⟩ := foretells.removed unread (by simp) (by decide)
  simp only [List.mem_singleton, PublishFailure.mk.injEq] at reported
  simp [reported.2] at isWrite

end Vault

end NotePublisher
