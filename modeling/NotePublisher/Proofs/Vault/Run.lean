import NotePublisher.Proofs.Vault.Index
import NotePublisher.Proofs.Vault.Store

namespace NotePublisher

/-!
# Runs over a vault

`Vault.PublishStep` says what one document of a run can do to the folder of
the vault, and `Vault.PublishRun` strings such steps together. A run that
stores documents is one (`Vault.publishEach_run`). It may lose the vault on the
way, when the path of the root leads through a folder that a step removes; no
document is read from then on.
-/

namespace PublishOutcome

/-- The document that an outcome is about. -/
def document : PublishOutcome → DocumentPath
  | skipped document => document
  | published rewritten => rewritten.source
  | failed document _ => document

end PublishOutcome

/-- The text of the file at a location. -/
def Folder.textAt?
    (here : Folder)
    (location : Location) :
    Option Text :=
  match here.look location with
  | some (.leaf (.file file)) => Utf8.decode? file.content
  | some (.leaf (.link _)) => none
  | some .folder => none
  | none => none

/-- A text is what the bytes of its file are in UTF-8. -/
theorem Folder.textAt?_of_look
    {here : Folder}
    {location : Location}
    {file : RegularFile}
    (found : here.look location = some (.leaf (.file file))) :
    here.textAt? location = Utf8.decode? file.content := by
  simp only [textAt?, found]

namespace Vault

open Disk

/-- What becomes of one document when it is published, and what that does to the vault. -/
inductive PublishStep
    (root : Text)
    (home : Location)
    (context : RewriteContext)
    (document : DocumentPath)
    (disk : Disk)
    (folder : Folder) :
    PublishOutcome → Disk → Folder → Prop where
  | skipped :
      document.isMarkdown = false →
      PublishStep root home context document disk folder (.skipped document) disk folder
  | unreadable {file : RegularFile} :
      document.isMarkdown = true →
      folder.look document.location = some (.leaf (.file file)) →
      Utf8.decode? file.content = none →
      PublishStep root home context document disk folder
        (.failed document (.read (document.within root) .notText)) disk folder
  | rewritten {file : RegularFile} {text : Text} {changed : Disk} {newFolder : Folder} :
      document.isMarkdown = true →
      folder.look document.location = some (.leaf (.file file)) →
      Utf8.decode? file.content = some text →
      document.output.location = document.location →
      ChangedAt home disk folder changed newFolder →
      folder.Replaced document.location
        (some (.leaf (.file ⟨file.mode, Utf8.encode (rewriteText context text).text⟩)))
        newFolder →
      (file.content = Utf8.encode (rewriteText context text).text → changed = disk) →
      PublishStep root home context document disk folder
        (.published (.ofText context document text)) changed newFolder
  | moved {file : RegularFile} {text : Text} {changed : Disk} {newFolder : Folder} :
      document.isMarkdown = true →
      folder.look document.location = some (.leaf (.file file)) →
      Utf8.decode? file.content = some text →
      document.output.location ≠ document.location →
      ChangedAt home disk folder changed newFolder →
      folder.Moved document.location document.output.location
        ⟨file.mode, Utf8.encode (rewriteText context text).text⟩ newFolder →
      PublishStep root home context document disk folder
        (.published (.ofText context document text)) changed newFolder
  | refused {file : RegularFile} {text path : Text} {cause : DiskError} {changed : Disk}
      {newFolder : Folder} :
      document.isMarkdown = true →
      folder.look document.location = some (.leaf (.file file)) →
      Utf8.decode? file.content = some text →
      document.output.location ≠ document.location →
      ChangedAt home disk folder changed newFolder →
      folder.Grown document.output.location newFolder →
      ¬ newFolder.IsFree document.output.location →
      (¬ folder.IsFree document.output.location → changed = disk) →
      PublishStep root home context document disk folder
        (.failed document (.write path cause)) changed newFolder

/-- What becomes of a document once the vault is lost. -/
inductive Unreached (root : Text) (document : DocumentPath) : PublishOutcome → Prop where
  | skipped :
      document.isMarkdown = false →
      Unreached root document (.skipped document)
  | unread {cause : DiskError} :
      document.isMarkdown = true →
      Unreached root document (.failed document (.read (document.within root) cause))

/-- Only documents that are no markdown are skipped. -/
theorem Unreached.skipped_iff
    {root : Text}
    {document : DocumentPath}
    {outcome : PublishOutcome}
    (unreached : Unreached root document outcome) :
    outcome = .skipped outcome.document ↔ outcome.document.isMarkdown = false := by
  cases unreached with
  | skipped unmarked => simp [PublishOutcome.document, unmarked]
  | unread markdown => simp [PublishOutcome.document, markdown]

/-- What becomes of documents that are published one after the other. -/
inductive PublishRun
    (root : Text)
    (home : Location)
    (context : RewriteContext) :
    Disk → Folder → List DocumentPath → List PublishOutcome → Disk → Folder → Prop where
  | done {disk : Disk} {folder : Folder} :
      PublishRun root home context disk folder [] [] disk folder
  | lost {disk : Disk} {folder : Folder} {documents : List DocumentPath}
      {outcomes : List PublishOutcome} :
      disk.Lost (Route.ofText root) →
      List.Forall₂ (Unreached root) documents outcomes →
      PublishRun root home context disk folder documents outcomes disk folder
  | step {disk middle last : Disk} {folder middleFolder lastFolder : Folder}
      {document : DocumentPath} {outcome : PublishOutcome}
      {documents : List DocumentPath} {outcomes : List PublishOutcome} :
      disk.Anchored (Route.ofText root) home folder →
      PublishStep root home context document disk folder outcome middle middleFolder →
      PublishRun root home context middle middleFolder documents outcomes last lastFolder →
      PublishRun root home context disk folder (document :: documents) (outcome :: outcomes)
        last lastFolder

/-- Documents that are still to be published: different files of the vault. -/
structure Pending
    (folder : Folder)
    (documents : List DocumentPath) : Prop where
  normal : ∀ document ∈ documents, document.IsNormal
  distinct : (documents.map DocumentPath.location).Nodup
  present : ∀ document ∈ documents, ∃ file,
    folder.look document.location = some (.leaf (.file file))

namespace PublishStep

variable {root : Text} {home : Location} {context : RewriteContext} {document : DocumentPath}
  {disk changed : Disk} {folder newFolder : Folder} {outcome : PublishOutcome}

/-- A step changes nothing outside the root. -/
theorem changedAt
    (inside : disk.top.folderAt? home = some folder)
    (step : PublishStep root home context document disk folder outcome changed newFolder) :
    ChangedAt home disk folder changed newFolder := by
  cases step with
  | skipped _ => exact .refl inside
  | unreadable _ _ _ => exact .refl inside
  | rewritten _ _ _ _ changedAt _ _ => exact changedAt
  | moved _ _ _ _ changedAt _ => exact changedAt
  | refused _ _ _ _ changedAt _ _ _ => exact changedAt

/-- After a step the root still leads to the vault, or leads nowhere any more. -/
theorem anchored_or_lost
    (anchored : disk.Anchored (Route.ofText root) home folder)
    (step : PublishStep root home context document disk folder outcome changed newFolder) :
    changed.Anchored (Route.ofText root) home newFolder ∨ changed.Lost (Route.ofText root) := by
  cases step with
  | skipped _ => exact .inl anchored
  | unreadable _ _ _ => exact .inl anchored
  | rewritten _ present _ _ changedAt replaced _ =>
      exact .inl (anchored.replaced changedAt replaced (by simp [present]) (by simp))
  | moved _ present _ _ changedAt moved =>
      refine anchored.kept_or_lost changedAt (moved.linkFree anchored.linkFree) ?_
      intro place holdsFolder
      by_cases atSource : place = document.location
      · simp [atSource, present] at holdsFolder
      · by_cases atTarget : place = document.output.location
        · simp [atTarget, moved.missing] at holdsFolder
        · rcases moved.others place atSource atTarget with same | ⟨missing, -, -⟩ | ⟨-, gone, -⟩
          · exact .inl (same.trans holdsFolder)
          · simp [missing] at holdsFolder
          · exact .inr gone
  | refused _ _ _ _ changedAt grown _ _ =>
      exact .inl (anchored.grown changedAt grown)

/-- A step keeps every file but the one it publishes. -/
theorem look_file
    (step : PublishStep root home context document disk folder outcome changed newFolder)
    {place : Location}
    (elsewhere : (∃ rewritten, outcome = .published rewritten) → place ≠ document.location)
    {file : RegularFile}
    (found : folder.look place = some (.leaf (.file file))) :
    newFolder.look place = some (.leaf (.file file)) := by
  cases step with
  | skipped _ => exact found
  | unreadable _ _ _ => exact found
  | rewritten _ _ _ _ _ replaced _ =>
      exact (replaced.look_of_ne (elsewhere ⟨_, rfl⟩)).trans found
  | moved _ _ _ _ _ moved =>
      have notTarget : place ≠ document.output.location := by
        rintro rfl
        simp [moved.missing] at found
      rcases moved.others place (elsewhere ⟨_, rfl⟩) notTarget with
        same | ⟨missing, -, -⟩ | ⟨wasFolder, -, -⟩
      · exact same.trans found
      · simp [missing] at found
      · simp [wasFolder] at found
  | refused _ _ _ _ _ grown _ _ => exact grown.look_of_look found

/-- After a step a file is the one published, or one that was there and is not published. -/
theorem look_file_cases
    (step : PublishStep root home context document disk folder outcome changed newFolder)
    {place : Location}
    {file : RegularFile}
    (found : newFolder.look place = some (.leaf (.file file))) :
    (∃ rewritten, outcome = .published rewritten ∧ rewritten.output.location = place) ∨
      (folder.look place = some (.leaf (.file file)) ∧
        ((∃ rewritten, outcome = .published rewritten) → place ≠ document.location)) := by
  cases step with
  | skipped _ => exact .inr ⟨found, by simp⟩
  | unreadable _ _ _ => exact .inr ⟨found, by simp⟩
  | rewritten _ _ _ same _ replaced _ =>
      by_cases atPlace : place = document.location
      · exact .inl ⟨_, rfl, same.trans atPlace.symm⟩
      · exact .inr ⟨(replaced.look_of_ne atPlace).symm.trans found, fun _ => atPlace⟩
  | moved _ _ _ _ _ moved =>
      by_cases atTarget : document.output.location = place
      · exact .inl ⟨_, rfl, atTarget⟩
      · have notSource : place ≠ document.location := by
          rintro rfl
          simp [moved.removed] at found
        rcases moved.others place notSource (Ne.symm atTarget) with
          same | ⟨-, made, -⟩ | ⟨-, gone, -⟩
        · exact .inr ⟨same ▸ found, fun _ => notSource⟩
        · simp [made] at found
        · simp [gone] at found
  | refused _ _ _ _ _ grown _ _ => exact .inr ⟨grown.look_leaf found, by simp⟩

/-- A published document is stored under its output, where its source or nothing was. -/
theorem stored
    {rewritten : RewrittenDocument}
    (step : PublishStep root home context document disk folder (.published rewritten) changed
      newFolder) :
    ∃ file text, folder.look document.location = some (.leaf (.file file)) ∧
      Utf8.decode? file.content = some text ∧
      rewritten = .ofText context document text ∧
      newFolder.look document.output.location =
        some (.leaf (.file ⟨file.mode, Utf8.encode (rewriteText context text).text⟩)) ∧
      (document.output.location = document.location ∨
        folder.look document.output.location = none) := by
  cases step with
  | @rewritten file text _ _ _ present decoded same _ replaced _ =>
      exact ⟨file, text, present, decoded, rfl, same ▸ replaced.look_place, .inl same⟩
  | @moved file text _ _ _ present decoded _ _ moved =>
      exact ⟨file, text, present, decoded, rfl, moved.placed, .inr moved.missing⟩

/-- The outcome of a step is about its document. -/
theorem document_eq
    (step : PublishStep root home context document disk folder outcome changed newFolder) :
    outcome.document = document := by
  cases step <;> rfl

/-- Only documents that are no markdown are skipped. -/
theorem skipped_iff
    (step : PublishStep root home context document disk folder outcome changed newFolder) :
    outcome = .skipped outcome.document ↔ outcome.document.isMarkdown = false := by
  cases step with
  | skipped unmarked => simp [PublishOutcome.document, unmarked]
  | unreadable markdown _ _ => simp [PublishOutcome.document, markdown]
  | rewritten markdown _ _ _ _ _ _ =>
      simp [PublishOutcome.document, RewrittenDocument.ofText, markdown]
  | moved markdown _ _ _ _ _ =>
      simp [PublishOutcome.document, RewrittenDocument.ofText, markdown]
  | refused markdown _ _ _ _ _ _ _ => simp [PublishOutcome.document, markdown]

end PublishStep

namespace Pending

variable {root : Text} {home : Location} {context : RewriteContext}
  {disk changed : Disk} {folder newFolder : Folder} {outcome : PublishOutcome}
  {document : DocumentPath} {others : List DocumentPath}

theorem tail
    (pending : Pending folder (document :: others)) :
    Pending folder others where
  normal other member := pending.normal other (List.mem_cons_of_mem document member)
  distinct := (List.nodup_cons.mp (List.map_cons ▸ pending.distinct)).2
  present other member := pending.present other (List.mem_cons_of_mem document member)

theorem location_ne
    (pending : Pending folder (document :: others))
    {other : DocumentPath}
    (member : other ∈ others) :
    other.location ≠ document.location := by
  have distinct := pending.distinct
  rw [List.map_cons, List.nodup_cons] at distinct
  intro same
  exact distinct.1 (same ▸ List.mem_map_of_mem member)

/-- What is stored now is not in the place of a document that is still to be published. -/
theorem location_ne_output
    (pending : Pending folder (document :: others))
    (stored : document.output.location = document.location ∨
      folder.look document.output.location = none)
    {other : DocumentPath}
    (member : other ∈ others) :
    other.location ≠ document.output.location := by
  rcases stored with same | missing
  · rw [same]
    exact pending.location_ne member
  · intro same
    obtain ⟨file, found⟩ := pending.present other (List.mem_cons_of_mem document member)
    simp [same, missing] at found

/-- The other documents are still there after a step. -/
theorem after
    (pending : Pending folder (document :: others))
    (step : PublishStep root home context document disk folder outcome changed newFolder) :
    Pending newFolder others where
  normal := pending.tail.normal
  distinct := pending.tail.distinct
  present other member := by
    obtain ⟨file, found⟩ := pending.present other (List.mem_cons_of_mem document member)
    exact ⟨file, step.look_file (fun _ => pending.location_ne member) found⟩

end Pending

variable {root : Text} {home : Location} {folder : Folder}

/-- Preparing a document reads and rewrites its text and leaves the disk alone. -/
theorem prepareDocument_eq
    (root : Text)
    (context : RewriteContext)
    (document : DocumentPath)
    (session : Session) :
    ∃ events, prepareDocument root context document session =
      match session.disk.readText (Route.ofText (document.within root)) with
      | .ok text => .ok (.ofText context document text) ⟨session.disk, events⟩
      | .error cause => .error (.read (document.within root) cause) ⟨session.disk, events⟩ := by
  cases read : session.disk.readText (Route.ofText (document.within root)) with
  | ok text =>
      let rewritten := RewrittenDocument.ofText context document text
      refine ⟨session.events ++ [.reading (document.within root)] ++
        rewritten.links.map eventOfLink ++
        rewritten.unresolvedLinks.map fun record => .unresolvedLink document record.raw, ?_⟩
      simp only [prepareDocument, readDocument, bind, EStateM.bind, VaultAction.note,
        VaultAction.noteAll, VaultAction.query, read, pure, EStateM.pure, rewritten]
  | error cause =>
      refine ⟨session.events ++ [.reading (document.within root)], ?_⟩
      simp only [prepareDocument, readDocument, bind, EStateM.bind, VaultAction.note,
        VaultAction.query, read]

/-- A document of the vault is read as it is there. -/
private theorem readText_within
    {disk : Disk}
    (reachable : Reachable disk root home folder)
    {document : DocumentPath}
    (normal : document.IsNormal)
    {file : RegularFile}
    (present : folder.look document.location = some (.leaf (.file file))) :
    disk.readText (Route.ofText (document.within root)) =
      match Utf8.decode? file.content with
      | none => .error .notText
      | some text => .ok text := by
  obtain ⟨above, name, shape⟩ := location_eq_concat normal
  rw [shape] at present
  obtain ⟨inside, reaches⟩ := reachable.folder_wellFormed.reaches present
  rw [normal.isNamed.route_within, shape]
  exact reachable.anchored.readText_below reaches present

theorem source_ofText
    (context : RewriteContext)
    (document : DocumentPath)
    (text : Text) :
    (RewrittenDocument.ofText context document text).source = document :=
  rfl

theorem output_ofText
    (context : RewriteContext)
    (document : DocumentPath)
    (text : Text) :
    (RewrittenDocument.ofText context document text).output = document.output :=
  rfl

theorem text_ofText
    (context : RewriteContext)
    (document : DocumentPath)
    (text : Text) :
    (RewrittenDocument.ofText context document text).text = (rewriteText context text).text :=
  rfl

section One

variable {options : PublishOptions} {document : DocumentPath}

theorem publishOne_of_ok
    {context : RewriteContext}
    (markdown : document.isMarkdown = true)
    {session changed : Session}
    {rewritten : RewrittenDocument}
    (done : publishMarkdown options context document session = .ok rewritten changed) :
    publishOne options context document session = (.published rewritten, changed) := by
  simp only [publishOne, markdown, if_true, done]

theorem publishOne_of_error
    {context : RewriteContext}
    (markdown : document.isMarkdown = true)
    {session changed : Session}
    {error : VaultError}
    (failed : publishMarkdown options context document session = .error error changed) :
    publishOne options context document session =
      (.failed document error,
        { changed with events := changed.events ++ [.publishFailed document error] }) := by
  simp only [publishOne, markdown, if_true, failed]

/-- A document that cannot be read fails with the reason. -/
theorem publishMarkdown_of_unread
    {context : RewriteContext}
    {session changed : Session}
    {error : VaultError}
    (failed : prepareDocument options.root context document session = .error error changed) :
    publishMarkdown options context document session = .error error changed := by
  cases dry : options.dryRun <;>
    simp only [publishMarkdown, dry, if_true, if_false, Bool.false_eq_true, rewriteDocument, bind,
      EStateM.bind, failed]

/-- A prepared document is stored, unless the run is dry. -/
theorem publishMarkdown_of_prepared
    {context : RewriteContext}
    (stores : options.dryRun = false)
    {session middle : Session}
    {rewritten : RewrittenDocument}
    (prepared : prepareDocument options.root context document session = .ok rewritten middle) :
    publishMarkdown options context document session =
      match persistDocument options.root rewritten.source rewritten.output rewritten.text middle with
      | .ok _ last => .ok rewritten last
      | .error error last => .error error last := by
  simp only [publishMarkdown, stores, Bool.false_eq_true, if_false, rewriteDocument, bind,
    EStateM.bind, prepared, pure, EStateM.pure]
  cases persistDocument options.root rewritten.source rewritten.output rewritten.text middle <;> rfl

/-- A document of the vault is published by one step. -/
theorem publishOne_step
    (context : RewriteContext)
    (stores : options.dryRun = false)
    (session : Session)
    (reachable : Reachable session.disk options.root home folder)
    (normal : document.IsNormal)
    {file : RegularFile}
    (present : folder.look document.location = some (.leaf (.file file))) :
    ∃ newFolder, PublishStep options.root home context document session.disk folder
      (publishOne options context document session).1
      (publishOne options context document session).2.disk newFolder := by
  cases markdown : document.isMarkdown with
  | false =>
      simp only [publishOne, markdown, Bool.false_eq_true, if_false]
      exact ⟨folder, .skipped markdown⟩
  | true =>
      obtain ⟨events, prepared⟩ := prepareDocument_eq options.root context document session
      rw [readText_within reachable normal present] at prepared
      cases decoded : Utf8.decode? file.content with
      | none =>
          simp only [decoded] at prepared
          rw [publishOne_of_error markdown (publishMarkdown_of_unread prepared)]
          exact ⟨folder, .unreadable markdown present decoded⟩
      | some text =>
          simp only [decoded] at prepared
          have published : publishMarkdown options context document session =
              match persistDocument options.root document document.output
                (rewriteText context text).text ⟨session.disk, events⟩ with
              | .ok _ last => .ok (.ofText context document text) last
              | .error error last => .error error last := by
            have unfolded := publishMarkdown_of_prepared stores prepared
            rwa [source_ofText, output_ofText, text_ofText] at unfolded
          by_cases same : document.output.location = document.location
          · obtain ⟨changed, newFolder, last, persisted, changedAt, replaced, unchanged⟩ :=
              persistDocument_inPlace ⟨session.disk, events⟩ reachable normal normal.output same
                present (rewriteText context text).text
            simp only [persisted] at published
            rw [publishOne_of_ok markdown published]
            exact ⟨newFolder,
              .rewritten markdown present decoded same changedAt replaced unchanged⟩
          · have relocated :=
              persistDocument_relocated ⟨session.disk, events⟩ reachable normal normal.output
                same present (rewriteText context text).text
            generalize persistDocument options.root document document.output
              (rewriteText context text).text ⟨session.disk, events⟩ = result at published relocated
            cases relocated with
            | moved changedAt moved =>
                rw [publishOne_of_ok markdown published]
                exact ⟨_, .moved markdown present decoded same changedAt moved⟩
            | refused changedAt grown blocked unchanged =>
                rw [publishOne_of_error markdown published]
                exact ⟨_, .refused markdown present decoded same changedAt grown blocked unchanged⟩

/-- Without the vault no document is read, and nothing is changed. -/
theorem publishOne_unreached
    (context : RewriteContext)
    (session : Session)
    (lost : session.disk.Lost (Route.ofText options.root))
    (normal : document.IsNormal) :
    Unreached options.root document (publishOne options context document session).1 ∧
      (publishOne options context document session).2.disk = session.disk := by
  cases markdown : document.isMarkdown with
  | false =>
      simp only [publishOne, markdown, Bool.false_eq_true, if_false]
      exact ⟨.skipped markdown, trivial⟩
  | true =>
      obtain ⟨cause, unread⟩ := lost.readText_below document.location
      rw [← normal.isNamed.route_within] at unread
      obtain ⟨events, prepared⟩ := prepareDocument_eq options.root context document session
      rw [unread] at prepared
      rw [publishOne_of_error markdown (publishMarkdown_of_unread prepared)]
      exact ⟨.unread markdown, rfl⟩

/-- What a dry run reports on a document. -/
def foretell
    (root : Text)
    (context : RewriteContext)
    (folder : Folder)
    (document : DocumentPath) :
    PublishOutcome :=
  if document.isMarkdown then
    match folder.textAt? document.location with
    | none => .failed document (.read (document.within root) .notText)
    | some text => .published (.ofText context document text)
  else
    .skipped document

/-- A dry run reads each document where it is, and changes nothing. -/
theorem publishOne_dry
    (context : RewriteContext)
    (dry : options.dryRun = true)
    (session : Session)
    (reachable : Reachable session.disk options.root home folder)
    (normal : document.IsNormal)
    {file : RegularFile}
    (present : folder.look document.location = some (.leaf (.file file))) :
    (publishOne options context document session).1 =
        foretell options.root context folder document ∧
      (publishOne options context document session).2.disk = session.disk := by
  rw [foretell, Folder.textAt?_of_look present]
  cases markdown : document.isMarkdown with
  | false => simp [publishOne, markdown]
  | true =>
      obtain ⟨events, prepared⟩ := prepareDocument_eq options.root context document session
      rw [readText_within reachable normal present] at prepared
      cases decoded : Utf8.decode? file.content with
      | none =>
          simp only [decoded] at prepared
          rw [publishOne_of_error markdown (publishMarkdown_of_unread prepared)]
          exact ⟨rfl, rfl⟩
      | some text =>
          simp only [decoded] at prepared
          have published : publishMarkdown options context document session =
              .ok (.ofText context document text) ⟨session.disk, events⟩ := by
            simp only [publishMarkdown, dry, if_true, prepared]
          rw [publishOne_of_ok markdown published]
          exact ⟨rfl, rfl⟩

end One

theorem publishEach_cons
    (options : PublishOptions)
    (context : RewriteContext)
    (document : DocumentPath)
    (others : List DocumentPath)
    (session : Session) :
    publishEach options context (document :: others) session =
      let afterOne := publishOne options context document session
      let afterAll := publishEach options context others afterOne.2
      (afterOne.1 :: afterAll.1, afterAll.2) :=
  rfl

/-- Without the vault the rest of a run changes nothing. -/
private theorem publishEach_unreached
    {options : PublishOptions}
    (context : RewriteContext)
    {documents : List DocumentPath}
    (normal : ∀ document ∈ documents, document.IsNormal)
    (session : Session)
    (lost : session.disk.Lost (Route.ofText options.root)) :
    List.Forall₂ (Unreached options.root) documents
        (publishEach options context documents session).1 ∧
      (publishEach options context documents session).2.disk = session.disk := by
  induction documents generalizing session with
  | nil =>
      exact ⟨.nil, rfl⟩
  | cons document others inductionHypothesis =>
      obtain ⟨normalHere, normalThere⟩ := List.forall_mem_cons.mp normal
      obtain ⟨unreached, sameDisk⟩ :=
        publishOne_unreached context session lost normalHere
      have lostThen := sameDisk ▸ lost
      obtain ⟨unreachedThen, sameThen⟩ :=
        inductionHypothesis normalThere (publishOne options context document session).2 lostThen
      exact ⟨.cons unreached unreachedThen, sameThen.trans sameDisk⟩

/-- Publishing documents of the vault one after the other is a run. -/
theorem publishEach_run
    {options : PublishOptions}
    (context : RewriteContext)
    (stores : options.dryRun = false)
    {documents : List DocumentPath}
    (session : Session)
    (reachable : Reachable session.disk options.root home folder)
    (pending : Pending folder documents) :
    ∃ newFolder, PublishRun options.root home context session.disk folder documents
      (publishEach options context documents session).1
      (publishEach options context documents session).2.disk newFolder := by
  induction documents generalizing session folder with
  | nil =>
      exact ⟨folder, .done⟩
  | cons document others inductionHypothesis =>
      simp only [publishEach_cons]
      have normal := pending.normal document List.mem_cons_self
      obtain ⟨file, present⟩ := pending.present document List.mem_cons_self
      obtain ⟨middleFolder, step⟩ :=
        publishOne_step context stores session reachable normal present
      have changedAt := step.changedAt reachable.anchored.inside
      rcases step.anchored_or_lost reachable.anchored with anchoredThen | lost
      · obtain ⟨newFolder, run⟩ := inductionHypothesis
          (publishOne options context document session).2
          (reachable.after changedAt anchoredThen) (pending.after step)
        exact ⟨newFolder, .step reachable.anchored step run⟩
      · obtain ⟨unreached, sameDisk⟩ := publishEach_unreached context
          pending.tail.normal (publishOne options context document session).2 lost
        refine ⟨middleFolder, .step reachable.anchored step ?_⟩
        rw [sameDisk]
        exact .lost lost unreached

/-- What documents of a vault are rewritten with. -/
def contextOf
    (options : PublishOptions)
    (patterns : List NamePattern)
    (folder : Folder) :
    RewriteContext where
  index := indexOf patterns folder
  urlBase := options.urlBase
  scriptSource := options.scriptSource

/-- The path of the root leads to a well-formed folder without links. -/
structure Rooted
    (disk : Disk)
    (root : Text)
    (home : Location)
    (folder : Folder) : Prop where
  resolved : disk.resolve (Route.ofText root) = .ok home
  inside : disk.top.folderAt? home = some folder
  linkFree : folder.LinkFree
  wellFormed : disk.top.WellFormed

/-- An empty path leads nowhere. -/
theorem root_ne_nil_of_resolve
    {disk : Disk}
    (resolved : disk.resolve (Route.ofText root) = .ok home) :
    root ≠ [] := by
  rintro rfl
  have somewhere := (walk_of_resolve resolved).2.1
  simp [Route.isNowhere, Route.ofText] at somewhere

namespace Rooted

variable {disk : Disk}

/-- The root of a vault is where its steps lead. -/
private theorem anchored
    (rooted : Rooted disk root home folder) :
    disk.Anchored (Route.ofText root) home folder where
  legible := (walk_of_resolve rooted.resolved).1
  leads := leads_of_resolve rooted.resolved (Folder.look_eq_folder_of_folderAt? rooted.inside)
  inside := rooted.inside
  linkFree := rooted.linkFree

/-- The documents of a vault can be reached by their names. -/
theorem reachable
    (rooted : Rooted disk root home folder) :
    Reachable disk root home folder where
  anchored := rooted.anchored
  wellFormed := rooted.wellFormed
  root_ne_nil := root_ne_nil_of_resolve rooted.resolved

theorem folder_wellFormed
    (rooted : Rooted disk root home folder) :
    folder.WellFormed :=
  rooted.reachable.folder_wellFormed

theorem isFolder
    (rooted : Rooted disk root home folder) :
    disk.isFolder (Route.ofText root) = true := by
  have holdsFolder : disk.look home = some .folder :=
    Folder.look_eq_folder_of_folderAt? rooted.inside
  simp [Disk.isFolder, inspect, rooted.resolved, holdsFolder]

/-- Where the root still leads to the vault, the vault is as open as it was. -/
theorem of_anchored
    (rooted : Rooted disk root home folder)
    {last : Disk}
    {lastFolder : Folder}
    (anchored : last.Anchored (Route.ofText root) home lastFolder)
    (wellFormed : last.top.WellFormed) :
    Rooted last root home lastFolder where
  resolved := by
    have leads : last.Leads maximalLinks (last.start (Route.ofText root))
        (Route.ofText root).allSteps home := by
      refine anchored.leads.of_same_moves ?_
      by_cases slash : (Route.ofText root).folderOnly <;> simp [Route.allSteps, slash]
    simp [resolve, anchored.legible, (walk_of_resolve rooted.resolved).2.1, leads.walk_eq]
  inside := anchored.inside
  linkFree := anchored.linkFree
  wellFormed := wellFormed

end Rooted

/-- A root that is lost is no folder. -/
theorem isFolder_of_lost
    {disk : Disk}
    (lost : disk.Lost (Route.ofText root)) :
    disk.isFolder (Route.ofText root) = false := by
  obtain ⟨cause, failed⟩ := lost
  have resolved : ∃ other, disk.resolve (Route.ofText root) = .error other := by
    have allSteps : disk.walk true maximalLinks (disk.start (Route.ofText root))
        (Route.ofText root).allSteps = .error cause := by
      rw [Route.allSteps]
      by_cases slash : (Route.ofText root).folderOnly
      · rw [if_pos slash]
        exact walk_append_eq_error failed _
      · rwa [if_neg slash]
    rw [resolve, allSteps]
    by_cases zero : (Route.ofText root).holdsZero
    · exact ⟨.zeroInName, by simp [zero]⟩
    · by_cases nowhere : (Route.ofText root).isNowhere
      · exact ⟨.notFound, by simp [zero, nowhere]⟩
      · exact ⟨cause, by simp [zero, nowhere]⟩
  obtain ⟨other, unresolved⟩ := resolved
  simp [isFolder, inspect, unresolved]

/-- The index of a vault is that of its folder, and building it changes nothing. -/
theorem buildIndex_eq
    (session : Session)
    (rooted : Rooted session.disk root home folder)
    (excludes : List NamePattern) :
    ∃ events, buildIndex root excludes session =
      .ok (indexOf excludes folder) ⟨session.disk, events⟩ := by
  rcases buildIndex_cases root excludes session with
    ⟨notFolder, -⟩ | ⟨place, inside, events, resolved, leads, built⟩
  · rw [rooted.isFolder] at notFolder
    cases notFolder
  · cases rooted.resolved.symm.trans resolved
    cases rooted.inside.symm.trans leads
    refine ⟨events, built.trans ?_⟩
    rw [scannedDocuments_of_linkFree rooted.folder_wellFormed rooted.linkFree]
    rfl

/-- What is no folder cannot be indexed. -/
theorem buildIndex_of_not_isFolder
    (session : Session)
    (notFolder : session.disk.isFolder (Route.ofText root) = false)
    (excludes : List NamePattern) :
    buildIndex root excludes session = .error (.rootNotFound root) session := by
  rcases buildIndex_cases root excludes session with
    ⟨-, refused⟩ | ⟨home, folder, events, resolved, inside, -⟩
  · exact refused
  · rw [isFolder_iff.mpr ⟨home, resolved, Folder.look_eq_folder_of_folderAt? inside⟩] at notFolder
    cases notFolder

/-- What is no folder cannot be published, and the disk is left alone. -/
theorem publish_of_not_isFolder
    {options : PublishOptions}
    {patterns : List NamePattern}
    (compiled : compileExcludes options.excludes = .ok patterns)
    (session : Session)
    (notFolder : session.disk.isFolder (Route.ofText options.root) = false) :
    publish options session = .error (.rootNotFound options.root) session := by
  have refused := buildIndex_of_not_isFolder session notFolder patterns
  simp only [publish, compiled, bind, EStateM.bind, pure, EStateM.pure, refused]

/-- What documents are rewritten with when the vault has an index. -/
def contextWith
    (options : PublishOptions)
    (index : DocumentIndex) :
    RewriteContext where
  index := index
  urlBase := options.urlBase
  scriptSource := options.scriptSource

/-- The session when the turn of the first document comes. -/
def firstTurn
    (options : PublishOptions)
    (index : DocumentIndex)
    (indexed : Session) :
    Session :=
  { indexed with events := indexed.events ++ [.publishing index.size options.root] }

/-- The documents of an index published one after the other. -/
def publishIndexed
    (options : PublishOptions)
    (index : DocumentIndex)
    (indexed : Session) :
    List PublishOutcome × Session :=
  publishEach options (contextWith options index) index.documents
    (firstTurn options index indexed)

/-- A run publishes the documents of the index and reports on them. -/
theorem publish_of_built
    {options : PublishOptions}
    {patterns : List NamePattern}
    (compiled : compileExcludes options.excludes = .ok patterns)
    {index : DocumentIndex}
    {session indexed : Session}
    (built : buildIndex options.root patterns session = .ok index indexed) :
    ∃ lastEvents, publish options session =
      .ok (.ofOutcomes (publishIndexed options index indexed).1)
        ⟨(publishIndexed options index indexed).2.disk, lastEvents⟩ := by
  generalize result : publishIndexed options index indexed = outcome
  let report := PublishReport.ofOutcomes outcome.1
  refine ⟨outcome.2.events ++ [.finished report.published.length report.skipped.length
    report.failures.length report.unresolvedCount], ?_⟩
  rw [publishIndexed, contextWith, firstTurn] at result
  simp only [publish, compiled, bind, EStateM.bind, pure, EStateM.pure, built, VaultAction.note,
    result, report]

/-- A run fails before anything is changed, or publishes the documents of an index. -/
theorem publish_cases
    (options : PublishOptions)
    (session : Session) :
    (∃ error, publish options session = .error error session) ∨
      ∃ patterns index indexed lastEvents,
        compileExcludes options.excludes = .ok patterns ∧
        buildIndex options.root patterns session = .ok index indexed ∧
        indexed.disk = session.disk ∧
        publish options session =
          .ok (.ofOutcomes (publishIndexed options index indexed).1)
            ⟨(publishIndexed options index indexed).2.disk, lastEvents⟩ := by
  cases compiled : compileExcludes options.excludes with
  | error error =>
      refine .inl ⟨error, ?_⟩
      simp only [publish, compiled]
      rfl
  | ok patterns =>
      rcases buildIndex_cases options.root patterns session with
        ⟨notFolder, -⟩ | ⟨home, folder, events, -, -, built⟩
      · exact .inl ⟨_, publish_of_not_isFolder compiled session notFolder⟩
      · obtain ⟨lastEvents, published⟩ := publish_of_built compiled built
        exact .inr ⟨patterns, _, _, lastEvents, rfl, built, rfl, published⟩

/-- A run publishes the documents of the index one after the other and reports on them. -/
theorem publish_eq
    {options : PublishOptions}
    {patterns : List NamePattern}
    (compiled : compileExcludes options.excludes = .ok patterns)
    (session : Session)
    (rooted : Rooted session.disk options.root home folder) :
    ∃ events lastEvents,
      publish options session =
        .ok
          (.ofOutcomes (publishEach options (contextOf options patterns folder)
            (indexOf patterns folder).documents ⟨session.disk, events⟩).1)
          ⟨(publishEach options (contextOf options patterns folder)
            (indexOf patterns folder).documents ⟨session.disk, events⟩).2.disk, lastEvents⟩ := by
  obtain ⟨events, built⟩ := buildIndex_eq session rooted patterns
  obtain ⟨lastEvents, published⟩ := publish_of_built compiled built
  exact ⟨_, lastEvents, published⟩

end Vault

end NotePublisher
