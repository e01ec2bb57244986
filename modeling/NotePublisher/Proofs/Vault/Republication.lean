import NotePublisher.Proofs.Document.Rewriting
import NotePublisher.Proofs.Vault.Conservation

namespace NotePublisher

/-!
# Publishing again

A second run over a vault finds nothing to do (`Vault.publish_again`): what the
first run stored is settled, and what it could not store is refused again,
since whatever stood in the way of a document stays there.
-/

namespace Vault

open Disk

/-- A markdown document that cannot be read, or cannot be stored for what is in its way. -/
structure Stuck
    (folder : Folder)
    (document : DocumentPath) : Prop where
  markdown : document.isMarkdown = true
  blocked : ∃ file, folder.look document.location = some (.leaf (.file file)) ∧
    ∀ text, Utf8.decode? file.content = some text →
      document.output.location ≠ document.location ∧
        ¬ folder.IsFree document.output.location

/-- A document that a run leaves as it is. -/
inductive Stable
    (folder : Folder)
    (document : DocumentPath) : Prop where
  | unmarked :
      document.isMarkdown = false →
      Stable folder document
  | stuck :
      Stuck folder document →
      Stable folder document
  | settled {file : RegularFile} {text : Text} :
      document.isMarkdown = true →
      folder.look document.location = some (.leaf (.file file)) →
      Utf8.decode? file.content = some text →
      text.IsSettled →
      document.output.location = document.location →
      Stable folder document

/-- Every link of the document is flat, if it is markdown and can be read. -/
def HasFlatLinks
    (folder : Folder)
    (document : DocumentPath) :
    Prop :=
  document.isMarkdown = true →
    ∀ text ∈ folder.textAt? document.location,
      ∀ link ∈ Piece.markedItems (WikiLink.recogniser.scan (stripComments text)), link.IsFlat

instance
    (folder : Folder)
    (document : DocumentPath) :
    Decidable (HasFlatLinks folder document) :=
  inferInstanceAs (Decidable (_ → _))

namespace PublishStep

variable {root : Text} {home : Location} {context : RewriteContext} {document : DocumentPath}
  {disk changed : Disk} {folder newFolder : Folder} {outcome : PublishOutcome}

/-- What is at a published place stays there, as a folder or as something else. -/
theorem kept_published
    (step : PublishStep root home context document disk folder outcome changed newFolder)
    {place : Location}
    (published : place.IsPublished)
    (present : folder.look place ≠ none) :
    (newFolder.look place).map Kind.isFolder = (folder.look place).map Kind.isFolder := by
  cases step with
  | skipped _ => rfl
  | unreadable _ _ _ => rfl
  | rewritten _ found _ _ _ replaced _ =>
      by_cases atPlace : place = document.location
      · simp [atPlace, found, replaced.look_place, Kind.isFolder]
      · rw [replaced.look_of_ne atPlace]
  | moved _ _ _ different _ moved =>
      have notSource : place ≠ document.location := by
        rintro rfl
        exact different (DocumentPath.location_output_of_isPublished published)
      have notTarget : place ≠ document.output.location := by
        rintro rfl
        exact present moved.missing
      rcases moved.others place notSource notTarget with
        same | ⟨missing, -, -⟩ | ⟨-, gone, aboveSource⟩
      · rw [same]
      · exact absurd missing present
      · -- A published folder above the source is above the target too, where a file is now.
        obtain ⟨below, shape⟩ := DocumentPath.prefix_output aboveSource published
        have below_ne_nil : below ≠ [] := by
          rintro rfl
          exact notTarget (by simpa using shape)
        have stays : newFolder.look place = some .folder :=
          Folder.look_eq_folder_of_look_append below_ne_nil (shape ▸ moved.placed)
        simp [gone] at stays
  | refused _ _ _ _ _ grown _ _ =>
      obtain ⟨kind, found⟩ := Option.ne_none_iff_exists'.mp present
      rw [grown.look_of_look found, found]

/-- What is in the way of a published place stays in the way. -/
theorem not_isFree_published
    (step : PublishStep root home context document disk folder outcome changed newFolder)
    {location : Location}
    (published : location.IsPublished)
    (taken : ¬ folder.IsFree location) :
    ¬ newFolder.IsFree location := by
  apply Folder.not_isFree_of_kept ?_ taken
  intro place onTheWay present
  exact step.kept_published (published.of_prefix onTheWay) present

/-- A document that fails is stuck. -/
theorem stuck_of_failed
    {failing : DocumentPath}
    {error : VaultError}
    (step : PublishStep root home context document disk folder (.failed failing error) changed
      newFolder) :
    Stuck newFolder document := by
  cases step with
  | unreadable markdown present undecoded =>
      refine ⟨markdown, _, present, ?_⟩
      intro text decoded
      simp [undecoded] at decoded
  | refused markdown present _ different _ grown taken _ =>
      exact ⟨markdown, _, grown.look_of_look present, fun _ _ => ⟨different, taken⟩⟩

/-- A stuck document fails and nothing is changed. -/
theorem of_stuck
    (step : PublishStep root home context document disk folder outcome changed newFolder)
    (stuck : Stuck folder document) :
    changed = disk ∧ ∃ error, outcome = .failed document error := by
  obtain ⟨markdown, file, found, blocked⟩ := stuck
  have blockedHere : ∀ {here : RegularFile} {text : Text},
      folder.look document.location = some (.leaf (.file here)) →
        Utf8.decode? here.content = some text →
        document.output.location ≠ document.location ∧
          ¬ folder.IsFree document.output.location := by
    intro here text present decoded
    rw [found] at present
    cases present
    exact blocked text decoded
  cases step with
  | skipped unmarked => simp [markdown] at unmarked
  | unreadable _ _ _ => exact ⟨rfl, _, rfl⟩
  | rewritten _ present decoded same _ _ _ =>
      exact absurd same (blockedHere present decoded).1
  | moved _ present decoded _ _ moved =>
      exact absurd moved.free (blockedHere present decoded).2
  | refused _ present decoded _ _ _ _ unchanged =>
      exact ⟨unchanged (blockedHere present decoded).2, _, rfl⟩

/-- A stable document is left as it is. -/
theorem of_stable
    (step : PublishStep root home context document disk folder outcome changed newFolder)
    (stable : Stable folder document) :
    changed = disk ∧ ∀ rewritten, outcome = .published rewritten →
      rewritten.links = [] ∧ rewritten.isRenamed = false := by
  cases stable with
  | unmarked unmarked =>
      cases step <;> simp_all
  | stuck stuck =>
      obtain ⟨unchanged, error, rfl⟩ := step.of_stuck stuck
      exact ⟨unchanged, by simp⟩
  | @settled file text _ found decoded settled inPlace =>
      cases step with
      | skipped _ => exact ⟨rfl, by simp⟩
      | unreadable _ _ _ => exact ⟨rfl, by simp⟩
      | moved _ _ _ different _ _ => exact absurd inPlace different
      | refused _ _ _ different _ _ _ _ => exact absurd inPlace different
      | rewritten _ present decodedHere _ _ _ unchanged =>
          rw [found] at present
          cases present
          rw [decoded] at decodedHere
          cases decodedHere
          have same := rewriteText_of_isSettled context settled
          refine ⟨unchanged ?_, ?_⟩
          · rw [same]
            exact Utf8.decode?_eq_some_iff.mp decoded
          · rintro _ ⟨rfl⟩
            have renamed := DocumentPath.sameComponents_output_iff.mpr inPlace
            simp [RewrittenDocument.ofText, RewrittenDocument.isRenamed, same, renamed]

end PublishStep

/-- A stuck document stays stuck while its file and what is in its way are kept. -/
theorem Stuck.after
    {folder newFolder : Folder}
    {document : DocumentPath}
    (stuck : Stuck folder document)
    (kept : ∀ file, folder.look document.location = some (.leaf (.file file)) →
      newFolder.look document.location = some (.leaf (.file file)))
    (taken : ¬ folder.IsFree document.output.location →
      ¬ newFolder.IsFree document.output.location) :
    Stuck newFolder document := by
  obtain ⟨markdown, file, present, blocked⟩ := stuck
  exact ⟨markdown, file, kept file present, fun text decoded =>
    (blocked text decoded).imp_right taken⟩

namespace PublishRun

variable {root : Text} {home : Location} {context : RewriteContext} {disk last : Disk}
  {folder lastFolder : Folder} {documents : List DocumentPath} {outcomes : List PublishOutcome}

/-- After a run the root still leads to the vault, or leads nowhere any more. -/
theorem anchored_or_lost
    (run : PublishRun root home context disk folder documents outcomes last lastFolder)
    (start : disk.Anchored (Route.ofText root) home folder ∨ disk.Lost (Route.ofText root)) :
    last.Anchored (Route.ofText root) home lastFolder ∨ last.Lost (Route.ofText root) := by
  induction run with
  | done => exact start
  | lost _ _ => exact start
  | step anchored step _ inductionHypothesis =>
      apply inductionHypothesis
      exact step.anchored_or_lost anchored

/-- A published location that is taken stays so. -/
theorem not_isFree_published
    (run : PublishRun root home context disk folder documents outcomes last lastFolder)
    {location : Location}
    (published : location.IsPublished)
    (taken : ¬ folder.IsFree location) :
    ¬ lastFolder.IsFree location := by
  induction run with
  | done => exact taken
  | lost _ _ => exact taken
  | step _ step _ inductionHypothesis =>
      apply inductionHypothesis
      exact step.not_isFree_published published taken

/-- Unless the vault is lost, a document that failed is stuck after the run. -/
theorem stuck_of_failed
    (run : PublishRun root home context disk folder documents outcomes last lastFolder)
    (pending : Pending folder documents)
    (reached : ¬ last.Lost (Route.ofText root))
    {document : DocumentPath}
    {error : VaultError}
    (member : .failed document error ∈ outcomes) :
    Stuck lastFolder document := by
  induction run with
  | done => cases member
  | lost lost _ => exact absurd lost reached
  | @step _ _ _ _ _ _ first outcome others outcomes _ step run inductionHypothesis =>
      rcases List.mem_cons.mp member with rfl | later
      · have isFirst : document = first := step.document_eq
        subst isFirst
        apply step.stuck_of_failed.after
        · intro file present
          apply run.look_file present
          intro rewritten published
          exact pending.location_ne (run.source_mem published)
        · exact run.not_isFree_published document.isPublished_output
      · exact inductionHypothesis (pending.after step) reached later

variable {excludes : List NamePattern}

/-- Unless the vault is lost, a run leaves behind nothing that a further run changes. -/
theorem stable
    (run : PublishRun root home context disk folder (indexOf excludes folder).documents outcomes
      last lastFolder)
    (wellFormed : folder.WellFormed)
    (lastWellFormed : lastFolder.WellFormed)
    (reached : ¬ last.Lost (Route.ofText root))
    (inert : context.IsInert)
    (flat : ∀ document ∈ (indexOf excludes folder).documents, HasFlatLinks folder document)
    {document : DocumentPath}
    (indexed : document ∈ (indexOf excludes lastFolder).documents) :
    Stable lastFolder document := by
  have pending := @pending_indexOf folder excludes wellFormed
  obtain ⟨⟨file, found⟩, named⟩ := (mem_indexOf_iff lastWellFormed).mp indexed
  cases markdown : document.isMarkdown with
  | false => exact .unmarked markdown
  | true =>
      rcases run.look_file_cases found with ⟨rewritten, published, atPlace⟩ | ⟨present, notSource⟩
      · -- The document was stored by this run.
        obtain ⟨was, text, present, decoded, shape, placed⟩ := run.stored pending published
        have sourceMarkdown : rewritten.source.isMarkdown = true :=
          Bool.of_not_eq_false fun unmarked => by
            simpa using (run.skipped_iff published).mpr unmarked
        have settled := rewriteText_isSettled inert
          (flat _ (run.source_mem published) sourceMarkdown text
            ((Folder.textAt?_of_look present).trans decoded))
        rw [atPlace] at placed
        apply Stable.settled markdown placed (Utf8.decode?_encode _) settled
        apply DocumentPath.location_output_of_isPublished
        rw [← atPlace, shape]
        exact DocumentPath.isPublished_output _
      · -- The document was there before the run and has failed.
        have indexedBefore := (mem_indexOf_iff wellFormed).mpr ⟨⟨file, present⟩, named⟩
        rw [← run.map_document] at indexedBefore
        obtain ⟨outcome, member, same⟩ := List.mem_map.mp indexedBefore
        cases outcome with
        | published rewritten =>
            exact absurd (congrArg DocumentPath.location same) (notSource rewritten member)
        | failed failing error =>
            cases same
            exact .stuck (run.stuck_of_failed pending reached member)
        | skipped skipping =>
            exact .unmarked (same ▸ (run.skipped_iff member).mp rfl)

/-- Unless the vault is lost, a document that failed is indexed again after the run. -/
theorem indexed_again
    (run : PublishRun root home context disk folder (indexOf excludes folder).documents outcomes
      last lastFolder)
    (wellFormed : folder.WellFormed)
    (lastWellFormed : lastFolder.WellFormed)
    (reached : ¬ last.Lost (Route.ofText root))
    {document : DocumentPath}
    {error : VaultError}
    (member : .failed document error ∈ outcomes) :
    document ∈ (indexOf excludes lastFolder).documents := by
  have stuck := run.stuck_of_failed (pending_indexOf wellFormed) reached member
  have indexed : document ∈ (indexOf excludes folder).documents := by
    rw [← run.map_document]
    exact List.mem_map.mpr ⟨_, member, rfl⟩
  obtain ⟨file, found, -⟩ := stuck.blocked
  exact (mem_indexOf_iff lastWellFormed).mpr
    ⟨⟨file, found⟩, ((mem_indexOf_iff wellFormed).mp indexed).2⟩

end PublishRun

section Again

variable {options : PublishOptions} {home : Location} {folder : Folder}

/-- A run over stable documents changes nothing, finds no link and renames nothing. -/
theorem publishEach_of_stable
    (context : RewriteContext)
    (stores : options.dryRun = false)
    {documents : List DocumentPath}
    (session : Session)
    (reachable : Reachable session.disk options.root home folder)
    (pending : Pending folder documents)
    (stable : ∀ document ∈ documents, Stable folder document) :
    (publishEach options context documents session).2.disk = session.disk ∧
      (∀ rewritten, .published rewritten ∈ (publishEach options context documents session).1 →
        rewritten.links = [] ∧ rewritten.isRenamed = false) ∧
      ∀ document ∈ documents, Stuck folder document →
        ∃ error, .failed document error ∈ (publishEach options context documents session).1 := by
  induction documents generalizing session with
  | nil =>
      simp [publishEach]
  | cons document others inductionHypothesis =>
      have normal := pending.normal document List.mem_cons_self
      obtain ⟨file, present⟩ := pending.present document List.mem_cons_self
      obtain ⟨stableHere, stableThere⟩ := List.forall_mem_cons.mp stable
      obtain ⟨newFolder, step⟩ :=
        publishOne_step context stores session reachable normal present
      obtain ⟨unchanged, noWork⟩ := step.of_stable stableHere
      obtain ⟨unchangedThen, noWorkThen, failAgain⟩ := inductionHypothesis
        (publishOne options context document session).2 (unchanged ▸ reachable) pending.tail
        stableThere
      rw [publishEach_cons]
      refine ⟨unchangedThen.trans unchanged, ?_, ?_⟩
      · intro rewritten member
        rcases List.mem_cons.mp member with same | later
        · exact noWork rewritten same.symm
        · exact noWorkThen rewritten later
      · intro failing member stuck
        rcases List.mem_cons.mp member with rfl | later
        · obtain ⟨-, error, failed⟩ := step.of_stuck stuck
          exact ⟨error, failed ▸ List.mem_cons_self⟩
        · obtain ⟨error, failed⟩ := failAgain failing later stuck
          exact ⟨error, List.mem_cons_of_mem _ failed⟩

variable {patterns : List NamePattern}

/-- A run over a vault whose documents are stable changes nothing. -/
theorem publish_of_stable
    (session : Session)
    (rooted : Rooted session.disk options.root home folder)
    (stores : options.dryRun = false)
    (compiled : compileExcludes options.excludes = .ok patterns)
    (stable : ∀ document ∈ (indexOf patterns folder).documents, Stable folder document) :
    ∃ report last, publish options session = .ok report last ∧
      last.disk = session.disk ∧
      (∀ rewritten ∈ report.published, rewritten.links = [] ∧ rewritten.isRenamed = false) ∧
      ∀ document ∈ (indexOf patterns folder).documents, Stuck folder document →
        ∃ error, ⟨document, error⟩ ∈ report.failures := by
  obtain ⟨events, lastEvents, published⟩ := publish_eq compiled session rooted
  obtain ⟨unchanged, noWork, failAgain⟩ := publishEach_of_stable
    (contextOf options patterns folder) stores ⟨session.disk, events⟩ rooted.reachable
    (pending_indexOf rooted.folder_wellFormed) stable
  refine ⟨_, _, published, unchanged, ?_, ?_⟩
  · intro rewritten member
    exact noWork rewritten (PublishReport.mem_published_iff.mp member)
  · intro document indexed stuck
    obtain ⟨error, failed⟩ := failAgain document indexed stuck
    exact ⟨error, PublishReport.mem_failures_iff.mpr failed⟩

/--
Publishing a vault again changes nothing, unless its root is gone by then. No link is found, no
document is renamed, and what failed fails again.
-/
theorem publish_again
    (session : Session)
    (rooted : Rooted session.disk options.root home folder)
    (stores : options.dryRun = false)
    (compiled : compileExcludes options.excludes = .ok patterns)
    (inert : (contextOf options patterns folder).IsInert)
    (flat : ∀ document ∈ (indexOf patterns folder).documents, HasFlatLinks folder document) :
    ∃ report middle, publish options session = .ok report middle ∧
      if middle.disk.isFolder (Route.ofText options.root) then
        ∃ again last, publish options middle = .ok again last ∧
          last.disk = middle.disk ∧
          (∀ rewritten ∈ again.published, rewritten.links = [] ∧ rewritten.isRenamed = false) ∧
          ∀ failure ∈ report.failures, ∃ error, ⟨failure.document, error⟩ ∈ again.failures
      else
        publish options middle = .error (.rootNotFound options.root) middle := by
  obtain ⟨events, lastEvents, published⟩ := publish_eq compiled session rooted
  have wellFormed := rooted.folder_wellFormed
  have pending := @pending_indexOf folder patterns wellFormed
  obtain ⟨middleFolder, run⟩ := publishEach_run (contextOf options patterns folder) stores
    ⟨session.disk, events⟩ rooted.reachable pending
  refine ⟨_, _, published, ?_⟩
  generalize publishEach options (contextOf options patterns folder)
    (indexOf patterns folder).documents ⟨session.disk, events⟩ = result at run ⊢
  rcases run.anchored_or_lost (.inl rooted.reachable.anchored) with anchored | lost
  · have changedAt := run.changedAt rooted.inside
    have rootedThen := rooted.of_anchored anchored (changedAt.wellFormed rooted.wellFormed)
    have reached : ¬ result.2.disk.Lost (Route.ofText options.root) := fun lost => by
      simpa [isFolder_of_lost lost] using rootedThen.isFolder
    obtain ⟨again, last, publishedAgain, unchanged, noWork, failAgain⟩ :=
      publish_of_stable ⟨result.2.disk, lastEvents⟩ rootedThen stores compiled fun _ indexed =>
        run.stable wellFormed rootedThen.folder_wellFormed reached inert flat indexed
    rw [if_pos rootedThen.isFolder]
    refine ⟨again, last, publishedAgain, unchanged, noWork, ?_⟩
    intro failure member
    have failed := PublishReport.mem_failures_iff.mp member
    apply failAgain
    · exact run.indexed_again wellFormed rootedThen.folder_wellFormed reached failed
    · exact run.stuck_of_failed pending reached failed
  · have notFolder := isFolder_of_lost lost
    rw [if_neg (by simp [notFolder])]
    exact publish_of_not_isFolder compiled _ notFolder

private theorem mem_collidingVault
    {document : DocumentPath}
    (indexed : document ∈ (indexOf [] collidingVault).documents) :
    document ∈
      [⟨"a -b.md".toList⟩, ⟨"a:b.md".toList⟩, (⟨"c:d.md".toList⟩ : DocumentPath)] := by
  rw [(perm_indexOf (by decide)).mem_iff] at indexed
  have listed : (collidingVault.files.filterMap fun entry => documentAt [] entry.1) =
      [⟨"a -b.md".toList⟩, ⟨"a:b.md".toList⟩, ⟨"c:d.md".toList⟩] := by
    decide +kernel
  rwa [listed] at indexed

/-- A vault in which a document fails again. -/
theorem publish_again_collidingVault :
    (contextOf { root := "vault".toList } [] collidingVault).IsInert ∧
      (∀ document ∈ (indexOf [] collidingVault).documents,
        HasFlatLinks collidingVault document) ∧
      ∃ report middle,
        publish { root := "vault".toList } ⟨diskOf collidingVault, []⟩ = .ok report middle ∧
        if middle.disk.isFolder (Route.ofText "vault".toList) then
          ∃ again last, publish { root := "vault".toList } middle = .ok again last ∧
            last.disk = middle.disk ∧
            (∀ rewritten ∈ again.published,
              rewritten.links = [] ∧ rewritten.isRenamed = false) ∧
            ∀ failure ∈ report.failures, ∃ error,
              ⟨failure.document, error⟩ ∈ again.failures
        else
          publish { root := "vault".toList } middle =
            .error (.rootNotFound "vault".toList) middle := by
  have inert : (contextOf { root := "vault".toList } [] collidingVault).IsInert := by
    refine ⟨by decide, by decide, fun document indexed => ?_⟩
    have listed := mem_collidingVault indexed
    clear indexed
    revert document
    decide
  have flat : ∀ document ∈ (indexOf [] collidingVault).documents,
      HasFlatLinks collidingVault document := by
    intro document indexed
    have listed := mem_collidingVault indexed
    clear indexed
    revert document
    decide +kernel
  exact ⟨inert, flat,
    publish_again ⟨diskOf collidingVault, []⟩ rooted_collidingVault rfl rfl inert flat⟩

end Again

end Vault

end NotePublisher
