import NotePublisher.Proofs.Vault.Run

namespace NotePublisher

/-!
# No document is lost

After a run each published document is stored under its published path and
every other file is where it was, as it was. The two kinds of places do not
meet, and no further file is there (`Vault.publish_conserves`).
-/

namespace PublishReport

variable {outcomes : List PublishOutcome}

theorem mem_published_iff
    {rewritten : RewrittenDocument} :
    rewritten ∈ (ofOutcomes outcomes).published ↔ .published rewritten ∈ outcomes := by
  simp only [ofOutcomes, List.mem_filterMap]
  constructor
  · rintro ⟨outcome, member, same⟩
    cases outcome <;> simp_all
  · intro member
    exact ⟨_, member, rfl⟩

theorem mem_failures_iff
    {failure : PublishFailure} :
    failure ∈ (ofOutcomes outcomes).failures ↔
      .failed failure.document failure.error ∈ outcomes := by
  simp only [ofOutcomes, List.mem_filterMap]
  constructor
  · rintro ⟨outcome, member, same⟩
    cases outcome <;> simp_all
    subst same
    exact member
  · intro member
    exact ⟨_, member, rfl⟩

/-- Every outcome is reported once. -/
theorem perm_ofOutcomes (outcomes : List PublishOutcome) :
    (outcomes.map PublishOutcome.document).Perm
      ((ofOutcomes outcomes).published.map RewrittenDocument.source ++
        (ofOutcomes outcomes).skipped ++
        (ofOutcomes outcomes).failures.map PublishFailure.document) := by
  induction outcomes with
  | nil =>
      exact .nil
  | cons outcome others inductionHypothesis =>
      cases outcome with
      | published rewritten => exact inductionHypothesis.cons rewritten.source
      | skipped document =>
          let rest := ofOutcomes others
          have moved : (rest.published.map RewrittenDocument.source ++
              document :: rest.skipped).Perm _ := List.perm_middle
          exact (inductionHypothesis.cons document).trans
            (moved.append_right (rest.failures.map PublishFailure.document)).symm
      | failed document error =>
          exact (inductionHypothesis.cons document).trans
            (@List.perm_middle _ document
              ((ofOutcomes others).published.map RewrittenDocument.source ++
                (ofOutcomes others).skipped) _).symm

end PublishReport

namespace Vault

open Disk

/-- Nothing is published that is not reached. -/
private theorem not_published_of_unreached
    {root : Text}
    {documents : List DocumentPath}
    {outcomes : List PublishOutcome}
    (unreached : List.Forall₂ (Unreached root) documents outcomes)
    (rewritten : RewrittenDocument) :
    .published rewritten ∉ outcomes := by
  induction unreached with
  | nil =>
      simp
  | cons first _ inductionHypothesis =>
      cases first <;> simp [inductionHypothesis]

namespace PublishRun

variable {root : Text} {home : Location} {context : RewriteContext} {disk last : Disk}
  {folder lastFolder : Folder} {documents : List DocumentPath} {outcomes : List PublishOutcome}

/-- A run keeps every file that it does not publish. -/
theorem look_file
    (run : PublishRun root home context disk folder documents outcomes last lastFolder)
    {place : Location}
    {file : RegularFile}
    (found : folder.look place = some (.leaf (.file file)))
    (kept : ∀ rewritten, .published rewritten ∈ outcomes →
      rewritten.source.location ≠ place) :
    lastFolder.look place = some (.leaf (.file file)) := by
  induction run with
  | done => exact found
  | lost _ _ => exact found
  | step _ step _ inductionHypothesis =>
      refine inductionHypothesis (step.look_file ?_ found) fun rewritten member =>
        kept rewritten (List.mem_cons_of_mem _ member)
      rintro ⟨rewritten, rfl⟩ atSource
      have sameDocument := step.document_eq
      exact kept rewritten List.mem_cons_self (by rw [atSource, ← sameDocument]; rfl)

/-- The outcomes of a run are about its documents, in order. -/
theorem map_document
    (run : PublishRun root home context disk folder documents outcomes last lastFolder) :
    outcomes.map PublishOutcome.document = documents := by
  induction run with
  | done => rfl
  | lost _ unreached =>
      induction unreached with
      | nil => rfl
      | cons first _ inductionHypothesis =>
          rw [List.map_cons, inductionHypothesis]
          cases first <;> rfl
  | step _ step _ inductionHypothesis =>
      rw [List.map_cons, inductionHypothesis, step.document_eq]

theorem source_mem
    (run : PublishRun root home context disk folder documents outcomes last lastFolder)
    {rewritten : RewrittenDocument}
    (member : .published rewritten ∈ outcomes) :
    rewritten.source ∈ documents := by
  rw [← run.map_document]
  exact List.mem_map.mpr ⟨_, member, rfl⟩

/-- A run skips what is not markdown, and only that. -/
theorem skipped_iff
    (run : PublishRun root home context disk folder documents outcomes last lastFolder)
    {outcome : PublishOutcome}
    (member : outcome ∈ outcomes) :
    outcome = .skipped outcome.document ↔ outcome.document.isMarkdown = false := by
  induction run with
  | done => cases member
  | lost _ unreached =>
      induction unreached with
      | nil => cases member
      | cons first _ inductionHypothesis =>
          rcases List.mem_cons.mp member with rfl | later
          · exact first.skipped_iff
          · exact inductionHypothesis later
  | step _ step _ inductionHypothesis =>
      rcases List.mem_cons.mp member with rfl | later
      · exact step.skipped_iff
      · exact inductionHypothesis later

/-- A run stores each published document, rewritten from what was there before the run. -/
theorem stored
    (run : PublishRun root home context disk folder documents outcomes last lastFolder)
    (pending : Pending folder documents)
    {rewritten : RewrittenDocument}
    (member : .published rewritten ∈ outcomes) :
    ∃ file text, folder.look rewritten.source.location = some (.leaf (.file file)) ∧
      Utf8.decode? file.content = some text ∧
      rewritten = .ofText context rewritten.source text ∧
      lastFolder.look rewritten.output.location =
        some (.leaf (.file ⟨file.mode, Utf8.encode (rewriteText context text).text⟩)) := by
  induction run with
  | done => cases member
  | lost _ unreached =>
      exact absurd member (not_published_of_unreached unreached rewritten)
  | @step _ _ _ _ _ _ document outcome others outcomes _ step run inductionHypothesis =>
      rcases List.mem_cons.mp member with rfl | later
      · obtain ⟨file, text, present, decoded, rfl, placed, free⟩ := step.stored
        refine ⟨file, text, present, decoded, rfl, run.look_file placed ?_⟩
        intro other otherMember
        exact pending.location_ne_output free (run.source_mem otherMember)
      · obtain ⟨file, text, present, decoded, shape, placed⟩ :=
          inductionHypothesis (pending.after step) later
        have listed := run.source_mem later
        obtain ⟨was, found⟩ := pending.present _ (List.mem_cons_of_mem document listed)
        have kept := step.look_file (fun _ => pending.location_ne listed) found
        have same : file = was := by
          rw [present] at kept
          simpa using kept
        exact ⟨file, text, same ▸ found, decoded, shape, placed⟩

/-- After a run a file is one that was published, or one that was there and was not. -/
theorem look_file_cases
    (run : PublishRun root home context disk folder documents outcomes last lastFolder)
    {place : Location}
    {file : RegularFile}
    (found : lastFolder.look place = some (.leaf (.file file))) :
    (∃ rewritten, .published rewritten ∈ outcomes ∧ rewritten.output.location = place) ∨
      (folder.look place = some (.leaf (.file file)) ∧
        ∀ rewritten, .published rewritten ∈ outcomes →
          rewritten.source.location ≠ place) := by
  induction run with
  | done => exact .inr ⟨found, by simp⟩
  | lost _ unreached =>
      exact .inr ⟨found, fun rewritten member =>
        absurd member (not_published_of_unreached unreached rewritten)⟩
  | step _ step _ inductionHypothesis =>
      rcases inductionHypothesis found with ⟨rewritten, member, same⟩ | ⟨foundThen, notSource⟩
      · exact .inl ⟨rewritten, List.mem_cons_of_mem _ member, same⟩
      · rcases step.look_file_cases foundThen with ⟨rewritten, rfl, same⟩ | ⟨foundFirst, elsewhere⟩
        · exact .inl ⟨rewritten, List.mem_cons_self, same⟩
        · refine .inr ⟨foundFirst, fun rewritten member => ?_⟩
          rcases List.mem_cons.mp member with rfl | later
          · have sameDocument := step.document_eq
            simp only [PublishOutcome.document] at sameDocument
            rw [sameDocument]
            exact Ne.symm (elsewhere ⟨rewritten, rfl⟩)
          · exact notSource rewritten later

/-- A published document is stored where its source was or where no file was. -/
theorem output_fresh
    (run : PublishRun root home context disk folder documents outcomes last lastFolder)
    (pending : Pending folder documents)
    {rewritten : RewrittenDocument}
    (member : .published rewritten ∈ outcomes) :
    rewritten.output.location = rewritten.source.location ∨
      ∀ file, folder.look rewritten.output.location ≠ some (.leaf (.file file)) := by
  induction run with
  | done => cases member
  | lost _ unreached =>
      exact absurd member (not_published_of_unreached unreached rewritten)
  | @step _ _ _ _ _ _ document outcome others outcomes _ step run inductionHypothesis =>
      rcases List.mem_cons.mp member with rfl | later
      · obtain ⟨_, _, _, _, rfl, _, free⟩ := step.stored
        exact free.imp_right fun missing file found => by
          simp [RewrittenDocument.ofText, missing] at found
      · refine (inductionHypothesis (pending.after step) later).imp_right ?_
        intro freshThen file found
        by_cases atSource : rewritten.output.location = document.location
        · -- A document in a place that publishing leaves alone is not moved away.
          obtain ⟨_, _, _, _, shape, _⟩ := run.stored (pending.after step) later
          have published : Location.IsPublished document.location := by
            rw [← atSource, shape]
            exact DocumentPath.isPublished_output _
          have inPlace := DocumentPath.location_output_of_isPublished published
          cases step with
          | rewritten _ _ _ _ _ replaced _ =>
              exact freshThen _ (atSource ▸ replaced.look_place)
          | moved _ _ _ different _ _ => exact different inPlace
          | skipped _ => exact freshThen file found
          | unreadable _ _ _ => exact freshThen file found
          | refused _ _ _ different _ _ _ _ => exact different inPlace
        · exact freshThen file (step.look_file (fun _ => atSource) found)

/-- No two documents are stored in one place. -/
theorem nodup_outputs
    (run : PublishRun root home context disk folder documents outcomes last lastFolder)
    (pending : Pending folder documents) :
    ((PublishReport.ofOutcomes outcomes).published.map fun rewritten =>
      rewritten.output.location).Nodup := by
  induction run with
  | done => exact List.nodup_nil
  | @lost _ _ documents outcomes _ unreached =>
      have nothing : (PublishReport.ofOutcomes outcomes).published = [] := by
        rw [List.eq_nil_iff_forall_not_mem]
        intro rewritten member
        exact not_published_of_unreached unreached rewritten
          (PublishReport.mem_published_iff.mp member)
      rw [nothing]
      exact List.nodup_nil
  | @step _ _ _ _ _ _ document outcome others outcomes _ step run inductionHypothesis =>
      have later := inductionHypothesis (pending.after step)
      cases outcome with
      | skipped _ => exact later
      | failed _ _ => exact later
      | published rewritten =>
          refine List.nodup_cons.mpr ⟨?_, later⟩
          obtain ⟨file, text, _, _, rfl, placed, free⟩ := step.stored
          intro repeated
          obtain ⟨other, isPublished, same⟩ := List.mem_map.mp repeated
          have member := PublishReport.mem_published_iff.mp isPublished
          have placedThere := placed
          simp only [RewrittenDocument.ofText] at same
          rw [← same] at placedThere
          rcases run.output_fresh (pending.after step) member with atSource | noFile
          · exact pending.location_ne_output free (run.source_mem member) (atSource ▸ same)
          · exact noFile _ placedThere

/-- No document is stored in the place of a file that is kept. -/
theorem output_ne_of_kept
    (run : PublishRun root home context disk folder documents outcomes last lastFolder)
    (pending : Pending folder documents)
    {place : Location}
    {file : RegularFile}
    (found : folder.look place = some (.leaf (.file file)))
    (kept : ∀ rewritten, .published rewritten ∈ outcomes →
      rewritten.source.location ≠ place)
    {rewritten : RewrittenDocument}
    (member : .published rewritten ∈ outcomes) :
    rewritten.output.location ≠ place := by
  rintro rfl
  rcases run.output_fresh pending member with atSource | noFile
  · exact kept rewritten member atSource.symm
  · exact noFile file found

/-- A run changes nothing outside the vault and leaves no temporary file. -/
theorem changedAt
    (run : PublishRun root home context disk folder documents outcomes last lastFolder)
    (inside : disk.top.folderAt? home = some folder) :
    ChangedAt home disk folder last lastFolder := by
  induction run with
  | done => exact .refl inside
  | lost _ _ => exact .refl inside
  | step _ step _ inductionHypothesis =>
      have changedFirst := step.changedAt inside
      exact changedFirst.trans (inductionHypothesis changedFirst.after)

end PublishRun

/-- The files of a folder that the index does not list. -/
def unindexedPlaces
    (index : DocumentIndex)
    (folder : Folder) :
    List Location :=
  (folder.files.map Prod.fst).filter fun place =>
    ∀ document ∈ index.documents, document.location ≠ place

/-- The documents that a run left alone. -/
def keptDocuments (report : PublishReport) : List DocumentPath :=
  report.skipped ++ report.failures.map PublishFailure.document

/-- Where the files of a vault are after a run. -/
def placesAfter
    (index : DocumentIndex)
    (report : PublishReport)
    (before : Folder) :
    List Location :=
  report.published.map (fun rewritten => rewritten.output.location) ++
    ((keptDocuments report).map DocumentPath.location ++ unindexedPlaces index before)

/-- Every file of a vault before a run is there after it, in the place reported. -/
structure Conserved
    (context : RewriteContext)
    (report : PublishReport)
    (before after : Folder) : Prop where
  published : ∀ rewritten ∈ report.published, ∃ file text,
    before.look rewritten.source.location = some (.leaf (.file file)) ∧
      Utf8.decode? file.content = some text ∧
      rewritten = .ofText context rewritten.source text ∧
      after.look rewritten.output.location =
        some (.leaf (.file ⟨file.mode, Utf8.encode (rewriteText context text).text⟩))
  kept : ∀ document ∈ keptDocuments report, ∃ file,
    before.look document.location = some (.leaf (.file file)) ∧
      after.look document.location = some (.leaf (.file file))
  unindexed : ∀ place ∈ unindexedPlaces context.index before, ∃ file,
    before.look place = some (.leaf (.file file)) ∧
      after.look place = some (.leaf (.file file))
  reported : context.index.documents.Perm
    (report.published.map RewrittenDocument.source ++ keptDocuments report)
  distinct : (placesAfter context.index report before).Nodup
  exhaustive : (after.files.map Prod.fst).Perm (placesAfter context.index report before)
  count : after.files.length = before.files.length

section Files

variable {folder : Folder} {excludes : List NamePattern}

/-- The places that are not indexed hold files and no document. -/
theorem mem_unindexedPlaces_iff
    (wellFormed : folder.WellFormed)
    {index : DocumentIndex}
    {place : Location} :
    place ∈ unindexedPlaces index folder ↔
      (∃ file, folder.look place = some (.leaf (.file file))) ∧
        ∀ document ∈ index.documents, document.location ≠ place := by
  simp [unindexedPlaces, Folder.mem_files_iff wellFormed]

/-- The files of a vault are those of its index and those it does not list. -/
theorem perm_files
    (wellFormed : folder.WellFormed) :
    (folder.files.map Prod.fst).Perm
      ((indexOf excludes folder).documents.map DocumentPath.location ++
        unindexedPlaces (indexOf excludes folder) folder) := by
  let listed : Location → Bool := fun place =>
    !decide (∀ document ∈ (indexOf excludes folder).documents, document.location ≠ place)
  have split := (List.filter_append_perm listed (folder.files.map Prod.fst)).symm
  simp only [listed, Bool.not_not] at split
  refine split.trans (List.Perm.append_right _ ?_)
  rw [List.perm_ext_iff_of_nodup ((Folder.nodup_files wellFormed).filter listed)
    (nodup_indexOf wellFormed)]
  intro place
  constructor
  · intro member
    simpa [listed] using (List.mem_filter.mp member).2
  · intro member
    obtain ⟨document, indexed, rfl⟩ := List.mem_map.mp member
    obtain ⟨⟨file, present⟩, -⟩ := (mem_indexOf_iff wellFormed).mp indexed
    have listedFile := (Folder.mem_files_iff wellFormed).mpr present
    have found : ∃ other ∈ (indexOf excludes folder).documents,
        other.location = document.location := ⟨document, indexed, rfl⟩
    exact List.mem_filter.mpr ⟨List.mem_map_of_mem listedFile, by simpa [listed] using found⟩

/-- The documents of an index are pending before any of them is published. -/
theorem pending_indexOf
    (wellFormed : folder.WellFormed) :
    Pending folder (indexOf excludes folder).documents where
  normal _ indexed := isNormal_of_mem_indexOf wellFormed indexed
  distinct := nodup_indexOf wellFormed
  present _ indexed := ((mem_indexOf_iff wellFormed).mp indexed).1

end Files

namespace PublishRun

variable {root : Text} {home : Location} {context : RewriteContext} {disk last : Disk}
  {folder lastFolder : Folder} {excludes : List NamePattern} {outcomes : List PublishOutcome}

section Reported

variable {documents : List DocumentPath}

/-- The report of a run is about its documents. -/
theorem perm_reported
    (run : PublishRun root home context disk folder documents outcomes last lastFolder) :
    documents.Perm
      ((PublishReport.ofOutcomes outcomes).published.map RewrittenDocument.source ++
        keptDocuments (.ofOutcomes outcomes)) := by
  have perm := PublishReport.perm_ofOutcomes outcomes
  rwa [run.map_document, List.append_assoc] at perm

theorem kept_mem
    (run : PublishRun root home context disk folder documents outcomes last lastFolder)
    {document : DocumentPath}
    (kept : document ∈ keptDocuments (.ofOutcomes outcomes)) :
    document ∈ documents :=
  run.perm_reported.mem_iff.mpr (List.mem_append_right _ kept)

/-- Published and kept documents are different files. -/
theorem nodup_reported
    (run : PublishRun root home context disk folder documents outcomes last lastFolder)
    (pending : Pending folder documents) :
    ((PublishReport.ofOutcomes outcomes).published.map (fun rewritten =>
        rewritten.source.location) ++
      (keptDocuments (.ofOutcomes outcomes)).map DocumentPath.location).Nodup := by
  have distinct := (run.perm_reported.map DocumentPath.location).nodup_iff.mp pending.distinct
  rwa [List.map_append, List.map_map] at distinct

/-- A document that is kept is not the source of one that is published. -/
theorem source_ne_of_kept
    (run : PublishRun root home context disk folder documents outcomes last lastFolder)
    (pending : Pending folder documents)
    {document : DocumentPath}
    (kept : document ∈ keptDocuments (.ofOutcomes outcomes))
    {rewritten : RewrittenDocument}
    (member : .published rewritten ∈ outcomes) :
    rewritten.source.location ≠ document.location := by
  have isPublished := PublishReport.mem_published_iff.mpr member
  exact (List.nodup_append.mp (run.nodup_reported pending)).2.2 _
    (List.mem_map_of_mem isPublished) _ (List.mem_map_of_mem kept)

/-- The documents that a run does not publish are where they were. -/
theorem look_kept
    (run : PublishRun root home context disk folder documents outcomes last lastFolder)
    (pending : Pending folder documents)
    {document : DocumentPath}
    (kept : document ∈ keptDocuments (.ofOutcomes outcomes)) :
    ∃ file, folder.look document.location = some (.leaf (.file file)) ∧
      lastFolder.look document.location = some (.leaf (.file file)) := by
  obtain ⟨file, present⟩ := pending.present document (run.kept_mem kept)
  exact ⟨file, present, run.look_file present fun _ member =>
    run.source_ne_of_kept pending kept member⟩

end Reported

section Indexed

variable
    (run : PublishRun root home context disk folder (indexOf excludes folder).documents outcomes
      last lastFolder)
    (wellFormed : folder.WellFormed)

include run wellFormed

/-- Files that are not indexed are where they were. -/
theorem look_unindexed
    {place : Location}
    (unindexed : place ∈ unindexedPlaces (indexOf excludes folder) folder) :
    ∃ file, folder.look place = some (.leaf (.file file)) ∧
      lastFolder.look place = some (.leaf (.file file)) := by
  obtain ⟨⟨file, present⟩, notListed⟩ := (mem_unindexedPlaces_iff wellFormed).mp unindexed
  exact ⟨file, present, run.look_file present fun _ member =>
    notListed _ (run.source_mem member)⟩

/-- The places reported after a run are different. -/
theorem nodup_placesAfter :
    (placesAfter (indexOf excludes folder) (.ofOutcomes outcomes) folder).Nodup := by
  have pending := @pending_indexOf folder excludes wellFormed
  refine List.nodup_append.mpr ⟨run.nodup_outputs pending, List.nodup_append.mpr ⟨?_, ?_, ?_⟩, ?_⟩
  · exact (List.nodup_append.mp (run.nodup_reported pending)).2.1
  · exact (Folder.nodup_files wellFormed).filter _
  · intro left keptPlace right unindexed
    obtain ⟨document, kept, rfl⟩ := List.mem_map.mp keptPlace
    exact ((mem_unindexedPlaces_iff wellFormed).mp unindexed).2 document (run.kept_mem kept)
  · intro left stored right elsewhere
    obtain ⟨rewritten, isPublished, rfl⟩ := List.mem_map.mp stored
    have member := PublishReport.mem_published_iff.mp isPublished
    rcases List.mem_append.mp elsewhere with keptPlace | unindexed
    · obtain ⟨document, kept, rfl⟩ := List.mem_map.mp keptPlace
      obtain ⟨file, present, -⟩ := run.look_kept pending kept
      exact run.output_ne_of_kept pending present
        (fun _ => run.source_ne_of_kept pending kept) member
    · obtain ⟨⟨file, present⟩, notListed⟩ := (mem_unindexedPlaces_iff wellFormed).mp unindexed
      exact run.output_ne_of_kept pending present
        (fun _ published => notListed _ (run.source_mem published)) member

/-- A file that is in no published document's place was there before the run. -/
private theorem mem_placesAfter_of_present
    {place : Location}
    {file : RegularFile}
    (present : folder.look place = some (.leaf (.file file)))
    (notSource : ∀ rewritten, .published rewritten ∈ outcomes →
      rewritten.source.location ≠ place) :
    place ∈ (keptDocuments (.ofOutcomes outcomes)).map DocumentPath.location ++
      unindexedPlaces (indexOf excludes folder) folder := by
  have listed := (@perm_files folder excludes wellFormed).mem_iff.mp
    (List.mem_map_of_mem ((Folder.mem_files_iff wellFormed).mpr present))
  rcases List.mem_append.mp listed with indexed | unindexed
  · obtain ⟨document, indexed, same⟩ := List.mem_map.mp indexed
    rcases List.mem_append.mp (run.perm_reported.mem_iff.mp indexed) with published | kept
    · obtain ⟨rewritten, isPublished, rfl⟩ := List.mem_map.mp published
      exact absurd same (notSource rewritten (PublishReport.mem_published_iff.mp isPublished))
    · exact List.mem_append_left _ (List.mem_map.mpr ⟨document, kept, same⟩)
  · exact List.mem_append_right _ unindexed

/-- After a run there are files in the places reported, and only there. -/
private theorem mem_placesAfter_iff
    {place : Location} :
    place ∈ placesAfter (indexOf excludes folder) (.ofOutcomes outcomes) folder ↔
      ∃ file, lastFolder.look place = some (.leaf (.file file)) := by
  have pending := @pending_indexOf folder excludes wellFormed
  rw [placesAfter, List.mem_append]
  constructor
  · rintro (stored | elsewhere)
    · obtain ⟨rewritten, isPublished, rfl⟩ := List.mem_map.mp stored
      obtain ⟨_, _, _, _, _, placed⟩ :=
        run.stored pending (PublishReport.mem_published_iff.mp isPublished)
      exact ⟨_, placed⟩
    · rcases List.mem_append.mp elsewhere with keptPlace | unindexed
      · obtain ⟨document, kept, rfl⟩ := List.mem_map.mp keptPlace
        obtain ⟨file, _, found⟩ := run.look_kept pending kept
        exact ⟨file, found⟩
      · obtain ⟨file, _, found⟩ := run.look_unindexed wellFormed unindexed
        exact ⟨file, found⟩
  · rintro ⟨file, found⟩
    rcases run.look_file_cases found with ⟨rewritten, published, same⟩ | ⟨present, notSource⟩
    · have isPublished := PublishReport.mem_published_iff.mpr published
      exact .inl (List.mem_map.mpr ⟨rewritten, isPublished, same⟩)
    · exact .inr (run.mem_placesAfter_of_present wellFormed present notSource)

/-- The files after a run are those in the places reported. -/
theorem perm_placesAfter
    (lastWellFormed : lastFolder.WellFormed) :
    (lastFolder.files.map Prod.fst).Perm
      (placesAfter (indexOf excludes folder) (.ofOutcomes outcomes) folder) := by
  rw [List.perm_ext_iff_of_nodup (Folder.nodup_files lastWellFormed)
    (run.nodup_placesAfter wellFormed)]
  intro place
  rw [run.mem_placesAfter_iff wellFormed]
  simp [Folder.mem_files_iff lastWellFormed]

/-- A run over the index of a vault loses no file. -/
theorem conserved
    (lastWellFormed : lastFolder.WellFormed)
    (indexed : context.index = indexOf excludes folder) :
    Conserved context (.ofOutcomes outcomes) folder lastFolder where
  published _ isPublished :=
    run.stored (pending_indexOf wellFormed) (PublishReport.mem_published_iff.mp isPublished)
  kept _ kept := run.look_kept (pending_indexOf wellFormed) kept
  unindexed _ unindexed := run.look_unindexed wellFormed (indexed ▸ unindexed)
  reported := indexed ▸ run.perm_reported
  distinct := indexed ▸ run.nodup_placesAfter wellFormed
  exhaustive := indexed ▸ run.perm_placesAfter wellFormed lastWellFormed
  count := by
    have after := (run.perm_placesAfter wellFormed lastWellFormed).length_eq
    have before := (@perm_files folder excludes wellFormed).length_eq
    have reported := run.perm_reported.length_eq
    simp only [placesAfter, List.length_map, List.length_append] at after before reported
    omega

end Indexed

end PublishRun

/-- No document is lost by a run that stores documents. -/
theorem publish_conserves
    {options : PublishOptions}
    {patterns : List NamePattern}
    {home : Location}
    {folder : Folder}
    (session : Session)
    (rooted : Rooted session.disk options.root home folder)
    (stores : options.dryRun = false)
    (compiled : compileExcludes options.excludes = .ok patterns) :
    ∃ index indexed report last lastFolder,
      buildIndex options.root patterns session = .ok index indexed ∧
        publish options session = .ok report last ∧
        ChangedAt home session.disk folder last.disk lastFolder ∧
        Conserved ⟨index, options.urlBase, options.scriptSource⟩ report folder lastFolder := by
  obtain ⟨events, built⟩ := buildIndex_eq session rooted patterns
  obtain ⟨events', lastEvents, published⟩ := publish_eq compiled session rooted
  obtain ⟨lastFolder, run⟩ := publishEach_run (contextOf options patterns folder) stores
    ⟨session.disk, events'⟩ rooted.reachable (pending_indexOf rooted.folder_wellFormed)
  have changedAt := run.changedAt rooted.inside
  have lastWellFormed := (changedAt.wellFormed rooted.wellFormed).folderAt? changedAt.after
  exact ⟨_, _, _, _, lastFolder, built, published, changedAt,
    run.conserved rooted.folder_wellFormed lastWellFormed rfl⟩

/-- A vault in which one document would be stored in the place of another. -/
def collidingVault : Folder :=
  .leaf (Utf8.encode "a -b.md".toList) (.file ⟨0o644, Utf8.encode "kept".toList⟩)
    (.leaf (Utf8.encode "a:b.md".toList) (.file ⟨0o600, Utf8.encode "[[a -b]]".toList⟩)
      (.leaf (Utf8.encode "c:d.md".toList) (.file ⟨0o644, Utf8.encode "%%gone%%left".toList⟩)
        .empty))

/-- The report of a run that ended without a fatal error. -/
def reportOf? :
    EStateM.Result VaultError Session PublishReport →
    Option PublishReport
  | .ok report _ => some report
  | .error _ _ => none

/-- A run with a report has ended without a fatal error. -/
theorem exists_of_reportOf?
    {result : EStateM.Result VaultError Session PublishReport}
    {report : PublishReport}
    (reported : reportOf? result = some report) :
    ∃ last, result = .ok report last := by
  cases result with
  | ok value last =>
      cases reported
      exact ⟨last, rfl⟩
  | error error last => cases reported

theorem rooted_collidingVault :
    Rooted (diskOf collidingVault) "vault".toList [Utf8.encode "vault".toList]
      collidingVault where
  resolved := by decide +kernel
  inside := by decide
  linkFree := Folder.linkFree_of_holdsNoLink (by decide)
  wellFormed := by decide

/-- A vault in which one document is kept because its output is taken. -/
theorem publish_conserves_collidingVault :
    ∃ index indexed report last lastFolder,
      buildIndex "vault".toList [] ⟨diskOf collidingVault, []⟩ = .ok index indexed ∧
        publish { root := "vault".toList } ⟨diskOf collidingVault, []⟩ = .ok report last ∧
        ChangedAt [Utf8.encode "vault".toList] (diskOf collidingVault) collidingVault
          last.disk lastFolder ∧
        Conserved ⟨index, [], Diagram.defaultScriptSource⟩ report collidingVault lastFolder :=
  @publish_conserves { root := "vault".toList } [] _ _ ⟨diskOf collidingVault, []⟩
    rooted_collidingVault rfl rfl

end Vault

end NotePublisher
