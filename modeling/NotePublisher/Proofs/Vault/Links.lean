import NotePublisher.Proofs.Document.Address
import NotePublisher.Proofs.Document.Renderings
import NotePublisher.Proofs.Vault.Conservation

namespace NotePublisher

/-!
# Where links lead

The links of all documents are resolved by one index, which is taken before any
document is stored under another name. Once every document has been published,
each of them leads to a document that is stored under the link's address, and
no two documents share an address (`Vault.publish_linksLead`).
-/

namespace PublishReport

/-- A published document has a link that is resolved so. -/
def Resolves
    (report : PublishReport)
    (document : DocumentPath)
    (url : Text) :
    Prop :=
  ∃ rewritten ∈ report.published, ∃ record ∈ rewritten.links,
    record.outcome = .resolved document url

end PublishReport

namespace Vault

open Disk

/-- The resolved links of published documents lead to stored documents. -/
structure LinksLead
    (context : RewriteContext)
    (report : PublishReport)
    (before after : Folder) : Prop where
  published : ∀ {document url}, report.Resolves document url → ∃ file text,
    before.look document.location = some (.leaf (.file file)) ∧
      Utf8.decode? file.content = some text ∧
      .ofText context document text ∈ report.published ∧
      after.look document.output.location =
        some (.leaf (.file ⟨file.mode, Utf8.encode (rewriteText context text).text⟩))
  address : ∀ {document url}, report.Resolves document url →
    url ++ DocumentPath.markdownSuffix =
      Text.trimEnd '/' context.urlBase ++ '/' :: document.output.text
  unambiguous : ∀ {document url other otherUrl}, report.Resolves document url →
    report.Resolves other otherUrl → document ≠ other → url ≠ otherUrl

/-- No file is named by the suffix of markdown alone. -/
def HasNoBareSuffix (folder : Folder) : Prop :=
  ∀ place file, folder.look place = some (.leaf (.file file)) →
    place.getLast? ≠ some (Utf8.encode DocumentPath.markdownSuffix)

namespace PublishRun

variable {root : Text} {home : Location} {context : RewriteContext} {disk last : Disk}
  {folder lastFolder : Folder} {documents : List DocumentPath} {outcomes : List PublishOutcome}

/-- A run without failures publishes each of its markdown documents. -/
theorem published_of_isMarkdown
    (run : PublishRun root home context disk folder documents outcomes last lastFolder)
    (noFailure : (PublishReport.ofOutcomes outcomes).failures = [])
    {document : DocumentPath}
    (member : document ∈ documents)
    (markdown : document.isMarkdown = true) :
    ∃ rewritten, .published rewritten ∈ outcomes ∧ rewritten.source = document := by
  rw [← run.map_document] at member
  obtain ⟨outcome, reported, rfl⟩ := List.mem_map.mp member
  cases outcome with
  | published rewritten =>
      exact ⟨rewritten, reported, rfl⟩
  | skipped document =>
      have unmarked := (run.skipped_iff reported).mp rfl
      simp [markdown] at unmarked
  | failed document error =>
      have failed := PublishReport.mem_failures_iff.mpr
        (show PublishOutcome.failed (PublishFailure.mk document error).document error ∈ outcomes
          from reported)
      simp [noFailure] at failed

/-- The links of published documents are resolved to documents of the index. -/
theorem indexed_of_resolves
    (run : PublishRun root home context disk folder documents outcomes last lastFolder)
    (pending : Pending folder documents)
    {document : DocumentPath}
    {url : Text}
    (resolves : (PublishReport.ofOutcomes outcomes).Resolves document url) :
    document ∈ context.index.documents ∧ (∃ stem, document.stem? = some stem) ∧
      url = document.url context.urlBase := by
  obtain ⟨rewritten, isPublished, record, listed, resolvedTo⟩ := resolves
  obtain ⟨_, text, _, _, shape, _⟩ :=
    run.stored pending (PublishReport.mem_published_iff.mp isPublished)
  have recorded : record ∈ (rewriteText context text).links := by
    rw [shape] at listed
    exact listed
  rw [context.links_rewriteText] at recorded
  obtain ⟨link, _, rfl⟩ := List.mem_map.mp recorded
  obtain ⟨member, matched, address⟩ := LinkOutcome.of_ofTarget_eq_resolved resolvedTo
  exact ⟨member, DocumentPath.exists_stem_of_matchesTarget matched, address⟩

/-- With the suffix, the address of a link is that of a stored document. -/
theorem address_of_resolves
    (run : PublishRun root home context disk folder documents outcomes last lastFolder)
    (pending : Pending folder documents)
    {document : DocumentPath}
    {url : Text}
    (resolves : (PublishReport.ofOutcomes outcomes).Resolves document url) :
    url ++ DocumentPath.markdownSuffix =
      Text.trimEnd '/' context.urlBase ++ '/' :: document.output.text := by
  obtain ⟨_, ⟨stem, stemmed⟩, rfl⟩ := run.indexed_of_resolves pending resolves
  exact DocumentPath.url_append_markdownSuffix stemmed context.urlBase

/-- A published document is stored under the path that publishing gives its source. -/
theorem output_eq
    (run : PublishRun root home context disk folder documents outcomes last lastFolder)
    (pending : Pending folder documents)
    {rewritten : RewrittenDocument}
    (member : .published rewritten ∈ outcomes) :
    rewritten.output = rewritten.source.output := by
  obtain ⟨_, text, _, _, shape, _⟩ := run.stored pending member
  rw [shape]
  rfl

/-- Documents that are stored in one place are one document. -/
theorem eq_of_output_eq
    (run : PublishRun root home context disk folder documents outcomes last lastFolder)
    (pending : Pending folder documents)
    {rewritten other : RewrittenDocument}
    (member : .published rewritten ∈ outcomes)
    (otherMember : .published other ∈ outcomes)
    (same : rewritten.source.output = other.source.output) :
    rewritten = other := by
  apply List.inj_on_of_nodup_map (run.nodup_outputs pending)
  · exact PublishReport.mem_published_iff.mpr member
  · exact PublishReport.mem_published_iff.mpr otherMember
  · rw [run.output_eq pending member, run.output_eq pending otherMember, same]

section Indexed

variable
    {excludes : List NamePattern}
    (run : PublishRun root home context disk folder (indexOf excludes folder).documents outcomes
      last lastFolder)
    (wellFormed : folder.WellFormed)
    (indexed : context.index = indexOf excludes folder)
    (noBareSuffix : HasNoBareSuffix folder)
    (noFailure : (PublishReport.ofOutcomes outcomes).failures = [])

include run wellFormed indexed noBareSuffix noFailure

/-- After a run without failures the links lead to published documents. -/
theorem published_of_resolves
    {document : DocumentPath}
    {url : Text}
    (resolves : (PublishReport.ofOutcomes outcomes).Resolves document url) :
    ∃ rewritten, .published rewritten ∈ outcomes ∧ rewritten.source = document := by
  have pending := @pending_indexOf folder excludes wellFormed
  obtain ⟨member, ⟨stem, stemmed⟩, _⟩ := run.indexed_of_resolves pending resolves
  rw [indexed] at member
  obtain ⟨file, present⟩ := pending.present document member
  apply run.published_of_isMarkdown noFailure member
  apply (pending.normal document member).isMarkdown_of_stem stemmed
  exact noBareSuffix document.location file present

/-- After a run without failures the links lead to stored documents. -/
theorem linksLead :
    LinksLead context (.ofOutcomes outcomes) folder lastFolder := by
  have pending := @pending_indexOf folder excludes wellFormed
  have published {document : DocumentPath} {url : Text}
      (resolves : (PublishReport.ofOutcomes outcomes).Resolves document url) :=
    run.published_of_resolves wellFormed indexed noBareSuffix noFailure resolves
  refine ⟨?_, run.address_of_resolves pending, ?_⟩
  · intro document url resolves
    obtain ⟨rewritten, member, rfl⟩ := published resolves
    obtain ⟨file, text, present, decoded, shape, placed⟩ := run.stored pending member
    rw [run.output_eq pending member] at placed
    have reported := PublishReport.mem_published_iff.mpr member
    rw [shape] at reported
    exact ⟨file, text, present, decoded, reported, placed⟩
  · -- Documents with one address would be stored in one place.
    intro document url other otherUrl resolves otherResolves different sameUrl
    have address := run.address_of_resolves pending resolves
    rw [sameUrl, run.address_of_resolves pending otherResolves] at address
    have sameText : other.output.text = document.output.text := by
      simpa using List.append_cancel_left address
    have sameOutput : other.output = document.output := congrArg DocumentPath.mk sameText
    obtain ⟨rewritten, member, rfl⟩ := published resolves
    obtain ⟨otherRewritten, otherMember, rfl⟩ := published otherResolves
    apply different
    rw [run.eq_of_output_eq pending member otherMember sameOutput.symm]

end Indexed

end PublishRun

/--
After a run that stores documents and fails on none, the links of the
documents lead to stored documents, unless a file is named by the suffix of
markdown alone.
-/
theorem publish_linksLead
    {options : PublishOptions}
    {home : Location}
    {folder : Folder}
    {report : PublishReport}
    {last : Session}
    (session : Session)
    (rooted : Rooted session.disk options.root home folder)
    (stores : options.dryRun = false)
    (noBareSuffix : HasNoBareSuffix folder)
    (published : publish options session = .ok report last)
    (noFailure : report.failures = []) :
    ∃ patterns lastFolder, compileExcludes options.excludes = .ok patterns ∧
      ChangedAt home session.disk folder last.disk lastFolder ∧
      LinksLead (contextOf options patterns folder) report folder lastFolder := by
  cases compiled : compileExcludes options.excludes with
  | error error =>
      have failed : publish options session = .error error session := by
        simp only [publish, compiled]
        rfl
      rw [failed] at published
      cases published
  | ok patterns =>
      obtain ⟨events, lastEvents, done⟩ := publish_eq compiled session rooted
      obtain ⟨rfl, rfl⟩ := by simpa [published] using done
      have wellFormed := rooted.folder_wellFormed
      obtain ⟨lastFolder, run⟩ := publishEach_run (contextOf options patterns folder) stores
        ⟨session.disk, events⟩ rooted.reachable (pending_indexOf wellFormed)
      refine ⟨patterns, lastFolder, rfl, run.changedAt rooted.inside, ?_⟩
      exact run.linksLead wellFormed rfl noBareSuffix noFailure

/-- A vault in which two documents link to each other, one under a name that is changed. -/
private def linkedVault : Folder :=
  .leaf (Utf8.encode "Plan: a.md".toList) (.file ⟨0o644, Utf8.encode "see [[index]]".toList⟩)
    (.leaf (Utf8.encode "index.md".toList)
      (.file ⟨0o600, Utf8.encode "[[Plan: a|plan]] [[Ghost]]".toList⟩) .empty)

private theorem rooted_linkedVault :
    Rooted (diskOf linkedVault) "vault".toList [Utf8.encode "vault".toList] linkedVault where
  resolved := by decide +kernel
  inside := by decide
  linkFree := Folder.linkFree_of_holdsNoLink (by decide)
  wellFormed := by decide

private theorem hasNoBareSuffix_linkedVault :
    HasNoBareSuffix linkedVault := by
  intro place file present
  have listed := (Folder.mem_files_iff (show linkedVault.WellFormed by decide)).mpr present
  have named : ∀ entry ∈ linkedVault.files,
      entry.1.getLast? ≠ some (Utf8.encode DocumentPath.markdownSuffix) := by
    decide
  exact named (place, file) listed

/-- What a run over the vault publishes. -/
private def linkedDocuments : List RewrittenDocument :=
  [⟨⟨"index.md".toList⟩, ⟨"index.md".toList⟩, "[plan](/k/Plan - a) **Ghost**".toList,
      [⟨"[[Plan: a|plan]]".toList, "Plan: a".toList,
          .resolved ⟨"Plan: a.md".toList⟩ "/k/Plan - a".toList⟩,
        ⟨"[[Ghost]]".toList, "Ghost".toList, .unresolved⟩]⟩,
    ⟨⟨"Plan: a.md".toList⟩, ⟨"Plan - a.md".toList⟩, "see [index](/k/index)".toList,
      [⟨"[[index]]".toList, "index".toList, .resolved ⟨"index.md".toList⟩ "/k/index".toList⟩]⟩]

private theorem buildIndex_linkedVault :
    buildIndex "vault".toList [] ⟨diskOf linkedVault, []⟩ =
      .ok ⟨[⟨"index.md".toList⟩, ⟨"Plan: a.md".toList⟩]⟩
        ⟨diskOf linkedVault, [.indexed 2 "vault".toList]⟩ :=
  buildIndex_of_scanned linkedVault (by decide +kernel) (by decide +kernel)
    (by decide +kernel) (by decide +kernel) (by decide +kernel)

/-- A vault with a link to a document that is renamed. -/
theorem publish_linksLead_linkedVault :
    ∃ report last patterns lastFolder,
      publish { root := "vault".toList, urlBase := "/k/".toList } ⟨diskOf linkedVault, []⟩ =
          .ok report last ∧
        report.failures = [] ∧
        report.Resolves ⟨"Plan: a.md".toList⟩ "/k/Plan - a".toList ∧
        compileExcludes [] = .ok patterns ∧
        ChangedAt [Utf8.encode "vault".toList] (diskOf linkedVault) linkedVault last.disk
          lastFolder ∧
        LinksLead (contextOf { root := "vault".toList, urlBase := "/k/".toList } patterns
          linkedVault) report linkedVault lastFolder := by
  let options : PublishOptions := { root := "vault".toList, urlBase := "/k/".toList }
  have reported : reportOf? (publish options ⟨diskOf linkedVault, []⟩) =
      some ⟨linkedDocuments, [], []⟩ := by
    simp only [publish, compileExcludes, bind, EStateM.bind, pure, EStateM.pure, options,
      buildIndex_linkedVault]
    decide +kernel
  obtain ⟨last, done⟩ := exists_of_reportOf? reported
  obtain ⟨patterns, lastFolder, compiled, changedAt, linksLead⟩ :=
    @publish_linksLead options _ _ _ _ ⟨diskOf linkedVault, []⟩ rooted_linkedVault rfl
      hasNoBareSuffix_linkedVault done rfl
  have resolves : PublishReport.Resolves ⟨linkedDocuments, [], []⟩ ⟨"Plan: a.md".toList⟩
      "/k/Plan - a".toList :=
    ⟨_, List.mem_cons_self, _, List.mem_cons_self, rfl⟩
  exact ⟨_, last, patterns, lastFolder, done, rfl, resolves, compiled, changedAt, linksLead⟩

end Vault

end NotePublisher
