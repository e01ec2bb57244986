import NotePublisher.Proofs.Vault.Index
import NotePublisher.Proofs.Vault.Store

namespace NotePublisher

/-!
# What a scan lists

A scan walks folders in the order of their entries and passes over names that
are no text, links to folders and folders that a pattern accepts. What it
lists can be said without the walk: the files and links to no folder whose
names are texts and lie in folders that no pattern accepts
(`Vault.Eligible`). The index lists exactly these, each once, in descending
order (`Vault.buildIndex_lists`).
-/

namespace Vault

open Disk

/--
Names of a file below the root that is listed, or of a link that leads to no
folder. The names are texts. Each but the last is that of a folder itself, not
of a link to one, and no pattern accepts it.
-/
structure Eligible
    (disk : Disk)
    (root : Text)
    (excludes : List NamePattern)
    (home : Location)
    (names : List Text) : Prop where
  isLeaf : ∃ content, disk.look (home ++ names.map Utf8.encode) = some (.leaf content)
  noFolder : ∀ target,
    disk.look (home ++ names.map Utf8.encode) = some (.leaf (.link target)) →
      disk.isFolder ((Route.ofText root).below (names.map Utf8.encode)) = false
  folders : ∀ above name below, names = above ++ name :: below → below ≠ [] →
    disk.look (home ++ (above ++ [name]).map Utf8.encode) = some .folder ∧
      ∀ pattern ∈ excludes, pattern.accepts name = false

/-- A file leads to no folder, and a link does if its path can be listed. -/
private theorem leadsToFolder_eq_false_iff
    {disk : Disk}
    {base : Route}
    {location : Location}
    {content : Leaf} :
    leadsToFolder disk base (location, content) = false ↔
      ∀ target, content = .link target → disk.isFolder (base.below location) = false := by
  cases content <;> simp [leadsToFolder]

/-- The names above the last are those that others stand below. -/
private theorem unaccepted_iff
    {excludes : List NamePattern}
    {names : List Text} :
    (∀ name ∈ names.dropLast, excludes.any (·.accepts name) = false) ↔
      ∀ above name below, names = above ++ name :: below → below ≠ [] →
        ∀ pattern ∈ excludes, pattern.accepts name = false := by
  constructor
  · rintro unaccepted above name below rfl below_ne_nil
    have isAbove : name ∈ (above ++ name :: below).dropLast := by
      simp [List.dropLast_append_of_ne_nil, List.dropLast_cons_of_ne_nil below_ne_nil]
    simpa using unaccepted name isAbove
  · intro unaccepted name member
    obtain ⟨above, below, shape⟩ := List.append_of_mem member
    have names_ne_nil : names ≠ [] := by
      rintro rfl
      cases member
    have names_eq := List.dropLast_append_getLast names_ne_nil
    rw [shape, List.append_assoc, List.cons_append] at names_eq
    simpa using unaccepted above name _ names_eq.symm (by simp)

section Scanned

variable {root : Text} {excludes : List NamePattern} {session : Session}

/-- Seen from the root's folder, a location is listed if the scan finds its document there. -/
private theorem eligible_iff
    {disk : Disk}
    {home : Location}
    {folder : Folder}
    (inside : disk.top.folderAt? home = some folder)
    {names : List Text} :
    Eligible disk root excludes home names ↔
      (∃ content, folder.look (names.map Utf8.encode) = some (.leaf content) ∧
          leadsToFolder disk (Route.ofText root) (names.map Utf8.encode, content) = false) ∧
        ∀ name ∈ names.dropLast, excludes.any (·.accepts name) = false := by
  have look_below (location : Location) : disk.look (home ++ location) = folder.look location :=
    Folder.look_append location inside
  rw [unaccepted_iff]
  constructor
  · intro eligible
    obtain ⟨content, present⟩ := eligible.isLeaf
    refine ⟨⟨content, (look_below _).symm.trans present, ?_⟩, ?_⟩
    · rw [leadsToFolder_eq_false_iff]
      rintro target rfl
      exact eligible.noFolder target present
    · exact fun above name below shape below_ne_nil =>
        (eligible.folders above name below shape below_ne_nil).2
  · rintro ⟨⟨content, present, keeps⟩, unaccepted⟩
    refine ⟨⟨content, (look_below _).trans present⟩, fun target isLink => ?_,
      fun above name below shape below_ne_nil =>
        ⟨?_, unaccepted above name below shape below_ne_nil⟩⟩
    · rw [look_below, present] at isLink
      exact leadsToFolder_eq_false_iff.mp keeps target (by simpa using isLink)
    · have entered : (above ++ [name]).map Utf8.encode ++ below.map Utf8.encode =
          names.map Utf8.encode := by
        simp [shape]
      rw [← entered] at present
      rw [look_below]
      exact Folder.look_eq_folder_of_look_append (by simpa using below_ne_nil) present

/-- A scan of the root's folder finds the paths of exactly the names that are listed. -/
theorem mem_scannedDocuments_iff_eligible
    {disk : Disk}
    {home : Location}
    {folder : Folder}
    (inside : disk.top.folderAt? home = some folder)
    (wellFormed : folder.WellFormed)
    {document : DocumentPath} :
    document ∈ scannedDocuments disk root excludes folder ↔
      ∃ names, Eligible disk root excludes home names ∧ document = ⟨['/'].intercalate names⟩ := by
  rw [mem_scannedDocuments_iff wellFormed]
  constructor
  · rintro ⟨⟨content, present, keeps⟩, found⟩
    have plain := fun name isName => (wellFormed.valid_of_look present name isName).plain
    obtain ⟨names, -, location_eq, unaccepted, document_eq⟩ :=
      (documentAt_eq_some_iff plain).mp found
    rw [location_eq] at present keeps
    exact ⟨names, (eligible_iff inside).mpr ⟨⟨content, present, keeps⟩, unaccepted⟩, document_eq⟩
  · rintro ⟨names, eligible, document_eq⟩
    obtain ⟨⟨content, present, keeps⟩, unaccepted⟩ := (eligible_iff inside).mp eligible
    have plain := fun name isName => (wellFormed.valid_of_look present name isName).plain
    have names_ne_nil : names ≠ [] := by
      rintro rfl
      simp at present
    have found := (documentAt_eq_some_iff plain).mpr
      ⟨names, names_ne_nil, rfl, unaccepted, document_eq⟩
    have location_eq := (location_documentAt plain found).1
    rw [location_eq]
    exact ⟨⟨content, present, keeps⟩, found⟩

/--
The index of a folder, however links run in it, lists the paths of exactly the
names that are to be listed. Each stands there once, and the paths descend by
their bytes.
-/
theorem buildIndex_lists
    (wellFormed : session.disk.top.WellFormed)
    (isFolder : session.disk.isFolder (Route.ofText root) = true) :
    ∃ home index events,
      session.disk.resolve (Route.ofText root) = .ok home ∧
      buildIndex root excludes session = .ok index ⟨session.disk, events⟩ ∧
      (∀ document, document ∈ index.documents ↔
        ∃ names, Eligible session.disk root excludes home names ∧
          document = ⟨['/'].intercalate names⟩) ∧
      (∀ names, Eligible session.disk root excludes home names →
        index.documents.count ⟨['/'].intercalate names⟩ = 1) ∧
      index.documents.Pairwise fun left right => right.order left = .lt := by
  rcases buildIndex_cases root excludes session with
    ⟨notFolder, -⟩ | ⟨home, folder, events, resolved, inside, built⟩
  · rw [isFolder] at notFolder
    cases notFolder
  have folderWellFormed := wellFormed.folderAt? inside
  have distinct : ((scannedDocuments session.disk root excludes folder).map
      DocumentPath.location).Nodup := nodup_scannedDocuments folderWellFormed
  have listing := DocumentIndex.documents_perm distinct
  have lists (document : DocumentPath) :
      document ∈ (DocumentIndex.ofPaths
          (scannedDocuments session.disk root excludes folder)).documents ↔
        ∃ names, Eligible session.disk root excludes home names ∧
          document = ⟨['/'].intercalate names⟩ := by
    rw [listing.mem_iff, mem_scannedDocuments_iff_eligible inside folderWellFormed]
  have once := DocumentIndex.nodup_documents
    (scannedDocuments session.disk root excludes folder)
  refine ⟨home, _, events, resolved, built, lists, fun names eligible => ?_,
    DocumentIndex.pairwise_documents _⟩
  exact List.count_eq_one_of_mem once ((lists _).mpr ⟨names, eligible, rfl⟩)

/-- A vault with a folder left out, links that dangle or go round, and a name that is no text. -/
private def tangledVault : Folder :=
  .folder (Utf8.encode "_site".toList)
    (.leaf (Utf8.encode "a.md".toList) (.file ⟨0o644, ⟨#[]⟩⟩) .empty)
    (.folder (Utf8.encode "a".toList)
      (.leaf (Utf8.encode "_site".toList) (.file ⟨0o644, ⟨#[]⟩⟩)
        (.leaf (Utf8.encode "up".toList) (.link "..".toList)
          (.leaf (Utf8.encode "z.md".toList) (.file ⟨0o644, ⟨#[]⟩⟩) .empty)))
      (.leaf (Utf8.encode "a b.md".toList) (.file ⟨0o644, ⟨#[]⟩⟩)
        (.leaf (Utf8.encode "gone.md".toList) (.link "nowhere.md".toList)
          (.leaf (Utf8.encode "ring.md".toList) (.link "ring.md".toList)
            (.leaf ⟨#[255]⟩ (.file ⟨0o644, ⟨#[]⟩⟩) .empty)))))

private def siteFolders : NamePattern where
  source := "_s*".toList
  tokens := [.exactly '_', .exactly 's', .anyText]

private def tangledDocuments : List DocumentPath :=
  [⟨"ring.md".toList⟩, ⟨"gone.md".toList⟩, ⟨"a/z.md".toList⟩, ⟨"a/_site".toList⟩,
    ⟨"a b.md".toList⟩]

private theorem buildIndex_tangledVault :
    buildIndex "vault".toList [siteFolders] ⟨diskOf tangledVault, []⟩ =
      .ok ⟨tangledDocuments⟩
        ⟨diskOf tangledVault,
          [.folderExcluded ⟨"_site".toList⟩, .linkedFolderSkipped ⟨"a/up".toList⟩,
            .nameSkipped ("vault/".toList ++ [Utf8.replacementChar]), .indexed 5 "vault".toList]⟩ :=
  buildIndex_of_scanned tangledVault (by decide +kernel) (by decide +kernel)
    (by decide +kernel) (by decide +kernel) (by decide +kernel)

/-- What is left out, dangles or goes round does not keep the rest from being listed. -/
theorem buildIndex_lists_tangledVault :
    (diskOf tangledVault).top.WellFormed ∧
      (diskOf tangledVault).isFolder (Route.ofText "vault".toList) = true ∧
      NamePattern.parse siteFolders.source = .ok siteFolders ∧
      ∃ home index events,
        (diskOf tangledVault).resolve (Route.ofText "vault".toList) = .ok home ∧
        buildIndex "vault".toList [siteFolders] ⟨diskOf tangledVault, []⟩ =
          .ok index ⟨diskOf tangledVault, events⟩ ∧
        index.documents = tangledDocuments ∧
        (∀ document, document ∈ index.documents ↔
          ∃ names, Eligible (diskOf tangledVault) "vault".toList [siteFolders] home names ∧
            document = ⟨['/'].intercalate names⟩) ∧
        (∀ names, Eligible (diskOf tangledVault) "vault".toList [siteFolders] home names →
          index.documents.count ⟨['/'].intercalate names⟩ = 1) ∧
        index.documents.Pairwise fun left right => right.order left = .lt := by
  have wellFormed : (diskOf tangledVault).top.WellFormed := by decide
  have isFolder : (diskOf tangledVault).isFolder (Route.ofText "vault".toList) = true := by
    decide +kernel
  obtain ⟨home, index, events, resolved, built, lists, once, descends⟩ :=
    @buildIndex_lists "vault".toList [siteFolders] ⟨diskOf tangledVault, []⟩ wellFormed isFolder
  have documents_eq : index.documents = tangledDocuments := by
    rw [buildIndex_tangledVault] at built
    cases built
    rfl
  exact ⟨wellFormed, isFolder, by decide, home, index, events, resolved, built, documents_eq, lists,
    once, descends⟩

end Scanned

end Vault

end NotePublisher
