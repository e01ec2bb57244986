import NotePublisher.Proofs.Document.Index
import NotePublisher.Vault.Publish

namespace NotePublisher

/-!
# What a vault's index lists

Which document a location of a vault stands for depends on the location alone
(`Vault.documentAt`). A scan finds these documents for all files and for the
links that lead to no folder (`Vault.filterMap_scan`). Without links the index
lists the documents of the regular files that stand for one, each once
(`Vault.mem_indexOf_iff`, `Vault.nodup_indexOf`). With links it lists documents
of files and links below the root, each once (`Vault.listed_of_buildIndex`).
-/

namespace Vault

open Disk

/-- The document that a scan finds at a location below a folder. -/
def documentBelow
    (excludes : List NamePattern) :
    DocumentPath →
    Location →
    Option DocumentPath
  | _, [] => none
  | relative, name :: rest =>
      match Utf8.decode? name with
      | none => none
      | some text =>
          if rest.isEmpty then
            some (Place.relativeOf ⟨[], relative⟩ text)
          else if excludes.any (·.accepts text) then
            none
          else
            documentBelow excludes (Place.relativeOf ⟨[], relative⟩ text) rest

/-- The document that a vault's index lists for a file at a location. -/
def documentAt
    (excludes : List NamePattern)
    (location : Location) :
    Option DocumentPath :=
  documentBelow excludes ⟨[]⟩ location

/-- Below a folder are the documents of its entries, unless its name leaves it out. -/
private theorem filterMap_documentBelow_cons
    {α : Type}
    (excludes : List NamePattern)
    (relative : DocumentPath)
    (name : Name)
    {entries : List (Location × α)}
    (somewhere : ∀ entry ∈ entries, entry.1 ≠ []) :
    ((entries.map fun (location, found) => (name :: location, found)).filterMap
      fun entry => documentBelow excludes relative entry.1) =
      match Utf8.decode? name with
      | none => []
      | some text =>
          if excludes.any (·.accepts text) then
            []
          else
            entries.filterMap fun entry =>
              documentBelow excludes (Place.relativeOf ⟨[], relative⟩ text) entry.1 := by
  rw [List.filterMap_map]
  cases decoded : Utf8.decode? name with
  | none => simp [Function.comp_def, documentBelow, decoded]
  | some text =>
      by_cases excluded : excludes.any (·.accepts text)
      · simp only [excluded, if_true]
        rw [List.filterMap_eq_nil_iff]
        intro entry member
        have isBelow := somewhere entry member
        simp [documentBelow, decoded, isBelow, excluded]
      · simp only [excluded]
        refine List.filterMap_congr fun entry member => ?_
        have isBelow := somewhere entry member
        simp [documentBelow, decoded, isBelow, excluded]

/-- A second slash takes no step. -/
private theorem ofText_append_slash (front text : Text) :
    Route.ofText (front ++ '/' :: '/' :: text) = Route.ofText (front ++ '/' :: text) := by
  have starts : (front ++ '/' :: '/' :: text).head? = (front ++ '/' :: text).head? := by
    cases front <;> rfl
  have pieces : (front ++ '/' :: '/' :: text).splitOn '/' =
      front.splitOn '/' ++ [] :: text.splitOn '/' := by
    rw [List.splitOn_append_cons_self]
    rfl
  simp [Route.ofText, starts, List.splitOn_append_cons_self, pieces]

/-- The path of an entry is the route that goes on by entering the entry's name. -/
theorem Place.route_pathOf
    (place : Place)
    {text : Text}
    (plain : Name.IsPlain (Utf8.encode text)) :
    Route.ofText (place.pathOf text) = (Route.ofText place.path).below [Utf8.encode text] := by
  obtain ⟨nonempty, isPiece⟩ := DocumentPath.isComponent_of_isPlain plain
  have components_eq : DocumentPath.components ⟨text⟩ = [text] := by
    simp [DocumentPath.components, List.splitOn_eq_singleton isPiece, nonempty]
  have location_eq : DocumentPath.location ⟨text⟩ = [Utf8.encode text] := by
    rw [DocumentPath.location, components_eq]
    rfl
  have normal : DocumentPath.IsNormal ⟨text⟩ := ⟨by simp [components_eq], by simpa [location_eq]⟩
  have entered := normal.isNamed.route_within place.path
  rw [DocumentPath.within, components_eq, location_eq] at entered
  rw [← entered]
  obtain ⟨path, relative⟩ := place
  rcases List.eq_nil_or_concat path with rfl | ⟨front, last, rfl⟩
  · rfl
  · by_cases slash : last = '/'
    · simp [pathOf, slash, DocumentPath.joinBelow, ofText_append_slash]
    · simp [pathOf, slash, DocumentPath.joinBelow]

/-- Whether what is below the folder that a route leads to is a link to a folder. -/
def leadsToFolder
    (disk : Disk)
    (base : Route) :
    Location × Leaf →
    Bool
  | (_, .file _) => false
  | (location, .link _) => disk.isFolder (base.below location)

/-- Whether a link leads to a folder does not depend on where its path is cut. -/
private theorem leadsToFolder_cons
    (disk : Disk)
    (base : Route)
    (name : Name)
    (location : Location)
    (content : Leaf) :
    leadsToFolder disk base (name :: location, content) =
      leadsToFolder disk (base.below [name]) (location, content) := by
  cases content <;> simp [leadsToFolder, Route.below]

/-- A scan finds the documents that the files stand for, and the links that lead to no folder. -/
theorem filterMap_scan
    (disk : Disk)
    (excludes : List NamePattern)
    (place : Place)
    {here : Folder}
    (wellFormed : here.WellFormed) :
    (scan disk excludes place here).filterMap Finding.file? =
      (here.leaves.filter fun entry =>
        !leadsToFolder disk (Route.ofText place.path) entry).filterMap
          fun entry => documentBelow excludes place.relative entry.1 := by
  induction here generalizing place with
  | empty =>
      rfl
  | leaf name content others inductionHypothesis =>
      obtain ⟨valid, -, othersWellFormed⟩ := wellFormed
      have later := inductionHypothesis place othersWellFormed
      rw [scan, Folder.leaves, List.filterMap_cons, List.filter_cons, later]
      cases decoded : Utf8.decode? name with
      | none =>
          by_cases through : leadsToFolder disk (Route.ofText place.path) ([name], content)
          all_goals simp [through, documentBelow, decoded, Finding.file?]
      | some text =>
          have name_eq := Utf8.decode?_eq_some_iff.mp decoded
          have route := place.route_pathOf (name_eq ▸ valid.plain)
          rw [← name_eq] at route
          cases content with
          | file file =>
              simp [leadsToFolder, documentBelow, decoded, Finding.file?, Place.relativeOf]
          | link target =>
              by_cases isFolder : disk.isFolder ((Route.ofText place.path).below [name])
              · simp [leadsToFolder, route, isFolder, Finding.file?]
              · simp [leadsToFolder, route, isFolder, documentBelow, decoded, Finding.file?,
                  Place.relativeOf]
  | folder name children others childrenHypothesis inductionHypothesis =>
      obtain ⟨valid, -, childrenWellFormed, othersWellFormed⟩ := wellFormed
      have later := inductionHypothesis place othersWellFormed
      have somewhere (keeps : Location × Leaf → Bool) :
          ∀ entry ∈ children.leaves.filter keeps, entry.1 ≠ [] := by
        intro entry member
        obtain ⟨_, -, rest, shape⟩ := Folder.exists_name_of_mem_leaves (List.mem_of_mem_filter member)
        simp [shape]
      rw [scan, Folder.leaves, List.filterMap_append, List.filter_append, List.filterMap_append,
        later, List.filter_map, filterMap_documentBelow_cons _ _ _ (somewhere _)]
      congr 1
      cases decoded : Utf8.decode? name with
      | none => rfl
      | some text =>
          by_cases excluded : excludes.any (·.accepts text)
          · simp [excluded, Finding.file?]
          · have name_eq := Utf8.decode?_eq_some_iff.mp decoded
            have route := place.route_pathOf (name_eq ▸ valid.plain)
            rw [← name_eq] at route
            have inside : (Route.ofText place.path).below [name] =
                Route.ofText (place.within text).path := route.symm
            have found := childrenHypothesis (place.within text) childrenWellFormed
            simp only [excluded, Bool.false_eq_true, if_false, Function.comp_def,
              leadsToFolder_cons, inside]
            exact found

/-- A location below folders that are not excluded is the document of its names. -/
private theorem documentBelow_map_encode
    {excludes : List NamePattern}
    (relative : DocumentPath)
    {names : List Text}
    (names_ne_nil : names ≠ [])
    (unaccepted : ∀ name ∈ names.dropLast, excludes.any (·.accepts name) = false) :
    documentBelow excludes relative (names.map Utf8.encode) =
      some ⟨DocumentPath.joinBelow relative.text names⟩ := by
  induction names generalizing relative with
  | nil =>
      exact absurd rfl names_ne_nil
  | cons name others inductionHypothesis =>
      rw [List.map_cons, documentBelow, Utf8.decode?_encode]
      cases others with
      | nil => rfl
      | cons second rest =>
          rw [List.dropLast_cons_cons, List.forall_mem_cons] at unaccepted
          simp only [unaccepted.1, List.map_cons, List.isEmpty_cons, Bool.false_eq_true, if_false]
          exact inductionHypothesis _ (by simp) unaccepted.2

/-- A document is named by the names on its way, none of them excluded but perhaps the last. -/
private theorem names_of_documentBelow
    {excludes : List NamePattern}
    {relative document : DocumentPath}
    {location : Location}
    (found : documentBelow excludes relative location = some document) :
    ∃ names, names ≠ [] ∧ location = names.map Utf8.encode ∧
      ∀ name ∈ names.dropLast, excludes.any (·.accepts name) = false := by
  induction location generalizing relative with
  | nil =>
      cases found
  | cons first rest inductionHypothesis =>
      rw [documentBelow] at found
      cases decoded : Utf8.decode? first with
      | none => simp [decoded] at found
      | some name =>
          have first_eq := Utf8.decode?_eq_some_iff.mp decoded
          simp only [decoded] at found
          cases rest with
          | nil => exact ⟨[name], by simp, by simp [first_eq], by simp⟩
          | cons second others =>
              by_cases excluded : excludes.any (·.accepts name)
              · simp [excluded] at found
              · simp only [List.isEmpty_cons, Bool.false_eq_true, if_false, excluded] at found
                obtain ⟨names, names_ne_nil, shape, unaccepted⟩ := inductionHypothesis found
                refine ⟨name :: names, by simp, by simp [first_eq, shape], ?_⟩
                rw [List.dropLast_cons_of_ne_nil names_ne_nil, List.forall_mem_cons]
                exact ⟨by simpa using excluded, unaccepted⟩

/-- A location stands for the path of its names, unless a pattern accepts one above the last. -/
theorem documentAt_eq_some_iff
    {excludes : List NamePattern}
    {document : DocumentPath}
    {location : Location}
    (plain : ∀ name ∈ location, name.IsPlain) :
    documentAt excludes location = some document ↔
      ∃ names, names ≠ [] ∧ location = names.map Utf8.encode ∧
        (∀ name ∈ names.dropLast, excludes.any (·.accepts name) = false) ∧
        document = ⟨['/'].intercalate names⟩ := by
  have documentAt_eq {names : List Text} (names_ne_nil : names ≠ [])
      (location_eq : location = names.map Utf8.encode)
      (unaccepted : ∀ name ∈ names.dropLast, excludes.any (·.accepts name) = false) :
      documentAt excludes location = some ⟨['/'].intercalate names⟩ := by
    obtain ⟨first, others, rfl⟩ := List.exists_cons_of_ne_nil names_ne_nil
    have first_ne_nil : first ≠ [] := by
      refine (DocumentPath.isComponent_of_isPlain (plain (Utf8.encode first) ?_)).1
      simp [location_eq]
    rw [documentAt, location_eq, documentBelow_map_encode ⟨[]⟩ names_ne_nil unaccepted,
      ← DocumentPath.joinBelow_eq_intercalate first_ne_nil]
    rfl
  constructor
  · intro found
    obtain ⟨names, names_ne_nil, location_eq, unaccepted⟩ := names_of_documentBelow found
    have same := found.symm.trans (documentAt_eq names_ne_nil location_eq unaccepted)
    exact ⟨names, names_ne_nil, location_eq, unaccepted, Option.some.inj same⟩
  · rintro ⟨names, names_ne_nil, location_eq, unaccepted, rfl⟩
    exact documentAt_eq names_ne_nil location_eq unaccepted

/-- A document stands for the location that it is found at. -/
theorem location_documentAt
    {excludes : List NamePattern}
    {document : DocumentPath}
    {location : Location}
    (plain : ∀ name ∈ location, name.IsPlain)
    (found : documentAt excludes location = some document) :
    document.location = location ∧ document.IsNormal := by
  obtain ⟨names, names_ne_nil, rfl, -, rfl⟩ := (documentAt_eq_some_iff plain).mp found
  have areComponents : ∀ name ∈ names, name ≠ [] ∧ '/' ∉ name := fun name member =>
    DocumentPath.isComponent_of_isPlain (plain _ (List.mem_map_of_mem member))
  have components_eq := DocumentPath.components_intercalate names_ne_nil areComponents
  have location_eq : DocumentPath.location ⟨['/'].intercalate names⟩ = names.map Utf8.encode := by
    rw [DocumentPath.location, components_eq]
  exact ⟨location_eq, ⟨by rwa [components_eq], by rwa [location_eq]⟩⟩

/-- The index of a vault with the given files. -/
def indexOf
    (excludes : List NamePattern)
    (folder : Folder) :
    DocumentIndex :=
  .ofPaths (folder.files.filterMap fun entry => documentAt excludes entry.1)

section IndexOf

variable {excludes : List NamePattern} {folder : Folder}

/-- A document is found at its location, and its path is normal. -/
private theorem location_of_mem_leaves
    (wellFormed : folder.WellFormed)
    {entry : Location × Leaf}
    (member : entry ∈ folder.leaves)
    {document : DocumentPath}
    (found : documentAt excludes entry.1 = some document) :
    document.location = entry.1 ∧ document.IsNormal := by
  have present := (Folder.mem_leaves_iff wellFormed).mp member
  exact location_documentAt
    (fun name isName => (wellFormed.valid_of_look present name isName).plain) found

/-- A document of a file is found at the file's location, and its path is normal. -/
private theorem location_of_mem_files
    (wellFormed : folder.WellFormed)
    {entry : Location × RegularFile}
    (member : entry ∈ folder.files)
    {document : DocumentPath}
    (found : documentAt excludes entry.1 = some document) :
    document.location = entry.1 ∧ document.IsNormal :=
  location_of_mem_leaves wellFormed (Folder.mem_files_iff_mem_leaves.mp member) found

/-- No two files have the same document's location. -/
private theorem nodup_found
    (wellFormed : folder.WellFormed) :
    ((folder.files.filterMap fun entry => documentAt excludes entry.1).map
      DocumentPath.location).Nodup := by
  refine (Folder.nodup_files wellFormed).sublist (map_filterMap_sublist ?_)
  intro entry listed document found
  exact (location_of_mem_files wellFormed listed found).1

/-- An index lists the files that are not excluded, each once. -/
theorem perm_indexOf
    (wellFormed : folder.WellFormed) :
    (indexOf excludes folder).documents.Perm
      (folder.files.filterMap fun entry => documentAt excludes entry.1) :=
  DocumentIndex.documents_perm (nodup_found wellFormed)

/-- The index lists the files that stand for a document. -/
theorem mem_indexOf_iff
    (wellFormed : folder.WellFormed)
    {document : DocumentPath} :
    document ∈ (indexOf excludes folder).documents ↔
      (∃ file, folder.look document.location = some (.leaf (.file file))) ∧
        documentAt excludes document.location = some document := by
  rw [(perm_indexOf wellFormed).mem_iff, List.mem_filterMap]
  constructor
  · rintro ⟨entry, member, found⟩
    have same := (location_of_mem_files wellFormed member found).1
    rw [same]
    exact ⟨⟨entry.2, (Folder.mem_files_iff wellFormed).mp member⟩, found⟩
  · rintro ⟨⟨file, present⟩, found⟩
    exact ⟨(document.location, file), (Folder.mem_files_iff wellFormed).mpr present, found⟩

/-- Paths of an index are normal. -/
theorem isNormal_of_mem_indexOf
    (wellFormed : folder.WellFormed)
    {document : DocumentPath}
    (indexed : document ∈ (indexOf excludes folder).documents) :
    document.IsNormal := by
  obtain ⟨⟨file, present⟩, found⟩ := (mem_indexOf_iff wellFormed).mp indexed
  exact (location_documentAt
    (fun name isName => (wellFormed.valid_of_look present name isName).plain) found).2

/-- No file is listed twice. -/
theorem nodup_indexOf
    (wellFormed : folder.WellFormed) :
    ((indexOf excludes folder).documents.map DocumentPath.location).Nodup := by
  exact ((perm_indexOf wellFormed).map DocumentPath.location).nodup_iff.mpr
    (nodup_found wellFormed)

end IndexOf

section Scanned

variable {root : Text} {excludes : List NamePattern} {session : Session}

/-- The documents that a scan of the root's folder finds. -/
def scannedDocuments
    (disk : Disk)
    (root : Text)
    (excludes : List NamePattern)
    (folder : Folder) :
    List DocumentPath :=
  (scan disk excludes ⟨root, ⟨[]⟩⟩ folder).filterMap Finding.file?

section ScannedDocuments

variable {disk : Disk} {folder : Folder}

/-- A scan of the root finds what its files stand for, and its links that lead to no folder. -/
theorem mem_scannedDocuments_iff
    (wellFormed : folder.WellFormed)
    {document : DocumentPath} :
    document ∈ scannedDocuments disk root excludes folder ↔
      (∃ content, folder.look document.location = some (.leaf content) ∧
          leadsToFolder disk (Route.ofText root) (document.location, content) = false) ∧
        documentAt excludes document.location = some document := by
  rw [scannedDocuments, filterMap_scan disk excludes _ wellFormed, List.mem_filterMap]
  constructor
  · rintro ⟨⟨location, content⟩, member, found⟩
    obtain ⟨isLeaf, keeps⟩ := List.mem_filter.mp member
    have same : document.location = location := (location_of_mem_leaves wellFormed isLeaf found).1
    rw [same]
    exact ⟨⟨content, (Folder.mem_leaves_iff wellFormed).mp isLeaf, by simpa using keeps⟩, found⟩
  · rintro ⟨⟨content, present, keeps⟩, found⟩
    have isLeaf := (Folder.mem_leaves_iff wellFormed).mpr present
    exact ⟨(document.location, content), List.mem_filter.mpr ⟨isLeaf, by simpa using keeps⟩, found⟩

/-- A scan finds no two documents for one location. -/
theorem nodup_scannedDocuments
    (wellFormed : folder.WellFormed) :
    ((scannedDocuments disk root excludes folder).map DocumentPath.location).Nodup := by
  rw [scannedDocuments, filterMap_scan disk excludes _ wellFormed]
  refine (Folder.nodup_leaves wellFormed).sublist
    ((map_filterMap_sublist ?_).trans (List.filter_sublist.map Prod.fst))
  intro entry kept document found
  exact (location_of_mem_leaves wellFormed (List.mem_of_mem_filter kept) found).1

/-- Without links, a scan finds the documents that the locations of files stand for. -/
theorem scannedDocuments_of_linkFree
    (wellFormed : folder.WellFormed)
    (linkFree : folder.LinkFree) :
    scannedDocuments disk root excludes folder =
      folder.files.filterMap fun entry => documentAt excludes entry.1 := by
  have noLink (location : Location) (target : Text) : (location, .link target) ∉ folder.leaves :=
    mt (Folder.mem_leaves_iff wellFormed).mp (linkFree location target)
  have keepsAll : (folder.leaves.filter fun entry =>
      !leadsToFolder disk (Route.ofText root) entry) = folder.leaves := by
    rw [List.filter_eq_self]
    rintro ⟨location, file | target⟩ member
    · rfl
    · exact absurd member (noLink location target)
  rw [scannedDocuments, filterMap_scan disk excludes _ wellFormed, keepsAll,
    ← Folder.filterMap_leaves, List.filterMap_filterMap]
  refine List.filterMap_congr ?_
  rintro ⟨location, file | target⟩ member
  · rfl
  · exact absurd member (noLink location target)

end ScannedDocuments

/-- A folder that can be listed is indexed, and what a scan of it notes is noted. -/
theorem buildIndex_of_readFolder
    {folder : Folder}
    (read : session.disk.readFolder (Route.ofText root) = .ok folder) :
    buildIndex root excludes session =
      .ok (.ofPaths (scannedDocuments session.disk root excludes folder))
        ⟨session.disk, session.events ++
          (scan session.disk excludes ⟨root, ⟨[]⟩⟩ folder).filterMap Finding.event? ++
          [.indexed (scannedDocuments session.disk root excludes folder).length root]⟩ := by
  simp only [buildIndex, validateRoot, bind, EStateM.bind, VaultAction.disk,
    isFolder_of_readFolder read, if_true, pure, EStateM.pure, VaultAction.query, read,
    VaultAction.noteAll, VaultAction.note, scannedDocuments]

/-- The index of a folder is the descending list of what a scan of it finds. -/
theorem buildIndex_of_scanned
    (folder : Folder)
    (read : session.disk.readFolder (Route.ofText root) = .ok folder)
    {documents : List DocumentPath}
    (perm : documents.Perm (scannedDocuments session.disk root excludes folder))
    (descending : documents.Pairwise fun left right => (right.order left).isLE)
    (distinct : DocumentIndex.dropRepeats documents = documents)
    {events : List Event}
    (noted : (scan session.disk excludes ⟨root, ⟨[]⟩⟩ folder).filterMap Finding.event? ++
      [.indexed documents.length root] = events) :
    buildIndex root excludes session =
      .ok ⟨documents⟩ ⟨session.disk, session.events ++ events⟩ := by
  rw [buildIndex_of_readFolder read, DocumentIndex.ofPaths,
    DocumentIndex.sortDescending_eq_of_perm perm descending, distinct, ← perm.length_eq,
    List.append_assoc, noted]

/-- Building an index changes nothing; it lists what a scan of the root's folder finds. -/
theorem buildIndex_cases
    (root : Text)
    (excludes : List NamePattern)
    (session : Session) :
    (session.disk.isFolder (Route.ofText root) = false ∧
        buildIndex root excludes session = .error (.rootNotFound root) session) ∨
      ∃ home folder events,
        session.disk.resolve (Route.ofText root) = .ok home ∧
        session.disk.top.folderAt? home = some folder ∧
        buildIndex root excludes session =
          .ok (.ofPaths (scannedDocuments session.disk root excludes folder))
            ⟨session.disk, events⟩ := by
  cases isFolder : session.disk.isFolder (Route.ofText root) with
  | false =>
      refine .inl ⟨rfl, ?_⟩
      simp only [buildIndex, validateRoot, bind, EStateM.bind, VaultAction.disk, isFolder,
        Bool.false_eq_true, if_false]
      rfl
  | true =>
      obtain ⟨home, resolved, holdsFolder⟩ := isFolder_iff.mp isFolder
      obtain ⟨folder, inside⟩ := Folder.exists_folderAt?_of_look holdsFolder
      have read : session.disk.readFolder (Route.ofText root) = .ok folder := by
        simp [readFolder, resolved, inside]
      exact .inr ⟨home, folder, _, resolved, inside, buildIndex_of_readFolder read⟩

/-- A root that was indexed is a folder, and the disk is left alone. -/
theorem resolve_of_buildIndex
    {index : DocumentIndex}
    {indexed : Session}
    (built : buildIndex root excludes session = .ok index indexed) :
    ∃ home, session.disk.resolve (Route.ofText root) = .ok home ∧
      session.disk.look home = some .folder ∧ indexed.disk = session.disk := by
  rcases buildIndex_cases root excludes session with
    ⟨-, refused⟩ | ⟨home, folder, events, resolved, inside, listing⟩
  · rw [refused] at built
    cases built
  · rw [listing] at built
    cases built
    exact ⟨home, resolved, Folder.look_eq_folder_of_folderAt? inside, rfl⟩

/-- Documents of files and links below a location, each once. -/
structure Listed
    (disk : Disk)
    (home : Location)
    (documents : List DocumentPath) : Prop where
  normal : ∀ document ∈ documents, document.IsNormal
  fits : ∀ document ∈ documents, Location.Fits document.location
  distinct : (documents.map DocumentPath.location).Nodup
  present : ∀ document ∈ documents, ∃ content,
    disk.look (home ++ document.location) = some (.leaf content)

/-- An index lists documents of files and links below the root, each once. -/
theorem listed_of_buildIndex
    (wellFormed : session.disk.top.WellFormed)
    {index : DocumentIndex}
    {indexed : Session}
    (built : buildIndex root excludes session = .ok index indexed)
    {home : Location}
    (resolved : session.disk.resolve (Route.ofText root) = .ok home) :
    Listed session.disk home index.documents := by
  rcases buildIndex_cases root excludes session with
    ⟨-, refused⟩ | ⟨place, folder, events, resolvedTo, inside, listing⟩
  · rw [refused] at built
    cases built
  rw [listing] at built
  cases built
  rw [resolved] at resolvedTo
  cases resolvedTo
  have folderWellFormed := wellFormed.folderAt? inside
  have distinct : ((scannedDocuments session.disk root excludes folder).map
      DocumentPath.location).Nodup := nodup_scannedDocuments folderWellFormed
  have listing := DocumentIndex.documents_perm distinct
  have named : ∀ document ∈
      (DocumentIndex.ofPaths (scannedDocuments session.disk root excludes folder)).documents,
      document.IsNormal ∧ ∃ content,
        session.disk.look (home ++ document.location) = some (.leaf content) := by
    intro document member
    obtain ⟨⟨content, present, -⟩, found⟩ :=
      (mem_scannedDocuments_iff folderWellFormed).mp (listing.subset member)
    have plain := fun name isName => (folderWellFormed.valid_of_look present name isName).plain
    refine ⟨(location_documentAt plain found).2, content, ?_⟩
    rwa [look, Folder.look_append _ inside]
  refine ⟨fun document member => (named document member).1, ?_,
    (listing.map _).nodup_iff.mpr distinct, fun document member => (named document member).2⟩
  intro document member name inLocation
  obtain ⟨content, present⟩ := (named document member).2
  exact (wellFormed.valid_of_look present name (List.mem_append_right home inLocation)).fits

end Scanned

end Vault

end NotePublisher
