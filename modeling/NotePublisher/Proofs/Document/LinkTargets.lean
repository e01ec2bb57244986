import NotePublisher.Proofs.Document.Address
import NotePublisher.Proofs.Document.Index

namespace NotePublisher

/-!
# Which document a target stands for

A target names the documents that are written as the target and the suffix of
markdown, in the top folder or, if the target has no slash, in any folder. In
an index of paths without empty pieces it stands for the least of the given
paths that it names (`DocumentIndex.ofPaths_resolves_least`).
-/

namespace Text

/-- The last segment is what follows the last slash. -/
theorem lastSegment_eq_iff
    {text segment : Text} :
    lastSegment text = segment ↔
      '/' ∉ segment ∧ (text = segment ∨ '/' :: segment <:+ text) := by
  constructor
  · rintro rfl
    by_cases slash : '/' ∈ text
    · obtain ⟨front, shape, noSlash⟩ := exists_eq_append_lastSegment slash
      exact ⟨noSlash, .inr ⟨front, shape.symm⟩⟩
    · rw [lastSegment_of_not_mem slash]
      exact ⟨slash, .inl rfl⟩
  · rintro ⟨noSlash, rfl | ⟨front, rfl⟩⟩
    · exact lastSegment_of_not_mem noSlash
    · exact lastSegment_append_cons front noSlash

end Text

namespace DocumentPath

variable {path : DocumentPath} {target : Text}

/--
The path is the target with the suffix of markdown, or it ends in a slash and
the two and the target has no slash of its own.
-/
def IsNamedBy (path : DocumentPath) (target : Text) : Prop :=
  path.text = target ++ markdownSuffix ∨
    '/' ∉ target ∧ '/' :: (target ++ markdownSuffix) <:+ path.text

instance : Decidable (path.IsNamedBy target) :=
  inferInstanceAs (Decidable (_ ∨ _))

theorem matchesTarget_iff :
    path.matchesTarget target = true ↔ path.IsNamedBy target := by
  cases stemmed : path.stem? with
  | none =>
      have unsuffixed (front : Text) : path.text ≠ front ++ markdownSuffix := by
        intro written
        rw [stem?, Text.dropEnd?_eq_some_iff.mpr written] at stemmed
        cases stemmed
      simp only [matchesTarget, stemmed, Bool.false_eq_true, false_iff]
      rintro (whole | ⟨-, front, ends⟩)
      · exact unsuffixed target whole
      · exact unsuffixed (front ++ '/' :: target) (by simpa using ends.symm)
  | some stem =>
      have written : path.text = stem ++ markdownSuffix := Text.dropEnd?_eq_some_iff.mp stemmed
      have ends : '/' :: (target ++ markdownSuffix) <:+ path.text ↔ '/' :: target <:+ stem := by
        rw [written, ← List.cons_append, List.suffix_append_inj_of_length_eq rfl,
          and_iff_left rfl]
      have whole : path.text = target ++ markdownSuffix ↔ stem = target := by
        rw [written, List.append_cancel_right_eq]
      rw [IsNamedBy, ends, whole]
      simp only [matchesTarget, stemmed, Bool.or_eq_true, decide_eq_true_eq,
        Text.lastSegment_eq_iff]
      tauto

/-- A target with a slash names the one document that is written like it. -/
theorem isNamedBy_iff_of_slash
    (slash : '/' ∈ target) :
    path.IsNamedBy target ↔ path = ⟨target ++ markdownSuffix⟩ := by
  rw [IsNamedBy, mk.injEq]
  simp [slash]

/-- A link names a file by the last segment of its target. -/
theorem IsNamedBy.lastSegment_eq
    (named : path.IsNamedBy target) :
    Text.lastSegment path.text = Text.lastSegment target ++ markdownSuffix := by
  rcases named with whole | ⟨noSlash, front, ends⟩
  · rw [whole, Text.lastSegment_append target (by decide)]
  · rw [← ends, Text.lastSegment_append_cons front (by simpa [markdownSuffix] using noSlash),
      Text.lastSegment_of_not_mem noSlash]

theorem isNamedBy_of_lastSegment_eq
    (last : Text.lastSegment path.text = target ++ markdownSuffix) :
    path.IsNamedBy target := by
  obtain ⟨noSlash, whole | ends⟩ := Text.lastSegment_eq_iff.mp last
  · exact .inl whole
  · exact .inr ⟨fun slash => noSlash (List.mem_append_left _ slash), ends⟩

/-- No piece of the path between slashes is empty, unless the whole path is. -/
def IsTidy (path : DocumentPath) : Prop :=
  path.text ≠ [] → [] ∉ path.text.splitOn '/'

instance : Decidable path.IsTidy :=
  inferInstanceAs (Decidable (_ → _))

/-- A tidy path is its components with slashes between them. -/
theorem IsTidy.components_eq
    (tidy : path.IsTidy)
    (text_ne_nil : path.text ≠ []) :
    path.components = path.text.splitOn '/' := by
  refine List.filter_eq_self.mpr fun piece member => ?_
  simpa using fun nothing : piece = [] => tidy text_ne_nil (nothing ▸ member)

/-- A tidy path is found again from its components. -/
theorem IsTidy.intercalate_components
    (tidy : path.IsTidy) :
    ['/'].intercalate path.components = path.text := by
  by_cases empty : path.text = []
  · simp [components, empty]
  rw [tidy.components_eq empty, List.intercalate_splitOn]

/-- The file of a document is named by what stands behind the last slash. -/
theorem IsNormal.fileName_eq_lastSegment
    (normal : path.IsNormal)
    (tidy : path.IsTidy) :
    path.fileName = Text.lastSegment path.text := by
  have text_ne_nil : path.text ≠ [] := by
    intro nothing
    apply normal.somewhere
    simp [components, nothing]
  apply normal.fileName_eq
  rw [Text.lastSegment, ← tidy.components_eq text_ne_nil, List.getLastD_eq_getLast?,
    List.getLast?_eq_getLast_of_ne_nil normal.somewhere]
  rfl

/-- There is one way to write a path without empty pieces. -/
theorem IsTidy.eq_of_components_eq
    {left right : DocumentPath}
    (leftTidy : left.IsTidy)
    (rightTidy : right.IsTidy)
    (same : left.components = right.components) :
    left = right := by
  have sameText : left.text = right.text := by
    rw [← leftTidy.intercalate_components, same, rightTidy.intercalate_components]
  exact congrArg mk sameText

end DocumentPath

/-- Of what is kept of a descending list, the last is the least. -/
private theorem getLast?_filter_eq_some_iff
    {documents : List DocumentPath}
    (descending : documents.Pairwise fun left right => right.order left = .lt)
    {keep : DocumentPath → Bool}
    {last : DocumentPath} :
    (documents.filter keep).getLast? = some last ↔
      last ∈ documents ∧ keep last = true ∧
        ∀ other ∈ documents, keep other = true → (last.order other).isLE = true := by
  have least {found : DocumentPath} (isLast : (documents.filter keep).getLast? = some found) :
      ∀ other ∈ documents, keep other = true → (found.order other).isLE = true := by
    intro other member kept
    obtain ⟨front, shape⟩ := List.getLast?_eq_some_iff.mp isLast
    have below := descending.filter keep
    rw [shape, List.pairwise_append] at below
    have found_or_before : other ∈ front ++ [found] :=
      shape ▸ List.mem_filter.mpr ⟨member, kept⟩
    rcases List.mem_append.mp found_or_before with before | same
    · simp [below.2.2 other before found (by simp)]
    · rw [List.mem_singleton.mp same, DocumentPath.order_eq_iff.mpr rfl]
      rfl
  constructor
  · intro isLast
    obtain ⟨member, kept⟩ := List.mem_filter.mp (List.mem_of_getLast? isLast)
    exact ⟨member, kept, least isLast⟩
  · rintro ⟨member, kept, isLeast⟩
    have listed := List.mem_filter.mpr ⟨member, kept⟩
    obtain ⟨found, isLast⟩ : ∃ found, (documents.filter keep).getLast? = some found :=
      Option.isSome_iff_exists.mp (by simpa using List.ne_nil_of_mem listed)
    obtain ⟨foundMember, foundKept⟩ := List.mem_filter.mp (List.mem_of_getLast? isLast)
    have same : found = last := DocumentPath.order_eq_iff.mp
      (Std.OrientedCmp.isLE_antisymm (least isLast last member kept)
        (isLeast found foundMember foundKept))
    rw [isLast, same]

namespace DocumentIndex

variable {paths : List DocumentPath} {target : Text}

/-- An index of one document resolves the targets that name it. -/
theorem resolve?_singleton
    {document : DocumentPath} :
    (⟨[document]⟩ : DocumentIndex).resolve? target = some document ↔
      document.IsNamedBy target := by
  rw [← DocumentPath.matchesTarget_iff, resolve?]
  cases matched : document.matchesTarget target <;> simp [matched]

/-- A target is resolved to a document that it names. -/
theorem isNamedBy_of_resolve?
    {index : DocumentIndex}
    {document : DocumentPath}
    (found : index.resolve? target = some document) :
    document.IsNamedBy target := by
  obtain ⟨-, matched⟩ := List.mem_filter.mp (List.mem_of_getLast? found)
  exact DocumentPath.matchesTarget_iff.mp matched

/-- In any index a target with a slash stands for the document that is written like it. -/
theorem resolve?_of_mem
    {index : DocumentIndex}
    (slash : '/' ∈ target)
    (listed : ⟨target ++ DocumentPath.markdownSuffix⟩ ∈ index.documents) :
    index.resolve? target = some ⟨target ++ DocumentPath.markdownSuffix⟩ := by
  cases found : index.resolve? target with
  | none =>
      rw [resolve?, List.getLast?_eq_none_iff, List.filter_eq_nil_iff] at found
      exact absurd (DocumentPath.matchesTarget_iff.mpr (.inl rfl)) (found _ listed)
  | some last =>
      rw [(DocumentPath.isNamedBy_iff_of_slash slash).mp (isNamedBy_of_resolve? found)]

theorem mem_documents_of_tidy
    (tidy : ∀ path ∈ paths, path.IsTidy)
    {path : DocumentPath} :
    path ∈ (ofPaths paths).documents ↔ path ∈ paths :=
  mem_documents_iff fun left isLeft right isRight same =>
    (tidy left isLeft).eq_of_components_eq (tidy right isRight) same

/-- A target is resolved to the first document that it names. -/
theorem resolve?_eq_some_iff
    (tidy : ∀ path ∈ paths, path.IsTidy)
    {found : DocumentPath} :
    (ofPaths paths).resolve? target = some found ↔
      found ∈ paths ∧ found.IsNamedBy target ∧
        ∀ other ∈ paths, other.IsNamedBy target → (found.order other).isLE = true := by
  rw [resolve?, getLast?_filter_eq_some_iff (pairwise_documents paths)]
  simp only [mem_documents_of_tidy tidy, DocumentPath.matchesTarget_iff]

/-- A target is unresolved if it names no document. -/
theorem resolve?_eq_none_iff
    (tidy : ∀ path ∈ paths, path.IsTidy) :
    (ofPaths paths).resolve? target = none ↔ ∀ path ∈ paths, ¬ path.IsNamedBy target := by
  rw [resolve?, List.getLast?_eq_none_iff, List.filter_eq_nil_iff]
  simp only [mem_documents_of_tidy tidy, DocumentPath.matchesTarget_iff]

/-- A target with a slash stands for the one document that is written like it. -/
theorem resolve?_of_slash
    (tidy : ∀ path ∈ paths, path.IsTidy)
    (slash : '/' ∈ target) :
    (ofPaths paths).resolve? target =
      if ⟨target ++ DocumentPath.markdownSuffix⟩ ∈ paths then
        some ⟨target ++ DocumentPath.markdownSuffix⟩
      else
        none := by
  split
  next given =>
    exact resolve?_of_mem slash ((mem_documents_of_tidy tidy).mpr given)
  next absent =>
    exact (resolve?_eq_none_iff tidy).mpr fun path given isNamed =>
      absent ((DocumentPath.isNamedBy_iff_of_slash slash).mp isNamed ▸ given)

/--
In the index of paths without empty pieces a target stands for the least path
that it names, if there is one, whatever the order and number of the paths; a
target with a slash names no path but the one that is written like it.
-/
theorem ofPaths_resolves_least
    (tidy : ∀ path ∈ paths, path.IsTidy)
    (target : Text) :
    ((ofPaths paths).resolve? target = none ↔ ∀ path ∈ paths, ¬ path.IsNamedBy target) ∧
      (∀ found, (ofPaths paths).resolve? target = some found ↔
        found ∈ paths ∧ found.IsNamedBy target ∧
          ∀ other ∈ paths, other.IsNamedBy target → (found.order other).isLE = true) ∧
      (∀ others : List DocumentPath, (∀ path, path ∈ others ↔ path ∈ paths) →
        (ofPaths others).resolve? target = (ofPaths paths).resolve? target) ∧
      ('/' ∈ target →
        (ofPaths paths).resolve? target =
          if ⟨target ++ DocumentPath.markdownSuffix⟩ ∈ paths then
            some ⟨target ++ DocumentPath.markdownSuffix⟩
          else
            none) := by
  refine ⟨resolve?_eq_none_iff tidy, fun _ => resolve?_eq_some_iff tidy, fun others sameMembers => ?_,
    fun slash => resolve?_of_slash tidy slash⟩
  rw [ofPaths_congr sameMembers]

/-- Documents of one name in several folders, one of them given twice, and a file of that name. -/
private def sharedNames : List DocumentPath :=
  [⟨"z/Plan.md".toList⟩, ⟨"b/a/Plan.md".toList⟩, ⟨"m/Plan.md".toList⟩, ⟨"z/Plan.md".toList⟩,
    ⟨"a/Plan.png".toList⟩]

theorem ofPaths_resolves_least_sharedNames :
    (∀ path ∈ sharedNames, path.IsTidy) ∧
      (ofPaths sharedNames).resolve? "Plan".toList = some ⟨"b/a/Plan.md".toList⟩ ∧
      (ofPaths sharedNames).resolve? "a/Plan".toList = none ∧
      '/' ∈ "z/Plan".toList ∧
      (ofPaths sharedNames).resolve? "z/Plan".toList = some ⟨"z/Plan.md".toList⟩ ∧
      (ofPaths sharedNames.tail).resolve? "z/Plan".toList = some ⟨"z/Plan.md".toList⟩ := by
  have tidy : ∀ path ∈ sharedNames, path.IsTidy := by decide
  have slash : '/' ∈ "z/Plan".toList := by decide
  have givenAgain : sharedNames ⊆ sharedNames.tail := by decide
  have sameMembers (path : DocumentPath) : path ∈ sharedNames.tail ↔ path ∈ sharedNames :=
    ⟨fun member => List.mem_of_mem_tail member, fun member => givenAgain member⟩
  obtain ⟨-, least, -⟩ := ofPaths_resolves_least tidy "Plan".toList
  obtain ⟨nothing, -⟩ := ofPaths_resolves_least tidy "a/Plan".toList
  obtain ⟨-, -, setOnly, qualified⟩ := ofPaths_resolves_least tidy "z/Plan".toList
  have whole : (ofPaths sharedNames).resolve? "z/Plan".toList = some ⟨"z/Plan.md".toList⟩ :=
    (qualified slash).trans (if_pos (by decide))
  exact ⟨tidy, (least _).mpr (by decide), nothing.mpr (by decide), slash, whole,
    (setOnly _ sameMembers).trans whole⟩

end DocumentIndex

end NotePublisher
