import Mathlib.Data.List.Destutter
import Mathlib.Data.List.Sort
import NotePublisher.Document.Index
import NotePublisher.Proofs.Document.Location

namespace NotePublisher

/-!
# What an index lists, and in which order

Paths are ordered by their bytes, and an index lists them in strictly
descending order (`DocumentIndex.pairwise_documents`). It lists nothing but
given paths (`DocumentIndex.documents_subset`) and each given path by some
spelling (`DocumentIndex.exists_mem_documents`), so paths that name different
files are all listed, each once (`DocumentIndex.documents_perm`).
-/

namespace DocumentPath

instance : Std.TransCmp order where
  eq_swap := by
    unfold order Text.order
    exact Std.OrientedCmp.eq_swap
  isLE_trans := by
    unfold order Text.order
    exact Std.TransCmp.isLE_trans

/-- Paths are the same in order exactly if they are the same. -/
theorem order_eq_iff
    {left right : DocumentPath} :
    left.order right = .eq ↔ left = right := by
  rw [order, Text.order, byteOrder_eq_iff, Utf8.encode_inj]
  constructor
  · exact fun same => congrArg mk same
  · rintro rfl
    rfl

theorem isLE_total
    (left right : DocumentPath) :
    (left.order right).isLE ∨ (right.order left).isLE := by
  have swapped : right.order left = (left.order right).swap := Std.OrientedCmp.eq_swap
  rw [swapped]
  cases left.order right <;> simp

/-- Different paths that are in order are strictly so. -/
theorem order_eq_lt_of_ne
    {left right : DocumentPath}
    (atMost : (left.order right).isLE)
    (different : left ≠ right) :
    left.order right = .lt := by
  rcases Ordering.isLE_iff_eq_lt_or_eq_eq.mp atMost with less | equal
  · exact less
  · exact absurd (order_eq_iff.mp equal) different

instance : Std.Antisymm fun left right : DocumentPath => (right.order left).isLE = true where
  antisymm _ _ atMost atLeast :=
    (order_eq_iff.mp (Std.OrientedCmp.isLE_antisymm atMost atLeast)).symm

end DocumentPath

section Repeats

variable {α : Type} [DecidableEq α]

/-- What repeats none of its neighbours is found again where such repeats are dropped. -/
private theorem sublist_destutter'_of_isChain
    {first : α}
    {entries kept : List α}
    (chain : kept.IsChain (· ≠ ·))
    (inside : kept.Sublist (first :: entries)) :
    kept.Sublist (entries.destutter' (· ≠ ·) first) := by
  induction entries generalizing first kept with
  | nil =>
      simpa using inside
  | cons next entries inductionHypothesis =>
      by_cases repeated : first = next
      · subst repeated
        rw [List.destutter'_cons_neg _ (by simp)]
        -- Of two equal neighbours a chain holds at most one, and either will do.
        refine inductionHypothesis chain ?_
        cases inside with
        | cons _ later => exact later
        | cons_cons _ others =>
            cases others with
            | cons _ later => exact later.cons_cons first
            | cons_cons _ _ => exact absurd rfl (List.isChain_cons_cons.mp chain).1
      · rw [List.destutter'_cons_pos _ repeated]
        cases inside with
        | cons _ later => exact (inductionHypothesis chain later).cons first
        | cons_cons _ others => exact (inductionHypothesis chain.tail others).cons_cons first

/-- A chain of different entries is kept where repeats are dropped. -/
theorem sublist_destutter_of_isChain
    {entries kept : List α}
    (chain : kept.IsChain (· ≠ ·))
    (inside : kept.Sublist entries) :
    kept.Sublist (entries.destutter (· ≠ ·)) := by
  cases entries with
  | nil => simpa using inside
  | cons first entries => exact sublist_destutter'_of_isChain chain inside

variable {differs : α → α → Prop} [DecidableRel differs]

/-- Equal neighbours may go first, whatever entry `kept` the ones after them are compared with. -/
private theorem destutter'_destutter'_ne
    (irreflexive : ∀ entry, ¬ differs entry entry)
    (kept first : α)
    (entries : List α) :
    (entries.destutter' (· ≠ ·) first).destutter' differs kept =
      (first :: entries).destutter' differs kept := by
  induction entries generalizing kept first with
  | nil =>
      rfl
  | cons next entries inductionHypothesis =>
      by_cases repeated : first = next
      · subst repeated
        rw [List.destutter'_cons_neg _ (by simp), inductionHypothesis]
        by_cases different : differs kept first
        · simp [List.destutter'_cons_pos _ different, irreflexive]
        · simp [List.destutter'_cons_neg _ different]
      · rw [List.destutter'_cons_pos _ repeated, List.destutter'_cons, List.destutter'_cons,
          inductionHypothesis, inductionHypothesis]

/-- Where neighbours that do not differ are dropped, equal ones may be dropped beforehand. -/
theorem destutter_destutter_ne
    (irreflexive : ∀ entry, ¬ differs entry entry)
    (entries : List α) :
    (entries.destutter (· ≠ ·)).destutter differs = entries.destutter differs := by
  cases entries with
  | nil =>
      rfl
  | cons first entries =>
      induction entries with
      | nil =>
          rfl
      | cons next entries inductionHypothesis =>
          by_cases repeated : first = next
          · subst repeated
            rw [List.destutter_cons_cons, if_neg (by simp), ← List.destutter_cons',
              inductionHypothesis, List.destutter_cons_cons, if_neg (irreflexive first),
              ← List.destutter_cons']
          · rw [List.destutter_cons_cons, if_pos repeated, List.destutter_cons',
              destutter'_destutter'_ne irreflexive, ← List.destutter_cons']

end Repeats

namespace DocumentIndex

/-- Sorted paths descend. -/
theorem pairwise_sortDescending (paths : List DocumentPath) :
    (sortDescending paths).Pairwise fun left right => (right.order left).isLE = true := by
  refine List.pairwise_mergeSort (fun _ _ _ atLeast atLeastThat => ?_) (fun left right => ?_) paths
  · exact Std.TransCmp.isLE_trans atLeastThat atLeast
  · rw [Bool.or_eq_true]
    exact DocumentPath.isLE_total right left

theorem perm_sortDescending (paths : List DocumentPath) :
    (sortDescending paths).Perm paths :=
  List.mergeSort_perm paths _

/-- Sorting yields the one list of the paths that is in descending order. -/
theorem sortDescending_eq_of_perm
    {paths sorted : List DocumentPath}
    (perm : sorted.Perm paths)
    (descending : sorted.Pairwise fun left right => (right.order left).isLE) :
    sortDescending paths = sorted :=
  ((perm_sortDescending paths).trans perm.symm).eq_of_pairwise'
    (pairwise_sortDescending paths) descending

/-- Repeats are dropped as a list is destuttered by components. -/
private theorem dropRepeatsAfter_eq_destutter'
    (kept : DocumentPath)
    (paths : List DocumentPath) :
    dropRepeatsAfter kept paths =
      paths.destutter' (fun left right => left.components ≠ right.components) kept := by
  induction paths generalizing kept with
  | nil =>
      rfl
  | cons path others inductionHypothesis =>
      rw [dropRepeatsAfter, List.destutter'_cons, ite_not, inductionHypothesis, inductionHypothesis]
      simp only [DocumentPath.sameComponents_iff]

/-- Of neighbours with the same components, the first is kept. -/
theorem dropRepeats_eq_destutter (paths : List DocumentPath) :
    dropRepeats paths =
      paths.destutter fun left right => left.components ≠ right.components := by
  cases paths with
  | nil => rfl
  | cons path others => exact dropRepeatsAfter_eq_destutter' path others

/-- The components of what is listed are those of the sorted paths, without neighbouring repeats. -/
theorem map_components_documents (paths : List DocumentPath) :
    (ofPaths paths).documents.map DocumentPath.components =
      ((sortDescending paths).map DocumentPath.components).destutter (· ≠ ·) := by
  rw [ofPaths, dropRepeats_eq_destutter]
  exact List.map_destutter fun _ _ _ _ => Iff.rfl

/-- Each given path is listed, by itself or by a path that names the same file. -/
theorem exists_mem_documents
    {paths : List DocumentPath}
    {path : DocumentPath}
    (member : path ∈ paths) :
    ∃ document ∈ (ofPaths paths).documents, document.components = path.components := by
  have sorted : path.components ∈ (sortDescending paths).map DocumentPath.components :=
    List.mem_map_of_mem ((perm_sortDescending paths).mem_iff.mpr member)
  have kept := sublist_destutter_of_isChain (.singleton _) (List.singleton_sublist.mpr sorted)
  rw [← map_components_documents, List.singleton_sublist] at kept
  exact List.mem_map.mp kept

/-- Of the given paths, each counted once, those are listed that differ from the one above. -/
theorem documents_eq_destutter_dedup (paths : List DocumentPath) :
    (ofPaths paths).documents =
      (sortDescending paths).dedup.destutter
        fun left right => left.components ≠ right.components := by
  rw [ofPaths, dropRepeats_eq_destutter, ← destutter_destutter_ne (by simp),
    (pairwise_sortDescending paths).destutter_eq_dedup]

/-- An index lists paths that were given, the greatest first. -/
theorem documents_sublist_dedup (paths : List DocumentPath) :
    (ofPaths paths).documents.Sublist (sortDescending paths).dedup := by
  rw [documents_eq_destutter_dedup]
  exact List.destutter_sublist _ _

/-- Only given paths are listed. -/
theorem documents_subset (paths : List DocumentPath) :
    (ofPaths paths).documents ⊆ paths := by
  intro document listed
  have sorted := List.mem_dedup.mp ((documents_sublist_dedup paths).subset listed)
  exact (perm_sortDescending paths).subset sorted

/-- An index lists no path twice. -/
theorem nodup_documents (paths : List DocumentPath) :
    (ofPaths paths).documents.Nodup :=
  (List.nodup_dedup _).sublist (documents_sublist_dedup paths)

/-- The documents of an index are listed in strictly descending order. -/
theorem pairwise_documents (paths : List DocumentPath) :
    (ofPaths paths).documents.Pairwise fun left right => right.order left = .lt := by
  have descending := (pairwise_sortDescending paths).sublist
    ((documents_sublist_dedup paths).trans (List.dedup_sublist _))
  refine descending.imp₂ (fun left right atMost different => ?_) (nodup_documents paths)
  exact DocumentPath.order_eq_lt_of_ne atMost (Ne.symm different)

/-- Where no two paths name the same file, what is given is listed. -/
theorem mem_documents_iff
    {paths : List DocumentPath}
    (distinct : ∀ left ∈ paths, ∀ right ∈ paths,
      left.components = right.components → left = right)
    {path : DocumentPath} :
    path ∈ (ofPaths paths).documents ↔ path ∈ paths := by
  refine ⟨fun listed => documents_subset paths listed, fun member => ?_⟩
  obtain ⟨document, listed, same⟩ := exists_mem_documents member
  rwa [← distinct document (documents_subset paths listed) path member same]

/-- Documents that name different files are all listed, each once. -/
theorem documents_perm
    {paths : List DocumentPath}
    (distinct : (paths.map DocumentPath.location).Nodup) :
    (ofPaths paths).documents.Perm paths := by
  refine (List.perm_ext_iff_of_nodup (nodup_documents paths) distinct.of_map).mpr fun path => ?_
  refine mem_documents_iff fun left isLeft right isRight same => ?_
  exact List.inj_on_of_nodup_map distinct isLeft isRight (DocumentPath.location_inj.mpr same)

/-- Which paths are given settles the index; their order and number do not matter. -/
theorem ofPaths_congr
    {paths others : List DocumentPath}
    (sameMembers : ∀ path, path ∈ others ↔ path ∈ paths) :
    ofPaths others = ofPaths paths := by
  -- Each path counted once, the sorted lists are the same; that is where the index starts from.
  have onceEach : ((sortDescending others).dedup).Perm (sortDescending paths).dedup := by
    refine (List.perm_ext_iff_of_nodup (List.nodup_dedup _) (List.nodup_dedup _)).mpr fun path => ?_
    rw [List.mem_dedup, List.mem_dedup, (perm_sortDescending others).mem_iff,
      (perm_sortDescending paths).mem_iff, sameMembers]
  have sorted : (sortDescending others).dedup = (sortDescending paths).dedup :=
    onceEach.eq_of_pairwise'
      ((pairwise_sortDescending others).sublist (List.dedup_sublist _))
      ((pairwise_sortDescending paths).sublist (List.dedup_sublist _))
  have listed : (ofPaths others).documents = (ofPaths paths).documents := by
    rw [documents_eq_destutter_dedup, documents_eq_destutter_dedup, sorted]
  exact congrArg mk listed

/-- The documents of an index make up the same index again. -/
theorem ofPaths_documents (paths : List DocumentPath) :
    ofPaths (ofPaths paths).documents = ofPaths paths := by
  have sorted : sortDescending (ofPaths paths).documents = (ofPaths paths).documents := by
    refine sortDescending_eq_of_perm (.refl _) ((pairwise_documents paths).imp fun below => ?_)
    simp [below]
  have settled : dropRepeats (ofPaths paths).documents = (ofPaths paths).documents := by
    rw [dropRepeats_eq_destutter, documents_eq_destutter_dedup, List.destutter_idem]
  rw [ofPaths, sorted, settled]

end DocumentIndex

end NotePublisher
