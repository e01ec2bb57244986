import NotePublisher.Proofs.Document.Index

namespace NotePublisher

/-!
# The index as a canonical form

An index stands for the set of the paths it is made from: their order and
number do not matter, and the index of its own documents is the index itself
(`DocumentIndex.ofPaths_canonical`). One file can be written in several ways,
though, and only neighbours in the order of bytes are compared. A file is
listed once for each run of its spellings that no other file interrupts, so
every file is listed once exactly if no path comes between two spellings of
another (`DocumentIndex.documents_differ_iff`).
-/

section Repeats

variable {α : Type}

/-- Between two equal entries there is another one, if no entry repeats its neighbour. -/
private theorem exists_between_of_isChain
    {entries : List α}
    (chain : entries.IsChain (· ≠ ·))
    {outer : α}
    (twice : [outer, outer].Sublist entries) :
    ∃ inner, inner ≠ outer ∧ [outer, inner, outer].Sublist entries := by
  induction entries with
  | nil =>
      simp at twice
  | cons first entries inductionHypothesis =>
      cases twice with
      | cons _ later =>
          obtain ⟨inner, different, between⟩ := inductionHypothesis chain.tail later
          exact ⟨inner, different, between.cons first⟩
      | cons_cons _ later =>
          cases entries with
          | nil =>
              simp at later
          | cons inner others =>
              have different : outer ≠ inner := (List.isChain_cons_cons.mp chain).1
              have behind : [outer].Sublist others := by
                cases later with
                | cons _ behind => exact behind
                | cons_cons _ _ => exact absurd rfl different
              exact ⟨inner, different.symm, (behind.cons_cons inner).cons_cons outer⟩

/-- Without neighbouring repeats, an entry is left twice exactly if another stood in between. -/
private theorem nodup_destutter_iff
    [DecidableEq α]
    {entries : List α} :
    (entries.destutter (· ≠ ·)).Nodup ↔
      ∀ outer inner, [outer, inner, outer].Sublist entries → inner = outer := by
  constructor
  · intro nodup outer inner inside
    by_contra different
    have chain : [outer, inner, outer].IsChain (· ≠ ·) := by
      simp [Ne.symm different, different]
    have once := nodup.sublist (sublist_destutter_of_isChain chain inside)
    simp at once
  · intro uninterrupted
    refine List.nodup_iff_sublist.mpr fun outer twice => ?_
    obtain ⟨inner, different, between⟩ :=
      exists_between_of_isChain (List.isChain_destutter _ _) twice
    exact different (uninterrupted outer inner (between.trans (List.destutter_sublist _ _)))

end Repeats

namespace DocumentIndex

/-- Three of the given paths, one above the other, stand in that order when sorted. -/
private theorem sublist_sortDescending
    {paths : List DocumentPath}
    {upper between lower : DocumentPath}
    (areGiven : [upper, between, lower] ⊆ paths)
    (below : between.order upper = .lt)
    (belowThat : lower.order between = .lt) :
    [upper, between, lower].Sublist (sortDescending paths) := by
  have belowBoth : lower.order upper = .lt := Std.TransCmp.lt_trans belowThat below
  have descending : [upper, between, lower].Pairwise fun left right => right.order left = .lt := by
    simp [below, belowThat, belowBoth]
  have sorted : [upper, between, lower] ⊆ sortDescending paths := fun path member =>
    (perm_sortDescending paths).mem_iff.mpr (areGiven member)
  have nodup : [upper, between, lower].Nodup := by
    refine descending.imp fun less same => ?_
    rw [same, DocumentPath.order_eq_iff.mpr rfl] at less
    cases less
  refine List.sublist_of_subperm_of_pairwise (List.subperm_of_subset nodup sorted)
    (descending.imp fun less => ?_) (pairwise_sortDescending paths)
  simp [less]

/--
The index of a list of paths strictly descends, holds given paths only and each
of them by some spelling, is the same for every list of the same paths, and is
made up again from its own documents.
-/
theorem ofPaths_canonical (paths : List DocumentPath) :
    ((ofPaths paths).documents.Pairwise fun left right => right.order left = .lt) ∧
      (∀ document ∈ (ofPaths paths).documents, document ∈ paths) ∧
      (∀ path ∈ paths,
        ∃ document ∈ (ofPaths paths).documents, document.sameComponents path = true) ∧
      (∀ others : List DocumentPath, (∀ path, path ∈ others ↔ path ∈ paths) →
        ofPaths others = ofPaths paths) ∧
      ofPaths (ofPaths paths).documents = ofPaths paths := by
  refine ⟨pairwise_documents paths, fun _ listed => documents_subset paths listed,
    fun path member => ?_, fun others sameMembers => ofPaths_congr sameMembers,
    ofPaths_documents paths⟩
  obtain ⟨document, listed, same⟩ := exists_mem_documents member
  exact ⟨document, listed, DocumentPath.sameComponents_iff.mpr same⟩

/-- Two spellings of one file next to each other, one of them given twice. -/
private def neighbouringSpellings : List DocumentPath :=
  [⟨"a//b.md".toList⟩, ⟨"c.md".toList⟩, ⟨"a/b.md".toList⟩, ⟨"a//b.md".toList⟩]

theorem ofPaths_canonical_neighbouringSpellings :
    (ofPaths neighbouringSpellings).documents = [⟨"c.md".toList⟩, ⟨"a/b.md".toList⟩] ∧
      (⟨"c.md".toList⟩ : DocumentPath) ∈ neighbouringSpellings ∧
      (∃ document ∈ (ofPaths neighbouringSpellings).documents,
        document.sameComponents ⟨"a//b.md".toList⟩ = true) ∧
      ofPaths [⟨"a/b.md".toList⟩, ⟨"c.md".toList⟩, ⟨"a//b.md".toList⟩] =
        ofPaths neighbouringSpellings := by
  have listed : (ofPaths neighbouringSpellings).documents =
      [⟨"c.md".toList⟩, ⟨"a/b.md".toList⟩] := by
    have sorted : sortDescending neighbouringSpellings =
        [⟨"c.md".toList⟩, ⟨"a/b.md".toList⟩, ⟨"a//b.md".toList⟩, ⟨"a//b.md".toList⟩] :=
      sortDescending_eq_of_perm (by decide) (by decide)
    rw [ofPaths, sorted]
    decide
  have areGiven : [⟨"a/b.md".toList⟩, ⟨"c.md".toList⟩, ⟨"a//b.md".toList⟩] ⊆
      neighbouringSpellings := by
    decide
  have areAll : neighbouringSpellings ⊆
      [⟨"a/b.md".toList⟩, ⟨"c.md".toList⟩, ⟨"a//b.md".toList⟩] := by
    decide
  obtain ⟨-, given, covers, setOnly, -⟩ := ofPaths_canonical neighbouringSpellings
  exact ⟨listed, given _ (by rw [listed]; decide), covers _ (by decide),
    setOnly _ fun _ => ⟨fun member => areGiven member, fun member => areAll member⟩⟩

/--
All documents of the index name different files exactly if no given path comes
between two spellings of a file that it does not name.
-/
theorem documents_differ_iff (paths : List DocumentPath) :
    ((ofPaths paths).documents.Pairwise fun left right => left.sameComponents right = false) ↔
      ∀ upper ∈ paths, ∀ between ∈ paths, ∀ lower ∈ paths,
        between.order upper = .lt → lower.order between = .lt →
        upper.sameComponents lower = true → upper.sameComponents between = true := by
  have asComponents :
      ((ofPaths paths).documents.Pairwise fun left right => left.sameComponents right = false) ↔
        ((ofPaths paths).documents.map DocumentPath.components).Nodup := by
    rw [List.Nodup, List.pairwise_map]
    simp [DocumentPath.sameComponents]
  rw [asComponents, map_components_documents, nodup_destutter_iff]
  constructor
  · intro uninterrupted upper isUpper between isBetween lower isLower below belowThat same
    rw [DocumentPath.sameComponents_iff] at same ⊢
    have areGiven : [upper, between, lower] ⊆ paths := by
      simp [isUpper, isBetween, isLower]
    have sorted :=
      (sublist_sortDescending areGiven below belowThat).map DocumentPath.components
    simp only [List.map_cons, List.map_nil, ← same] at sorted
    exact (uninterrupted _ _ sorted).symm
  · intro uninterrupted outer inner inside
    -- Entries that would be left in this order come from given paths, each above the next.
    obtain ⟨sorted, isSorted, shape⟩ := List.sublist_map_iff.mp inside
    obtain ⟨upper, between, lower, rfl⟩ : ∃ upper between lower, sorted = [upper, between, lower] :=
      List.length_eq_three.mp (by simpa using (congrArg List.length shape).symm)
    obtain ⟨rfl, rfl, same⟩ : outer = upper.components ∧ inner = between.components ∧
        outer = lower.components := by
      simpa using shape
    by_contra different
    have areGiven : [upper, between, lower] ⊆ paths :=
      fun path member => (perm_sortDescending paths).subset (isSorted.subset member)
    have descending := (pairwise_sortDescending paths).sublist isSorted
    obtain ⟨⟨atMost, -⟩, atMostThat⟩ : ((between.order upper).isLE = true ∧
        (lower.order upper).isLE = true) ∧ (lower.order between).isLE = true := by
      simpa using descending
    have below := DocumentPath.order_eq_lt_of_ne atMost
      fun equal => different (congrArg DocumentPath.components equal)
    have belowThat := DocumentPath.order_eq_lt_of_ne atMostThat
      fun equal => different (by rw [same, equal])
    have agree := uninterrupted upper (areGiven (by simp)) between (areGiven (by simp)) lower
      (areGiven (by simp)) below belowThat (DocumentPath.sameComponents_iff.mpr same)
    exact different (DocumentPath.sameComponents_iff.mp agree).symm

/-- Two spellings of one file, and a path that comes between them in the order of bytes. -/
private def interruptedSpellings : List DocumentPath :=
  [⟨"a//b.md".toList⟩, ⟨"a/0.md".toList⟩, ⟨"a/b.md".toList⟩]

/-- A file is listed twice if the path of another one comes between two of its spellings. -/
theorem interruptedSpellings_not_differ :
    (ofPaths interruptedSpellings).documents =
        [⟨"a/b.md".toList⟩, ⟨"a/0.md".toList⟩, ⟨"a//b.md".toList⟩] ∧
      DocumentPath.sameComponents ⟨"a/b.md".toList⟩ ⟨"a//b.md".toList⟩ = true ∧
      ¬ ∀ (first second : Nat) (left right : DocumentPath), first ≠ second →
        (ofPaths interruptedSpellings).documents[first]? = some left →
        (ofPaths interruptedSpellings).documents[second]? = some right →
        left.sameComponents right = false := by
  have listed : (ofPaths interruptedSpellings).documents =
      [⟨"a/b.md".toList⟩, ⟨"a/0.md".toList⟩, ⟨"a//b.md".toList⟩] := by
    have sorted : sortDescending interruptedSpellings =
        [⟨"a/b.md".toList⟩, ⟨"a/0.md".toList⟩, ⟨"a//b.md".toList⟩] :=
      sortDescending_eq_of_perm (by decide) (by decide)
    rw [ofPaths, sorted]
    decide
  have same : DocumentPath.sameComponents ⟨"a/b.md".toList⟩ ⟨"a//b.md".toList⟩ = true := by
    decide
  refine ⟨listed, same, fun apart => ?_⟩
  rw [listed] at apart
  have different := apart 0 2 _ _ (by decide) rfl rfl
  rw [same] at different
  cases different

end DocumentIndex

end NotePublisher
