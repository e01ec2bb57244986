import NotePublisher.Proofs.Vault.Accounting
import NotePublisher.Proofs.Vault.Turns

namespace NotePublisher

/-!
# What a run does outside the vault

A run changes and removes nothing outside the folder that the root leads to.
It makes nothing there either, unless a link stands on the way down to the
output of a document: a scan does not descend into folders that links lead to,
but a document is stored in them (`Vault.publish_confined`,
`Vault.leakingVault_not_confined`).
-/

namespace Vault

open Disk

/--
Outside a folder nothing was changed or removed, and nothing was made but past
a link on the way down to a document's output.
-/
structure Confined
    (home : Location)
    (documents : List DocumentPath)
    (old new : Disk) : Prop where
  workingFolder : new.workingFolder = old.workingFolder
  staged : new.staged = old.staged
  /-- Wherever it may be, no link is made. -/
  links : ∀ place target, new.look place = some (.leaf (.link target)) →
    old.look place = some (.leaf (.link target))
  outside : ∀ place, ¬ Location.IsBelow home place →
    new.look place = old.look place ∨
      old.look place = none ∧ ∃ document ∈ documents, document.isMarkdown = true ∧
        old.Detours home document.output.location

namespace Confined

variable {home : Location} {documents : List DocumentPath} {old new : Disk}

theorem refl
    (home : Location)
    (documents : List DocumentPath)
    (disk : Disk) :
    Confined home documents disk disk where
  workingFolder := rfl
  staged := rfl
  links _ _ := id
  outside _ _ := .inl rfl

theorem trans
    {last : Disk}
    (left : Confined home documents old new)
    (right : Confined home documents new last) :
    Confined home documents old last where
  workingFolder := right.workingFolder.trans left.workingFolder
  staged := right.staged.trans left.staged
  links place target linked := left.links place target (right.links place target linked)
  outside place isOutside := by
    rcases right.outside place isOutside with
      same | ⟨missing, document, member, markdown, detours⟩
    · rw [same]
      exact left.outside place isOutside
    · rcases left.outside place isOutside with sameBefore | made
      · exact .inr ⟨sameBefore ▸ missing, document, member, markdown,
          detours.of_links left.links⟩
      · exact .inr made

end Confined

section Steps

variable {root : Text} {home : Location} {documents : List DocumentPath} {old new : Disk}

/-- Storing a document changes what is its own, and adds outside at most what it may. -/
theorem Alters.confined
    {document : DocumentPath}
    (alters : Alters root home document old new)
    (member : document ∈ documents)
    (markdown : document.isMarkdown = true)
    (normal : document.IsNormal) :
    Confined home documents old new where
  workingFolder := alters.workingFolder
  staged := alters.staged
  links := alters.links
  outside place isOutside := by
    cases alters.places place with
    | kept same => exact .inl same
    | added missing _ _ allowed =>
        exact .inr ⟨missing, document, member, markdown, allowed.resolve_left isOutside⟩
    | rewritten _ atPlace _ _ _ _ => exact absurd ⟨_, normal.location_ne_nil, atPlace⟩ isOutside
    | removed _ atPlace _ _ => exact absurd ⟨_, normal.location_ne_nil, atPlace⟩ isOutside
    | @emptied folder _ _ unpublished atPlace _ _ =>
        have folder_ne_nil : folder ≠ [] := by
          rintro rfl
          exact unpublished (by simp [Location.IsPublished])
        exact absurd ⟨folder, folder_ne_nil, atPlace⟩ isOutside

/-- A document's turn is confined to what is its own. -/
theorem Turn.confined
    {document : DocumentPath}
    {outcome : PublishOutcome}
    (turn : Turn root home document old outcome new)
    (member : document ∈ documents)
    (normal : document.IsNormal) :
    Confined home documents old new := by
  cases turn with
  | skipped _ => exact .refl ..
  | unread _ => exact .refl ..
  | refused markdown _ alters _ => exact alters.confined member markdown normal
  | published markdown _ _ toMiddle _ _ onward =>
      exact (toMiddle.confined member markdown normal).trans
        (onward.confined member markdown normal)

/-- Turns are confined to what is the documents' own. -/
theorem Turns.confined
    {others : List DocumentPath}
    {outcomes : List PublishOutcome}
    (turns : Turns root home old others outcomes new)
    (members : others ⊆ documents)
    (normal : ∀ document ∈ documents, document.IsNormal) :
    Confined home documents old new := by
  induction turns with
  | done => exact .refl ..
  | next turn _ inductionHypothesis =>
      obtain ⟨member, membersThen⟩ := List.cons_subset.mp members
      exact (turn.confined member (normal _ member)).trans (inductionHypothesis membersThen)

end Steps

/--
A run that fails changes nothing. Any other run keeps what is outside the
folder of the root; what is new there was made past a link on the way down to
the output of a markdown document, and not in a dry run.
-/
theorem publish_confined
    (options : PublishOptions)
    (session : Session)
    (wellFormed : session.disk.top.WellFormed) :
    match publish options session with
    | .error _ last => last.disk = session.disk
    | .ok _ last =>
        ∃ patterns index indexed home,
          compileExcludes options.excludes = .ok patterns ∧
          buildIndex options.root patterns session = .ok index indexed ∧
          session.disk.resolve (Route.ofText options.root) = .ok home ∧
          Confined home index.documents session.disk last.disk ∧
          (options.dryRun = true → last.disk = session.disk) := by
  rcases publish_cases options session with
    ⟨error, failed⟩ | ⟨patterns, index, indexed, events, compiled, built, unchanged, published⟩
  · rw [failed]
  · rw [published]
    obtain ⟨home, resolved, -, -⟩ := resolve_of_buildIndex built
    refine ⟨patterns, index, indexed, home, compiled, built, resolved, ?_, fun dry =>
      (disk_publishEach_dry dry _ _ _).trans unchanged⟩
    cases stores : options.dryRun with
    | true =>
        have same := (disk_publishEach_dry stores (contextWith options index) index.documents
          (firstTurn options index indexed)).trans unchanged
        simp only [publishIndexed, same]
        exact .refl ..
    | false =>
        have listed := listed_of_buildIndex wellFormed built resolved
        exact (publishIndexed_turns stores wellFormed built resolved).confined
          (List.Subset.refl _) listed.normal

/-- A vault beside a folder that a link of the vault leads to, where a document is renamed to. -/
private def leakingVault : Folder :=
  .folder (Utf8.encode "in".toList)
    (.leaf (Utf8.encode "a - b".toList) (.link "../out".toList)
      (.folder (Utf8.encode "a: b".toList)
        (.leaf (Utf8.encode "x.md".toList) (.file ⟨0o644, Utf8.encode "x".toList⟩) .empty)
        .empty))
    (.folder (Utf8.encode "out".toList) .empty .empty)

private def leakingHome : Location :=
  [Utf8.encode "vault".toList, Utf8.encode "in".toList]

private def leakedPlace : Location :=
  [Utf8.encode "vault".toList, Utf8.encode "out".toList, Utf8.encode "x.md".toList]

private theorem buildIndex_leakingVault :
    buildIndex "vault/in".toList [] ⟨diskOf leakingVault, []⟩ =
      .ok ⟨[⟨"a: b/x.md".toList⟩]⟩
        ⟨diskOf leakingVault, [.linkedFolderSkipped ⟨"a - b".toList⟩,
          .indexed 1 "vault/in".toList]⟩ :=
  buildIndex_of_scanned (((diskOf leakingVault).top.folderAt? leakingHome).getD .empty)
    (by decide +kernel) (by decide +kernel) (by decide +kernel) (by decide +kernel)
    (by decide +kernel)

/-- A vault whose document is written through a link to a folder outside. -/
theorem publish_confined_leakingVault :
    (diskOf leakingVault).top.WellFormed ∧
      ∃ report last index,
        publish { root := "vault/in".toList } ⟨diskOf leakingVault, []⟩ = .ok report last ∧
          Confined leakingHome index (diskOf leakingVault) last.disk := by
  have wellFormed : (diskOf leakingVault).top.WellFormed := by decide
  have confined := publish_confined { root := "vault/in".toList } ⟨diskOf leakingVault, []⟩
    wellFormed
  obtain ⟨events, done⟩ := @publish_of_built { root := "vault/in".toList } [] rfl _ _ _
    buildIndex_leakingVault
  rw [done] at confined
  obtain ⟨patterns, index, indexed, home, -, -, resolved, confined, -⟩ := confined
  have atHome : (diskOf leakingVault).resolve (Route.ofText "vault/in".toList) =
      .ok leakingHome := by
    decide +kernel
  cases atHome.symm.trans resolved
  exact ⟨wellFormed, _, _, index.documents, done, confined⟩

/-- A run makes a file outside the folder of its root. -/
theorem leakingVault_not_confined :
    (diskOf leakingVault).resolve (Route.ofText "vault/in".toList) = .ok leakingHome ∧
      ¬ leakingHome <+: leakedPlace ∧
      (diskOf leakingVault).look leakedPlace = none ∧
      ∃ report last,
        publish { root := "vault/in".toList } ⟨diskOf leakingVault, []⟩ = .ok report last ∧
          last.disk.look leakedPlace =
            some (.leaf (.file ⟨0o644, Utf8.encode "x".toList⟩)) := by
  have leaked : (publishIndexed { root := "vault/in".toList } ⟨[⟨"a: b/x.md".toList⟩]⟩
      ⟨diskOf leakingVault, [.linkedFolderSkipped ⟨"a - b".toList⟩,
        .indexed 1 "vault/in".toList]⟩).2.disk.look leakedPlace =
      some (.leaf (.file ⟨0o644, Utf8.encode "x".toList⟩)) := by
    decide +kernel
  obtain ⟨events, done⟩ := @publish_of_built { root := "vault/in".toList } [] rfl _ _ _
    buildIndex_leakingVault
  exact ⟨by decide +kernel, by decide, by decide, _, _, done, leaked⟩

end Vault

end NotePublisher
