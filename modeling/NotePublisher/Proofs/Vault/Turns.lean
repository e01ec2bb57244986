import NotePublisher.Proofs.Vault.Alteration

namespace NotePublisher

/-!
# Taking turns in any tree

A run takes one document after the other, where links may be anywhere.
`Vault.Turn` says what one document's turn makes of the tree, and `Vault.Turns`
strings turns together (`Vault.publishEach_turns`). Only a document that can be
read is stored, so whatever is changed is changed while the root leads home
(`Vault.Turn.homeward`). The documents still to come stay where they are
(`Vault.Listed.after`).
-/

namespace Vault

open Disk

/-- What a document's turn makes of the tree. -/
inductive Turn
    (root : Text)
    (home : Location)
    (document : DocumentPath)
    (old : Disk) :
    PublishOutcome → Disk → Prop where
  | skipped :
      document.isMarkdown = false →
      Turn root home document old (.skipped document) old
  | unread {error : VaultError} :
      document.isMarkdown = true →
      Turn root home document old (.failed document error) old
  | refused {error : VaultError} {new : Disk} :
      document.isMarkdown = true →
      LeadsHome old root home →
      Alters root home document old new →
      (∀ place kind, old.look place = some kind → new.look place = some kind) →
      Turn root home document old (.failed document error) new
  | published {rewritten : RewrittenDocument} {middle new : Disk} :
      document.isMarkdown = true →
      rewritten.source = document →
      LeadsHome old root home →
      Alters root home document old middle →
      (∃ place, OutputAt root home document old middle place) →
      LeadsHome middle root home →
      Alters root home document middle new →
      Turn root home document old (.published rewritten) new

/-- What the turns of documents make of the tree, one after the other. -/
inductive Turns
    (root : Text)
    (home : Location) :
    Disk → List DocumentPath → List PublishOutcome → Disk → Prop where
  | done {disk : Disk} :
      Turns root home disk [] [] disk
  | next {disk middle last : Disk} {document : DocumentPath} {outcome : PublishOutcome}
      {documents : List DocumentPath} {outcomes : List PublishOutcome} :
      Turn root home document disk outcome middle →
      Turns root home middle documents outcomes last →
      Turns root home disk (document :: documents) (outcome :: outcomes) last

section Parts

variable {root : Text} {home : Location} {document : DocumentPath} {disk old new : Disk}

/-- The path of a document is read only where the root leads to a folder. -/
theorem exists_leadsHome_of_readText
    (normal : document.IsNormal)
    (reads : ∃ text, disk.readText (Route.ofText (document.within root)) = .ok text) :
    ∃ there, LeadsHome disk root there := by
  rw [normal.isNamed.route_within] at reads
  exact exists_leads_of_readText_below normal.location_ne_nil reads

/-- Storing a document does not lead the root to another place. -/
theorem Alters.homeward
    (alters : Alters root home document old new)
    (leads : LeadsHome old root home) :
    Homeward new root home := by
  intro there leadsThen
  have starts : new.start (Route.ofText root) = old.start (Route.ofText root) := by
    simp [start, alters.workingFolder]
  rw [LeadsHome, starts] at leadsThen
  exact leads.eq_of_leads alters.links alters.folders leadsThen

/-- A root that leads homeward does so after a turn. -/
theorem Turn.homeward
    {outcome : PublishOutcome}
    (homeward : Homeward old root home)
    (turn : Turn root home document old outcome new) :
    Homeward new root home := by
  cases turn with
  | skipped _ => exact homeward
  | unread _ => exact homeward
  | refused _ leads alters _ => exact alters.homeward leads
  | published _ _ _ _ _ leads alters => exact alters.homeward leads

/-- A turn keeps files and links, but for those of a document that it publishes. -/
theorem Turn.look_leaf
    {outcome : PublishOutcome}
    (turn : Turn root home document old outcome new)
    {place : Location}
    {content : Leaf}
    (found : old.look place = some (.leaf content))
    (elsewhere : (∃ rewritten, outcome = .published rewritten) →
      place ≠ home ++ document.location) :
    new.look place = some (.leaf content) := by
  cases turn with
  | skipped _ => exact found
  | unread _ => exact found
  | refused _ _ _ kept => exact kept _ _ found
  | published _ _ _ toMiddle _ _ onward =>
      have notItsOwn := elsewhere ⟨_, rfl⟩
      exact onward.look_leaf (toMiddle.look_leaf found notItsOwn) notItsOwn

/-- No document is listed twice. -/
theorem Listed.location_ne
    {others : List DocumentPath}
    (listed : Listed disk home (document :: others))
    {other : DocumentPath}
    (member : other ∈ others) :
    other.location ≠ document.location := by
  have distinct := listed.distinct
  rw [List.map_cons, List.nodup_cons] at distinct
  intro same
  exact distinct.1 (same ▸ List.mem_map_of_mem member)

/-- The documents that are still to come are there after a turn. -/
theorem Listed.after
    {others : List DocumentPath}
    {outcome : PublishOutcome}
    (listed : Listed old home (document :: others))
    (turn : Turn root home document old outcome new) :
    Listed new home others where
  normal other member := listed.normal other (List.mem_cons_of_mem document member)
  fits other member := listed.fits other (List.mem_cons_of_mem document member)
  distinct := (List.nodup_cons.mp (List.map_cons ▸ listed.distinct)).2
  present other member := by
    obtain ⟨content, found⟩ := listed.present other (List.mem_cons_of_mem document member)
    exact ⟨content, turn.look_leaf found fun _ same =>
      listed.location_ne member (List.append_cancel_left same)⟩

end Parts

section Each

variable {options : PublishOptions} {home : Location}

/-- The turn of a document that stands in the tree. -/
theorem publishOne_turn
    (context : RewriteContext)
    (stores : options.dryRun = false)
    (legible : (Route.ofText options.root).holdsZero = false)
    {document : DocumentPath}
    (normal : document.IsNormal)
    (fits : Location.Fits document.location)
    (session : Session)
    (homeward : Homeward session.disk options.root home)
    {content : Leaf}
    (present : session.disk.look (home ++ document.location) = some (.leaf content)) :
    Turn options.root home document session.disk (publishOne options context document session).1
      (publishOne options context document session).2.disk := by
  cases markdown : document.isMarkdown with
  | false =>
      simp only [publishOne, markdown, Bool.false_eq_true, if_false]
      exact .skipped markdown
  | true =>
      obtain ⟨events, prepared⟩ := prepareDocument_eq options.root context document session
      cases read : session.disk.readText (Route.ofText (document.within options.root)) with
      | error cause =>
          simp only [read] at prepared
          rw [publishOne_of_error markdown (publishMarkdown_of_unread prepared)]
          exact .unread markdown
      | ok text =>
          simp only [read] at prepared
          obtain ⟨there, leads⟩ :=
            exists_leadsHome_of_readText normal ⟨text, read⟩
          cases homeward there leads
          have persisted := @persistDocument_alters options.root home document
            ⟨session.disk, events⟩ content legible normal fits leads present
            ⟨text, read⟩ (rewriteText context text).text
          have published := publishMarkdown_of_prepared stores prepared
          rw [source_ofText, output_ofText, text_ofText] at published
          generalize persistDocument options.root document document.output
            (rewriteText context text).text ⟨session.disk, events⟩ = result at published persisted
          cases persisted with
          | refused alters kept =>
              rw [publishOne_of_error markdown published]
              exact .refused markdown leads alters kept
          | @stored middle last toMiddle outputAt onward =>
              -- Storing may take the root away at its end, but not before the output is placed.
              obtain ⟨_, standing⟩ := outputAt
              obtain ⟨place, leadsThen⟩ :=
                exists_leadsHome_of_readText normal.output (standing.exists_readText legible normal)
              cases toMiddle.homeward leads place leadsThen
              rw [publishOne_of_ok markdown published]
              exact .published markdown rfl leads toMiddle ⟨_, standing⟩ leadsThen onward

/-- Publishing documents that stand in the tree takes turns. -/
theorem publishEach_turns
    (context : RewriteContext)
    (stores : options.dryRun = false)
    (legible : (Route.ofText options.root).holdsZero = false)
    {documents : List DocumentPath}
    (session : Session)
    (homeward : Homeward session.disk options.root home)
    (listed : Listed session.disk home documents) :
    Turns options.root home session.disk documents
      (publishEach options context documents session).1
      (publishEach options context documents session).2.disk := by
  induction documents generalizing session with
  | nil =>
      exact .done
  | cons document others inductionHypothesis =>
      obtain ⟨content, present⟩ := listed.present document List.mem_cons_self
      have turn := publishOne_turn context stores legible
        (listed.normal document List.mem_cons_self) (listed.fits document List.mem_cons_self)
        session homeward present
      rw [publishEach_cons]
      exact .next turn (inductionHypothesis (publishOne options context document session).2
        (turn.homeward homeward) (listed.after turn))

/-- A run that stores documents takes the turns of those in the index. -/
theorem publishIndexed_turns
    (stores : options.dryRun = false)
    {patterns : List NamePattern}
    {index : DocumentIndex}
    {session indexed : Session}
    (wellFormed : session.disk.top.WellFormed)
    (built : buildIndex options.root patterns session = .ok index indexed)
    (resolved : session.disk.resolve (Route.ofText options.root) = .ok home) :
    Turns options.root home session.disk index.documents
      (publishIndexed options index indexed).1
      (publishIndexed options index indexed).2.disk := by
  obtain ⟨place, resolvedTo, holdsFolder, unchanged⟩ := resolve_of_buildIndex built
  cases resolved.symm.trans resolvedTo
  have leads : LeadsHome session.disk options.root home := leads_of_resolve resolved holdsFolder
  have listed := listed_of_buildIndex wellFormed built resolved
  rw [← unchanged] at leads listed ⊢
  exact publishEach_turns (contextWith options index) stores
    (walk_of_resolve resolved).1 (firstTurn options index indexed)
    (fun there leadsAgain => leadsAgain.treads.unique leads.treads) listed

end Each

end Vault

end NotePublisher
