import NotePublisher.Proofs.Vault.Conservation
import NotePublisher.Proofs.Vault.Turns

namespace NotePublisher

/-!
# What can still be read after a run

What is read through links can be lost when a run renames the file that a link
leads to: links are not changed (`Vault.danglingVault_not_legible`). A document
that is not published can be read as before, if its path comes by no place at
which the run takes away all there is. The output of a published document is a
file of its own (`Vault.OutputAt`); it can be read if the links to its folder
stay, and the places that the way there leaves again
(`Vault.publish_keeps_legible`).
-/

/-- The documents that were published. -/
def PublishReport.sources (report : PublishReport) : List DocumentPath :=
  report.published.map RewrittenDocument.source

/-- Where the text of a document is after a run. -/
def PublishReport.pathOf
    (report : PublishReport)
    (document : DocumentPath) :
    DocumentPath :=
  if document ∈ report.sources then document.output else document

namespace Vault

open Disk

/-- Whether it is the place of a document. -/
def isPlaceOf
    (home : Location)
    (documents : List DocumentPath)
    (place : Location) :
    Bool :=
  documents.any fun document => place = home ++ document.location

/--
A place that a document's path depends on after a run, as the disk was before
it. A path that ends at a published document depends on nothing behind it, and
an output that was published not on the folders around it.
-/
inductive ReliesOn
    (root : Text)
    (home : Location)
    (report : PublishReport)
    (disk : Disk)
    (document : DocumentPath)
    (place : Location) : Prop where
  | ownPath :
      document ∉ report.sources →
      place ∈ disk.trailOf (isPlaceOf home report.sources)
        (Route.ofText (document.within root)) →
      ReliesOn root home report disk document place
  | output :
      document ∈ report.sources →
      place ∈ disk.approachOf (Route.ofText (document.output.within root)) →
      (∀ last ∈ (disk.approachOf (Route.ofText (document.output.within root))).getLast?,
        place <+: last → ∃ kind ∈ disk.look place, kind.IsLink) →
      ReliesOn root home report disk document place

/--
Publishing documents may take away what is at a place: it is the place of one of
them or of a folder around it, under a path that publishing changes.
-/
def Threatened
    (home : Location)
    (sources : List DocumentPath)
    (place : Location) :
    Prop :=
  ∃ source ∈ sources, ∃ way, way <+: source.location ∧ ¬ Location.IsPublished way ∧
    place = home ++ way

/-- Publishing documents leaves something at a place, be it only because of what is below it. -/
def Spared
    (home : Location)
    (sources : List DocumentPath)
    (disk : Disk)
    (place : Location) :
    Prop :=
  ¬ Threatened home sources place ∨
    ∃ below, disk.look (place ++ below) ≠ none ∧ ¬ Threatened home sources (place ++ below)

theorem threatened_iff
    {home place : Location}
    {sources : List DocumentPath} :
    Threatened home sources place ↔
      home <+: place ∧ ∃ source ∈ sources, place.drop home.length <+: source.location ∧
        ¬ Location.IsPublished (place.drop home.length) := by
  constructor
  · rintro ⟨source, member, way, onTheWay, unpublished, rfl⟩
    refine ⟨List.prefix_append home way, source, member, ?_⟩
    rw [List.drop_left]
    exact ⟨onTheWay, unpublished⟩
  · rintro ⟨⟨way, rfl⟩, source, member, onTheWay, unpublished⟩
    rw [List.drop_left] at onTheWay unpublished
    exact ⟨source, member, way, onTheWay, unpublished, rfl⟩

instance (home : Location) (sources : List DocumentPath) (place : Location) :
    Decidable (Threatened home sources place) :=
  decidable_of_iff _ threatened_iff.symm

theorem Threatened.mono
    {home place : Location}
    {sources others : List DocumentPath}
    (threatened : Threatened home sources place)
    (subset : sources ⊆ others) :
    Threatened home others place := by
  obtain ⟨source, member, rest⟩ := threatened
  exact ⟨source, subset member, rest⟩

theorem Spared.mono
    {home place : Location}
    {sources others : List DocumentPath}
    {disk : Disk}
    (spared : Spared home sources disk place)
    (subset : others ⊆ sources) :
    Spared home others disk place := by
  rcases spared with unthreatened | ⟨below, present, unthreatened⟩
  · exact .inl (mt (Threatened.mono · subset) unthreatened)
  · exact .inr ⟨below, present, mt (Threatened.mono · subset) unthreatened⟩

/-- There is something where something is below. -/
theorem look_ne_none_of_append
    {disk : Disk}
    {place below : Location}
    (present : disk.look (place ++ below) ≠ none) :
    disk.look place ≠ none := by
  cases below with
  | nil => rwa [List.append_nil] at present
  | cons name rest =>
      obtain ⟨kind, found⟩ := Option.ne_none_iff_exists'.mp present
      simp [Disk.look, Folder.look_eq_folder_of_look_append (List.cons_ne_nil name rest) found]

/-- There is something still where nothing was lost. -/
theorem look_ne_none_of_kept
    {old new : Disk}
    (kept : ∀ place kind, old.look place = some kind → new.look place = some kind)
    {place : Location}
    (present : old.look place ≠ none) :
    new.look place ≠ none := by
  obtain ⟨kind, found⟩ := Option.ne_none_iff_exists'.mp present
  rw [kept place kind found]
  exact Option.some_ne_none kind

section Steps

variable {root : Text} {home place : Location} {document : DocumentPath}
  {sources : List DocumentPath} {old new : Disk} {outcome : PublishOutcome}
  {allowed : Location → Prop}

/-- Where nothing is threatened, something stays. -/
theorem Alters.look_ne_none
    (alters : Alters root home document old new)
    (member : document ∈ sources)
    (unthreatened : ¬ Threatened home sources place)
    (present : old.look place ≠ none) :
    new.look place ≠ none := by
  cases alters.places place with
  | kept same => rwa [same]
  | added _ found _ _ => simp [found]
  | rewritten _ _ _ _ found _ => simp [found]
  | removed renamed atPlace _ _ =>
      have unpublished : ¬ Location.IsPublished document.location := fun published =>
        renamed (DocumentPath.location_output_of_isPublished published)
      exact absurd ⟨document, member, _, List.prefix_refl _, unpublished, atPlace⟩ unthreatened
  | emptied _ onTheWay unpublished atPlace _ _ =>
      exact absurd ⟨document, member, _, onTheWay, unpublished, atPlace⟩ unthreatened

theorem Alters.spared
    (alters : Alters root home document old new)
    (member : document ∈ sources)
    (spared : Spared home sources old place) :
    Spared home sources new place :=
  spared.imp_right fun ⟨below, present, unthreatened⟩ =>
    ⟨below, alters.look_ne_none member unthreatened present, unthreatened⟩

/-- Where publishing leaves something, something stays. -/
theorem Alters.look_ne_none_of_spared
    (alters : Alters root home document old new)
    (member : document ∈ sources)
    (spared : Spared home sources old place)
    (present : old.look place ≠ none) :
    new.look place ≠ none := by
  rcases spared with unthreatened | ⟨below, presentBelow, unthreatened⟩
  · exact alters.look_ne_none member unthreatened present
  · exact look_ne_none_of_append (alters.look_ne_none member unthreatened presentBelow)

/-- Storing a document keeps what is read through spared places. -/
theorem Alters.keeps_spared
    (alters : Alters root home document old new)
    (member : document ∈ sources)
    (spared : ∀ place, allowed place → Spared home sources old place)
    (leads : LeadsHome old root home)
    (normal : document.IsNormal)
    (fits : Location.Fits document.location) :
    Keeps allowed old new :=
  alters.keeps
    (fun place isAllowed => alters.look_ne_none_of_spared member (spared place isAllowed))
    leads normal fits

theorem Turn.spared
    (turn : Turn root home document old outcome new)
    (member : (∃ rewritten, outcome = .published rewritten) → document ∈ sources)
    (spared : Spared home sources old place) :
    Spared home sources new place := by
  cases turn with
  | skipped _ => exact spared
  | unread _ => exact spared
  | refused _ _ _ kept =>
      exact spared.imp_right fun ⟨below, present, unthreatened⟩ =>
        ⟨below, look_ne_none_of_kept kept present, unthreatened⟩
  | published _ _ _ toMiddle _ _ onward =>
      exact onward.spared (member ⟨_, rfl⟩) (toMiddle.spared (member ⟨_, rfl⟩) spared)

/-- A document's turn keeps what is read through spared places. -/
theorem Turn.keeps
    (turn : Turn root home document old outcome new)
    (member : (∃ rewritten, outcome = .published rewritten) → document ∈ sources)
    (spared : ∀ place, allowed place → Spared home sources old place)
    (normal : document.IsNormal)
    (fits : Location.Fits document.location) :
    Keeps allowed old new := by
  cases turn with
  | skipped _ => exact .refl ..
  | unread _ => exact .refl ..
  | refused _ leads alters kept =>
      exact alters.keeps (fun _ _ => look_ne_none_of_kept kept) leads normal fits
  | published _ _ leads toMiddle _ leadsThen onward =>
      have isSource := member ⟨_, rfl⟩
      exact (toMiddle.keeps_spared isSource spared leads normal fits).trans
        (onward.keeps_spared isSource
          (fun place isAllowed => toMiddle.spared isSource (spared place isAllowed)) leadsThen
          normal fits)

end Steps

namespace OutputAt

variable {root : Text} {home place : Location} {document : DocumentPath} {old middle : Disk}

/-- An output is still a text when the source has been removed. -/
theorem text_after
    (outputAt : OutputAt root home document old middle place)
    {content : Leaf}
    (present : old.look (home ++ document.location) = some (.leaf content))
    {new : Disk}
    (onward : Alters root home document middle new) :
    ∃ kind, new.look place = some kind ∧ kind.IsText := by
  obtain ⟨kind, found, isText⟩ := outputAt.text
  cases onward.places place with
  | kept same => exact ⟨kind, same.trans found, isText⟩
  | added missing _ _ _ => cases missing.symm.trans found
  | rewritten _ _ _ _ foundThen isTextThen => exact ⟨_, foundThen, isTextThen⟩
  | removed renamed atPlace _ _ =>
      rcases outputAt.fresh with ⟨-, missing⟩ | ⟨sameLocation, -⟩
      · cases missing.symm.trans (atPlace ▸ present)
      · exact absurd sameLocation renamed
  | emptied _ _ _ _ holdsFolder _ =>
      cases found.symm.trans holdsFolder
      obtain ⟨file, text, isFile, -⟩ := isText
      cases isFile

/-- No document that was there before its output was threatens it, nor does its own source. -/
theorem not_threatened
    (outputAt : OutputAt root home document old middle place)
    {documents sources : List DocumentPath}
    (listed : Listed old home (document :: documents))
    (isListed : ∀ source ∈ sources, source ∈ document :: documents) :
    ¬ Threatened home sources place := by
  rintro ⟨source, member, way, ⟨rest, whole⟩, unpublished, rfl⟩
  obtain ⟨content, found⟩ := listed.present source (isListed source member)
  rw [← whole, ← List.append_assoc] at found
  rcases outputAt.fresh with ⟨-, missing⟩ | ⟨sameLocation, atPlace⟩
  · have present : old.look (home ++ way ++ rest) ≠ none := by
      rw [found]
      exact Option.some_ne_none _
    exact look_ne_none_of_append present missing
  · -- Publishing leaves the document where it is.
    apply unpublished
    rw [List.append_cancel_left atPlace, ← sameLocation]
    exact DocumentPath.isPublished_output document

/-- An output stays, and so do the folders around it. -/
theorem spared_around
    (outputAt : OutputAt root home document old middle place)
    {documents sources : List DocumentPath}
    (listed : Listed old home (document :: documents))
    (isListed : ∀ source ∈ sources, source ∈ document :: documents)
    {folder : Location}
    (isAround : folder <+: place) :
    Spared home sources middle folder := by
  obtain ⟨below, rfl⟩ := isAround
  obtain ⟨kind, found, -⟩ := outputAt.text
  refine .inr ⟨below, ?_, outputAt.not_threatened listed isListed⟩
  rw [found]
  exact Option.some_ne_none _

/-- A document that comes later is elsewhere. -/
theorem place_ne
    (outputAt : OutputAt root home document old middle place)
    {documents : List DocumentPath}
    (listed : Listed old home (document :: documents))
    {other : DocumentPath}
    (member : other ∈ documents) :
    place ≠ home ++ other.location := by
  rintro rfl
  rcases outputAt.fresh with ⟨-, missing⟩ | ⟨-, atPlace⟩
  · obtain ⟨content, found⟩ := listed.present other (List.mem_cons_of_mem document member)
    cases missing.symm.trans found
  · exact listed.location_ne member (List.append_cancel_left atPlace)

end OutputAt

namespace Turns

variable {root : Text} {home : Location} {documents sources : List DocumentPath}
  {outcomes : List PublishOutcome} {old new : Disk} {allowed : Location → Prop}

/-- The turn that an outcome comes from, with those before and after it. -/
theorem exists_turn
    (turns : Turns root home old documents outcomes new)
    {outcome : PublishOutcome}
    (member : outcome ∈ outcomes) :
    ∃ before document after outcomesBefore outcomesAfter first second,
      documents = before ++ document :: after ∧
      outcomes = outcomesBefore ++ outcome :: outcomesAfter ∧
      Turns root home old before outcomesBefore first ∧
      Turn root home document first outcome second ∧
      Turns root home second after outcomesAfter new := by
  induction turns with
  | done => cases member
  | @next _ _ _ document _ documents outcomes turn turns inductionHypothesis =>
      rcases List.mem_cons.mp member with rfl | later
      · exact ⟨[], document, documents, [], outcomes, _, _, rfl, rfl, .done, turn, turns⟩
      · obtain ⟨before, other, after, outcomesBefore, outcomesAfter, first, second, rfl, rfl,
          turnsBefore, itsTurn, turnsAfter⟩ := inductionHypothesis later
        exact ⟨document :: before, other, after, _ :: outcomesBefore, outcomesAfter, first, second,
          rfl, rfl, .next turn turnsBefore, itsTurn, turnsAfter⟩

/-- What is published is one of the documents. -/
theorem source_mem
    (turns : Turns root home old documents outcomes new)
    {rewritten : RewrittenDocument}
    (published : .published rewritten ∈ outcomes) :
    rewritten.source ∈ documents := by
  obtain ⟨before, document, after, _, _, first, second, rfl, -, -, turn, -⟩ :=
    turns.exists_turn published
  cases turn with
  | published _ isSource => simp [isSource]

/-- The documents that are still to come are there after the turns of others. -/
theorem listed
    {others : List DocumentPath}
    (turns : Turns root home old documents outcomes new)
    (listedBefore : Listed old home (documents ++ others)) :
    Listed new home others := by
  induction turns with
  | done => exact listedBefore
  | next turn _ inductionHypothesis => exact inductionHypothesis (listedBefore.after turn)

/-- Files and links stay, but for those of the documents. -/
theorem look_leaf
    (turns : Turns root home old documents outcomes new)
    {place : Location}
    {content : Leaf}
    (found : old.look place = some (.leaf content))
    (elsewhere : ∀ document ∈ documents, place ≠ home ++ document.location) :
    new.look place = some (.leaf content) := by
  induction turns with
  | done => exact found
  | next turn _ inductionHypothesis =>
      obtain ⟨elsewhereHere, elsewhereThere⟩ := List.forall_mem_cons.mp elsewhere
      exact inductionHypothesis (turn.look_leaf found fun _ => elsewhereHere) elsewhereThere

/-- Turns keep what is read through places at which the published documents leave something. -/
theorem keeps
    (turns : Turns root home old documents outcomes new)
    (members : ∀ rewritten, .published rewritten ∈ outcomes → rewritten.source ∈ sources)
    (spared : ∀ place, allowed place → Spared home sources old place)
    (named : ∀ document ∈ documents, document.IsNormal ∧ Location.Fits document.location) :
    Keeps allowed old new ∧ ∀ place, allowed place → Spared home sources new place := by
  induction turns with
  | done => exact ⟨.refl .., spared⟩
  | @next _ _ _ document outcome _ _ turn _ inductionHypothesis =>
      obtain ⟨⟨normalHere, fitsHere⟩, namedThere⟩ := List.forall_mem_cons.mp named
      have member : (∃ rewritten, outcome = .published rewritten) → document ∈ sources := by
        rintro ⟨rewritten, rfl⟩
        cases turn with
        | published _ isSource => exact isSource ▸ members _ List.mem_cons_self
      have keepsHere := turn.keeps member spared normalHere fitsHere
      obtain ⟨keepsThere, sparedThere⟩ := inductionHypothesis
        (fun rewritten later => members rewritten (List.mem_cons_of_mem _ later))
        (fun place isAllowed => turn.spared member (spared place isAllowed)) namedThere
      exact ⟨keepsHere.trans keepsThere, sparedThere⟩

/-- An output is a text at the end. -/
theorem text_of_outputAt
    {document : DocumentPath}
    {place : Location}
    {middle second : Disk}
    (outputAt : OutputAt root home document old middle place)
    (listed : Listed old home (document :: documents))
    (onward : Alters root home document middle second)
    (turns : Turns root home second documents outcomes new) :
    ∃ kind, new.look place = some kind ∧ kind.IsText := by
  obtain ⟨content, present⟩ := listed.present document List.mem_cons_self
  obtain ⟨kind, found, isText⟩ := outputAt.text_after present onward
  obtain ⟨file, text, rfl, -⟩ := id isText
  exact ⟨_, turns.look_leaf found fun other member => outputAt.place_ne listed member, isText⟩

/-- A document that is published in its place is a text there at the end. -/
theorem text_of_published
    (turns : Turns root home old documents outcomes new)
    (listed : Listed old home documents)
    {rewritten : RewrittenDocument}
    (published : .published rewritten ∈ outcomes)
    (inPlace : rewritten.source.output.location = rewritten.source.location) :
    ∃ kind, new.look (home ++ rewritten.source.location) = some kind ∧ kind.IsText := by
  obtain ⟨before, document, after, _, _, first, second, rfl, -, turnsBefore, turn, turnsAfter⟩ :=
    turns.exists_turn published
  have listedFirst : Listed first home (document :: after) := turnsBefore.listed listed
  cases turn with
  | published _ sameSource _ _ outputAt _ onward =>
      subst sameSource
      obtain ⟨place, outputAt⟩ := outputAt
      have isText := text_of_outputAt outputAt listedFirst onward turnsAfter
      rcases outputAt.fresh with ⟨renamed, -⟩ | ⟨-, rfl⟩
      · exact absurd inPlace renamed
      · exact isText

/-- The way to the folder of an output. -/
private theorem approachOf_within
    (disk : Disk)
    {output : DocumentPath}
    (normal : output.IsNormal)
    {above : Location}
    {name : Name}
    (shape : output.location = above ++ [name]) :
    disk.approachOf (Route.ofText (output.within root)) =
      disk.trail (fun _ => false) maximalLinks (disk.start (Route.ofText root))
        ((Route.ofText root).steps ++ above.map .enter) := by
  have steps : ((Route.ofText root).below output.location).steps =
      ((Route.ofText root).steps ++ above.map .enter) ++ [.enter name] := by
    simp [Route.below, shape]
  rw [normal.isNamed.route_within, approachOf, steps, List.dropLast_concat]
  rfl

/-- From the middle of a turn on, what is read through spared places is kept. -/
theorem keeps_onward
    {document : DocumentPath}
    {first middle second : Disk}
    (onward : Alters root home document middle second)
    (leads : LeadsHome middle root home)
    (turns : Turns root home second documents outcomes new)
    (listed : Listed first home (document :: documents))
    (isSource : document ∈ sources)
    (members : ∀ rewritten, .published rewritten ∈ outcomes → rewritten.source ∈ sources)
    (spared : ∀ place, allowed place → Spared home sources middle place) :
    Keeps allowed middle new := by
  have keepsSecond := onward.keeps_spared isSource spared leads
    (listed.normal document List.mem_cons_self) (listed.fits document List.mem_cons_self)
  have keepsAfter := (turns.keeps members
    (fun place isAllowed => onward.spared isSource (spared place isAllowed))
    (fun other isThere => ⟨listed.normal other (List.mem_cons_of_mem document isThere),
      listed.fits other (List.mem_cons_of_mem document isThere)⟩)).1
  exact keepsSecond.trans keepsAfter

/-- The output of a published document can be read at the end. -/
theorem exists_readText_output
    (turns : Turns root home old documents outcomes new)
    (legible : (Route.ofText root).holdsZero = false)
    (listed : Listed old home documents)
    (members : ∀ rewritten, .published rewritten ∈ outcomes → rewritten.source ∈ sources)
    {rewritten : RewrittenDocument}
    (published : .published rewritten ∈ outcomes)
    {approach : List Location}
    (isApproach : old.approachOf (Route.ofText (rewritten.source.output.within root)) = approach)
    (spared : ∀ place ∈ approach,
      (∀ last ∈ approach.getLast?, place <+: last → ∃ kind ∈ old.look place, kind.IsLink) →
      Spared home sources old place) :
    ∃ text, new.readText (Route.ofText (rewritten.source.output.within root)) = .ok text := by
  obtain ⟨before, document, after, outcomesBefore, outcomesAfter, first, second, rfl, rfl,
    turnsBefore, turn, turnsAfter⟩ := turns.exists_turn published
  have isSource := members rewritten published
  have listedFirst : Listed first home (document :: after) := turnsBefore.listed listed
  have named (other : DocumentPath) (isThere : other ∈ before ++ document :: after) :=
    And.intro (listed.normal other isThere) (listed.fits other isThere)
  obtain ⟨normal, fits⟩ := named document (by simp)
  obtain ⟨keepsBefore, sparedFirst⟩ := turnsBefore.keeps
    (fun other member => members other (by simp [member])) (fun _ isSpared => isSpared)
    (fun other member => named other (by simp [member]))
  cases turn with
  | @published _ middle _ _ sameSource leads toMiddle outputAt leadsThen onward =>
      subst sameSource
      obtain ⟨place, outputAt⟩ := outputAt
      obtain ⟨above, name, around, shape, atPlace, fitsName, wholeWay⟩ := outputAt.onTheWay
      have keepsOld := keepsBefore.trans
        (toMiddle.keeps_spared isSource sparedFirst leads normal fits)
      have starts : middle.start (Route.ofText root) = old.start (Route.ofText root) := by
        simp [start, keepsOld.workingFolder]
      rw [approachOf_within old normal.output shape, ← starts] at isApproach
      subst isApproach
      -- The links on the way are as they were, so the way leads where its trail ended.
      obtain ⟨last, treads⟩ := keepsOld.treads_trail
        (fun place onTheWay target linked => spared place onTheWay fun _ _ _ =>
          ⟨_, linked, target, rfl⟩) wholeWay
      -- From now on the output keeps the folders around it.
      let later := sources.filter (· ∈ rewritten.source :: after)
      have isListed : ∀ source ∈ later, source ∈ rewritten.source :: after := fun source member =>
        of_decide_eq_true (List.mem_filter.mp member).2
      have isLater : rewritten.source ∈ later := by
        simpa [later] using isSource
      have membersAfter (other : RewrittenDocument) (member : .published other ∈ outcomesAfter) :
          other.source ∈ later :=
        List.mem_filter.mpr ⟨members other (by simp [member]),
          decide_eq_true (List.mem_cons_of_mem _ (turnsAfter.source_mem member))⟩
      have keepsLater := keeps_onward onward leadsThen turnsAfter listedFirst isLater membersAfter
        fun folder onTheWay => by
          by_cases isAround : folder <+: around
          · exact outputAt.spared_around listedFirst isListed
              (isAround.trans (atPlace ▸ List.prefix_append around [name]))
          · have isSpared := spared folder onTheWay fun other isLast around => by
              cases last.symm.trans isLast
              exact absurd around isAround
            exact (toMiddle.spared isSource (sparedFirst folder isSpared)).mono
              List.filter_sublist.subset
      -- The output is a text still, behind the way that was kept.
      obtain ⟨kind, found, isText⟩ := text_of_outputAt outputAt listedFirst onward turnsAfter
      rw [normal.output.isNamed.route_within, shape]
      exact keepsLater.exists_readText_of_leads
        (Route.holdsZero_below legible (shape ▸ normal.output.plain)) treads wholeWay.arrives
        fitsName (atPlace ▸ found) isText

/-- What can be read at the start can be read at the end, where something is left on its way. -/
theorem exists_readText
    (turns : Turns root home old documents outcomes new)
    (listed : Listed old home documents)
    (isSource : ∀ source, source ∈ sources ↔
      ∃ rewritten, .published rewritten ∈ outcomes ∧ rewritten.source = source)
    {document : DocumentPath}
    (normal : document.IsNormal)
    (spared : ∀ place ∈ old.trailOf (isPlaceOf home sources) (Route.ofText (document.within root)),
      Spared home sources old place)
    (reads : ∃ text, old.readText (Route.ofText (document.within root)) = .ok text) :
    ∃ text, new.readText (Route.ofText (document.within root)) = .ok text := by
  have isListed (rewritten : RewrittenDocument) (published : .published rewritten ∈ outcomes) :
      rewritten.source ∈ sources :=
    (isSource _).mpr ⟨rewritten, published, rfl⟩
  have keeps := (turns.keeps isListed (fun _ isSpared => isSpared)
    (fun other isThere => ⟨listed.normal other isThere, listed.fits other isThere⟩)).1
  rw [normal.isNamed.route_within] at reads spared ⊢
  refine keeps.exists_readText_of_trail normal.location_ne_nil ?_ spared reads
  -- A published document that the run leaves something at is published in its place.
  intro place isSpared isEnd
  obtain ⟨source, member, isPlace⟩ := List.any_eq_true.mp isEnd
  obtain rfl := of_decide_eq_true isPlace
  obtain ⟨rewritten, published, rfl⟩ := (isSource source).mp member
  refine turns.text_of_published listed published ?_
  apply DocumentPath.location_output_of_isPublished
  by_contra unpublished
  obtain ⟨content, present⟩ := listed.present _ (turns.source_mem published)
  have threatened : Threatened home sources (home ++ rewritten.source.location) :=
    ⟨_, member, _, List.prefix_refl _, unpublished, rfl⟩
  rcases isSpared with unthreatened | ⟨below, presentBelow, unthreatened⟩
  · exact unthreatened threatened
  · -- Nothing is below a file or a link.
    rcases eq_or_ne below [] with rfl | below_ne_nil
    · exact unthreatened ((List.append_nil _).symm ▸ threatened)
    · obtain ⟨kind, found⟩ := Option.ne_none_iff_exists'.mp presentBelow
      cases present.symm.trans (Folder.look_eq_folder_of_look_append below_ne_nil found)

end Turns

/--
After a run that stores documents, each document that could be read can be read
where the run left it, if the published documents leave something at all places
that its path relies on.
-/
theorem publish_keeps_legible
    {options : PublishOptions}
    {session last : Session}
    {report : PublishReport}
    (stores : options.dryRun = false)
    (wellFormed : session.disk.top.WellFormed)
    (done : publish options session = .ok report last) :
    ∃ patterns index indexed home,
      compileExcludes options.excludes = .ok patterns ∧
      buildIndex options.root patterns session = .ok index indexed ∧
      session.disk.resolve (Route.ofText options.root) = .ok home ∧
      ∀ document ∈ index.documents,
        (∃ text, session.disk.readText (Route.ofText (document.within options.root)) = .ok text) →
        (∀ place, ReliesOn options.root home report session.disk document place →
          Spared home report.sources session.disk place) →
        ∃ text, last.disk.readText
          (Route.ofText ((report.pathOf document).within options.root)) = .ok text := by
  rcases publish_cases options session with
    ⟨error, failed⟩ | ⟨patterns, index, indexed, events, compiled, built, -, published⟩
  · cases done.symm.trans failed
  · cases done.symm.trans published
    obtain ⟨home, resolved, -, -⟩ := resolve_of_buildIndex built
    refine ⟨patterns, index, indexed, home, compiled, built, resolved, ?_⟩
    intro document member reads spared
    have listed := listed_of_buildIndex wellFormed built resolved
    have turns := publishIndexed_turns stores wellFormed built resolved
    generalize publishIndexed options index indexed = outcome at spared turns ⊢
    let report := PublishReport.ofOutcomes outcome.1
    have isSourceIff (source : DocumentPath) : source ∈ report.sources ↔
        ∃ rewritten, .published rewritten ∈ outcome.1 ∧ rewritten.source = source := by
      simp [PublishReport.sources, report, PublishReport.mem_published_iff]
    by_cases isSource : document ∈ report.sources
    · rw [PublishReport.pathOf, if_pos isSource]
      obtain ⟨rewritten, isPublished, rfl⟩ := List.mem_map.mp isSource
      exact turns.exists_readText_output (walk_of_resolve resolved).1 listed
        (fun other isPublished => (isSourceIff _).mpr ⟨other, isPublished, rfl⟩)
        (PublishReport.mem_published_iff.mp isPublished) rfl
        fun place onTheWay isLeft => spared place (.output isSource onTheWay isLeft)
    · rw [PublishReport.pathOf, if_neg isSource]
      exact turns.exists_readText listed isSourceIff (listed.normal document member)
        (fun place onTheWay => spared place (.ownPath isSource onTheWay)) reads

/--
A vault with a link to a document that is renamed, and a link to that link whose
new name is taken.
-/
private def aliasedVault : Folder :=
  .leaf (Utf8.encode "a: b.md".toList) (.file ⟨0o644, Utf8.encode "shared".toList⟩)
    (.leaf (Utf8.encode "l.md".toList) (.link "a: b.md".toList)
      (.leaf (Utf8.encode "p - q.md".toList) (.file ⟨0o644, Utf8.encode "taken".toList⟩)
        (.leaf (Utf8.encode "p: q.md".toList) (.link "l.md".toList) .empty)))

private theorem buildIndex_aliasedVault :
    buildIndex "vault".toList [] ⟨diskOf aliasedVault, []⟩ =
      .ok ⟨[⟨"p: q.md".toList⟩, ⟨"p - q.md".toList⟩, ⟨"l.md".toList⟩, ⟨"a: b.md".toList⟩]⟩
        ⟨diskOf aliasedVault, [.indexed 4 "vault".toList]⟩ :=
  buildIndex_of_scanned aliasedVault (by decide +kernel) (by decide +kernel)
    (by decide +kernel) (by decide +kernel) (by decide +kernel)

/-- The folder that the published link is in is on no way but its own. -/
private theorem approachOf_aliasedVault :
    ∀ place ∈ (diskOf aliasedVault).approachOf (Route.ofText "vault/l.md".toList),
      ¬ ∀ last ∈ ((diskOf aliasedVault).approachOf (Route.ofText "vault/l.md".toList)).getLast?,
        place <+: last → ∃ kind ∈ (diskOf aliasedVault).look place, kind.IsLink := by
  decide +kernel

/-- The other link is read through the published one, and through nothing behind it. -/
private theorem trailOf_aliasedVault :
    ∀ place ∈ (diskOf aliasedVault).trailOf
      (isPlaceOf [Utf8.encode "vault".toList]
        [⟨"p - q.md".toList⟩, ⟨"l.md".toList⟩, ⟨"a: b.md".toList⟩])
      (Route.ofText "vault/p: q.md".toList),
      ¬ Threatened [Utf8.encode "vault".toList]
        [⟨"p - q.md".toList⟩, ⟨"l.md".toList⟩, ⟨"a: b.md".toList⟩] place := by
  decide +kernel

theorem publish_keeps_legible_aliasedVault :
    (diskOf aliasedVault).top.WellFormed ∧
      ∃ report last,
        publish { root := "vault".toList } ⟨diskOf aliasedVault, []⟩ = .ok report last ∧
          report.sources = [⟨"p - q.md".toList⟩, ⟨"l.md".toList⟩, ⟨"a: b.md".toList⟩] ∧
          (∃ text, (diskOf aliasedVault).readText (Route.ofText "vault/l.md".toList) =
            .ok text) ∧
          (∃ text, last.disk.readText (Route.ofText "vault/l.md".toList) = .ok text) ∧
          (∃ text, (diskOf aliasedVault).readText (Route.ofText "vault/p: q.md".toList) =
            .ok text) ∧
          ∃ text, last.disk.readText (Route.ofText "vault/p: q.md".toList) = .ok text := by
  have wellFormed : (diskOf aliasedVault).top.WellFormed := by decide
  have linkReads : (diskOf aliasedVault).readText (Route.ofText "vault/l.md".toList) =
      .ok "shared".toList := by
    decide +kernel
  have otherReads : (diskOf aliasedVault).readText (Route.ofText "vault/p: q.md".toList) =
      .ok "shared".toList := by
    decide +kernel
  have reported : reportOf? (publish { root := "vault".toList } ⟨diskOf aliasedVault, []⟩) =
      some
        ⟨[⟨⟨"p - q.md".toList⟩, ⟨"p - q.md".toList⟩, "taken".toList, []⟩,
            ⟨⟨"l.md".toList⟩, ⟨"l.md".toList⟩, "shared".toList, []⟩,
            ⟨⟨"a: b.md".toList⟩, ⟨"a - b.md".toList⟩, "shared".toList, []⟩],
          [], [⟨⟨"p: q.md".toList⟩, .write "vault/p - q.md".toList .alreadyExists⟩]⟩ := by
    simp only [publish, compileExcludes, bind, EStateM.bind, pure, EStateM.pure,
      buildIndex_aliasedVault]
    decide +kernel
  obtain ⟨last, done⟩ := exists_of_reportOf? reported
  obtain ⟨patterns, index, indexed, home, compiled, built, resolved, legible⟩ :=
    publish_keeps_legible rfl wellFormed done
  cases compiled
  cases buildIndex_aliasedVault.symm.trans built
  cases resolved.symm.trans (by decide +kernel :
    (diskOf aliasedVault).resolve (Route.ofText "vault".toList) = .ok [Utf8.encode "vault".toList])
  refine ⟨wellFormed, _, last, done, rfl, ⟨_, linkReads⟩, ?_, ⟨_, otherReads⟩, ?_⟩
  · refine legible ⟨"l.md".toList⟩ (by simp) ⟨_, linkReads⟩ fun place reliesOn => ?_
    cases reliesOn with
    | ownPath unpublished _ => exact absurd (by decide) unpublished
    | output _ onTheWay isLeft => exact absurd isLeft (approachOf_aliasedVault place onTheWay)
  · refine legible ⟨"p: q.md".toList⟩ (by simp) ⟨_, otherReads⟩ fun place reliesOn => ?_
    cases reliesOn with
    | ownPath _ onTheWay => exact .inl (trailOf_aliasedVault place onTheWay)
    | output published _ _ => exact absurd published (by decide)

/-- A vault with a link to a document that is renamed. -/
private def danglingVault : Folder :=
  .leaf (Utf8.encode "a.md".toList) (.link "z: y.md".toList)
    (.leaf (Utf8.encode "z: y.md".toList) (.file ⟨0o644, Utf8.encode "x".toList⟩) .empty)

private theorem buildIndex_danglingVault :
    buildIndex "vault".toList [] ⟨diskOf danglingVault, []⟩ =
      .ok ⟨[⟨"z: y.md".toList⟩, ⟨"a.md".toList⟩]⟩
        ⟨diskOf danglingVault, [.indexed 2 "vault".toList]⟩ :=
  buildIndex_of_scanned danglingVault (by decide +kernel) (by decide +kernel)
    (by decide +kernel) (by decide +kernel) (by decide +kernel)

/-- A document that could be read before a run is not published and cannot be read after it. -/
theorem danglingVault_not_legible :
    ∃ report last index indexed,
      publish { root := "vault".toList } ⟨diskOf danglingVault, []⟩ = .ok report last ∧
        buildIndex "vault".toList [] ⟨diskOf danglingVault, []⟩ = .ok index indexed ∧
        ⟨"a.md".toList⟩ ∈ index.documents ∧
        DocumentPath.isMarkdown ⟨"a.md".toList⟩ = true ∧
        (diskOf danglingVault).readText (Route.ofText "vault/a.md".toList) = .ok "x".toList ∧
        report.pathOf ⟨"a.md".toList⟩ = ⟨"a.md".toList⟩ ∧
        last.disk.readText (Route.ofText "vault/a.md".toList) = .error .notFound := by
  have unread : (publishIndexed { root := "vault".toList }
      ⟨[⟨"z: y.md".toList⟩, ⟨"a.md".toList⟩]⟩
      ⟨diskOf danglingVault, [.indexed 2 "vault".toList]⟩).2.disk.readText
        (Route.ofText "vault/a.md".toList) = .error .notFound := by
    decide +kernel
  obtain ⟨events, done⟩ := @publish_of_built { root := "vault".toList } [] rfl _ _ _
    buildIndex_danglingVault
  refine ⟨_, _, _, _, done, buildIndex_danglingVault, by simp, by decide, by decide +kernel, ?_,
    unread⟩
  rw [PublishReport.pathOf]
  split <;> rfl

end Vault

end NotePublisher
