import NotePublisher.Proofs.Markup.Reading

namespace NotePublisher

/-!
# The tiling of a document by its inline nodes

The nodes of a document lie side by side from its first byte to its last, runs
and links in turn, and each of their spans begins and ends between characters.
A reader that slices the document along them therefore finds every slice. With
the source of each link in its place the slices make up the document again, and
with its rendering there they make up the text that replacing links yields
(`InlineNode.parse_tiles`).
-/

namespace InlineNode

section Parse

variable (document : Text)

/-- The nodes of a document tile it. -/
theorem tile_parse :
    Tile 0 (parse document) document.byteLength := by
  have tile := tile_ofPieces (WikiLink.recogniser.areMaximal_scan document).run_ne_nil 0
  rwa [← WikiLink.recogniser_source, Recogniser.renderAll_source_scan, Nat.zero_add,
    ← parse_eq_ofPieces] at tile

/-- No two runs of text follow each other. -/
theorem isChain_parse :
    (parse document).IsChain fun left right => left.isLink ∨ right.isLink := by
  have apart := (WikiLink.recogniser.areMaximal_scan document).apart
  rw [← List.isChain_map Piece.isMarked (R := fun left right => left = true ∨ right = true),
    ← map_isLink_ofPieces 0, ← parse_eq_ofPieces] at apart
  exact (List.isChain_map isLink).mp apart

/-- Nodes fit the text around them. -/
theorem fits_of_mem_parse
    {node : InlineNode}
    (member : node ∈ parse document) :
    node.Fits document := by
  rw [parse_eq_ofPieces] at member
  have fits := fits_of_mem_ofPieces [] member
  rwa [← WikiLink.recogniser_source, Recogniser.renderAll_source_scan] at fits

/-- The spans of the nodes slice out the texts of the links. -/
theorem linkTexts?_parse :
    linkTexts? document (parse document) =
      some ((Piece.markedItems (WikiLink.recogniser.scan document)).map .ofLink) := by
  rw [parse_eq_ofPieces]
  have texts := linkTexts?_ofPieces [] (WikiLink.recogniser.scan document)
  rwa [← WikiLink.recogniser_source, Recogniser.renderAll_source_scan] at texts

/-- Slicing the runs and writing the links anew is replacing the links. -/
theorem weave?_parse
    (write : WikiLink → Text) :
    weave? document (parse document)
        ((Piece.markedItems (WikiLink.recogniser.scan document)).map write) =
      some (WikiLink.recogniser.replace write document) := by
  rw [parse_eq_ofPieces]
  have woven := weave?_ofPieces [] write (WikiLink.recogniser.scan document)
  rwa [← WikiLink.recogniser_source, Recogniser.renderAll_source_scan] at woven

/-- A document can be spliced along its nodes; links are replaced as a scan finds them. -/
theorem spliceLinks?_parse
    (index : DocumentIndex)
    (urlBase : Text) :
    spliceLinks? index urlBase document (parse document) =
      some {
        text := WikiLink.recogniser.replace
          (fun link => (LinkOutcome.ofTarget index urlBase link.target).render (.ofLink link))
          document
        links := (Piece.markedItems (WikiLink.recogniser.scan document)).map fun link =>
          LinkRecord.ofLink index urlBase (.ofLink link)
      } := by
  rw [parse_eq_ofPieces]
  have spliced := spliceLinks?_ofPieces [] index urlBase (WikiLink.recogniser.scan document)
  rwa [← WikiLink.recogniser_source, Recogniser.renderAll_source_scan] at spliced

end Parse

end InlineNode

/-- Replacing links replaces those that a scan finds, and records each of them. -/
theorem resolveLinks_eq
    (index : DocumentIndex)
    (urlBase text : Text) :
    resolveLinks index urlBase text =
      { text := WikiLink.recogniser.replace
          (fun link => (LinkOutcome.ofTarget index urlBase link.target).render (.ofLink link)) text
        links := (Piece.markedItems (WikiLink.recogniser.scan text)).map fun link =>
          LinkRecord.ofLink index urlBase (.ofLink link) } := by
  rw [resolveLinks, InlineNode.spliceLinks?_parse, Option.getD_some]

/-- The links of a text are reported in their order. -/
theorem resolveLinks_links
    (index : DocumentIndex)
    (urlBase text : Text) :
    (resolveLinks index urlBase text).links =
      (Piece.markedItems (WikiLink.recogniser.scan text)).map fun link =>
        LinkRecord.ofLink index urlBase (.ofLink link) := by
  rw [resolveLinks_eq]

namespace InlineNode

/--
The nodes of a document lie side by side over all of it, no two runs in a row,
and their spans begin and end between characters, so that replacing links never
slices where there is nothing to slice. Sliced along them the document yields
the texts of its links, each of which is recorded, and the runs between the
links, around which replacing links puts the renderings.
-/
theorem parse_tiles
    (document : Text)
    (index : DocumentIndex)
    (urlBase : Text) :
    Tile 0 (parse document) document.byteLength ∧
      ((parse document).IsChain fun left right => left.isLink ∨ right.isLink) ∧
      (∀ node ∈ parse document, node.Fits document) ∧
      spliceLinks? index urlBase document (parse document) =
        some (resolveLinks index urlBase document) ∧
      ∃ links, linkTexts? document (parse document) = some links ∧
        (resolveLinks index urlBase document).links =
          links.map (LinkRecord.ofLink index urlBase) ∧
        weave? document (parse document)
          ((resolveLinks index urlBase document).links.map LinkRecord.raw) = some document ∧
        weave? document (parse document)
          (links.map fun link => (LinkOutcome.ofTarget index urlBase link.target).render link) =
            some (resolveLinks index urlBase document).text := by
  have sources := weave?_parse document WikiLink.source
  rw [← WikiLink.recogniser_source, Recogniser.replace, Recogniser.renderAll_source_scan] at sources
  have resolved := resolveLinks_eq index urlBase document
  refine ⟨tile_parse document, isChain_parse document, fun _ => fits_of_mem_parse document,
    (spliceLinks?_parse document index urlBase).trans (congrArg some resolved.symm),
    _, linkTexts?_parse document, ?_, ?_, ?_⟩
  · rw [resolved, List.map_map]
    rfl
  · rw [resolved, List.map_map]
    exact sources
  · rw [resolved, List.map_map]
    exact weave?_parse document _

/-- A link with a label and a third bracket, before a character of two bytes. -/
example :
    parse "a[[b|c]]]é".toList =
      [.text ⟨0, 1⟩, .link ⟨1, 9⟩ ⟨3, 4⟩ (some ⟨5, 6⟩), .text ⟨9, 11⟩] := by
  decide +kernel

end InlineNode

end NotePublisher
