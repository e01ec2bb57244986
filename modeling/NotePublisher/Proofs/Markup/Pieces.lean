import Mathlib.Data.List.Chain
import NotePublisher.Document.LinkRecord

namespace NotePublisher

/-!
# The nodes of a scan

Scanning a text character by character yields pieces, and adding up their
lengths yields nodes (`InlineNode.ofPieces`). The nodes of pieces lie side by
side, and each of their spans covers a part of the text between two characters,
so that the text can be sliced along them (`InlineNode.spliceLinks?_ofPieces`).
-/

namespace Piece

variable {α : Type}

/-- Whether a piece is a span. -/
def isMarked : Piece α → Bool
  | plain _ => false
  | marked _ => true

/-- Runs hold something, and no two of them are neighbours. -/
structure AreMaximal (pieces : List (Piece α)) : Prop where
  run_ne_nil : ∀ run, plain run ∈ pieces → run ≠ []
  apart : pieces.IsChain fun left right => left.isMarked ∨ right.isMarked

theorem areMaximal_nil :
    AreMaximal ([] : List (Piece α)) where
  run_ne_nil := by simp
  apart := .nil

theorem AreMaximal.marked_cons
    {pieces : List (Piece α)}
    (maximal : AreMaximal pieces)
    (item : α) :
    AreMaximal (marked item :: pieces) where
  run_ne_nil run member := by
    rcases List.mem_cons.mp member with same | later
    · cases same
    · exact maximal.run_ne_nil run later
  apart := List.isChain_cons.mpr ⟨fun _ _ => .inl rfl, maximal.apart⟩

/-- A character joins the run of text that follows it. -/
theorem AreMaximal.consChar
    {pieces : List (Piece α)}
    (maximal : AreMaximal pieces)
    (char : Char) :
    AreMaximal (consChar char pieces) := by
  cases pieces with
  | nil =>
      exact ⟨by simp [Piece.consChar], .singleton _⟩
  | cons piece others =>
      cases piece with
      | plain run =>
          refine ⟨fun other member => ?_, ?_⟩
          · rcases List.mem_cons.mp member with same | later
            · cases same
              simp
            · exact maximal.run_ne_nil other (List.mem_cons_of_mem _ later)
          · obtain ⟨apart, others⟩ := List.isChain_cons.mp maximal.apart
            exact List.isChain_cons.mpr ⟨apart, others⟩
      | marked item =>
          refine ⟨fun other member => ?_, ?_⟩
          · rcases List.mem_cons.mp member with same | later
            · cases same
              simp
            · exact maximal.run_ne_nil other later
          · exact List.isChain_cons_cons.mpr ⟨.inr rfl, maximal.apart⟩

end Piece

/-- A scan joins the characters that it keeps. -/
theorem Recogniser.areMaximal_scan
    {α : Type}
    (recogniser : Recogniser α)
    (text : Text) :
    Piece.AreMaximal (recogniser.scan text) := by
  induction text using recogniser.scan_induction with
  | empty =>
      exact Piece.areMaximal_nil
  | recognised text item rest found inductionHypothesis =>
      rw [recogniser.scan_of_recognised found]
      exact inductionHypothesis.marked_cons item
  | kept char others missed inductionHypothesis =>
      rw [recogniser.scan_cons_of_not_recognised missed]
      exact inductionHypothesis.consChar char

namespace WikiLink

/-- What stands between a link's target and its closing brackets. -/
def labelText (link : WikiLink) : Text :=
  match link.label with
  | none => []
  | some label => '|' :: label

theorem recogniser_source :
    recogniser.source = source :=
  rfl

/-- A link holds its target and, if it has one, its label after a bar. -/
theorem body_eq (link : WikiLink) :
    link.body = link.target ++ link.labelText := by
  cases label : link.label <;> simp [body, labelText, label]

end WikiLink

namespace Span

/-- A span is the place of a part of a text. -/
def Covers
    (span : Span)
    (part text : Text) :
    Prop :=
  ∃ before after, text = before ++ (part ++ after) ∧ span = ofParts before part

/-- A span begins and ends between two characters of a text. -/
def LiesIn
    (span : Span)
    (text : Text) :
    Prop :=
  ∃ part, span.Covers part text

/-- A span that covers a part slices it out. -/
theorem Covers.slice?_eq
    {span : Span}
    {part text : Text}
    (covers : span.Covers part text) :
    span.slice? text = some part := by
  obtain ⟨before, after, rfl, rfl⟩ := covers
  rw [← List.append_assoc, slice?_append]

end Span

/-- Spans that cover the parts of a link yield its texts. -/
theorem LinkText.ofSpans?_of_covers
    {link : WikiLink}
    {document : Text}
    {full target : Span}
    {label : Option Span}
    (coversSource : full.Covers link.source document)
    (coversTarget : target.Covers link.target document)
    (coversLabel : Option.Rel (Span.Covers · · document) label link.label) :
    ofSpans? document full target label = some (.ofLink link) := by
  rw [ofSpans?, coversSource.slice?_eq, coversTarget.slice?_eq, ofLink]
  generalize link.label = shown at coversLabel
  cases coversLabel with
  | none =>
      rfl
  | some covers =>
      simp [covers.slice?_eq]

namespace InlineNode

/-- The node of a piece that begins at a byte offset. -/
def ofPiece
    (offset : Nat) :
    Piece WikiLink →
    InlineNode
  | .plain run =>
      text ⟨offset, offset + run.byteLength⟩
  | .marked found =>
      let targetStart := offset + WikiLink.opening.byteLength
      let targetStop := targetStart + found.target.byteLength
      link
        ⟨offset, offset + found.source.byteLength⟩
        ⟨targetStart, targetStop⟩
        (found.label.map fun label =>
          ⟨targetStop + 1, targetStop + 1 + label.byteLength⟩)

/-- The nodes of pieces that begin at a byte offset. -/
def ofPieces :
    Nat →
    List (Piece WikiLink) →
    List InlineNode
  | _, [] => []
  | offset, piece :: others =>
      let node := ofPiece offset piece
      node :: ofPieces node.full.stop others

/-- Whether a node is a link. -/
def isLink : InlineNode → Bool
  | text _ => false
  | link _ _ _ => true

/-- All spans of a node. -/
def spans : InlineNode → List Span
  | text span => [span]
  | link full target label => full :: target :: label.toList

/-- The nodes lie side by side from `start` to `stop`, and none is empty. -/
def Tile :
    (start : Nat) →
    (nodes : List InlineNode) →
    (stop : Nat) →
    Prop
  | start, [], stop => start = stop
  | start, node :: others, stop =>
      node.full.start = start ∧ start < node.full.stop ∧ Tile node.full.stop others stop

/-- Each span of a node begins and ends between characters, and within the node. -/
def Fits
    (node : InlineNode)
    (document : Text) :
    Prop :=
  ∀ span ∈ node.spans,
    span.LiesIn document ∧ node.full.start ≤ span.start ∧ span.stop ≤ node.full.stop

/-- The texts of the links among nodes, in order. -/
def linkTexts?
    (document : Text) :
    List InlineNode →
    Option (List LinkText)
  | [] => some []
  | text _ :: others =>
      linkTexts? document others
  | link full target label :: others =>
      (LinkText.ofSpans? document full target label).bind fun found =>
        (linkTexts? document others).map (found :: ·)

/-- The slices of the runs among nodes, with a text for each link in its place. -/
def weave?
    (document : Text) :
    List InlineNode →
    List Text →
    Option Text
  | [], [] => some []
  | text span :: others, inserts =>
      (span.slice? document).bind fun run =>
        (weave? document others inserts).map (run ++ ·)
  | link _ _ _ :: others, insert :: inserts =>
      (weave? document others inserts).map (insert ++ ·)
  | _, _ => none

/-- No node starts before the tile does. -/
theorem Tile.start_le
    {start stop : Nat}
    {nodes : List InlineNode}
    (tile : Tile start nodes stop)
    {node : InlineNode}
    (member : node ∈ nodes) :
    start ≤ node.full.start := by
  induction nodes generalizing start with
  | nil =>
      cases member
  | cons first others inductionHypothesis =>
      obtain ⟨rfl, nonempty, later⟩ := tile
      rcases List.mem_cons.mp member with rfl | inOthers
      · exact Nat.le_refl _
      · exact Nat.le_trans (Nat.le_of_lt nonempty) (inductionHypothesis later inOthers)

/-- Nodes side by side do not reach across the starts of one another. -/
theorem Tile.stop_le_start
    {start stop : Nat}
    {nodes : List InlineNode}
    (tile : Tile start nodes stop)
    {left right : InlineNode}
    (leftMember : left ∈ nodes)
    (rightMember : right ∈ nodes)
    (before : left.full.start < right.full.start) :
    left.full.stop ≤ right.full.start := by
  induction nodes generalizing start with
  | nil =>
      cases leftMember
  | cons first others inductionHypothesis =>
      obtain ⟨rfl, nonempty, later⟩ := tile
      rcases List.mem_cons.mp leftMember with rfl | leftInOthers <;>
        rcases List.mem_cons.mp rightMember with rfl | rightInOthers
      · exact absurd before (Nat.lt_irrefl _)
      · exact later.start_le rightInOthers
      · have behind := later.start_le leftInOthers
        omega
      · exact inductionHypothesis later leftInOthers rightInOthers

/-- A node covers the bytes of its piece. -/
theorem full_ofPiece
    (offset : Nat)
    (piece : Piece WikiLink) :
    (ofPiece offset piece).full =
      ⟨offset, offset + (piece.render WikiLink.source).byteLength⟩ := by
  cases piece <;> rfl

/-- The nodes of pieces are links where the pieces are spans. -/
theorem map_isLink_ofPieces
    (offset : Nat)
    (pieces : List (Piece WikiLink)) :
    (ofPieces offset pieces).map isLink = pieces.map Piece.isMarked := by
  induction pieces generalizing offset with
  | nil =>
      rfl
  | cons piece others inductionHypothesis =>
      rw [ofPieces, List.map_cons, List.map_cons, inductionHypothesis]
      cases piece <;> rfl

/-- Pieces with no empty run tile their text. -/
theorem tile_ofPieces
    {pieces : List (Piece WikiLink)}
    (run_ne_nil : ∀ run, .plain run ∈ pieces → run ≠ [])
    (offset : Nat) :
    Tile offset (ofPieces offset pieces)
      (offset + (Piece.renderAll WikiLink.source pieces).byteLength) := by
  induction pieces generalizing offset with
  | nil =>
      rfl
  | cons piece others inductionHypothesis =>
      have holds : piece.render WikiLink.source ≠ [] := by
        cases piece with
        | plain run => exact run_ne_nil run List.mem_cons_self
        | marked found => exact WikiLink.recogniser.source_ne_nil found
      have positive := Nat.pos_of_ne_zero (Text.byteLength_eq_zero_iff.not.mpr holds)
      have later := inductionHypothesis
        (fun run member => run_ne_nil run (List.mem_cons_of_mem _ member))
        (ofPiece offset piece).full.stop
      rw [full_ofPiece, Nat.add_assoc, ← Text.byteLength_append] at later
      rw [ofPieces, Tile, full_ofPiece]
      exact ⟨rfl, Nat.lt_add_of_pos_right positive, later⟩

section Slices

variable (front behind : Text)

/-- The nodes of the pieces that follow start where the first piece ends. -/
theorem ofPieces_cons
    (piece : Piece WikiLink)
    (others : List (Piece WikiLink)) :
    ofPieces front.byteLength (piece :: others) =
      ofPiece front.byteLength piece ::
        ofPieces (front ++ piece.render WikiLink.source).byteLength others := by
  rw [ofPieces, full_ofPiece, Text.byteLength_append]

/-- The spans of a link cover its source, its target and its label. -/
theorem covers_ofPiece_marked
    (found : WikiLink)
    {full target : Span}
    {label : Option Span}
    (node : ofPiece front.byteLength (.marked found) = link full target label) :
    full.Covers found.source (front ++ (found.source ++ behind)) ∧
      target.Covers found.target (front ++ (found.source ++ behind)) ∧
      Option.Rel (Span.Covers · · (front ++ (found.source ++ behind))) label found.label := by
  obtain ⟨rfl, rfl, rfl⟩ := by simpa [ofPiece] using node
  refine ⟨⟨front, behind, rfl, rfl⟩, ?_, ?_⟩
  · refine ⟨front ++ WikiLink.opening,
      found.labelText ++ (WikiLink.closing ++ (found.strayText ++ behind)), ?_, ?_⟩
    · simp [WikiLink.source, WikiLink.body_eq]
    · simp [Span.ofParts]
  · cases label : found.label with
    | none =>
        exact .none
    | some text =>
        refine .some ⟨front ++ WikiLink.opening ++ found.target ++ ['|'],
          WikiLink.closing ++ (found.strayText ++ behind), ?_, ?_⟩
        · simp [WikiLink.source, WikiLink.body_eq, WikiLink.labelText, label]
        · simp [Span.ofParts, show ('|').utf8Size = 1 by decide, Nat.add_assoc]

/-- A node fits the text around its piece. -/
theorem fits_ofPiece
    (piece : Piece WikiLink) :
    (ofPiece front.byteLength piece).Fits
      (front ++ (piece.render WikiLink.source ++ behind)) := by
  cases piece with
  | plain run =>
      intro span member
      obtain rfl := List.mem_singleton.mp member
      exact ⟨⟨run, front, behind, rfl, rfl⟩, Nat.le_refl _, Nat.le_refl _⟩
  | marked found =>
      obtain ⟨full, target, label⟩ := covers_ofPiece_marked front behind found rfl
      have sized : found.source.byteLength = WikiLink.opening.byteLength +
          (found.target.byteLength + found.labelText.byteLength) +
            WikiLink.closing.byteLength + found.strayText.byteLength := by
        simp only [WikiLink.source, WikiLink.body_eq, Text.byteLength_append]
      intro span member
      rw [full_ofPiece, Piece.render, sized]
      rcases List.mem_cons.mp member with rfl | member
      · refine ⟨⟨_, full⟩, Nat.le_refl _, ?_⟩
        rw [sized]
      rcases List.mem_cons.mp member with rfl | member
      · refine ⟨⟨_, target⟩, Nat.le_add_right _ _, ?_⟩
        simp only
        omega
      · cases shown : found.label with
        | none =>
            simp [shown] at member
        | some text =>
            rw [shown] at member label
            cases label with
            | some covers =>
            obtain rfl := by simpa using member
            refine ⟨⟨_, covers⟩, ?_⟩
            have barred : found.labelText.byteLength = 1 + text.byteLength := by
              rw [WikiLink.labelText, shown]
              rfl
            simp only
            omega

/-- Each node of pieces fits the text that they make up. -/
theorem fits_of_mem_ofPieces
    {pieces : List (Piece WikiLink)}
    {node : InlineNode}
    (member : node ∈ ofPieces front.byteLength pieces) :
    node.Fits (front ++ Piece.renderAll WikiLink.source pieces) := by
  induction pieces generalizing front with
  | nil =>
      cases member
  | cons piece others inductionHypothesis =>
      rw [ofPieces_cons] at member
      rcases List.mem_cons.mp member with rfl | later
      · exact fits_ofPiece front _ piece
      · have fits := inductionHypothesis (front ++ piece.render WikiLink.source) later
        rwa [List.append_assoc] at fits

/-- The texts of the links among the nodes of pieces are those of the links among the pieces. -/
theorem linkTexts?_ofPieces
    (pieces : List (Piece WikiLink)) :
    linkTexts? (front ++ Piece.renderAll WikiLink.source pieces)
        (ofPieces front.byteLength pieces) =
      some ((Piece.markedItems pieces).map .ofLink) := by
  induction pieces generalizing front with
  | nil =>
      rfl
  | cons piece others inductionHypothesis =>
      have later := inductionHypothesis (front ++ piece.render WikiLink.source)
      rw [ofPieces_cons]
      rw [List.append_assoc] at later
      cases piece with
      | plain run =>
          exact later
      | marked found =>
          obtain ⟨full, target, label⟩ := covers_ofPiece_marked front
            (Piece.renderAll WikiLink.source others) found rfl
          rw [Piece.renderAll_marked_cons, ofPiece, linkTexts?,
            LinkText.ofSpans?_of_covers full target label, Option.bind_some]
          exact congrArg (Option.map (LinkText.ofLink found :: ·)) later

/-- Slices of runs and inserts in the place of links make up the pieces with these inserts. -/
theorem weave?_ofPieces
    (write : WikiLink → Text)
    (pieces : List (Piece WikiLink)) :
    weave? (front ++ Piece.renderAll WikiLink.source pieces) (ofPieces front.byteLength pieces)
        ((Piece.markedItems pieces).map write) =
      some (Piece.renderAll write pieces) := by
  induction pieces generalizing front with
  | nil =>
      rfl
  | cons piece others inductionHypothesis =>
      have later := inductionHypothesis (front ++ piece.render WikiLink.source)
      rw [ofPieces_cons]
      rw [List.append_assoc] at later
      cases piece with
      | plain run =>
          have covers : Span.Covers ⟨front.byteLength, front.byteLength + run.byteLength⟩ run
              (front ++ (run ++ Piece.renderAll WikiLink.source others)) :=
            ⟨front, _, rfl, rfl⟩
          rw [Piece.renderAll_plain_cons, ofPiece, weave?, covers.slice?_eq, Option.bind_some]
          exact congrArg (Option.map (run ++ ·)) later
      | marked found =>
          exact congrArg (Option.map (write found ++ ·)) later

/-- The nodes of pieces can be spliced, which puts renderings in the place of links. -/
theorem spliceLinks?_ofPieces
    (index : DocumentIndex)
    (urlBase : Text)
    (pieces : List (Piece WikiLink)) :
    spliceLinks? index urlBase (front ++ Piece.renderAll WikiLink.source pieces)
        (ofPieces front.byteLength pieces) =
      some {
        text := Piece.renderAll
          (fun link => (LinkOutcome.ofTarget index urlBase link.target).render (.ofLink link))
          pieces
        links := (Piece.markedItems pieces).map fun link =>
          LinkRecord.ofLink index urlBase (.ofLink link)
      } := by
  induction pieces generalizing front with
  | nil =>
      rfl
  | cons piece others inductionHypothesis =>
      have later := inductionHypothesis (front ++ piece.render WikiLink.source)
      rw [ofPieces_cons]
      rw [List.append_assoc] at later
      cases piece with
      | plain run =>
          have covers : Span.Covers ⟨front.byteLength, front.byteLength + run.byteLength⟩ run
              (front ++ (run ++ Piece.renderAll WikiLink.source others)) :=
            ⟨front, _, rfl, rfl⟩
          rw [Piece.renderAll_plain_cons, ofPiece, spliceLinks?, covers.slice?_eq,
            Option.bind_some]
          exact congrArg (Option.map fun linked => { linked with text := run ++ linked.text }) later
      | marked found =>
          obtain ⟨full, target, label⟩ := covers_ofPiece_marked front
            (Piece.renderAll WikiLink.source others) found rfl
          rw [Piece.renderAll_marked_cons, ofPiece, spliceLinks?,
            LinkText.ofSpans?_of_covers full target label, Option.bind_some]
          exact congrArg (Option.map _) later

end Slices

end InlineNode

end NotePublisher
