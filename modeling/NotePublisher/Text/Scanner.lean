import NotePublisher.Text.Basic

namespace NotePublisher

/-!
# Scanning a text for marked spans

A `Recogniser` says whether a marked span (a comment, a link, a diagram, …)
begins at the front of a text, what it holds and what comes after it.
`Recogniser.scan` walks a text from left to right: where a span is recognised
it is taken whole and the walk goes on behind it; elsewhere the character is
kept. The result is a list of pieces that tiles the text
(`renderAll_source_scan`), in which runs of kept characters are as long as
possible.
-/

/-- A rule for the marked spans of one kind, with the text each of them came from. -/
structure Recogniser (α : Type) where
  /-- The span at the front of a text and what follows it. -/
  recognise? : Text → Option (α × Text)
  /-- The text a span was read from. -/
  source : α → Text
  /-- A span takes up at least one character. -/
  source_ne_nil : ∀ item, source item ≠ []
  /-- A span and what follows it make up the text. -/
  eq_source_append : ∀ {text item rest},
    recognise? text = some (item, rest) → text = source item ++ rest

/-- A piece of a scanned text: a run of characters outside the marked spans, or a span. -/
inductive Piece (α : Type) where
  | plain (run : Text)
  | marked (item : α)
  deriving DecidableEq, Repr

namespace Piece

variable {α : Type}

/-- Put a character in front of the pieces, joining it to a leading run. -/
def consChar
    (char : Char) :
    List (Piece α) →
    List (Piece α)
  | plain run :: others =>
      plain (char :: run) :: others
  | others =>
      plain [char] :: others

/-- The text of a piece, where spans are written as `write` says. -/
def render
    (write : α → Text) :
    Piece α →
    Text
  | plain run => run
  | marked item => write item

/-- The text of a list of pieces, where spans are written as `write` says. -/
def renderAll
    (write : α → Text)
    (pieces : List (Piece α)) :
    Text :=
  pieces.flatMap (render write)

/-- The spans among the pieces, in order. -/
def markedItems
    (pieces : List (Piece α)) :
    List α :=
  pieces.filterMap fun
    | plain _ => none
    | marked item => some item

@[simp] theorem renderAll_nil
    (write : α → Text) :
    renderAll write [] = [] :=
  rfl

@[simp] theorem renderAll_marked_cons
    (write : α → Text)
    (item : α)
    (pieces : List (Piece α)) :
    renderAll write (marked item :: pieces) = write item ++ renderAll write pieces :=
  rfl

@[simp] theorem renderAll_plain_cons
    (write : α → Text)
    (run : Text)
    (pieces : List (Piece α)) :
    renderAll write (plain run :: pieces) = run ++ renderAll write pieces :=
  rfl

@[simp] theorem renderAll_consChar
    (write : α → Text)
    (char : Char)
    (pieces : List (Piece α)) :
    renderAll write (consChar char pieces) = char :: renderAll write pieces := by
  cases pieces with
  | nil =>
      rfl
  | cons piece others =>
      cases piece <;> rfl

@[simp] theorem markedItems_consChar
    (char : Char)
    (pieces : List (Piece α)) :
    markedItems (consChar char pieces) = markedItems pieces := by
  cases pieces with
  | nil =>
      rfl
  | cons piece others =>
      cases piece <;> rfl

end Piece

namespace Recogniser

variable {α : Type}

/-- What follows a span is what is left when the span's text is dropped. -/
theorem rest_eq_drop
    (recogniser : Recogniser α)
    {text rest : Text}
    {item : α}
    (found : recogniser.recognise? text = some (item, rest)) :
    rest = text.drop (recogniser.source item).length := by
  rw [recogniser.eq_source_append found, List.drop_left]

/-- What follows a span is shorter than the text the span stands at the front of. -/
theorem length_lt_of_recognise?
    (recogniser : Recogniser α)
    {text rest : Text}
    {item : α}
    (found : recogniser.recognise? text = some (item, rest)) :
    rest.length < text.length := by
  have positive := List.length_pos_iff.mpr (recogniser.source_ne_nil item)
  rw [recogniser.eq_source_append found, List.length_append]
  omega

/-- Nothing is recognised in the empty text. -/
theorem recognise?_nil
    (recogniser : Recogniser α) :
    recogniser.recognise? [] = none := by
  match found : recogniser.recognise? [] with
  | none => rfl
  | some (item, rest) =>
      have shorter := recogniser.length_lt_of_recognise? found
      simp at shorter

/-- The pieces of a text whose first `taken` characters belong to an earlier span. -/
def scanBehind
    (recogniser : Recogniser α) :
    Nat →
    Text →
    List (Piece α)
  | _, [] => []
  | taken + 1, _ :: others =>
      recogniser.scanBehind taken others
  | 0, char :: others =>
      match recogniser.recognise? (char :: others) with
      | some (item, _) =>
          .marked item ::
            recogniser.scanBehind ((recogniser.source item).length - 1) others
      | none =>
          Piece.consChar char (recogniser.scanBehind 0 others)

/-- The pieces of a text from left to right, the earliest span first. -/
def scan
    (recogniser : Recogniser α)
    (text : Text) :
    List (Piece α) :=
  recogniser.scanBehind 0 text

/-- The characters of an earlier span are passed over. -/
theorem scanBehind_eq_scan_drop
    (recogniser : Recogniser α)
    (taken : Nat)
    (text : Text) :
    recogniser.scanBehind taken text = recogniser.scan (text.drop taken) := by
  induction text generalizing taken with
  | nil =>
      cases taken <;> simp [scan, scanBehind]
  | cons char others inductionHypothesis =>
      cases taken with
      | zero => rfl
      | succ taken => simpa [scanBehind] using inductionHypothesis taken

@[simp] theorem scan_nil
    (recogniser : Recogniser α) :
    recogniser.scan [] = [] :=
  rfl

/-- A span at the front is taken whole and the scan goes on behind it. -/
theorem scan_of_recognised
    (recogniser : Recogniser α)
    {text rest : Text}
    {item : α}
    (found : recogniser.recognise? text = some (item, rest)) :
    recogniser.scan text = .marked item :: recogniser.scan rest := by
  have behind := recogniser.rest_eq_drop found
  have positive := List.length_pos_iff.mpr (recogniser.source_ne_nil item)
  cases text with
  | nil =>
      simp [recogniser.recognise?_nil] at found
  | cons char others =>
      obtain ⟨size, sized⟩ : ∃ size, (recogniser.source item).length = size + 1 :=
        ⟨(recogniser.source item).length - 1, by omega⟩
      rw [scan, scanBehind, found, behind, sized]
      simp [scanBehind_eq_scan_drop, sized]

/-- Where no span is recognised the character is kept. -/
theorem scan_cons_of_not_recognised
    (recogniser : Recogniser α)
    {char : Char}
    {others : Text}
    (missed : recogniser.recognise? (char :: others) = none) :
    recogniser.scan (char :: others) = Piece.consChar char (recogniser.scan others) := by
  rw [scan, scanBehind, missed]
  rfl

/--
To show something of every text it is enough to show it of the empty text, of
a text with a span at its front from what follows the span, and of a text
without one from what follows its first character.
-/
theorem scan_induction
    (recogniser : Recogniser α)
    {motive : Text → Prop}
    (empty : motive [])
    (recognised : ∀ text item rest,
      recogniser.recognise? text = some (item, rest) → motive rest → motive text)
    (kept : ∀ char others,
      recogniser.recognise? (char :: others) = none → motive others →
        motive (char :: others))
    (text : Text) :
    motive text := by
  induction sized : text.length using Nat.strongRecOn generalizing text with
  | ind size inductionHypothesis =>
      subst sized
      match found : recogniser.recognise? text with
      | some (item, rest) =>
          exact recognised text item rest found
            (inductionHypothesis _ (recogniser.length_lt_of_recognise? found) rest rfl)
      | none =>
          cases text with
          | nil => exact empty
          | cons char others =>
              exact kept char others found
                (inductionHypothesis _ (by simp) others rfl)

/-- Replace each span of a text by what `write` makes of it. -/
def replace
    (recogniser : Recogniser α)
    (write : α → Text)
    (text : Text) :
    Text :=
  Piece.renderAll write (recogniser.scan text)

/-- The pieces of a text, each with the text it came from, make up the text. -/
theorem renderAll_source_scan
    (recogniser : Recogniser α)
    (text : Text) :
    Piece.renderAll recogniser.source (recogniser.scan text) = text := by
  induction text using recogniser.scan_induction with
  | empty =>
      rfl
  | recognised text item rest found inductionHypothesis =>
      rw [recogniser.scan_of_recognised found, Piece.renderAll_marked_cons,
        inductionHypothesis]
      exact (recogniser.eq_source_append found).symm
  | kept char others missed inductionHypothesis =>
      rw [recogniser.scan_cons_of_not_recognised missed, Piece.renderAll_consChar,
        inductionHypothesis]

end Recogniser

namespace Text

/--
The text before the first `fence` and the text after it. A blocked character
that comes before the fence ends the search.
-/
def splitAtFence?
    (fence : Text)
    (blocked : Char → Bool) :
    Text →
    Option (Text × Text)
  | [] => none
  | char :: rest =>
      match dropStart? fence (char :: rest) with
      | some after => some ([], after)
      | none =>
          if blocked char then
            none
          else
            (splitAtFence? fence blocked rest).map fun (before, after) =>
              (char :: before, after)

/-- What stands before the fence, the fence and what stands after it make up the text. -/
theorem eq_append_of_splitAtFence?
    {fence : Text}
    {blocked : Char → Bool}
    {text before after : Text}
    (found : splitAtFence? fence blocked text = some (before, after)) :
    text = before ++ fence ++ after := by
  induction text generalizing before with
  | nil =>
      simp [splitAtFence?] at found
  | cons char rest inductionHypothesis =>
      simp only [splitAtFence?] at found
      split at found
      · next tail starts =>
          obtain ⟨rfl, rfl⟩ := by simpa using found
          simpa using dropStart?_eq_some_iff.mp starts
      · split at found
        · simp at found
        · simp only [Option.map_eq_some_iff, Prod.mk.injEq] at found
          obtain ⟨⟨body, tail⟩, inner, rfl, rfl⟩ := found
          simpa using inductionHypothesis inner

end Text

end NotePublisher
