import NotePublisher.Proofs.Text.Fences

namespace NotePublisher

/-!
# Texts whose spans have been replaced

What is left of the spans of one kind once a scan has replaced each of them:
nothing, if what is written in their place neither completes an opening fence
nor holds one (`Fences.not_hasSpan_replace`).
-/

namespace Piece

variable {α : Type}

/-- Without spans among the pieces it does not matter how spans are written. -/
theorem renderAll_eq_of_markedItems_eq_nil
    {pieces : List (Piece α)}
    (unmarked : markedItems pieces = [])
    (write other : α → Text) :
    renderAll write pieces = renderAll other pieces := by
  induction pieces with
  | nil =>
      rfl
  | cons piece others inductionHypothesis =>
      cases piece with
      | plain run =>
          simp only [renderAll_plain_cons]
          rw [inductionHypothesis (by simpa [markedItems] using unmarked)]
      | marked item =>
          simp [markedItems] at unmarked

/-- A character in front of pieces goes in front of the pieces before a span. -/
theorem consChar_append_marked
    (char : Char)
    (earlier : List (Piece α))
    (item : α)
    (later : List (Piece α)) :
    consChar char (earlier ++ marked item :: later) =
      consChar char earlier ++ marked item :: later := by
  cases earlier with
  | nil =>
      rfl
  | cons piece others =>
      cases piece <;> rfl

/-- A span behind a character and pieces is among the pieces. -/
theorem exists_of_consChar_eq_append_marked
    {char : Char}
    {pieces earlier later : List (Piece α)}
    {item : α}
    (shape : consChar char pieces = earlier ++ marked item :: later) :
    ∃ front, pieces = front ++ marked item :: later := by
  cases earlier with
  | nil =>
      cases pieces with
      | nil =>
          cases shape
      | cons piece others =>
          cases piece <;> cases shape
  | cons first rest =>
      cases pieces with
      | nil =>
          obtain ⟨_, impossible⟩ := List.cons.inj shape
          simp at impossible
      | cons piece others =>
          cases piece with
          | plain run =>
              obtain ⟨_, rfl⟩ := List.cons.inj shape
              exact ⟨plain run :: rest, rfl⟩
          | marked other =>
              obtain ⟨_, behind⟩ := List.cons.inj shape
              exact ⟨rest, behind⟩

end Piece

namespace Recogniser

variable {α : Type} (recogniser : Recogniser α) (write : α → Text)

theorem replace_nil :
    recogniser.replace write [] = [] :=
  rfl

theorem replace_of_recognised
    {text rest : Text}
    {item : α}
    (found : recogniser.recognise? text = some (item, rest)) :
    recogniser.replace write text = write item ++ recogniser.replace write rest := by
  rw [replace, recogniser.scan_of_recognised found]
  rfl

theorem replace_cons_of_not_recognised
    {char : Char}
    {others : Text}
    (missed : recogniser.recognise? (char :: others) = none) :
    recogniser.replace write (char :: others) =
      char :: recogniser.replace write others := by
  rw [replace, recogniser.scan_cons_of_not_recognised missed, Piece.renderAll_consChar]
  rfl

/-- Up to a place before which no span begins a text is kept. -/
theorem replace_append_of_missed_before
    {before rest : Text}
    (missed : ∀ front char behind, before = front ++ char :: behind →
      recogniser.recognise? (char :: (behind ++ rest)) = none) :
    recogniser.replace write (before ++ rest) = before ++ recogniser.replace write rest := by
  induction before with
  | nil =>
      rfl
  | cons char others inductionHypothesis =>
      rw [List.cons_append, recogniser.replace_cons_of_not_recognised write
        (missed [] char others rfl), inductionHypothesis, List.cons_append]
      intro front other behind shape
      exact missed (char :: front) other behind (by rw [shape, List.cons_append])

theorem markedItems_scan_of_recognised
    {text rest : Text}
    {item : α}
    (found : recogniser.recognise? text = some (item, rest)) :
    Piece.markedItems (recogniser.scan text) =
      item :: Piece.markedItems (recogniser.scan rest) := by
  rw [recogniser.scan_of_recognised found]
  rfl

theorem markedItems_scan_cons_of_not_recognised
    {char : Char}
    {others : Text}
    (missed : recogniser.recognise? (char :: others) = none) :
    Piece.markedItems (recogniser.scan (char :: others)) =
      Piece.markedItems (recogniser.scan others) := by
  rw [recogniser.scan_cons_of_not_recognised missed, Piece.markedItems_consChar]

/-- Every span that a scan marks was recognised somewhere. -/
theorem exists_recognised_of_mem
    {text : Text}
    {item : α}
    (member : item ∈ Piece.markedItems (recogniser.scan text)) :
    ∃ front rest, recogniser.recognise? front = some (item, rest) := by
  induction text using recogniser.scan_induction with
  | empty =>
      simp [Piece.markedItems] at member
  | recognised text first rest found inductionHypothesis =>
      rw [recogniser.markedItems_scan_of_recognised found] at member
      rcases List.mem_cons.mp member with rfl | later
      · exact ⟨text, rest, found⟩
      · exact inductionHypothesis later
  | kept char others missed inductionHypothesis =>
      rw [recogniser.markedItems_scan_cons_of_not_recognised missed] at member
      exact inductionHypothesis member

/-- A text in which no span is found is left as it is. -/
theorem replace_eq_self_of_markedItems_eq_nil
    {text : Text}
    (unmarked : Piece.markedItems (recogniser.scan text) = []) :
    recogniser.replace write text = text := by
  rw [replace, Piece.renderAll_eq_of_markedItems_eq_nil unmarked write recogniser.source]
  exact recogniser.renderAll_source_scan text

/--
A span right behind a kept character of a word is written so that it does not
continue the word.
-/
def Shields (word : Text) : Prop :=
  ∀ char rest item after, char ∈ word →
    recogniser.recognise? (char :: rest) = none →
    recogniser.recognise? rest = some (item, after) →
    ∃ first others, write item = first :: others ∧ first ∉ word

/-- What continues a word behind a kept character was kept too. -/
theorem eq_append_of_replace_eq_append
    {word : Text}
    (shields : recogniser.Shields write word)
    {part : Text}
    (partOfWord : part ⊆ word)
    {char : Char}
    (member : char ∈ word)
    {rest inside : Text}
    (missed : recogniser.recognise? (char :: rest) = none)
    (shape : recogniser.replace write rest = part ++ inside) :
    ∃ behind, rest = part ++ behind ∧ recogniser.replace write behind = inside := by
  induction part generalizing char rest with
  | nil =>
      exact ⟨rest, rfl, shape⟩
  | cons second others inductionHypothesis =>
      have secondMember : second ∈ word := partOfWord (by simp)
      cases recognised : recogniser.recognise? rest with
      | some found =>
          obtain ⟨item, after⟩ := found
          obtain ⟨first, written, writeShape, first_not_mem⟩ :=
            shields char rest item after member missed recognised
          rw [recogniser.replace_of_recognised write recognised, writeShape] at shape
          obtain ⟨rfl, _⟩ := List.cons.inj shape
          exact (first_not_mem secondMember).elim
      | none =>
          cases rest with
          | nil =>
              simp [replace_nil] at shape
          | cons kept behind =>
              rw [recogniser.replace_cons_of_not_recognised write recognised] at shape
              obtain ⟨rfl, tailShape⟩ := List.cons.inj shape
              obtain ⟨last, rfl, lastShape⟩ :=
                inductionHypothesis
                  (List.Subset.trans (List.subset_cons_self _ _) partOfWord)
                  secondMember recognised tailShape
              exact ⟨last, rfl, lastShape⟩

/--
To relate each text to its replacement it is enough to relate the empty texts,
to keep a character, and to replace a span.
-/
theorem replace_induction
    {motive : Text → Text → Prop}
    (empty : motive [] [])
    (kept : ∀ char {old new}, motive old new → motive (char :: old) (char :: new))
    (recognised : ∀ {text item rest},
      recogniser.recognise? text = some (item, rest) →
      ∀ {old new}, motive old new →
        motive (recogniser.source item ++ old) (write item ++ new))
    (text : Text) :
    motive text (recogniser.replace write text) := by
  induction text using recogniser.scan_induction with
  | empty =>
      exact empty
  | recognised text item rest found inductionHypothesis =>
      have replaced := recognised found inductionHypothesis
      rw [← recogniser.eq_source_append found] at replaced
      rwa [recogniser.replace_of_recognised write found]
  | kept char others missed inductionHypothesis =>
      rw [recogniser.replace_cons_of_not_recognised write missed]
      exact kept char inductionHypothesis

/-- A scan that patches each span patches the text. -/
theorem patched_replace
    {words : List Text}
    {blocked : Char → Bool}
    (patches : ∀ {text item rest},
      recogniser.recognise? text = some (item, rest) →
      ∀ {old new}, Text.Patched words blocked old new →
        Text.Patched words blocked (recogniser.source item ++ old) (write item ++ new))
    (text : Text) :
    Text.Patched words blocked text (recogniser.replace write text) :=
  recogniser.replace_induction write .nil .keep patches text

end Recogniser

namespace Fences

variable {α : Type} {fences : Fences} {recogniser : Recogniser α}

/-- The recogniser finds a span where an opening fence is closed, and nowhere else. -/
def Reads (fences : Fences) (recogniser : Recogniser α) : Prop :=
  ∀ text, recogniser.recognise? text = none ↔
    ¬ ∃ inside, text = fences.opening ++ inside ∧ fences.Closes inside

/-- What is recognised between fences starts with an opener and is closed. -/
theorem Reads.closes_of_recognised
    (reads : fences.Reads recogniser)
    {text rest : Text}
    {item : α}
    (found : recogniser.recognise? text = some (item, rest)) :
    ∃ inside, text = fences.opening ++ inside ∧ fences.Closes inside := by
  by_contra absent
  rw [(reads text).mpr absent] at found
  simp at found

/-- A recogniser that looks for the two fences in turn reads them. -/
theorem reads_of_recognise?_eq
    (spanOf : Text × Text → α × Text)
    (recognise?_eq : ∀ text, recogniser.recognise? text =
      (Text.dropStart? fences.opening text).bind fun inside =>
        (Text.splitAtFence? fences.closing fences.blocked inside).map spanOf) :
    fences.Reads recogniser := by
  intro text
  rw [recognise?_eq]
  cases starts : Text.dropStart? fences.opening text with
  | none =>
      simp only [Option.bind_none, true_iff]
      rintro ⟨inside, shape, _⟩
      rw [Text.dropStart?_eq_some_iff.mpr shape] at starts
      simp at starts
  | some inside =>
      have shape := Text.dropStart?_eq_some_iff.mp starts
      rw [Option.bind_some, Option.map_eq_none_iff, splitAtFence?_eq_none_iff]
      constructor
      · rintro unclosed ⟨other, otherShape, closes⟩
        rw [shape] at otherShape
        exact unclosed (List.append_cancel_left otherShape ▸ closes)
      · intro absent closes
        exact absent ⟨inside, shape, closes⟩

/-- In a text without a span none is found. -/
theorem markedItems_scan_eq_nil
    (reads : fences.Reads recogniser)
    {text : Text}
    (absent : ¬ fences.HasSpan text) :
    Piece.markedItems (recogniser.scan text) = [] := by
  induction text with
  | nil =>
      rfl
  | cons char rest inductionHypothesis =>
      rw [hasSpan_cons_iff, not_or] at absent
      rw [recogniser.markedItems_scan_cons_of_not_recognised
        ((reads _).mpr absent.1)]
      exact inductionHypothesis absent.2

/-- A text without a span is left as it is. -/
theorem Reads.replace_eq_self
    (reads : fences.Reads recogniser)
    (write : α → Text)
    {text : Text}
    (absent : ¬ fences.HasSpan text) :
    recogniser.replace write text = text :=
  recogniser.replace_eq_self_of_markedItems_eq_nil write (markedItems_scan_eq_nil reads absent)

/-- A scan finds a span exactly if there is one. -/
theorem markedItems_scan_eq_nil_iff
    (reads : fences.Reads recogniser)
    {text : Text} :
    Piece.markedItems (recogniser.scan text) = [] ↔ ¬ fences.HasSpan text := by
  refine ⟨?_, markedItems_scan_eq_nil reads⟩
  intro unmarked
  induction text using recogniser.scan_induction with
  | empty =>
      exact not_hasSpan_nil
  | recognised text item rest found _ =>
      rw [recogniser.markedItems_scan_of_recognised found] at unmarked
      cases unmarked
  | kept char others missed inductionHypothesis =>
      rw [recogniser.markedItems_scan_cons_of_not_recognised missed] at unmarked
      rw [hasSpan_cons_iff, not_or]
      exact ⟨(reads _).mp missed, inductionHypothesis unmarked⟩

/-- Nothing is recognised in a text that is not closed. -/
theorem Reads.not_recognised_of_not_closes
    (reads : fences.Reads recogniser)
    {text rest : Text}
    {item : α}
    (unclosed : ¬ fences.Closes text) :
    recogniser.recognise? text ≠ some (item, rest) := by
  intro found
  obtain ⟨inside, rfl, closes⟩ := reads.closes_of_recognised found
  exact unclosed (closes_append _ fences.opening_unblocked closes)

-- Up to its first blocked character, a text that does not close is kept.
/-- A closing fence is not written where nothing is closed. -/
private theorem eq_append_of_replace_of_not_closes
    (reads : fences.Reads recogniser)
    (write : α → Text)
    {part text after : Text}
    (partOfClosing : part ⊆ fences.closing)
    (unclosed : ¬ fences.Closes text)
    (shape : recogniser.replace write text = part ++ after) :
    ∃ behind, text = part ++ behind := by
  induction part generalizing text with
  | nil =>
      exact ⟨text, rfl⟩
  | cons char others inductionHypothesis =>
      cases text with
      | nil =>
          simp [Recogniser.replace_nil] at shape
      | cons first rest =>
          cases recognised : recogniser.recognise? (first :: rest) with
          | some found =>
              exact (reads.not_recognised_of_not_closes unclosed recognised).elim
          | none =>
              rw [recogniser.replace_cons_of_not_recognised write recognised] at shape
              obtain ⟨rfl, restShape⟩ := List.cons.inj shape
              have unblocked := fences.closing_unblocked first (partOfClosing (by simp))
              rw [closes_cons_iff, not_or, not_and] at unclosed
              obtain ⟨behind, rfl⟩ :=
                inductionHypothesis
                  (List.Subset.trans (List.subset_cons_self _ _) partOfClosing)
                  (unclosed.2 unblocked) restShape
              exact ⟨behind, rfl⟩

/-- Replacing spans closes no text that was not closed before. -/
theorem not_closes_replace
    (reads : fences.Reads recogniser)
    (write : α → Text)
    {text : Text}
    (unclosed : ¬ fences.Closes text) :
    ¬ fences.Closes (recogniser.replace write text) := by
  induction text using recogniser.scan_induction with
  | empty =>
      exact not_closes_nil
  | recognised text item rest found inductionHypothesis =>
      exact (reads.not_recognised_of_not_closes unclosed found).elim
  | kept char others missed inductionHypothesis =>
      intro closes
      have whole := recogniser.replace_cons_of_not_recognised write missed
      rw [whole, closes_cons_iff] at closes
      rcases closes with ⟨after, shape⟩ | ⟨unblocked, later⟩
      · obtain ⟨behind, textShape⟩ :=
          eq_append_of_replace_of_not_closes reads write (List.Subset.refl _)
            unclosed (whole.trans shape)
        exact unclosed (textShape ▸ closes_of_front behind)
      · rw [closes_cons_iff, not_or, not_and] at unclosed
        exact inductionHypothesis (unclosed.2 unblocked) later

/-- A fence of one character written twice takes in a third one in front of it. -/
theorem shields_of_doubled
    (reads : fences.Reads recogniser)
    {fenceChar : Char}
    (doubled : fences.opening = [fenceChar, fenceChar])
    (write : α → Text) :
    recogniser.Shields write fences.opening := by
  intro char rest item after member missed recognised
  obtain ⟨inside, rfl, closes⟩ := reads.closes_of_recognised recognised
  have same : char = fenceChar := by simpa [doubled] using member
  subst same
  refine ((reads _).mp missed ⟨char :: inside, by simp [doubled], ?_⟩).elim
  exact closes_cons_iff.mpr (.inr ⟨fences.opening_unblocked char member, closes⟩)

/-- Text that may be put before any text without bringing a span about. -/
def Harmless (fences : Fences) (put : Text) : Prop :=
  ∀ text, fences.HasSpan (put ++ text) → fences.HasSpan text

theorem harmless_nil :
    fences.Harmless [] := by
  intro text hasSpan
  exact hasSpan

/-- What holds no opener and cannot begin one at its end is harmless. -/
theorem harmless_of_ends
    {put : Text}
    (absent : ¬ fences.opening <:+: put)
    (last_not_mem : ∀ char ∈ put.getLast?, char ∉ fences.opening) :
    fences.Harmless put := by
  rintro text ⟨before, inside, shape, closes⟩
  obtain ⟨between, textShape⟩ :=
    Text.eq_append_of_front_append_eq absent last_not_mem shape
  exact ⟨between, inside, textShape, closes⟩

/-- An opening fence in front of what was kept is not closed by what was written. -/
theorem not_span_front_of_kept
    (reads : fences.Reads recogniser)
    {write : α → Text}
    (shields : recogniser.Shields write fences.opening)
    {char : Char}
    {others : Text}
    (missed : recogniser.recognise? (char :: others) = none) :
    ¬ ∃ inside, char :: recogniser.replace write others = fences.opening ++ inside ∧
      fences.Closes inside := by
  rintro ⟨inside, shape, closes⟩
  -- The opening fence was kept, so it was there and not closed before.
  obtain ⟨first, part, openingShape⟩ :=
    List.exists_cons_of_ne_nil fences.opening_ne_nil
  rw [openingShape] at shape
  obtain ⟨rfl, tailShape⟩ := List.cons.inj shape
  have partOfOpening : part ⊆ fences.opening := by simp [openingShape]
  obtain ⟨behind, rfl, insideShape⟩ :=
    recogniser.eq_append_of_replace_eq_append write shields partOfOpening
      (by simp [openingShape]) missed tailShape
  have unclosed : ¬ fences.Closes behind := by
    intro closed
    exact (reads _).mp missed ⟨behind, by simp [openingShape], closed⟩
  exact not_closes_replace reads write unclosed (insideShape ▸ closes)

/-- After the spans of a text have been replaced it holds none. -/
theorem not_hasSpan_replace
    (reads : fences.Reads recogniser)
    {write : α → Text}
    (shields : recogniser.Shields write fences.opening)
    {text : Text}
    (harmless : ∀ item ∈ Piece.markedItems (recogniser.scan text),
      fences.Harmless (write item)) :
    ¬ fences.HasSpan (recogniser.replace write text) := by
  induction text using recogniser.scan_induction with
  | empty =>
      exact not_hasSpan_nil
  | recognised text item rest found inductionHypothesis =>
      rw [recogniser.markedItems_scan_of_recognised found] at harmless
      rw [recogniser.replace_of_recognised write found]
      intro hasSpan
      refine inductionHypothesis ?_ (harmless item (by simp) _ hasSpan)
      intro other member
      exact harmless other (List.mem_cons_of_mem _ member)
  | kept char others missed inductionHypothesis =>
      rw [recogniser.markedItems_scan_cons_of_not_recognised missed] at harmless
      rw [recogniser.replace_cons_of_not_recognised write missed, hasSpan_cons_iff, not_or]
      exact ⟨not_span_front_of_kept reads shields missed, inductionHypothesis harmless⟩

/--
Some span is written so that an opening fence in it is closed, by itself or by
what follows it.
-/
def WritesSpan
    (fences : Fences)
    (write : α → Text)
    (pieces : List (Piece α)) :
    Prop :=
  ∃ earlier item later before inside,
    pieces = earlier ++ .marked item :: later ∧
      write item = before ++ (fences.opening ++ inside) ∧
      fences.Closes (inside ++ Piece.renderAll write later)

/-- A span among the pieces is written so, or one behind the first piece is. -/
theorem writesSpan_marked_cons_iff
    {write : α → Text}
    {item : α}
    {pieces : List (Piece α)} :
    fences.WritesSpan write (.marked item :: pieces) ↔
      (∃ before inside, write item = before ++ (fences.opening ++ inside) ∧
        fences.Closes (inside ++ Piece.renderAll write pieces)) ∨
      fences.WritesSpan write pieces := by
  constructor
  · rintro ⟨earlier, other, later, before, inside, shape, written, closes⟩
    cases earlier with
    | nil =>
        obtain ⟨same, rfl⟩ := List.cons.inj shape
        obtain rfl := Piece.marked.inj same
        exact .inl ⟨before, inside, written, closes⟩
    | cons first others =>
        obtain ⟨_, rfl⟩ := List.cons.inj shape
        exact .inr ⟨others, other, later, before, inside, rfl, written, closes⟩
  · rintro (⟨before, inside, written, closes⟩ | ⟨earlier, other, later, before, inside, rfl, rest⟩)
    · exact ⟨[], item, pieces, before, inside, rfl, written, closes⟩
    · exact ⟨.marked item :: earlier, other, later, before, inside, rfl, rest⟩

/-- A character in front of the pieces is in no span. -/
theorem writesSpan_consChar_iff
    {write : α → Text}
    {char : Char}
    {pieces : List (Piece α)} :
    fences.WritesSpan write (Piece.consChar char pieces) ↔ fences.WritesSpan write pieces := by
  constructor
  · rintro ⟨earlier, item, later, before, inside, shape, written⟩
    obtain ⟨front, frontShape⟩ := Piece.exists_of_consChar_eq_append_marked shape
    exact ⟨front, item, later, before, inside, frontShape, written⟩
  · rintro ⟨earlier, item, later, before, inside, rfl, written⟩
    refine ⟨Piece.consChar char earlier, item, later, before, inside, ?_, written⟩
    exact Piece.consChar_append_marked char earlier item later

/--
After the spans of a text have been replaced it holds a span exactly if one was
written, provided that no opening fence reaches across the end of what is
written.
-/
theorem hasSpan_replace_iff
    (reads : fences.Reads recogniser)
    {write : α → Text}
    (shields : recogniser.Shields write fences.opening)
    (last_not_mem : ∀ item, ∀ char ∈ (write item).getLast?, char ∉ fences.opening)
    {text : Text} :
    fences.HasSpan (recogniser.replace write text) ↔
      fences.WritesSpan write (recogniser.scan text) := by
  induction text using recogniser.scan_induction with
  | empty =>
      simp [Recogniser.replace_nil, not_hasSpan_nil, WritesSpan]
  | recognised text item rest found inductionHypothesis =>
      rw [recogniser.replace_of_recognised write found, recogniser.scan_of_recognised found,
        writesSpan_marked_cons_iff, ← inductionHypothesis]
      constructor
      · rintro ⟨before, inside, shape, closes⟩
        rcases Text.front_or_behind_of_append_eq (last_not_mem item) shape with
            ⟨behind, written, rfl⟩ | ⟨between, later⟩
        · exact .inl ⟨before, behind, written, closes⟩
        · exact .inr ⟨between, inside, later, closes⟩
      · rintro (⟨before, inside, written, closes⟩ | later)
        · exact ⟨before, inside ++ recogniser.replace write rest, by simp [written], closes⟩
        · exact hasSpan_append _ later
  | kept char others missed inductionHypothesis =>
      rw [recogniser.replace_cons_of_not_recognised write missed, hasSpan_cons_iff,
        recogniser.scan_cons_of_not_recognised missed, writesSpan_consChar_iff,
        ← inductionHypothesis]
      exact or_iff_right (not_span_front_of_kept reads shields missed)

end Fences

end NotePublisher
