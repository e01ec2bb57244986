import NotePublisher.Proofs.Text.Replacement

namespace NotePublisher

/-!
# Replacing spans part by part

Where no span reaches across, both sides of a text are replaced by themselves:
in front of what no span reaches into (`Recogniser.StopsAt`), behind a text in
which no span begins (`Recogniser.replace_append_of_missed`), and behind one in
which each opening fence is closed (`Fences.replace_append_of_allClosed`).
Spans that no line feed may stand in stop at line feeds, so what stands on
lines of its own is replaced by itself (`Recogniser.replace_onOwnLines`).
-/

namespace Text

/-- What stands between the two texts begins and ends together with lines. -/
structure OnOwnLines (before after : Text) : Prop where
  before : before = [] ∨ ∃ lines, before = lines ++ ['\n']
  after : after = [] ∨ ∃ lines, after = '\n' :: lines

/-- The start of a text lies in front of a character that it does not hold. -/
theorem dropStart?_append_cons
    {start : Text}
    {char : Char}
    (char_not_mem : char ∉ start)
    (front rest : Text) :
    dropStart? start (front ++ char :: rest) =
      (dropStart? start front).map (· ++ char :: rest) := by
  induction start generalizing front with
  | nil =>
      rfl
  | cons first others inductionHypothesis =>
      rw [List.mem_cons, not_or] at char_not_mem
      cases front with
      | nil =>
          simp [dropStart?, Ne.symm char_not_mem.1]
      | cons second behind =>
          by_cases same : first = second
          · simpa [dropStart?, same] using inductionHypothesis char_not_mem.2 behind
          · simp [dropStart?, same]

/-- A word begins no text that begins with a character it does not hold. -/
theorem cons_ne_append
    {word : Text}
    (word_ne_nil : word ≠ [])
    {char : Char}
    (char_not_mem : char ∉ word)
    (rest after : Text) :
    char :: rest ≠ word ++ after := by
  intro shape
  obtain ⟨first, others, rfl⟩ := List.exists_cons_of_ne_nil word_ne_nil
  obtain ⟨rfl, _⟩ := List.cons.inj shape
  exact char_not_mem List.mem_cons_self

/-- The search for a fence does not go beyond a place from which it finds none. -/
theorem splitAtFence?_append_cons
    {fence : Text}
    {blocked : Char → Bool}
    {char : Char}
    (char_not_mem : char ∉ fence)
    {rest : Text}
    (missed : splitAtFence? fence blocked (char :: rest) = none)
    (front : Text) :
    splitAtFence? fence blocked (front ++ char :: rest) =
      (splitAtFence? fence blocked front).map fun (before, after) =>
        (before, after ++ char :: rest) := by
  induction front with
  | nil =>
      exact missed
  | cons first others inductionHypothesis =>
      have starts := dropStart?_append_cons char_not_mem (first :: others) rest
      rw [List.cons_append] at starts ⊢
      rw [splitAtFence?, splitAtFence?, starts, inductionHypothesis]
      cases dropStart? fence (first :: others) with
      | some after =>
          rfl
      | none =>
          cases blocked first with
          | true =>
              rfl
          | false =>
              cases splitAtFence? fence blocked others <;> rfl

end Text

namespace Recogniser

variable {α : Type} (recogniser : Recogniser α) (write : α → Text)

/-- What is recognised in front of a text does not depend on the text. -/
def StopsAt (behind : Text) : Prop :=
  ∀ front, recogniser.recognise? (front ++ behind) =
    (recogniser.recognise? front).map fun (item, rest) => (item, rest ++ behind)

/-- No span reaches across a line feed. -/
def StaysInLine : Prop :=
  ∀ rest, recogniser.StopsAt ('\n' :: rest)

variable {recogniser}

/--
To show something of every text in front of one that no span reaches into, it
is enough to follow a scan, which finds in the front what it finds in the whole.
-/
theorem StopsAt.front_induction
    {behind : Text}
    (stops : recogniser.StopsAt behind)
    {motive : Text → Prop}
    (empty : motive [])
    (recognised : ∀ text item rest,
      recogniser.recognise? text = some (item, rest) →
      recogniser.recognise? (text ++ behind) = some (item, rest ++ behind) →
        motive rest → motive text)
    (kept : ∀ char others,
      recogniser.recognise? (char :: others) = none →
      recogniser.recognise? (char :: (others ++ behind)) = none →
        motive others → motive (char :: others))
    (front : Text) :
    motive front := by
  induction front using recogniser.scan_induction with
  | empty =>
      exact empty
  | recognised text item rest found inductionHypothesis =>
      exact recognised text item rest found ((stops text).trans (by rw [found]; rfl))
        inductionHypothesis
  | kept char others missed inductionHypothesis =>
      exact kept char others missed ((stops (char :: others)).trans (by rw [missed]; rfl))
        inductionHypothesis

/-- In front of a text that no span reaches into, what stands there is replaced by itself. -/
theorem StopsAt.replace_append
    {behind : Text}
    (stops : recogniser.StopsAt behind)
    (front : Text) :
    recogniser.replace write (front ++ behind) =
      recogniser.replace write front ++ recogniser.replace write behind := by
  induction front using stops.front_induction with
  | empty =>
      rfl
  | recognised text item rest found foundStill inductionHypothesis =>
      rw [recogniser.replace_of_recognised write foundStill,
        recogniser.replace_of_recognised write found, inductionHypothesis,
        List.append_assoc]
  | kept char others missed missedStill inductionHypothesis =>
      rw [List.cons_append, recogniser.replace_cons_of_not_recognised write missedStill,
        recogniser.replace_cons_of_not_recognised write missed, inductionHypothesis,
        List.cons_append]

/-- In front of a text that no span reaches into, the spans are those of the front. -/
theorem StopsAt.markedItems_append
    {behind : Text}
    (stops : recogniser.StopsAt behind)
    (front : Text) :
    Piece.markedItems (recogniser.scan (front ++ behind)) =
      Piece.markedItems (recogniser.scan front) ++
        Piece.markedItems (recogniser.scan behind) := by
  induction front using stops.front_induction with
  | empty =>
      rfl
  | recognised text item rest found foundStill inductionHypothesis =>
      rw [recogniser.markedItems_scan_of_recognised foundStill,
        recogniser.markedItems_scan_of_recognised found, inductionHypothesis, List.cons_append]
  | kept char others missed missedStill inductionHypothesis =>
      rw [List.cons_append, recogniser.markedItems_scan_cons_of_not_recognised missedStill,
        recogniser.markedItems_scan_cons_of_not_recognised missed, inductionHypothesis]

/-- Behind a text in which no span begins, what stands there is replaced by itself. -/
theorem replace_append_of_missed
    {front : Text}
    (missed : ∀ char ∈ front, ∀ rest, recogniser.recognise? (char :: rest) = none)
    (behind : Text) :
    recogniser.replace write (front ++ behind) = front ++ recogniser.replace write behind := by
  refine recogniser.replace_append_of_missed_before write fun before char after shape => ?_
  exact missed char (by rw [shape]; exact List.mem_append_right before List.mem_cons_self) _

/-- A line feed in front of a text is kept. -/
theorem StaysInLine.replace_cons
    (staysInLine : recogniser.StaysInLine)
    (rest : Text) :
    recogniser.replace write ('\n' :: rest) = '\n' :: recogniser.replace write rest := by
  have missed := staysInLine rest []
  rw [recogniser.recognise?_nil] at missed
  exact recogniser.replace_cons_of_not_recognised write missed

/-- A line feed behind a text is kept. -/
theorem StaysInLine.replace_concat
    (staysInLine : recogniser.StaysInLine)
    (front : Text) :
    recogniser.replace write (front ++ ['\n']) = recogniser.replace write front ++ ['\n'] := by
  rw [(staysInLine []).replace_append, staysInLine.replace_cons, recogniser.replace_nil]

/-- What stands on lines of its own is replaced by itself. -/
theorem StaysInLine.replace_onOwnLines
    (staysInLine : recogniser.StaysInLine)
    {before after : Text}
    (ownLines : Text.OnOwnLines before after)
    (part : Text) :
    recogniser.replace write (before ++ (part ++ after)) =
      recogniser.replace write before ++
        (recogniser.replace write part ++ recogniser.replace write after) := by
  have behind : recogniser.replace write (part ++ after) =
      recogniser.replace write part ++ recogniser.replace write after := by
    rcases ownLines.after with rfl | ⟨lines, rfl⟩
    · simp [recogniser.replace_nil]
    · exact (staysInLine lines).replace_append write part
  rw [← behind]
  rcases ownLines.before with rfl | ⟨lines, rfl⟩
  · rfl
  · calc
      recogniser.replace write (lines ++ ['\n'] ++ (part ++ after))
          = recogniser.replace write (lines ++ '\n' :: (part ++ after)) := by
        simp
      _ = recogniser.replace write lines ++ '\n' :: recogniser.replace write (part ++ after) := by
        rw [(staysInLine _).replace_append, staysInLine.replace_cons]
      _ = recogniser.replace write (lines ++ ['\n']) ++ recogniser.replace write (part ++ after) := by
        rw [staysInLine.replace_concat]
        simp

/-- What stood on lines of its own still does when the text around it has been replaced. -/
theorem StaysInLine.onOwnLines_replace
    (staysInLine : recogniser.StaysInLine)
    {before after : Text}
    (ownLines : Text.OnOwnLines before after) :
    Text.OnOwnLines (recogniser.replace write before) (recogniser.replace write after) where
  before := by
    rcases ownLines.before with rfl | ⟨lines, rfl⟩
    · exact .inl rfl
    · exact .inr ⟨_, staysInLine.replace_concat write lines⟩
  after := by
    rcases ownLines.after with rfl | ⟨lines, rfl⟩
    · exact .inl rfl
    · exact .inr ⟨_, staysInLine.replace_cons write lines⟩

end Recogniser

namespace Fences

variable {α : Type} {fences : Fences} {recogniser : Recogniser α}

/-- No span begins with a character that is not of the opening fence. -/
theorem Reads.missed_of_not_mem
    (reads : fences.Reads recogniser)
    {char : Char}
    (char_not_mem : char ∉ fences.opening)
    (rest : Text) :
    recogniser.recognise? (char :: rest) = none := by
  apply (reads _).mpr
  rintro ⟨inside, shape, _⟩
  exact Text.cons_ne_append fences.opening_ne_nil char_not_mem rest inside shape

/--
No span reaches into a text that begins with a character of neither fence and
in which none is closed.
-/
def Isolates (fences : Fences) (recogniser : Recogniser α) : Prop :=
  ∀ {char rest}, char ∉ fences.opening → char ∉ fences.closing →
    ¬ fences.Closes (char :: rest) → recogniser.StopsAt (char :: rest)

/-- A recogniser that looks for the two fences in turn looks no further than the closing one. -/
theorem isolates_of_recognise?_eq
    (spanOf : Text × Text → α × Text)
    (recognise?_eq : ∀ text, recogniser.recognise? text =
      (Text.dropStart? fences.opening text).bind fun inside =>
        (Text.splitAtFence? fences.closing fences.blocked inside).map spanOf)
    (spanOf_append : ∀ {char}, char ∉ fences.closing → ∀ body after rest,
      spanOf (body, after ++ char :: rest) =
        ((spanOf (body, after)).1, (spanOf (body, after)).2 ++ char :: rest)) :
    fences.Isolates recogniser := by
  intro char rest notInOpening notInClosing unclosed front
  rw [recognise?_eq, recognise?_eq, Text.dropStart?_append_cons notInOpening]
  cases Text.dropStart? fences.opening front with
  | none =>
      rfl
  | some inside =>
      have within := Text.splitAtFence?_append_cons notInClosing
        (splitAtFence?_eq_none_iff.mpr unclosed) inside
      simp only [Option.map_some, Option.bind_some, within]
      cases Text.splitAtFence? fences.closing fences.blocked inside with
      | none =>
          rfl
      | some found =>
          simp [spanOf_append notInClosing]

/--
A recogniser that looks for the two fences in turn finds what it finds however
the text goes on.
-/
theorem recognise?_append_of_eq
    (spanOf : Text × Text → α × Text)
    (recognise?_eq : ∀ text, recogniser.recognise? text =
      (Text.dropStart? fences.opening text).bind fun inside =>
        (Text.splitAtFence? fences.closing fences.blocked inside).map spanOf)
    (spanOf_append : ∀ body after behind,
      spanOf (body, after ++ behind) =
        ((spanOf (body, after)).1, (spanOf (body, after)).2 ++ behind))
    {text rest : Text}
    {item : α}
    (found : recogniser.recognise? text = some (item, rest))
    (behind : Text) :
    recogniser.recognise? (text ++ behind) = some (item, rest ++ behind) := by
  rw [recognise?_eq, Option.bind_eq_some_iff] at found
  obtain ⟨inside, starts, fenced⟩ := found
  obtain ⟨⟨body, after⟩, within, span⟩ := Option.map_eq_some_iff.mp fenced
  have startsStill : Text.dropStart? fences.opening (text ++ behind) = some (inside ++ behind) := by
    rw [Text.dropStart?_eq_some_iff] at starts ⊢
    rw [starts, List.append_assoc]
  have withinStill := Text.splitAtFence?_append fences.closing_ne_nil within behind
  rw [recognise?_eq, startsStill, Option.bind_some, withinStill, Option.map_some, spanOf_append,
    span]

/-- Spans that no line feed may stand in stay in their line. -/
theorem Isolates.staysInLine
    (isolates : fences.Isolates recogniser)
    (isBlocked : fences.blocked '\n' = true) :
    recogniser.StaysInLine := by
  intro rest
  have notInClosing : '\n' ∉ fences.closing := by
    intro member
    simp [fences.closing_unblocked _ member] at isBlocked
  apply isolates
  · intro member
    simp [fences.opening_unblocked _ member] at isBlocked
  · exact notInClosing
  · rw [closes_cons_iff]
    rintro (⟨after, shape⟩ | ⟨unblocked, _⟩)
    · exact Text.cons_ne_append fences.closing_ne_nil notInClosing rest after shape
    · simp [isBlocked] at unblocked

/-- Between texts that share no character with the fences, a text is replaced by itself. -/
theorem Isolates.replace_between
    (isolates : fences.Isolates recogniser)
    (reads : fences.Reads recogniser)
    (write : α → Text)
    {left right : Text}
    (leftApart : ∀ char ∈ left, char ∉ fences.opening)
    (rightApart : ∀ char ∈ right, char ∉ fences.opening ∧ char ∉ fences.closing)
    (body : Text) :
    recogniser.replace write (left ++ (body ++ right)) =
      left ++ (recogniser.replace write body ++ right) := by
  have kept : recogniser.replace write right = right := by
    have missed := recogniser.replace_append_of_missed write
      (fun char member => reads.missed_of_not_mem (rightApart char member).1) []
    simpa [recogniser.replace_nil] using missed
  rw [recogniser.replace_append_of_missed write
    fun char member => reads.missed_of_not_mem (leftApart char member)]
  cases right with
  | nil =>
      simp
  | cons char rest =>
      obtain ⟨⟨notInOpening, notInClosing⟩, _⟩ := List.forall_mem_cons.mp rightApart
      have unclosed : ¬ fences.Closes (char :: rest) := by
        rintro ⟨before, after, shape, _⟩
        obtain ⟨first, others, closingShape⟩ := List.exists_cons_of_ne_nil fences.closing_ne_nil
        have member : first ∈ char :: rest := by simp [shape, closingShape]
        exact (rightApart first member).2 (by simp [closingShape])
      rw [(isolates notInOpening notInClosing unclosed).replace_append, kept]

/-- Every opening fence of a text is closed in it. -/
def AllClosed (fences : Fences) (text : Text) : Prop :=
  ∀ before inside, text = before ++ (fences.opening ++ inside) → fences.Closes inside

/-- Whether every opening fence is closed can be read off what follows each of them. -/
theorem allClosed_iff
    {text : Text} :
    fences.AllClosed text ↔
      ∀ part ∈ text.tails, ∀ inside ∈ Text.dropStart? fences.opening part,
        fences.Closes inside := by
  constructor
  · intro allClosed part isTail inside starts
    obtain ⟨before, rfl⟩ := (List.mem_tails _ _).mp isTail
    rw [Text.dropStart?_eq_some_iff.mp starts] at allClosed
    exact allClosed before inside rfl
  · intro closed before inside shape
    apply closed (fences.opening ++ inside)
    · exact (List.mem_tails _ _).mpr ⟨before, shape.symm⟩
    · exact Text.dropStart?_eq_some_iff.mpr rfl

instance decidableCloses (text : Text) : Decidable (fences.Closes text) :=
  decidable_of_iff (Text.splitAtFence? fences.closing fences.blocked text ≠ none)
    (splitAtFence?_eq_none_iff.not.trans not_not)

instance decidableAllClosed (text : Text) : Decidable (fences.AllClosed text) :=
  decidable_of_iff _ allClosed_iff.symm

theorem AllClosed.of_suffix
    {text rest : Text}
    (allClosed : fences.AllClosed text)
    (suffix : rest <:+ text) :
    fences.AllClosed rest := by
  obtain ⟨front, rfl⟩ := suffix
  intro before inside shape
  apply allClosed (front ++ before) inside
  simp [shape]

/--
Behind a text in which every opening fence is closed, and whose end no opening
fence reaches across, what follows is replaced by itself.
-/
theorem replace_append_of_allClosed
    (reads : fences.Reads recogniser)
    (foundStill : ∀ {text item rest}, recogniser.recognise? text = some (item, rest) →
      ∀ behind, recogniser.recognise? (text ++ behind) = some (item, rest ++ behind))
    (write : α → Text)
    {front : Text}
    (allClosed : fences.AllClosed front)
    (last_not_mem : ∀ char ∈ front.getLast?, char ∉ fences.opening)
    (behind : Text) :
    recogniser.replace write (front ++ behind) =
      recogniser.replace write front ++ recogniser.replace write behind := by
  induction front using recogniser.scan_induction with
  | empty =>
      rfl
  | recognised text item rest found inductionHypothesis =>
      have suffix : rest <:+ text :=
        ⟨recogniser.source item, (recogniser.eq_source_append found).symm⟩
      have lastOfRest : ∀ char ∈ rest.getLast?, char ∉ fences.opening := by
        intro char last
        apply last_not_mem char
        obtain ⟨before, rfl⟩ := suffix
        rw [List.getLast?_append, Option.mem_def.mp last]
        rfl
      rw [recogniser.replace_of_recognised write (foundStill found behind),
        recogniser.replace_of_recognised write found,
        inductionHypothesis (allClosed.of_suffix suffix) lastOfRest, List.append_assoc]
  | kept char others missed inductionHypothesis =>
      have lastOfOthers : ∀ last ∈ others.getLast?, last ∉ fences.opening := by
        intro last isLast
        apply last_not_mem last
        rw [List.getLast?_cons, Option.mem_def.mp isLast]
        rfl
      have missedStill : recogniser.recognise? (char :: (others ++ behind)) = none := by
        apply (reads _).mpr
        rintro ⟨inside, shape, _⟩
        rw [← List.cons_append] at shape
        rcases List.append_eq_append_iff.mp shape with
            ⟨part, openingShape, _⟩ | ⟨part, frontShape, _⟩
        · -- The opening fence would reach across the end of the front.
          apply last_not_mem ((char :: others).getLast (by simp))
          · rw [List.getLast?_eq_getLast_of_ne_nil (by simp)]
            rfl
          · rw [openingShape]
            exact List.mem_append_left _ (List.getLast_mem (by simp))
        · exact (reads _).mp missed ⟨part, frontShape, allClosed [] part frontShape⟩
      rw [List.cons_append, recogniser.replace_cons_of_not_recognised write missedStill,
        recogniser.replace_cons_of_not_recognised write missed,
        inductionHypothesis (allClosed.of_suffix (List.suffix_cons _ _)) lastOfOthers,
        List.cons_append]

end Fences

end NotePublisher
