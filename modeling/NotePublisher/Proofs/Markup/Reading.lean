import NotePublisher.Proofs.Markup.LinkBytes

namespace NotePublisher

/-!
# Reading links with a cursor

A cursor that reads a link passes the bytes of its body up to where the body
ends, and takes the link exactly if its bytes have one there
(`InlineNode.readLink_eq`). Elsewhere it moves on by one byte, and may come to
stand within a character, where no link opens. Behind each character, and
behind each link, it stands between two characters again, so the nodes that it
reads are those of a scan character by character
(`InlineNode.parse_eq_ofPieces`).
-/

namespace ByteCursor

/-- The bytes that a cursor stands among, as a list. -/
def list (cursor : ByteCursor) : List UInt8 :=
  cursor.bytes.data.toList

@[simp] theorem list_advance
    (cursor : ByteCursor)
    (count : Nat) :
    (cursor.advance count).list = cursor.list :=
  rfl

theorem peek?_eq (cursor : ByteCursor) :
    cursor.peek? = cursor.list[cursor.position]? := by
  rw [peek?, list, Array.getElem?_toList]

/-- A cursor has two equal characters ahead exactly if their bytes stand where it does. -/
theorem startsWith_doubled_iff
    {cursor : ByteCursor}
    {char : Char}
    (ascii : char.utf8Size = 1) :
    cursor.startsWith [char, char] = true ↔
      cursor.list[cursor.position]? = some char.toUInt8 ∧
        cursor.list[cursor.position + 1]? = some char.toUInt8 := by
  have encoded : (Utf8.encode [char, char]).data.toList = [char.toUInt8, char.toUInt8] := by
    change Text.bytes [char, char] = _
    rw [Text.bytes_cons_ascii ascii, Text.bytes_cons_ascii ascii]
    rfl
  rw [startsWith, encoded, list, Array.getElem?_toList, Array.getElem?_toList]
  simp only [holdsAt, Bool.and_true, Bool.and_eq_true, decide_eq_true_eq]
  constructor
  · exact And.right
  · rintro ⟨first, second⟩
    have within := (Array.getElem?_eq_some_iff.mp first).1
    exact ⟨Nat.le_of_lt within, first, second⟩

end ByteCursor

namespace InlineNode

open ByteCursor WikiLink

section Body

variable {cursor : ByteCursor}

/--
A body does not end at a cursor exactly if neither its line nor closing brackets
end it there.
-/
theorem endsBody_eq_false_iff :
    endsBody cursor = false ↔
      (∃ byte, cursor.list[cursor.position]? = some byte ∧ byte ≠ '\n'.toUInt8 ∧
        byte ≠ '\r'.toUInt8) ∧
      ¬ (cursor.list[cursor.position]? = some ']'.toUInt8 ∧
        cursor.list[cursor.position + 1]? = some ']'.toUInt8) := by
  rw [endsBody, Bool.or_eq_false_iff, ← Bool.not_eq_true (startsWith _ _), closing,
    startsWith_doubled_iff (by decide), atLineEnd, peek?_eq]
  refine and_congr_left fun _ => ?_
  cases cursor.list[cursor.position]? with
  | none => simp
  | some byte => simp

theorem endsBody_of_atEnd
    (ended : cursor.atEnd = true) :
    endsBody cursor = true := by
  simp [endsBody, atLineEnd, peek?_eq_none_iff.mpr ended]

theorem atBar_iff :
    atBar cursor = true ↔ cursor.list[cursor.position]? = some '|'.toUInt8 := by
  rw [atBar, decide_eq_true_eq, peek?_eq]

/-- A bar does not end a body. -/
theorem endsBody_eq_false_of_atBar
    (bar : atBar cursor = true) :
    endsBody cursor = false := by
  rw [endsBody_eq_false_iff, atBar_iff.mp bar]
  exact ⟨⟨_, rfl, by decide, by decide⟩, fun closes => absurd closes.1 (by decide)⟩

/-- The target of a body ends at its first bar, and the body where it first can. -/
theorem exists_readLabel
    (inside : ByteCursor)
    {targetEnd : ByteCursor}
    (toTarget : inside.skipUntil (fun ahead => endsBody ahead || atBar ahead) = targetEnd) :
    ∃ count,
      let stop := inside.position + count
      let bar? := firstBar? inside.list inside.position stop
      endsBody (inside.advance count) = true ∧
        (∀ passed < count, endsBody (inside.advance passed) = false) ∧
        targetEnd.position = bar?.getD stop ∧
        readLabel targetEnd = (bar?.map fun bar => ⟨bar + 1, stop⟩, inside.advance count) := by
  obtain ⟨first, moved, arrives, passes⟩ :=
    inside.exists_skipUntil_eq_advance fun ahead => endsBody ahead || atBar ahead
  obtain rfl := moved.symm.trans toTarget
  simp only [Bool.or_eq_false_iff] at passes
  have noBar (distance : Nat) (before : distance < first) :
      inside.list[inside.position + distance]? ≠ some '|'.toUInt8 := by
    intro found
    have bar : atBar (inside.advance distance) = true := atBar_iff.mpr found
    exact Bool.false_ne_true ((passes distance before).2.symm.trans bar)
  cases bar : atBar (inside.advance first) with
  | false =>
      have ends : endsBody (inside.advance first) = true := by
        rcases arrives with ended | stopped
        · exact endsBody_of_atEnd ended
        · simpa [bar] using stopped
      refine ⟨first, ends, fun passed before => (passes passed before).1, ?_, ?_⟩
      · rw [firstBar?_eq_none noBar]
        rfl
      · rw [firstBar?_eq_none noBar, readLabel, bar]
        rfl
  | true =>
      obtain ⟨second, movedOn, arrivesThen, passesThen⟩ :=
        (inside.advance (first + 1)).exists_skipUntil_eq_advance endsBody
      rw [advance_advance] at movedOn arrivesThen
      have firstBar : firstBar? inside.list inside.position
            (inside.position + (first + 1 + second)) = some (inside.position + first) :=
        firstBar?_eq_some (atBar_iff.mp bar) (by omega) noBar
      refine ⟨first + 1 + second, arrivesThen.elim endsBody_of_atEnd id, ?_, ?_, ?_⟩
      · intro passed before
        rcases Nat.lt_trichotomy passed first with inTarget | rfl | inLabel
        · exact (passes passed inTarget).1
        · exact endsBody_eq_false_of_atBar bar
        · obtain ⟨distance, rfl⟩ := Nat.exists_eq_add_of_lt inLabel
          have later := passesThen distance (by omega)
          rwa [advance_advance, Nat.add_right_comm] at later
      · rw [firstBar]
        rfl
      · simp only [firstBar, readLabel, if_pos bar, advance_advance, movedOn]
        rfl

/-- What stands at a position that a cursor passed within a body. -/
theorem getElem?_of_passed
    {count : Nat}
    (passed : ∀ distance < count, endsBody (cursor.advance distance) = false)
    {position : Nat}
    (isBehind : cursor.position ≤ position)
    (before : position < cursor.position + count) :
    (∃ byte, cursor.list[position]? = some byte ∧ byte ≠ '\n'.toUInt8 ∧ byte ≠ '\r'.toUInt8) ∧
      ¬ (cursor.list[position]? = some ']'.toUInt8 ∧
        cursor.list[position + 1]? = some ']'.toUInt8) := by
  obtain ⟨distance, rfl⟩ := Nat.exists_eq_add_of_le isBehind
  exact endsBody_eq_false_iff.mp (passed distance (Nat.lt_of_add_lt_add_left before))

/-- Closing brackets that a cursor came to without passing the end of a body come first. -/
theorem closesFirstAt_of_passed
    {count : Nat}
    (passed : ∀ distance < count, endsBody (cursor.advance distance) = false)
    (closes : (cursor.advance count).startsWith closing = true) :
    ClosesFirstAt cursor.list cursor.position (cursor.position + count) := by
  obtain ⟨first, second⟩ := (startsWith_doubled_iff (by decide)).mp closes
  refine ⟨⟨Nat.le_add_right _ _, first, second, fun position isBehind before => ?_⟩, ?_⟩
  · obtain ⟨⟨byte, found, noFeed, noReturn⟩, -⟩ := getElem?_of_passed passed isBehind before
    simp only [found, ne_eq, Option.some.injEq]
    exact ⟨noFeed, noReturn⟩
  · intro other closesThere
    by_contra earlier
    obtain ⟨-, unclosed⟩ :=
      getElem?_of_passed passed closesThere.start_le (Nat.lt_of_not_le earlier)
    exact unclosed ⟨closesThere.first, closesThere.second⟩

/-- Where a body ends without closing brackets, its line has none further on. -/
theorem not_closesAt_of_passed
    {count : Nat}
    (passed : ∀ distance < count, endsBody (cursor.advance distance) = false)
    (ends : endsBody (cursor.advance count) = true)
    (unclosed : (cursor.advance count).startsWith closing = false)
    (stop : Nat) :
    ¬ ClosesAt cursor.list cursor.position stop := by
  intro closes
  rcases Nat.lt_trichotomy stop (cursor.position + count) with earlier | rfl | later
  · obtain ⟨-, unclosedThere⟩ := getElem?_of_passed passed closes.start_le earlier
    exact unclosedThere ⟨closes.first, closes.second⟩
  · have closed : (cursor.advance count).startsWith closing = true :=
      (startsWith_doubled_iff (by decide)).mpr ⟨closes.first, closes.second⟩
    exact Bool.false_ne_true (unclosed.symm.trans closed)
  · -- The line ends where the body does, which is before the brackets.
    obtain ⟨noFeed, noReturn⟩ := closes.sameLine _ (Nat.le_add_right _ count) later
    have within : cursor.position + count < cursor.list.length :=
      Nat.lt_trans later (List.getElem?_eq_some_iff.mp closes.first).1
    rw [List.getElem?_eq_getElem within] at noFeed noReturn
    have notEnded : endsBody (cursor.advance count) = false :=
      endsBody_eq_false_iff.mpr ⟨⟨_, List.getElem?_eq_getElem within, by simpa using noFeed,
        by simpa using noReturn⟩, fun closed => Bool.false_ne_true
          (unclosed.symm.trans ((startsWith_doubled_iff (by decide)).mpr closed))⟩
    exact Bool.false_ne_true (notEnded.symm.trans ends)

end Body

/-- A third closing bracket is passed where one stands. -/
theorem skipStray_advance
    (cursor : ByteCursor)
    (count : Nat) :
    skipStray (cursor.advance count) =
      { cursor with
        position := if cursor.list[cursor.position + count]? = some ']'.toUInt8 then
            cursor.position + (count + 1)
          else
            cursor.position + count } := by
  rw [skipStray, peek?_eq, list_advance, position_advance]
  split <;> rfl

/-- A cursor takes the link that the bytes have where it stands, and stays if they have none. -/
theorem readLink_eq (cursor : ByteCursor) :
    (OpensAt cursor.list cursor.position ∧
      ∃ stop, ClosesFirstAt cursor.list (cursor.position + 2) stop ∧
        readLink cursor = (some (nodeAt cursor.list cursor.position stop),
          { cursor with position := (nodeAt cursor.list cursor.position stop).full.stop })) ∨
      ¬ (OpensAt cursor.list cursor.position ∧
        ∃ stop, ClosesAt cursor.list (cursor.position + 2) stop) ∧
      readLink cursor = (none, cursor) := by
  by_cases opens : cursor.startsWith opening = true
  · have opensAt : OpensAt cursor.list cursor.position :=
      (startsWith_doubled_iff (by decide)).mp opens
    obtain ⟨count, ends, passed, targetStop, read⟩ :=
      exists_readLabel (cursor.advance 2) rfl
    have sized : opening.byteLength = 2 := rfl
    cases closes : ((cursor.advance 2).advance count).startsWith closing with
    | true =>
        refine .inl ⟨opensAt, _, closesFirstAt_of_passed passed closes, ?_⟩
        simp only [readLink, opens, if_true, sized, read, closes]
        rw [show closing.byteLength = 2 from rfl, advance_advance, skipStray_advance, targetStop,
          nodeAt, full]
        simp only [position_advance, list_advance, Nat.add_assoc]
        rfl
    | false =>
        refine .inr ⟨?_, ?_⟩
        · rintro ⟨-, stop, closesAt⟩
          exact not_closesAt_of_passed passed ends closes stop closesAt
        · simp only [readLink, opens, if_true, sized, read, closes, Bool.false_eq_true, if_false]
  · refine .inr ⟨?_, ?_⟩
    · rintro ⟨opensAt, -⟩
      exact opens ((startsWith_doubled_iff (by decide)).mpr opensAt)
    · rw [readLink, if_neg opens]

section Parse

variable {runStart : Nat} {cursor : ByteCursor}

theorem parseFrom_of_atEnd
    (ended : cursor.atEnd = true) :
    parseFrom runStart cursor = runBetween runStart cursor.position := by
  rw [parseFrom, if_pos ended]

/-- A link that is read ends the run before it. -/
theorem parseFrom_of_taken
    (notAtEnd : cursor.atEnd = false)
    {node : InlineNode}
    {behind : ByteCursor}
    (taken : readLink cursor = (some node, behind)) :
    parseFrom runStart cursor =
      runBetween runStart node.full.start ++ node :: parseFrom node.full.stop behind := by
  rw [parseFrom, if_neg (by simp [notAtEnd])]
  split
  · cases taken.symm.trans ‹_›
    rfl
  · cases taken.symm.trans ‹_›

/-- Where no link is read the run goes on. -/
theorem parseFrom_of_missed
    (notAtEnd : cursor.atEnd = false)
    (missed : readLink cursor = (none, cursor)) :
    parseFrom runStart cursor = parseFrom runStart (cursor.advance 1) := by
  rw [parseFrom, if_neg (by simp [notAtEnd])]
  split
  · cases missed.symm.trans ‹_›
  · cases missed.symm.trans ‹_›
    rfl

end Parse

/-- A cursor is at the end when all bytes are before it. -/
theorem atEnd_encode
    (text : Text)
    (position : Nat) :
    atEnd ⟨Utf8.encode text, position⟩ = decide (text.byteLength ≤ position) := by
  rw [atEnd, ← Text.length_bytes, Text.bytes, Array.length_toList]
  rfl

/-- A cursor passes a character at which no link is recognised, byte by byte. -/
theorem parseFrom_of_not_recognised
    (runStart : Nat)
    (front : Text)
    {char : Char}
    {others : Text}
    (missed : recogniser.recognise? (char :: others) = none) :
    parseFrom runStart ⟨Utf8.encode (front ++ char :: others), front.byteLength⟩ =
      parseFrom runStart
        ⟨Utf8.encode (front ++ char :: others), front.byteLength + char.utf8Size⟩ := by
  let bytes := Utf8.encode (front ++ char :: others)
  have passes (passed : Nat) (within : passed ≤ char.utf8Size) :
      parseFrom runStart ⟨bytes, front.byteLength⟩ =
        parseFrom runStart ⟨bytes, front.byteLength + passed⟩ := by
    induction passed with
    | zero => rfl
    | succ passed inductionHypothesis =>
        have notAtEnd : atEnd ⟨bytes, front.byteLength + passed⟩ = false := by
          rw [atEnd_encode, decide_eq_false_iff_not, Text.byteLength_append, Text.byteLength_cons]
          omega
        rw [inductionHypothesis (Nat.le_of_succ_le within)]
        refine parseFrom_of_missed notAtEnd ?_
        rcases readLink_eq ⟨bytes, front.byteLength + passed⟩ with
          ⟨opens, stop, closes, -⟩ | ⟨-, missedHere⟩
        · -- Within a character no link opens, and at its front none was recognised.
          have found := opens.1
          change (Text.bytes (front ++ char :: others))[_]? = _ at found
          rw [Text.getElem?_bytes_append] at found
          rcases Text.eq_zero_or_le_of_getElem?_bytes_cons (by decide) found with rfl | beyond
          · exact absurd ⟨opens, stop, closes.1⟩ ((recognise?_eq_none_iff front _).mp missed)
          · omega
        · exact missedHere
  exact passes _ (Nat.le_refl _)

/-- A cursor reads the link that is recognised at the front of what is ahead. -/
theorem readLink_of_recognised
    (front : Text)
    {text rest : Text}
    {item : WikiLink}
    (found : recogniser.recognise? text = some (item, rest)) :
    readLink ⟨Utf8.encode (front ++ text), front.byteLength⟩ =
      (some (ofPiece front.byteLength (.marked item)),
        ⟨Utf8.encode (front ++ text), (front ++ item.source).byteLength⟩) := by
  obtain ⟨opens, stop, first, placed⟩ := nodeAt_of_recognised front found
  rcases readLink_eq ⟨Utf8.encode (front ++ text), front.byteLength⟩ with
    ⟨-, other, firstThere, taken⟩ | ⟨unlinked, -⟩
  · have same : other = stop :=
      Nat.le_antisymm (firstThere.2 stop first.1) (first.2 other firstThere.1)
    subst same
    have placedHere : ofPiece front.byteLength (.marked item) =
        nodeAt (list ⟨Utf8.encode (front ++ text), front.byteLength⟩) front.byteLength other :=
      placed
    rw [taken, ← placedHere, Text.byteLength_append]
    rfl
  · exact absurd ⟨opens, stop, first.1⟩ unlinked

/-- Pieces that do not begin with a run follow the run put in front of them. -/
theorem ofPieces_foldr_consChar
    {pieces : List (Piece WikiLink)}
    (noRun : ∀ run others, pieces ≠ .plain run :: others)
    (offset : Nat)
    (run : Text) :
    ofPieces offset (run.foldr Piece.consChar pieces) =
      runBetween offset (offset + run.byteLength) ++
        ofPieces (offset + run.byteLength) pieces := by
  have joined (char : Char) (others : Text) :
      (char :: others).foldr Piece.consChar pieces = .plain (char :: others) :: pieces := by
    induction others generalizing char with
    | nil =>
        rcases pieces with _ | ⟨run | item, rest⟩
        · rfl
        · exact absurd rfl (noRun run rest)
        · rfl
    | cons next rest inductionHypothesis =>
        rw [List.foldr_cons, inductionHypothesis]
        rfl
  cases run with
  | nil => simp [runBetween]
  | cons char others =>
      have positive : 0 < Text.byteLength (char :: others) :=
        Nat.pos_of_ne_zero (Text.byteLength_eq_zero_iff.not.mpr (by simp))
      rw [joined, runBetween, if_pos (Nat.lt_add_of_pos_right positive)]
      rfl

/--
Between two characters, the nodes from a cursor on are those of the pieces of
what is ahead, the first of which goes on the run that was begun.
-/
theorem parseFrom_eq_ofPieces
    (before run text : Text) :
    parseFrom before.byteLength
        ⟨Utf8.encode (before ++ run ++ text), (before ++ run).byteLength⟩ =
      ofPieces before.byteLength (run.foldr Piece.consChar (recogniser.scan text)) := by
  induction text using recogniser.scan_induction generalizing before run with
  | empty =>
      have ended :
          atEnd ⟨Utf8.encode (before ++ run ++ []), (before ++ run).byteLength⟩ = true := by
        simp [atEnd_encode]
      rw [parseFrom_of_atEnd ended, recogniser.scan_nil, ofPieces_foldr_consChar (by simp),
        Text.byteLength_append]
      exact (List.append_nil _).symm
  | recognised text item rest found inductionHypothesis =>
      have notAtEnd : atEnd ⟨Utf8.encode (before ++ run ++ text), (before ++ run).byteLength⟩ =
          false := by
        have positive := Nat.pos_of_ne_zero
          (Text.byteLength_eq_zero_iff.not.mpr (recogniser.source_ne_nil item))
        rw [atEnd_encode, decide_eq_false_iff_not, recogniser.eq_source_append found]
        simp only [Text.byteLength_append] at positive ⊢
        omega
      have whole : before ++ run ++ item.source ++ [] ++ rest = before ++ run ++ text := by
        rw [List.append_nil, List.append_assoc, ← eq_source_append found]
      have later := inductionHypothesis (before ++ run ++ item.source) []
      rw [whole, List.append_nil, List.foldr_nil] at later
      rw [parseFrom_of_taken notAtEnd (readLink_of_recognised _ found), full_ofPiece,
        Piece.render, ← Text.byteLength_append, later, recogniser.scan_of_recognised found,
        ofPieces_foldr_consChar (by simp), ← Text.byteLength_append, ofPieces_cons]
      rfl
  | kept char others missed inductionHypothesis =>
      have whole : before ++ (run ++ [char]) ++ others = before ++ run ++ char :: others := by
        simp
      have passed : (before ++ (run ++ [char])).byteLength =
          (before ++ run).byteLength + char.utf8Size := by
        simp [Nat.add_assoc]
      have later := inductionHypothesis before (run ++ [char])
      rw [whole, passed, List.foldr_append] at later
      rw [recogniser.scan_cons_of_not_recognised missed, parseFrom_of_not_recognised _ _ missed]
      exact later

/-- The nodes that a cursor reads are those of a scan character by character. -/
theorem parse_eq_ofPieces (document : Text) :
    parse document = ofPieces 0 (recogniser.scan document) :=
  parseFrom_eq_ofPieces [] [] document

end InlineNode

end NotePublisher
