import Mathlib.Data.List.TakeWhile
import NotePublisher.Proofs.Markup.Fences
import NotePublisher.Proofs.Markup.Pieces
import NotePublisher.Proofs.Text.Bytes

namespace NotePublisher

/-!
# Links among bytes

Where a link stands, said of bytes alone: it opens at two opening brackets
(`WikiLink.OpensAt`) behind which two closing ones stand on the same line, and
ends at the first of these (`WikiLink.ClosesFirstAt`). `WikiLink.nodeAt` reads
its spans off the bytes. A link is recognised at the front of a text exactly
where the bytes have one (`WikiLink.nodeAt_of_recognised`,
`WikiLink.recognise?_eq_none_iff`).
-/

namespace WikiLink

/-- Two opening brackets stand at a position. -/
def OpensAt
    (bytes : List UInt8)
    (position : Nat) :
    Prop :=
  bytes[position]? = some '['.toUInt8 ∧ bytes[position + 1]? = some '['.toUInt8

/-- Two closing brackets stand at `stop`, and from `start` on no line break stands before them. -/
structure ClosesAt
    (bytes : List UInt8)
    (start stop : Nat) : Prop where
  start_le : start ≤ stop
  first : bytes[stop]? = some ']'.toUInt8
  second : bytes[stop + 1]? = some ']'.toUInt8
  sameLine : ∀ position, start ≤ position → position < stop →
    bytes[position]? ≠ some '\n'.toUInt8 ∧ bytes[position]? ≠ some '\r'.toUInt8

/-- The first two closing brackets from `start` on stand at `stop`. -/
def ClosesFirstAt
    (bytes : List UInt8)
    (start stop : Nat) :
    Prop :=
  ClosesAt bytes start stop ∧ ∀ other, ClosesAt bytes start other → stop ≤ other

/-- The first bar from `start` on and before `stop`. -/
def firstBar?
    (bytes : List UInt8)
    (start stop : Nat) :
    Option Nat :=
  (List.range' start (stop - start)).find? fun position =>
    bytes[position]? = some '|'.toUInt8

/--
The link that opens at `start` and whose closing brackets stand at `stop`: its
target ends at the first bar, and a third closing bracket belongs to it.
-/
def nodeAt
    (bytes : List UInt8)
    (start stop : Nat) :
    InlineNode :=
  let bar? := firstBar? bytes (start + 2) stop
  .link
    ⟨start, if bytes[stop + 2]? = some ']'.toUInt8 then stop + 3 else stop + 2⟩
    ⟨start + 2, bar?.getD stop⟩
    (bar?.map fun bar => ⟨bar + 1, stop⟩)

/-- A position relative to a first part counts from the end of that part. -/
theorem closesAt_append_iff
    {front text : Text}
    {offset : Nat} :
    ClosesAt (front ++ text).bytes front.byteLength (front.byteLength + offset) ↔
      ClosesAt text.bytes 0 offset := by
  constructor
  · rintro ⟨-, first, second, sameLine⟩
    rw [Text.getElem?_bytes_append] at first
    rw [Nat.add_assoc, Text.getElem?_bytes_append] at second
    refine ⟨Nat.zero_le offset, first, second, fun position _ before => ?_⟩
    have unbroken := sameLine (front.byteLength + position) (Nat.le_add_right _ _)
      (Nat.add_lt_add_left before _)
    rwa [Text.getElem?_bytes_append] at unbroken
  · rintro ⟨-, first, second, sameLine⟩
    refine ⟨Nat.le_add_right _ _, ?_, ?_, fun position isBehind before => ?_⟩
    · rwa [Text.getElem?_bytes_append]
    · rwa [Nat.add_assoc, Text.getElem?_bytes_append]
    · obtain ⟨distance, rfl⟩ := Nat.exists_eq_add_of_le isBehind
      rw [Text.getElem?_bytes_append]
      exact sameLine distance (Nat.zero_le _) (Nat.lt_of_add_lt_add_left before)

/-- A pair of equal characters, in terms of the bytes and of the characters. -/
private theorem doubled_iff
    {char : Char}
    (ascii : char.utf8Size = 1)
    {text : Text}
    {position : Nat} :
    text.bytes[position]? = some char.toUInt8 ∧ text.bytes[position + 1]? = some char.toUInt8 ↔
      ∃ before after, text = before ++ char :: char :: after ∧
        before.byteLength = position := by
  constructor
  · rintro ⟨first, second⟩
    obtain ⟨before, others, rfl, rfl⟩ := (Text.getElem?_bytes_eq_some_iff ascii).mp first
    rw [Text.getElem?_bytes_append, Text.getElem?_bytes_eq_some_iff ascii] at second
    obtain ⟨between, after, shape, sized⟩ := second
    cases between with
    | nil => simp at sized
    | cons other rest =>
        obtain ⟨rfl, rfl⟩ := List.cons.inj shape
        rw [Text.byteLength_cons, ascii] at sized
        have empty : Text.byteLength rest = 0 := by omega
        obtain rfl := Text.byteLength_eq_zero_iff.mp empty
        exact ⟨before, after, rfl, rfl⟩
  · rintro ⟨before, after, rfl, rfl⟩
    constructor
    · exact (Text.getElem?_bytes_eq_some_iff ascii).mpr ⟨before, char :: after, rfl, rfl⟩
    · refine (Text.getElem?_bytes_eq_some_iff ascii).mpr ⟨before ++ [char], after, by simp, ?_⟩
      simp [ascii]

/-- A link opens at the front of a text exactly if its brackets are there. -/
theorem opensAt_append_iff
    {front text : Text} :
    OpensAt (front ++ text).bytes front.byteLength ↔ ∃ inside, text = opening ++ inside := by
  have atFront := Text.getElem?_bytes_append front text 0
  rw [OpensAt, Text.getElem?_bytes_append, ← Nat.add_zero front.byteLength, atFront,
    ← Nat.zero_add 1, doubled_iff (by decide)]
  constructor
  · rintro ⟨before, after, rfl, sized⟩
    obtain rfl := Text.byteLength_eq_zero_iff.mp sized
    exact ⟨after, rfl⟩
  · rintro ⟨inside, rfl⟩
    exact ⟨[], inside, rfl, rfl⟩

/-- Closing brackets that no line break comes before, in terms of the characters. -/
theorem closesAt_zero_iff
    {text : Text}
    {offset : Nat} :
    ClosesAt text.bytes 0 offset ↔
      ∃ before after, text = before ++ (closing ++ after) ∧ before.byteLength = offset ∧
        ∀ char ∈ before, Text.isLineBreak char = false := by
  constructor
  · rintro ⟨-, first, second, sameLine⟩
    obtain ⟨before, after, rfl, rfl⟩ := (doubled_iff (by decide)).mp ⟨first, second⟩
    refine ⟨before, after, rfl, rfl, fun char member => ?_⟩
    obtain ⟨earlier, later, rfl⟩ := List.append_of_mem member
    have within : Text.byteLength earlier < Text.byteLength (earlier ++ char :: later) := by
      have positive := char.utf8Size_pos
      simp only [Text.byteLength_append, Text.byteLength_cons]
      omega
    obtain ⟨noFeed, noReturn⟩ := sameLine (Text.byteLength earlier) (Nat.zero_le _) within
    have absent {broken : Char} (ascii : broken.utf8Size = 1)
        (notThere : (Text.bytes (earlier ++ char :: later ++ ']' :: ']' :: after))[
          Text.byteLength earlier]? ≠ some broken.toUInt8) :
        char ≠ broken := by
      rintro rfl
      refine notThere ((Text.getElem?_bytes_eq_some_iff ascii).mpr
        ⟨earlier, later ++ ']' :: ']' :: after, ?_, rfl⟩)
      rw [List.append_assoc, List.cons_append]
    simp [Text.isLineBreak, absent (by decide) noFeed, absent (by decide) noReturn]
  · rintro ⟨before, after, rfl, rfl, unbroken⟩
    obtain ⟨first, second⟩ := (@doubled_iff ']' (by decide) _ _).mpr ⟨before, after, rfl, rfl⟩
    refine ⟨Nat.zero_le _, first, second, fun position _ inBefore => ?_⟩
    rw [Text.getElem?_bytes_append_of_lt inBefore]
    have absent {broken : Char} (ascii : broken.utf8Size = 1)
        (breaks : Text.isLineBreak broken = true) :
        before.bytes[position]? ≠ some broken.toUInt8 := by
      intro found
      have kept := unbroken broken (Text.mem_of_getElem?_bytes ascii found)
      rw [breaks] at kept
      cases kept
    exact ⟨absent (by decide) (by decide), absent (by decide) (by decide)⟩

/-- Where closing brackets come first, none begin earlier, not even with the first bracket. -/
theorem closesFirstAt_of_absent
    (front after : Text)
    {body : Text}
    (unbroken : ∀ char ∈ body, Text.isLineBreak char = false)
    (absent : ¬ closing <:+: body ++ closing.dropLast) :
    ClosesFirstAt (front ++ (body ++ (closing ++ after))).bytes front.byteLength
      (front.byteLength + body.byteLength) := by
  refine ⟨closesAt_append_iff.mpr (closesAt_zero_iff.mpr ⟨body, after, rfl, rfl, unbroken⟩), ?_⟩
  intro other closes
  obtain ⟨offset, rfl⟩ := Nat.exists_eq_add_of_le closes.start_le
  obtain ⟨before, behind, shape, rfl, -⟩ := closesAt_zero_iff.mp (closesAt_append_iff.mp closes)
  by_contra earlier
  rcases List.append_eq_append_iff.mp shape with ⟨longer, rfl, -⟩ | ⟨between, rfl, tails⟩
  · simp only [Text.byteLength_append] at earlier
    omega
  · -- What stands between the two begins with a bracket.
    apply absent
    cases between with
    | nil => simp at earlier
    | cons first others =>
        obtain ⟨rfl, otherTails⟩ := List.cons.inj tails
        cases others with
        | nil => exact ⟨before, [], by simp [closing]⟩
        | cons second rest =>
            obtain ⟨rfl, -⟩ := List.cons.inj otherTails
            exact ⟨before, rest ++ closing.dropLast, by simp [closing]⟩

/-- Where no bar stands there is no first one. -/
theorem firstBar?_eq_none
    {bytes : List UInt8}
    {start count : Nat}
    (absent : ∀ distance < count, bytes[start + distance]? ≠ some '|'.toUInt8) :
    firstBar? bytes start (start + count) = none := by
  rw [firstBar?, Nat.add_sub_cancel_left, List.find?_range'_eq_none]
  intro position isBehind before
  obtain ⟨distance, rfl⟩ := Nat.exists_eq_add_of_le isBehind
  simpa using absent distance (Nat.lt_of_add_lt_add_left before)

/-- A bar is the first one if none stands before it. -/
theorem firstBar?_eq_some
    {bytes : List UInt8}
    {start count distance : Nat}
    (found : bytes[start + distance]? = some '|'.toUInt8)
    (within : distance < count)
    (absent : ∀ nearer < distance, bytes[start + nearer]? ≠ some '|'.toUInt8) :
    firstBar? bytes start (start + count) = some (start + distance) := by
  rw [firstBar?, Nat.add_sub_cancel_left, List.find?_range'_eq_some]
  refine ⟨by simpa using found, ?_, fun position isBehind before => ?_⟩
  · rw [List.mem_range'_1]
    omega
  · obtain ⟨nearer, rfl⟩ := Nat.exists_eq_add_of_le isBehind
    simpa using absent nearer (Nat.lt_of_add_lt_add_left before)

/-- The first bar of a link's body ends its target. -/
theorem firstBar?_body
    (front after : Text)
    {link : WikiLink}
    (noBar : '|' ∉ link.target) :
    firstBar? (front ++ (link.body ++ after)).bytes front.byteLength
        (front.byteLength + link.body.byteLength) =
      link.label.map fun _ => front.byteLength + link.target.byteLength := by
  have absent {distance : Nat} (inTarget : distance < link.target.byteLength) (behind : Text) :
      (link.target ++ behind).bytes[distance]? ≠ some '|'.toUInt8 := by
    rw [Text.getElem?_bytes_append_of_lt inTarget]
    exact fun found => noBar (Text.mem_of_getElem?_bytes (by decide) found)
  cases label : link.label with
  | none =>
      have shape : link.body = link.target := by simp [body, label]
      rw [shape, Option.map_none]
      refine firstBar?_eq_none fun distance inTarget => ?_
      rw [Text.getElem?_bytes_append]
      exact absent inTarget after
  | some text =>
      have shape : link.body = link.target ++ '|' :: text := by simp [body, label]
      rw [Option.map_some]
      refine firstBar?_eq_some ?_ ?_ fun nearer inTarget => ?_
      · rw [Text.getElem?_bytes_append, shape, Text.getElem?_bytes_eq_some_iff (by decide)]
        exact ⟨_, text ++ after, by simp, rfl⟩
      · rw [shape, Text.byteLength_append]
        exact Nat.lt_add_of_pos_right (Nat.lt_of_lt_of_le Nat.one_pos (Nat.le_add_right _ _))
      · rw [Text.getElem?_bytes_append, shape, List.append_assoc]
        exact absent inTarget ('|' :: text ++ after)

/-- A recognised link, by its body and what stands behind its closing brackets. -/
theorem parts_of_recognised
    {text rest : Text}
    {link : WikiLink}
    (found : recognise? text = some (link, rest)) :
    ∃ body after, text = opening ++ (body ++ (closing ++ after)) ∧
      (∀ char ∈ body, Text.isLineBreak char = false) ∧
      ¬ closing <:+: body ++ closing.dropLast ∧
      link = ofBody body (after.head? = some ']') := by
  simp only [recognise?, Option.bind_eq_some_iff, Option.map_eq_some_iff] at found
  obtain ⟨inside, starts, ⟨body, after⟩, fenced, link_eq⟩ := found
  refine ⟨body, after, ?_, Text.unblocked_of_splitAtFence? fenced,
    Text.not_infix_dropLast_of_splitAtFence? fences.closing_ne_nil fenced, ?_⟩
  · rw [Text.dropStart?_eq_some_iff.mp starts, Text.eq_append_of_splitAtFence? fenced,
      List.append_assoc]
  · split at link_eq
    · next tail third =>
        obtain ⟨rfl, rfl⟩ := Prod.mk.inj link_eq
        have third : after = ']' :: tail := third
        simp [third]
    · next notThird =>
        obtain ⟨rfl, rfl⟩ := Prod.mk.inj link_eq
        congr
        symm
        rw [decide_eq_false_iff_not]
        intro third
        obtain ⟨tail, shape⟩ := List.head?_eq_some_iff.mp third
        exact notThird tail shape

/-- The spans of a link are those that the grammar gives it where it stands. -/
theorem nodeAt_source
    (front after : Text)
    (link : WikiLink)
    (noBar : '|' ∉ link.target)
    (stray : link.stray = true ↔ after.head? = some ']') :
    nodeAt (front ++ (opening ++ (link.body ++ (closing ++ after)))).bytes front.byteLength
        (front.byteLength + 2 + link.body.byteLength) =
      InlineNode.ofPiece front.byteLength (.marked link) := by
  have sizedFront : (front ++ opening ++ link.body ++ closing).byteLength =
      front.byteLength + 2 + link.body.byteLength + 2 := by
    simp only [Text.byteLength_append]
    rfl
  have third := Text.getElem?_bytes_append (front ++ opening ++ link.body ++ closing) after 0
  rw [sizedFront, Nat.add_zero] at third
  simp only [List.append_assoc] at third
  have bar := firstBar?_body (front ++ opening) (closing ++ after) noBar
  rw [List.append_assoc, Text.byteLength_append] at bar
  change firstBar? _ (front.byteLength + 2) (front.byteLength + 2 + link.body.byteLength) = _ at bar
  have sized : link.source.byteLength =
      2 + link.body.byteLength + 2 + if link.stray then 1 else 0 := by
    simp only [source, Text.byteLength_append, strayText]
    split <;> rfl
  rw [nodeAt, bar, InlineNode.ofPiece, sized]
  simp only [third, Text.getElem?_bytes_zero_eq_some_iff (show (']').utf8Size = 1 by decide),
    ← stray]
  have opened : opening.byteLength = 2 := rfl
  cases label : link.label with
  | none =>
      have shape : link.body = link.target := by simp [body, label]
      cases link.stray <;> simp [shape, opened, Nat.add_assoc]
  | some text =>
      have shape : link.body.byteLength = link.target.byteLength + (1 + text.byteLength) := by
        rw [body, label, Text.byteLength_append]
        rfl
      cases link.stray <;> simp [shape, opened, Nat.add_assoc]

/-- A recognised link opens and closes where the grammar says, with the spans that it says. -/
theorem nodeAt_of_recognised
    (front : Text)
    {text rest : Text}
    {link : WikiLink}
    (found : recognise? text = some (link, rest)) :
    OpensAt (front ++ text).bytes front.byteLength ∧
      ∃ stop, ClosesFirstAt (front ++ text).bytes (front.byteLength + 2) stop ∧
        InlineNode.ofPiece front.byteLength (.marked link) =
          nodeAt (front ++ text).bytes front.byteLength stop := by
  obtain ⟨body, after, rfl, unbroken, absent, rfl⟩ := parts_of_recognised found
  refine ⟨opensAt_append_iff.mpr ⟨_, rfl⟩, front.byteLength + 2 + body.byteLength, ?_, ?_⟩
  · have first := closesFirstAt_of_absent (front ++ opening) after unbroken absent
    rwa [Text.byteLength_append, List.append_assoc] at first
  · have noBar : '|' ∉ targetOfBody body := fun member => by
      simpa using List.mem_takeWhile_imp member
    have placed := nodeAt_source front after (ofBody body (after.head? = some ']')) noBar
      (by simp [ofBody])
    rw [body_ofBody] at placed
    exact placed.symm

/-- No link is recognised at the front of a text exactly if the grammar has none there. -/
theorem recognise?_eq_none_iff
    (front text : Text) :
    recogniser.recognise? text = none ↔
      ¬ (OpensAt (front ++ text).bytes front.byteLength ∧
        ∃ stop, ClosesAt (front ++ text).bytes (front.byteLength + 2) stop) := by
  have sized : (front ++ opening).byteLength = front.byteLength + 2 := by
    rw [Text.byteLength_append]
    rfl
  rw [reads, opensAt_append_iff, ← sized]
  refine not_congr ⟨?_, ?_⟩
  · rintro ⟨inside, rfl, before, after, rfl, unbroken⟩
    refine ⟨⟨_, rfl⟩, (front ++ opening).byteLength + before.byteLength, ?_⟩
    rw [show fences.opening = opening from rfl, ← List.append_assoc, closesAt_append_iff,
      closesAt_zero_iff]
    exact ⟨before, after, rfl, rfl, unbroken⟩
  · rintro ⟨⟨inside, rfl⟩, stop, closes⟩
    obtain ⟨distance, rfl⟩ := Nat.exists_eq_add_of_le closes.start_le
    rw [← List.append_assoc, closesAt_append_iff, closesAt_zero_iff] at closes
    obtain ⟨before, after, rfl, -, unbroken⟩ := closes
    exact ⟨_, rfl, before, after, rfl, unbroken⟩

end WikiLink

end NotePublisher
