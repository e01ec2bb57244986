import NotePublisher.Proofs.Markup.Tiling

namespace NotePublisher

/-!
# The grammar of links

The inline nodes of a document have the links that its bytes have, from left to
right, and no others (`InlineNode.link_starts_iff`): each opens at two opening
brackets behind which two closing ones stand on the same line, and ends at the
first of these.
-/

namespace InlineNode

open WikiLink

/-- The links among nodes are those that the grammar has from `start` on. -/
structure FollowGrammar
    (bytes : List UInt8)
    (start : Nat)
    (nodes : List InlineNode) : Prop where
  sound : ∀ full target label, link full target label ∈ nodes →
    start ≤ full.start ∧ OpensAt bytes full.start ∧
      ∃ stop, ClosesFirstAt bytes (full.start + 2) stop ∧
        link full target label = nodeAt bytes full.start stop
  complete : ∀ position, start ≤ position → OpensAt bytes position →
    (∃ stop, ClosesAt bytes (position + 2) stop) →
    (∀ full target label, link full target label ∈ nodes → full.start < position →
      full.stop ≤ position) →
    ∃ full target label, link full target label ∈ nodes ∧ full.start = position

theorem link_not_mem_runBetween
    {start stop : Nat}
    {full target : Span}
    {label : Option Span} :
    link full target label ∉ runBetween start stop := by
  rw [runBetween]
  split <;> simp

/-- A run in front of nodes brings no link. -/
theorem FollowGrammar.runBetween_append
    {bytes : List UInt8}
    {start runStart runStop : Nat}
    {nodes : List InlineNode}
    (follow : FollowGrammar bytes start nodes) :
    FollowGrammar bytes start (runBetween runStart runStop ++ nodes) := by
  constructor
  · intro full target label member
    exact follow.sound full target label
      ((List.mem_append.mp member).resolve_left link_not_mem_runBetween)
  · intro position isBehind opens closes outside
    obtain ⟨full, target, label, member, starts⟩ := follow.complete position isBehind opens closes
      fun full target label member => outside full target label (List.mem_append_right _ member)
    exact ⟨full, target, label, List.mem_append_right _ member, starts⟩

/-- Where the bytes have no link, the links are those from the next byte on. -/
theorem FollowGrammar.missed
    {bytes : List UInt8}
    {start : Nat}
    {nodes : List InlineNode}
    (unlinked : ¬ (OpensAt bytes start ∧ ∃ stop, ClosesAt bytes (start + 2) stop))
    (follow : FollowGrammar bytes (start + 1) nodes) :
    FollowGrammar bytes start nodes where
  sound full target label member := by
    obtain ⟨isBehind, grammar⟩ := follow.sound full target label member
    exact ⟨Nat.le_of_succ_le isBehind, grammar⟩
  complete position isBehind opens closes outside := by
    rcases Nat.eq_or_lt_of_le isBehind with rfl | beyond
    · exact absurd ⟨opens, closes⟩ unlinked
    · exact follow.complete position beyond opens closes outside

/-- A link that the bytes have comes first, and behind it are those from its end on. -/
theorem FollowGrammar.taken
    {bytes : List UInt8}
    {start stop : Nat}
    {nodes : List InlineNode}
    (opens : OpensAt bytes start)
    (first : ClosesFirstAt bytes (start + 2) stop)
    (follow : FollowGrammar bytes (nodeAt bytes start stop).full.stop nodes) :
    FollowGrammar bytes start (nodeAt bytes start stop :: nodes) := by
  have startsBefore : start ≤ (nodeAt bytes start stop).full.stop := by
    have toStop := first.1.start_le
    simp only [nodeAt, full]
    split <;> omega
  constructor
  · intro full target label member
    rcases List.mem_cons.mp member with same | later
    · obtain ⟨rfl, -⟩ := by simpa [nodeAt] using same
      exact ⟨Nat.le_refl _, opens, stop, first, same⟩
    · obtain ⟨isBehind, grammar⟩ := follow.sound full target label later
      exact ⟨Nat.le_trans startsBefore isBehind, grammar⟩
  · intro position isBehind opensHere closes outside
    rcases Nat.eq_or_lt_of_le isBehind with rfl | strict
    · exact ⟨_, _, _, List.mem_cons_self, rfl⟩
    · have beyond := outside _ _ _ List.mem_cons_self strict
      obtain ⟨full, target, label, member, starts⟩ := follow.complete position beyond opensHere
        closes fun full target label member =>
          outside full target label (List.mem_cons_of_mem _ member)
      exact ⟨full, target, label, List.mem_cons_of_mem _ member, starts⟩

/-- The links that a cursor reads are those that the bytes have from where it stands. -/
theorem followGrammar_parseFrom
    (runStart : Nat)
    (cursor : ByteCursor) :
    FollowGrammar cursor.list cursor.position (parseFrom runStart cursor) := by
  induction runStart, cursor using parseFrom.induct with
  | case1 runStart cursor ended =>
      rw [parseFrom_of_atEnd ended, ← List.append_nil (runBetween _ _)]
      refine .runBetween_append ⟨fun _ _ _ member => absurd member List.not_mem_nil, ?_⟩
      intro position isBehind opens
      have beyond : cursor.list.length ≤ position :=
        Nat.le_trans (by simpa [ByteCursor.atEnd, ByteCursor.list] using ended) isBehind
      rw [OpensAt, List.getElem?_eq_none beyond] at opens
      cases opens.1
  | case2 runStart cursor notAtEnd node behind taken inductionHypothesis =>
      rw [parseFrom_of_taken (by simpa using notAtEnd) taken]
      rcases readLink_eq cursor with ⟨opens, stop, first, read⟩ | ⟨-, missed⟩
      · cases taken.symm.trans read
        exact .runBetween_append (.taken opens first inductionHypothesis)
      · cases missed.symm.trans taken
  | case3 runStart cursor notAtEnd same missed inductionHypothesis =>
      cases eq_of_readLink missed
      rw [parseFrom_of_missed (by simpa using notAtEnd) missed]
      rcases readLink_eq cursor with ⟨-, stop, -, read⟩ | ⟨unlinked, -⟩
      · cases read.symm.trans missed
      · exact .missed unlinked inductionHypothesis

/--
A document has a link at a position exactly if the position is not within an
earlier link, two opening brackets stand there and closing ones follow in the
line. The first closing ones end it, and its target ends at the first bar.
-/
theorem link_starts_iff
    (document : Text)
    (position : Nat) :
    ((∃ full target label, link full target label ∈ parse document ∧ full.start = position) ↔
      (∀ full target label, link full target label ∈ parse document → full.start < position →
        full.stop ≤ position) ∧
      OpensAt document.bytes position ∧
      ∃ stop, ClosesAt document.bytes (position + 2) stop) ∧
    ∀ full target label, link full target label ∈ parse document → full.start = position →
      ∃ stop, ClosesFirstAt document.bytes (position + 2) stop ∧
        link full target label = nodeAt document.bytes position stop := by
  have follow : FollowGrammar document.bytes 0 (parse document) :=
    followGrammar_parseFrom 0 (.ofText document)
  refine ⟨⟨?_, ?_⟩, ?_⟩
  · rintro ⟨full, target, label, member, rfl⟩
    obtain ⟨-, opens, stop, first, -⟩ := follow.sound full target label member
    refine ⟨fun _ _ _ other before => ?_, opens, stop, first.1⟩
    exact (tile_parse document).stop_le_start other member before
  · rintro ⟨outside, opens, closes⟩
    exact follow.complete position (Nat.zero_le _) opens closes outside
  · rintro full target label member rfl
    obtain ⟨-, -, grammar⟩ := follow.sound full target label member
    exact grammar

end InlineNode

end NotePublisher
