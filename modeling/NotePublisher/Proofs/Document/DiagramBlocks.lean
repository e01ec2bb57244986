import NotePublisher.Proofs.Markup.Stages

namespace NotePublisher

/-!
# Which blocks are made embeddable

`Diagram.EmbedsTo` says what becomes of a text when its blocks are looked for
from left to right: the first opening fence, the first closing fence behind it,
and so on behind the block. `embedDiagrams` does that and nothing else, and no
block is left unless the script's address holds a fence
(`embedDiagrams_exact`).
-/

namespace Text

/-- The first place at which a word stands in a text, between what is before and after it. -/
structure FirstAt (word text before after : Text) : Prop where
  whole : text = before ++ (word ++ after)
  first : ∀ earlier, earlier ++ word <+: text → before.length ≤ earlier.length

variable {word before after : Text}

theorem firstAt_nil
    (rest : Text) :
    FirstAt word (word ++ rest) [] rest where
  whole := rfl
  first _ _ := Nat.zero_le _

/-- What follows a word anywhere in a text ends what follows it at the first place. -/
theorem FirstAt.suffix
    {text : Text}
    (firstAt : FirstAt word text before after)
    {earlier later : Text}
    (shape : text = earlier ++ (word ++ later)) :
    later <:+ after := by
  have notBefore := firstAt.first earlier ⟨later, by rw [shape, List.append_assoc]⟩
  have behind : after <:+ text := ⟨before ++ word, by rw [firstAt.whole, List.append_assoc]⟩
  have laterBehind : later <:+ text := ⟨earlier ++ word, by rw [shape, List.append_assoc]⟩
  refine List.suffix_of_suffix_length_le laterBehind behind ?_
  have sizes := congrArg List.length (shape.symm.trans firstAt.whole)
  simp only [List.length_append] at sizes
  omega

/-- A word that does not begin a text stands first where it does behind the first character. -/
theorem firstAt_cons_iff
    {char : Char}
    {rest : Text}
    (notInFront : ¬ word <+: char :: rest) :
    FirstAt word (char :: rest) before after ↔
      ∃ others, before = char :: others ∧ FirstAt word rest others after := by
  constructor
  · rintro ⟨whole, first⟩
    cases before with
    | nil =>
        exact absurd ⟨after, whole.symm⟩ notInFront
    | cons second others =>
        obtain ⟨rfl, restShape⟩ := List.cons.inj whole
        refine ⟨others, rfl, restShape, fun earlier stands => ?_⟩
        exact Nat.le_of_succ_le_succ
          (first (char :: earlier) (List.cons_prefix_cons.mpr ⟨rfl, stands⟩))
  · rintro ⟨others, rfl, rfl, first⟩
    refine ⟨rfl, fun earlier stands => ?_⟩
    cases earlier with
    | nil =>
        exact absurd stands notInFront
    | cons second later =>
        exact Nat.succ_le_succ (first later (List.cons_prefix_cons.mp stands).2)

/-- A word that occurs occurs a first time. -/
theorem exists_firstAt
    {text : Text}
    (occurs : word <:+: text) :
    ∃ before after, FirstAt word text before after := by
  induction text with
  | nil =>
      obtain rfl := List.infix_nil.mp occurs
      exact ⟨[], [], firstAt_nil []⟩
  | cons char rest inductionHypothesis =>
      by_cases inFront : word <+: char :: rest
      · obtain ⟨behind, shape⟩ := inFront
        exact ⟨[], behind, shape ▸ firstAt_nil behind⟩
      · have occursLater := (List.infix_cons_iff.mp occurs).resolve_left inFront
        obtain ⟨others, after, first⟩ := inductionHypothesis occursLater
        exact ⟨char :: others, after, (firstAt_cons_iff inFront).mpr ⟨others, rfl, first⟩⟩

/-- The search for a fence that nothing ends finds the first place at which it stands. -/
theorem splitAtFence?_eq_some_iff_firstAt
    (word_ne_nil : word ≠ [])
    {text : Text} :
    splitAtFence? word (fun _ => false) text = some (before, after) ↔
      FirstAt word text before after := by
  induction text generalizing before with
  | nil =>
      simp only [splitAtFence?, reduceCtorEq, false_iff]
      rintro ⟨whole, -⟩
      simp [word_ne_nil] at whole
  | cons char rest inductionHypothesis =>
      rw [splitAtFence?]
      cases starts : dropStart? word (char :: rest) with
      | some behind =>
          have shape := dropStart?_eq_some_iff.mp starts
          simp only [Option.some.injEq, Prod.mk.injEq, shape]
          constructor
          · rintro ⟨rfl, rfl⟩
            exact firstAt_nil behind
          · rintro ⟨whole, first⟩
            have atFront := first [] (List.prefix_append word behind)
            obtain rfl := List.length_eq_zero_iff.mp (Nat.le_zero.mp atFront)
            exact ⟨rfl, List.append_cancel_left whole⟩
      | none =>
          have notInFront : ¬ word <+: char :: rest := by
            rintro ⟨behind, shape⟩
            rw [dropStart?_eq_some_iff.mpr shape.symm] at starts
            cases starts
          rw [firstAt_cons_iff notInFront]
          simp only [Bool.false_eq_true, if_false, Option.map_eq_some_iff, Prod.mk.injEq,
            Prod.exists]
          constructor
          · rintro ⟨others, behind, found, rfl, rfl⟩
            exact ⟨others, rfl, inductionHypothesis.mp found⟩
          · rintro ⟨others, rfl, first⟩
            exact ⟨others, after, inductionHypothesis.mpr first, rfl, rfl⟩

end Text

namespace Diagram

/--
What becomes of a text when each block, from the first opening fence to the
first closing one behind it, is made embeddable, from left to right. What is no
block is kept, an opening fence that nothing closes included.
-/
inductive EmbedsTo (scriptSource : Text) : Text → Text → Prop where
  | kept
      {text : Text}
      (unclosed : ∀ before inside, Text.FirstAt opening text before inside →
        ¬ closing <:+: inside) :
      EmbedsTo scriptSource text text
  | block
      {text before inside body after rest : Text}
      (opens : Text.FirstAt opening text before inside)
      (closes : Text.FirstAt closing inside body after)
      (later : EmbedsTo scriptSource after rest) :
      EmbedsTo scriptSource text
        (before ++ (scriptTag scriptSource ++
          ("<div class=mermaid>".toList ++ body ++ "</div>".toList) ++ rest))

/-- A diagram is found where the first closing fence behind an opening one ends its body. -/
theorem recognise?_eq_some_iff
    {text rest : Text}
    {diagram : Diagram} :
    recogniser.recognise? text = some (diagram, rest) ↔
      ∃ inside, text = opening ++ inside ∧ Text.FirstAt closing inside diagram.body rest := by
  simp only [recogniser, recognise?, Option.bind_eq_some_iff, Option.map_eq_some_iff,
    Text.dropStart?_eq_some_iff]
  refine exists_congr fun inside => and_congr_right fun _ => ?_
  constructor
  · rintro ⟨⟨body, after⟩, found, same⟩
    cases same
    exact (Text.splitAtFence?_eq_some_iff_firstAt fences.closing_ne_nil).mp found
  · intro first
    exact ⟨_, (Text.splitAtFence?_eq_some_iff_firstAt fences.closing_ne_nil).mpr first, rfl⟩

/-- A diagram closes where its closing fence occurs. -/
theorem closes_iff
    {text : Text} :
    fences.Closes text ↔ closing <:+: text := by
  constructor
  · rintro ⟨before, after, rfl, -⟩
    exact ⟨before, after, by simp [fences]⟩
  · rintro ⟨before, after, rfl⟩
    exact ⟨before, after, by simp [fences], fun _ _ => rfl⟩

/-- No diagram is found where an opening fence begins that nothing closes. -/
theorem not_closing_infix_of_missed
    {inside : Text}
    (missed : recogniser.recognise? (opening ++ inside) = none) :
    ¬ closing <:+: inside := by
  intro occurs
  exact (reads _).mp missed ⟨inside, rfl, closes_iff.mpr occurs⟩

/-- A character at which no block begins is kept. -/
private theorem EmbedsTo.cons
    {scriptSource : Text}
    {char : Char}
    {old new : Text}
    (missed : recogniser.recognise? (char :: old) = none)
    (embeds : EmbedsTo scriptSource old new) :
    EmbedsTo scriptSource (char :: old) (char :: new) := by
  by_cases inFront : opening <+: char :: old
  · -- An opening fence that nothing closes is the first one, and all others are behind it.
    obtain ⟨inside, shape⟩ := inFront
    have unclosed := not_closing_infix_of_missed (shape ▸ missed)
    have first : Text.FirstAt opening (char :: old) [] inside := shape ▸ Text.firstAt_nil inside
    cases embeds with
    | kept _ =>
        refine .kept fun before later opens occurs => unclosed ?_
        exact occurs.trans (first.suffix opens.whole).isInfix
    | @block _ before later body after rest opens closes _ =>
        have whole : char :: old = char :: before ++ (opening ++ later) := by
          rw [opens.whole, List.cons_append]
        have behind := first.suffix whole
        refine absurd (List.IsInfix.trans ?_ behind.isInfix) unclosed
        exact ⟨body, after, by rw [closes.whole, List.append_assoc]⟩
  · cases embeds with
    | kept unclosed =>
        refine .kept fun before inside opens => ?_
        obtain ⟨others, -, opensLater⟩ := (Text.firstAt_cons_iff inFront).mp opens
        exact unclosed others inside opensLater
    | @block _ before inside body after rest opens closes later =>
        exact .block ((Text.firstAt_cons_iff inFront).mpr ⟨before, rfl, opens⟩) closes later

/-- Embedding writes anew what lies between the earliest fences. -/
theorem embedsTo_embedDiagrams
    (scriptSource text : Text) :
    EmbedsTo scriptSource text (embedDiagrams scriptSource text) := by
  rw [embedDiagrams_eq]
  induction text using recogniser.scan_induction with
  | empty =>
      refine .kept fun before inside opens => ?_
      simpa [opening] using opens.whole
  | recognised text diagram rest found inductionHypothesis =>
      obtain ⟨inside, rfl, closes⟩ := recognise?_eq_some_iff.mp found
      rw [recogniser.replace_of_recognised _ found]
      exact .block (Text.firstAt_nil inside) closes inductionHypothesis
  | kept char others missed inductionHypothesis =>
      rw [recogniser.replace_cons_of_not_recognised _ missed]
      exact inductionHypothesis.cons missed

/-- Where the first opening fence is not closed there is no diagram. -/
private theorem not_hasSpan_of_unclosed
    {text : Text}
    (unclosed : ∀ before inside, Text.FirstAt opening text before inside →
      ¬ closing <:+: inside) :
    ¬ fences.HasSpan text := by
  rintro ⟨earlier, later, shape, closes⟩
  have shape : text = earlier ++ (opening ++ later) := shape
  have occurs : opening <:+: text := ⟨earlier, later, by rw [shape, List.append_assoc]⟩
  obtain ⟨before, inside, first⟩ := Text.exists_firstAt occurs
  exact unclosed before inside first ((closes_iff.mp closes).trans (first.suffix shape).isInfix)

/-- In front of the first opening fence a text is kept. -/
private theorem embedDiagrams_of_firstAt
    {text before inside : Text}
    (opens : Text.FirstAt opening text before inside)
    (scriptSource : Text) :
    embedDiagrams scriptSource text =
      before ++ embedDiagrams scriptSource (opening ++ inside) := by
  rw [embedDiagrams_eq, opens.whole, recogniser.replace_append_of_missed_before]
  · rfl
  · rintro front char behind rfl
    refine (reads _).mpr ?_
    rintro ⟨later, shape, -⟩
    have shape : char :: (behind ++ (opening ++ inside)) = opening ++ later := shape
    have notEarlier := opens.first front
      ⟨later, by rw [opens.whole, List.append_assoc, ← shape]; simp⟩
    rw [List.length_append, List.length_cons] at notEarlier
    omega

/-- Looking for blocks from left to right has one result. -/
theorem embedsTo_iff
    {scriptSource text out : Text} :
    EmbedsTo scriptSource text out ↔ out = embedDiagrams scriptSource text := by
  constructor
  · intro embeds
    induction embeds with
    | kept unclosed =>
        exact (reads.replace_eq_self _ (not_hasSpan_of_unclosed unclosed)).symm
    | @block text before inside body after rest opens closes _ inductionHypothesis =>
        have found : recogniser.recognise? (opening ++ inside) = some (⟨body⟩, after) :=
          recognise?_eq_some_iff.mpr ⟨inside, rfl, closes⟩
        rw [embedDiagrams_of_firstAt opens, embedDiagrams_eq,
          recogniser.replace_of_recognised _ found, inductionHypothesis]
        rfl
  · rintro rfl
    exact embedsTo_embedDiagrams scriptSource text

end Diagram

/--
Diagrams are made embeddable as the blocks are found from left to right. With a
script address that holds no fence, no opening fence is left that a closing one
follows, and doing it again, with any address, changes nothing.
-/
theorem embedDiagrams_exact
    (scriptSource text : Text) :
    (∀ out, Diagram.EmbedsTo scriptSource text out ↔ out = embedDiagrams scriptSource text) ∧
      (¬ Diagram.closing <:+: scriptSource →
        (∀ before inside,
          embedDiagrams scriptSource text = before ++ (Diagram.opening ++ inside) →
            ¬ Diagram.closing <:+: inside) ∧
          ∀ otherSource,
            embedDiagrams otherSource (embedDiagrams scriptSource text) =
              embedDiagrams scriptSource text) := by
  refine ⟨fun _ => Diagram.embedsTo_iff, fun notInSource => ?_⟩
  have noDiagram := embedDiagrams_noDiagram notInSource text
  refine ⟨fun before inside shape occurs => ?_, fun otherSource => ?_⟩
  · exact noDiagram ⟨before, inside, shape, Diagram.closes_iff.mpr occurs⟩
  · exact Diagram.reads.replace_eq_self _ noDiagram

/-- A text with a spare backtick, a block, another fence and an opening fence left open. -/
private def crowdedText : Text :=
  Text.ofString "````mermaid\nA``[$1]\n``` ```rust\n```\n```mermaid\nB"

private def crowdedPage : Text :=
  Text.ofString ("`<script src='/m.js'></script><div class=mermaid>\nA``[$1]\n</div>" ++
    " ```rust\n```\n```mermaid\nB")

theorem embedDiagrams_exact_crowdedText :
    ¬ Diagram.closing <:+: Text.ofString "/m.js" ∧
      Diagram.EmbedsTo (Text.ofString "/m.js") crowdedText crowdedPage ∧
      (∀ before inside, crowdedPage = before ++ (Diagram.opening ++ inside) →
        ¬ Diagram.closing <:+: inside) ∧
      ∀ otherSource, embedDiagrams otherSource crowdedPage = crowdedPage := by
  have notInSource : ¬ Diagram.closing <:+: Text.ofString "/m.js" := by decide +kernel
  have page : crowdedPage = embedDiagrams (Text.ofString "/m.js") crowdedText := by
    decide +kernel
  obtain ⟨scan, clean⟩ := embedDiagrams_exact (Text.ofString "/m.js") crowdedText
  rw [← page] at clean
  exact ⟨notInSource, (scan crowdedPage).mpr page, clean notInSource⟩

end NotePublisher
