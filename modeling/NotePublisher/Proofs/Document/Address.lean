import Mathlib.Data.List.TakeWhile
import NotePublisher.Proofs.Document.Location

namespace NotePublisher

/-!
# Addresses of documents

Links are resolved by the suffix of what is written, files are published by the
extension of their names, and stored under the path that addresses leave the
suffix out of. The three agree on every document of a vault but one that is
named by nothing but the suffix (`DocumentPath.IsNormal.isMarkdown_of_stem`),
and the suffix is all that an address leaves out
(`DocumentPath.url_append_markdownSuffix`).
-/

namespace Text

/-- A character that occurs in a text has a last occurrence. -/
theorem exists_last_occurrence
    {char : Char}
    {text : Text}
    (member : char ∈ text) :
    ∃ front behind, text = front ++ char :: behind ∧ char ∉ behind := by
  obtain ⟨behind, front, reversed, notBehind⟩ :=
    List.eq_append_cons_of_mem (List.mem_reverse.mpr member)
  refine ⟨front.reverse, behind.reverse, ?_, by simpa using notBehind⟩
  simpa using congrArg List.reverse reversed

theorem lastSegment_of_not_mem
    {text : Text}
    (noSlash : '/' ∉ text) :
    lastSegment text = text := by
  rw [lastSegment, List.splitOn_eq_singleton noSlash]
  rfl

/-- The last segment follows the last slash. -/
theorem lastSegment_append_cons
    (front : Text)
    {behind : Text}
    (noSlash : '/' ∉ behind) :
    lastSegment (front ++ '/' :: behind) = behind := by
  rw [lastSegment, List.splitOn_append_cons_self, List.splitOn_eq_singleton noSlash]
  simp

/-- A text with a slash is what is before its last slash, the slash, and its last segment. -/
theorem exists_eq_append_lastSegment
    {text : Text}
    (slash : '/' ∈ text) :
    ∃ front, text = front ++ '/' :: lastSegment text ∧ '/' ∉ lastSegment text := by
  obtain ⟨front, behind, shape, noSlash⟩ := exists_last_occurrence slash
  refine ⟨front, ?_⟩
  rw [shape, lastSegment_append_cons front noSlash]
  exact ⟨rfl, noSlash⟩

/-- An ending without a slash is written at the end of the last piece. -/
theorem splitOn_append_of_slashless
    (text : Text)
    {ending : Text}
    (noSlash : '/' ∉ ending) :
    ∃ pieces, (text ++ ending).splitOn '/' = pieces ++ [lastSegment text ++ ending] := by
  by_cases slash : '/' ∈ text
  · obtain ⟨front, shape, notBehind⟩ := exists_eq_append_lastSegment slash
    have tailPiece : (lastSegment text ++ ending).splitOn '/' = [lastSegment text ++ ending] :=
      List.splitOn_eq_singleton (by simpa using ⟨notBehind, noSlash⟩)
    refine ⟨front.splitOn '/', ?_⟩
    conv_lhs => rw [shape]
    rw [List.append_assoc, List.cons_append, List.splitOn_append_cons_self, tailPiece]
  · refine ⟨[], ?_⟩
    rw [lastSegment_of_not_mem slash,
      List.splitOn_eq_singleton (by simpa using ⟨slash, noSlash⟩)]
    rfl

theorem lastSegment_append
    (text : Text)
    {ending : Text}
    (noSlash : '/' ∉ ending) :
    lastSegment (text ++ ending) = lastSegment text ++ ending := by
  obtain ⟨pieces, split⟩ := splitOn_append_of_slashless text noSlash
  rw [lastSegment, split]
  simp

end Text

namespace DocumentPath

variable {path : DocumentPath}

/-- A path with the suffix ends in a component with the suffix. -/
theorem getLast?_components
    {stem : Text}
    (stemmed : path.stem? = some stem) :
    path.components.getLast? = some (Text.lastSegment stem ++ markdownSuffix) := by
  have written : path.text = stem ++ markdownSuffix := Text.dropEnd?_eq_some_iff.mp stemmed
  have noSlash : '/' ∉ markdownSuffix := by decide
  obtain ⟨pieces, split⟩ := Text.splitOn_append_of_slashless stem noSlash
  have kept : (Text.lastSegment stem ++ markdownSuffix).isEmpty = false := by
    simp [markdownSuffix]
  rw [components, written, split, List.filter_append]
  simp [kept]

/-- The file of a document of the vault is named by the last component. -/
theorem IsNormal.fileName_eq
    (normal : path.IsNormal)
    {name : Text}
    (last : path.components.getLast? = some name) :
    path.fileName = name := by
  obtain ⟨above, shape⟩ := List.getLast?_eq_some_iff.mp last
  have plain : Name.IsPlain (Utf8.encode name) := by
    apply normal.plain
    rw [location, shape]
    simp
  have notStay : name ≠ currentFolder := fun same => plain.notStay (congrArg Utf8.encode same)
  have notUp : name ≠ parentFolder := fun same => plain.notUp (congrArg Utf8.encode same)
  simp [fileName, shape, notStay, notUp]

theorem extensionOfName?_of_not_mem
    {name : Text}
    (noDot : '.' ∉ name) :
    extensionOfName? name = none := by
  have allDropped : name.reverse.dropWhile (· != '.') = [] := by
    refine List.dropWhile_eq_nil_iff.mpr fun char member => ?_
    simpa using ne_of_mem_of_not_mem (List.mem_reverse.mp member) noDot
  rw [extensionOfName?, allDropped]

/-- The extension is what follows the last dot, unless nothing stands before that dot. -/
theorem extensionOfName?_append_cons
    (front : Text)
    {ending : Text}
    (noDot : '.' ∉ ending) :
    extensionOfName? (front ++ '.' :: ending) = if front = [] then none else some ending := by
  have notDots : ∀ char ∈ ending.reverse, (char != '.') = true := by
    intro char member
    simpa using ne_of_mem_of_not_mem (List.mem_reverse.mp member) noDot
  have reversed : (front ++ '.' :: ending).reverse = ending.reverse ++ '.' :: front.reverse := by
    simp
  rw [extensionOfName?, reversed, List.dropWhile_append_of_pos notDots,
    List.takeWhile_append_of_pos notDots, List.dropWhile_cons_of_neg (by simp),
    List.takeWhile_cons_of_neg (by simp), List.append_nil, List.reverse_reverse]
  cases shape : front.reverse with
  | nil =>
      rw [if_pos (List.reverse_eq_nil_iff.mp shape)]
  | cons last others =>
      rw [if_neg (by rintro rfl; simp at shape)]

/-- An extension follows the last dot, which is not the name's first character. -/
theorem extensionOfName?_eq_some_iff
    {name ending : Text} :
    extensionOfName? name = some ending ↔
      ∃ front, front ≠ [] ∧ name = front ++ '.' :: ending ∧ '.' ∉ ending := by
  constructor
  · intro found
    by_cases dot : '.' ∈ name
    · obtain ⟨front, behind, rfl, noDot⟩ := Text.exists_last_occurrence dot
      rw [extensionOfName?_append_cons front noDot] at found
      split at found
      · cases found
      next front_ne_nil =>
        cases found
        exact ⟨front, front_ne_nil, rfl, noDot⟩
    · rw [extensionOfName?_of_not_mem dot] at found
      cases found
  · rintro ⟨front, front_ne_nil, rfl, noDot⟩
    rw [extensionOfName?_append_cons front noDot, if_neg front_ne_nil]

/-- A document is markdown if its file has a name before the suffix. -/
theorem isMarkdown_iff :
    path.isMarkdown = true ↔ ∃ name, name ≠ [] ∧ path.fileName = name ++ markdownSuffix := by
  have noDot : '.' ∉ markdownExtension := by decide
  rw [isMarkdown, decide_eq_true_iff, extensionOfName?_eq_some_iff]
  simp only [noDot, not_false_eq_true, and_true]
  rfl

/-- A document that links can be resolved to is markdown, unless its name is the suffix. -/
theorem IsNormal.isMarkdown_of_stem
    (normal : path.IsNormal)
    {stem : Text}
    (stemmed : path.stem? = some stem)
    (named : path.location.getLast? ≠ some (Utf8.encode markdownSuffix)) :
    path.isMarkdown = true := by
  have last := getLast?_components stemmed
  have front_ne_nil : Text.lastSegment stem ≠ [] := by
    intro nothing
    apply named
    rw [location, List.getLast?_map, last, nothing]
    rfl
  exact isMarkdown_iff.mpr ⟨_, front_ne_nil, normal.fileName_eq last⟩

/-- With the suffix, the address of a document is that of its stored file. -/
theorem url_append_markdownSuffix
    {stem : Text}
    (stemmed : path.stem? = some stem)
    (base : Text) :
    path.url base ++ markdownSuffix = Text.trimEnd '/' base ++ '/' :: path.output.text := by
  have written : path.text = stem ++ markdownSuffix := Text.dropEnd?_eq_some_iff.mp stemmed
  have published : path.output.text = publishedText stem ++ markdownSuffix := by
    rw [output, written, publishedText, List.flatMap_append]
    rfl
  rw [published, url, stemmed, Option.getD_some, List.append_assoc, List.cons_append]

/-- A document that a target names has a stem. -/
theorem exists_stem_of_matchesTarget
    {target : Text}
    (matched : path.matchesTarget target = true) :
    ∃ stem, path.stem? = some stem := by
  cases stemmed : path.stem? with
  | none => simp [matchesTarget, stemmed] at matched
  | some stem => exact ⟨stem, rfl⟩

end DocumentPath

end NotePublisher
