import NotePublisher.Proofs.Document.Address
import NotePublisher.Proofs.Vault.Storing

namespace NotePublisher

/-!
# Published names

Whether a document is stored under another name is read off its path, off the
components of its output, and decided once more when it is stored; a document
is markdown by the extension of its file, and its address leaves the suffix
out before it is published. All of these agree on every path, however it is
written (`Vault.names_agree`).
-/

namespace Text

/-- What is trimmed off the end of a text is a run of one character, and all of it. -/
theorem trimEnd_append_replicate
    (char : Char)
    (text : Text) :
    ∃ count, text = trimEnd char text ++ List.replicate count char ∧
      (trimEnd char text).getLast? ≠ some char := by
  have run : text.reverse.takeWhile (· == char) =
      List.replicate (text.reverse.takeWhile (· == char)).length char :=
    List.eq_replicate_iff.mpr ⟨rfl, fun last member => by
      simpa using List.mem_takeWhile_imp member⟩
  refine ⟨(text.reverse.takeWhile (· == char)).length, ?_, ?_⟩
  · have parts : text.reverse.takeWhile (· == char) ++ text.reverse.dropWhile (· == char) =
        text.reverse :=
      List.takeWhile_append_dropWhile
    rw [run] at parts
    simpa [trimEnd] using (congrArg List.reverse parts).symm
  · rw [trimEnd, List.getLast?_reverse]
    intro found
    have stops := List.head?_dropWhile_not (· == char) text.reverse
    simp [found] at stops

end Text

namespace DocumentPath

variable {path : DocumentPath} {text : Text}

/-- Publishing neither adds nor takes away a character that it does not write. -/
theorem mem_publishedText_iff
    {char : Char}
    (notWritten : char ∉ [':', ' ', '-']) :
    char ∈ publishedText text ↔ char ∈ text := by
  simp only [List.mem_cons, List.not_mem_nil, or_false, not_or] at notWritten
  obtain ⟨notColon, notBlank, notDash⟩ := notWritten
  rw [publishedText, List.mem_flatMap]
  constructor
  · rintro ⟨origin, member, published⟩
    by_cases colon : origin = ':'
    · simp [publishedChar, colon, notBlank, notDash] at published
    · rw [publishedChar, if_neg colon, List.mem_singleton] at published
      exact published ▸ member
  · intro member
    exact ⟨char, member, by simp [publishedChar, notColon]⟩

/-- Only a text itself is published as one without blanks. -/
theorem publishedText_eq_iff
    {published : Text}
    (noBlank : ' ' ∉ published)
    (noColon : ':' ∉ published) :
    publishedText text = published ↔ text = published := by
  constructor
  · exact fun same => eq_of_publishedText_eq same noBlank
  · rintro rfl
    exact publishedText_eq_self noColon

/-- Publishing changes each part of a text by itself. -/
theorem publishedText_append
    (front behind : Text) :
    publishedText (front ++ behind) = publishedText front ++ publishedText behind :=
  List.flatMap_append

/-- Publishing changes a component of the path exactly if the path holds a colon. -/
theorem components_output_eq_iff :
    path.output.components = path.components ↔ ':' ∉ path.text := by
  constructor
  · intro same
    -- Empty pieces are no components, but they hold no colon either.
    have kept : ∀ piece ∈ path.text.splitOn '/', publishedText piece = piece := by
      intro piece member
      cases piece with
      | nil => rfl
      | cons char rest =>
          have isComponent : char :: rest ∈ path.components :=
            List.mem_filter.mpr ⟨member, rfl⟩
          rw [← same, components_output] at isComponent
          obtain ⟨component, -, published⟩ := List.mem_map.mp isComponent
          exact publishedText_eq_self (published ▸ not_mem_publishedText component)
    have samePieces : (publishedText path.text).splitOn '/' = path.text.splitOn '/' := by
      rw [splitOn_publishedText, List.map_congr_left kept, List.map_id']
    have sameText : publishedText path.text = path.text :=
      calc publishedText path.text
          _ = ['/'].intercalate ((publishedText path.text).splitOn '/') :=
            (List.intercalate_splitOn '/').symm
          _ = ['/'].intercalate (path.text.splitOn '/') := by rw [samePieces]
          _ = path.text := List.intercalate_splitOn '/'
    exact sameText ▸ not_mem_publishedText path.text
  · intro noColon
    rw [output, publishedText_eq_self noColon]

/-- Whether a path is renamed can be read off its text or found by comparing components. -/
theorem sameComponents_output :
    path.sameComponents path.output = !path.isRenamed := by
  have decided : path.sameComponents path.output = true ↔ path.isRenamed = false := by
    rw [sameComponents_iff, eq_comm, components_output_eq_iff, isRenamed]
    simp
  cases renamed : path.isRenamed with
  | false => exact decided.mpr renamed
  | true => simpa [renamed] using decided

/-- Publishing a path twice is publishing it once. -/
theorem output_output :
    path.output.output = path.output :=
  congrArg mk (publishedText_eq_self (not_mem_publishedText path.text))

/-- The file of an output is named by the published form of the file's name. -/
theorem fileName_output :
    path.output.fileName = publishedText path.fileName := by
  -- Publishing makes no name a `.` or a `..` that was none before.
  have staysHere :
      (fun component => publishedText component == currentFolder) = (· == currentFolder) := by
    funext component
    rw [Bool.eq_iff_iff, beq_iff_eq, beq_iff_eq,
      publishedText_eq_iff (by decide) (by decide)]
  have named : path.output.components.reverse.dropWhile (· == currentFolder) =
      (path.components.reverse.dropWhile (· == currentFolder)).map publishedText := by
    rw [components_output, ← List.map_reverse, List.dropWhile_map, Function.comp_def, staysHere]
  rw [fileName, fileName, named]
  cases path.components.reverse.dropWhile (· == currentFolder) with
  | nil =>
      rfl
  | cons name above =>
      have goesUp : publishedText name = parentFolder ↔ name = parentFolder :=
        publishedText_eq_iff (by decide) (by decide)
      simp only [List.map_cons, goesUp]
      split <;> rfl

/-- Publishing writes no dot, so the last dot of a name stays where it is. -/
theorem extensionOfName?_publishedText
    (name : Text) :
    extensionOfName? (publishedText name) = (extensionOfName? name).map publishedText := by
  have dot_mem_iff (text : Text) : '.' ∈ publishedText text ↔ '.' ∈ text :=
    mem_publishedText_iff (by decide)
  by_cases dot : '.' ∈ name
  · obtain ⟨front, ending, rfl, noDot⟩ := Text.exists_last_occurrence dot
    have published : publishedText (front ++ '.' :: ending) =
        publishedText front ++ '.' :: publishedText ending :=
      publishedText_append front ('.' :: ending)
    have noDotThen : '.' ∉ publishedText ending := mt (dot_mem_iff ending).mp noDot
    have empty_iff : publishedText front = [] ↔ front = [] :=
      publishedText_eq_iff (by simp) (by simp)
    rw [published, extensionOfName?_append_cons _ noDotThen,
      extensionOfName?_append_cons _ noDot]
    simp only [empty_iff]
    split <;> rfl
  · rw [extensionOfName?_of_not_mem dot,
      extensionOfName?_of_not_mem (mt (dot_mem_iff name).mp dot)]
    rfl

/-- A document stays markdown when it is published. -/
theorem isMarkdown_output :
    path.output.isMarkdown = path.isMarkdown := by
  rw [isMarkdown, isMarkdown, fileName_output, extensionOfName?_publishedText]
  cases extensionOfName? path.fileName with
  | none =>
      rfl
  | some ending =>
      have same : publishedText ending = markdownExtension ↔ ending = markdownExtension :=
        publishedText_eq_iff (by decide) (by decide)
      simp only [Option.map_some, Option.some.injEq, same]

end DocumentPath

namespace VaultAction

variable {α β : Type} {action : VaultAction α} {next : α → VaultAction β} {session after : Session}
  {value : β}

/-- What succeeds in two parts succeeds in the first and then, from there, in the second. -/
theorem exists_of_bind_eq_ok
    (done : (action >>= next) session = .ok value after) :
    ∃ first between, action session = .ok first between ∧
      next first between = .ok value after := by
  simp only [bind, EStateM.bind] at done
  cases begun : action session with
  | ok first between =>
      rw [begun] at done
      exact ⟨first, between, rfl, done⟩
  | error cause between =>
      rw [begun] at done
      cases done

end VaultAction

namespace Vault

section Persist

variable {root content : Text} {source output : DocumentPath} {session after : Session}

/-- A document is stored by placing its temporary file in the end. -/
private theorem exists_placeDocument
    (stored : persistDocument root source output content session = .ok () after) :
    ∃ between, placeDocument none root source output between = .ok () after := by
  obtain ⟨_, _, -, staging⟩ := VaultAction.exists_of_bind_eq_ok stored
  obtain ⟨_, _, -, looking⟩ := VaultAction.exists_of_bind_eq_ok staging
  obtain ⟨disk, looked, -, choosing⟩ := VaultAction.exists_of_bind_eq_ok looking
  cases mode : disk.mode? (Route.ofText (source.within root)) with
  | none =>
      simp only [mode] at choosing
      exact ⟨looked, choosing⟩
  | some bits =>
      simp only [mode] at choosing
      obtain ⟨_, between, -, placing⟩ := VaultAction.exists_of_bind_eq_ok choosing
      exact ⟨between, placing⟩

/-- A document that is stored is noted as renamed exactly if its output names another file. -/
theorem getLast?_events_of_persistDocument
    (stored : persistDocument root source output content session = .ok () after) :
    after.events.getLast? =
      some (if source.sameComponents output then .rewrote source else .renamed source output) := by
  obtain ⟨between, placed⟩ := exists_placeDocument stored
  rw [placeDocument] at placed
  cases same : source.sameComponents output with
  | true =>
      rw [if_pos same] at placed
      obtain ⟨_, _, -, noted⟩ := VaultAction.exists_of_bind_eq_ok placed
      cases noted
      simp
  | false =>
      rw [if_neg (by simp [same])] at placed
      obtain ⟨_, _, -, removing⟩ := VaultAction.exists_of_bind_eq_ok placed
      obtain ⟨_, _, -, clearing⟩ := VaultAction.exists_of_bind_eq_ok removing
      obtain ⟨_, _, -, noted⟩ := VaultAction.exists_of_bind_eq_ok clearing
      cases noted
      simp

end Persist

/--
The components of an output are those of the path with each colon replaced, so
the output holds no colon and is its own output. A path is renamed if it holds
a colon, and the same is found by comparing components, for a rewritten
document and when it is stored. The output is markdown if the path is, and the
address with the suffix is the base, less its final slashes, and the output.
-/
theorem names_agree
    (path : DocumentPath)
    (base : Text) :
    path.output.components = path.components.map DocumentPath.publishedText ∧
      ':' ∉ path.output.text ∧
      path.output.output = path.output ∧
      (path.isRenamed = true ↔ ':' ∈ path.text) ∧
      (∀ context text, (RewrittenDocument.ofText context path text).isRenamed = path.isRenamed) ∧
      path.sameComponents path.output = !path.isRenamed ∧
      (∀ root content session after,
        persistDocument root path path.output content session = .ok () after →
        after.events.getLast? =
          some (if path.isRenamed then .renamed path path.output else .rewrote path)) ∧
      path.output.isMarkdown = path.isMarkdown ∧
      ∃ front count, base = front ++ List.replicate count '/' ∧ front.getLast? ≠ some '/' ∧
        ∀ stem, path.text = stem ++ DocumentPath.markdownSuffix →
          path.url base ++ DocumentPath.markdownSuffix = front ++ '/' :: path.output.text := by
  have decided := path.sameComponents_output
  refine ⟨path.components_output, DocumentPath.not_mem_publishedText path.text,
    path.output_output, List.contains_iff_mem, fun context text => ?_, decided,
    fun root content session after stored => ?_, path.isMarkdown_output, ?_⟩
  · have different : (RewrittenDocument.ofText context path text).isRenamed =
        !path.sameComponents path.output := rfl
    rw [different, decided, Bool.not_not]
  · rw [getLast?_events_of_persistDocument stored, decided]
    cases path.isRenamed <;> rfl
  · obtain ⟨count, trimmed, notTrailing⟩ := Text.trimEnd_append_replicate '/' base
    refine ⟨_, count, trimmed, notTrailing, fun stem written => ?_⟩
    exact DocumentPath.url_append_markdownSuffix (Text.dropEnd?_eq_some_iff.mpr written) base

private def dividedPath : DocumentPath :=
  ⟨"log: 24/a: b.md".toList⟩

/-- A vault with a document that has colons in the names of its folder and its file. -/
private def dividedVault : Folder :=
  .folder (Utf8.encode "log: 24".toList)
    (.leaf (Utf8.encode "a: b.md".toList) (.file ⟨0o644, Utf8.encode "x".toList⟩) .empty)
    .empty

private def undividedVault : Folder :=
  .folder (Utf8.encode "log - 24".toList)
    (.leaf (Utf8.encode "a - b.md".toList) (.file ⟨0o644, Utf8.encode "x".toList⟩) .empty)
    .empty

/-- A document that is renamed with its folder. -/
theorem names_agree_dividedPath :
    dividedPath.text = "log: 24/a: b".toList ++ DocumentPath.markdownSuffix ∧
      dividedPath.isRenamed = true ∧
      dividedPath.output = ⟨"log - 24/a - b.md".toList⟩ ∧
      persistDocument "vault".toList dividedPath dividedPath.output "x".toList
          ⟨diskOf dividedVault, []⟩ =
        .ok () ⟨diskOf undividedVault, [.folderRemoved ⟨"log: 24".toList⟩,
          .renamed dividedPath dividedPath.output]⟩ ∧
      [.folderRemoved ⟨"log: 24".toList⟩, .renamed dividedPath dividedPath.output].getLast? =
        some (if dividedPath.isRenamed then
          Event.renamed dividedPath dividedPath.output
        else
          .rewrote dividedPath) ∧
      ∃ front count, "/posts//".toList = front ++ List.replicate count '/' ∧
        front.getLast? ≠ some '/' ∧
        dividedPath.url "/posts//".toList ++ DocumentPath.markdownSuffix =
          front ++ '/' :: dividedPath.output.text := by
  have written : dividedPath.text = "log: 24/a: b".toList ++ DocumentPath.markdownSuffix := by
    decide
  have stored : persistDocument "vault".toList dividedPath dividedPath.output "x".toList
        ⟨diskOf dividedVault, []⟩ =
      .ok () ⟨diskOf undividedVault, [.folderRemoved ⟨"log: 24".toList⟩,
          .renamed dividedPath dividedPath.output]⟩ := by
    decide +kernel
  obtain ⟨-, -, -, -, -, -, noted, -, front, count, trimmed, notTrailing, addressed⟩ :=
    names_agree dividedPath "/posts//".toList
  exact ⟨written, by decide, by decide, stored, noted _ _ _ _ stored, front, count, trimmed,
    notTrailing, addressed _ written⟩

end Vault

end NotePublisher
