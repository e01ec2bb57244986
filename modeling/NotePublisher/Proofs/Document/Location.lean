import NotePublisher.Document.Path
import NotePublisher.Proofs.Disk.Anchored
import NotePublisher.Proofs.Text.Bytes

namespace NotePublisher

/-!
# Where documents are

A document's path is a location below the root of its vault
(`DocumentPath.location`), and the path of its file on the disk is the route
to that location (`DocumentPath.IsNamed.route_within`). Publishing changes only names
that hold a colon, so the part of a path above the first of them is also a
part of the published path (`DocumentPath.prefix_output`).
-/

namespace Utf8

private theorem mem_encode_append_iff
    {left right : Text}
    {byte : UInt8} :
    byte ∈ (encode (left ++ right)).data.toList ↔
      byte ∈ (encode left).data.toList ∨ byte ∈ (encode right).data.toList := by
  rw [encode_append, ByteArray.data_append, Array.toList_append, List.mem_append]

/-- A slash is one byte, and no other character has it among its bytes. -/
private theorem slash_mem_encode_iff
    {text : Text} :
    47 ∈ (encode text).data.toList ↔ '/' ∈ text :=
  @Text.toUInt8_mem_bytes_iff '/' (by decide) text

end Utf8

namespace DocumentPath

/-- A text whose bytes are a plain name is one component of a path. -/
theorem isComponent_of_isPlain
    {text : Text}
    (plain : Name.IsPlain (Utf8.encode text)) :
    text ≠ [] ∧ '/' ∉ text :=
  ⟨fun nothing => plain.nonempty (congrArg Utf8.encode nothing),
    fun member => plain.noSlash (Utf8.slash_mem_encode_iff.mpr member)⟩

/-- Publishing leaves no colon. -/
theorem not_mem_publishedText (text : Text) :
    ':' ∉ publishedText text := by
  intro member
  obtain ⟨char, -, inPublished⟩ := List.mem_flatMap.mp member
  by_cases colon : char = ':'
  · simp [publishedChar, colon] at inPublished
  · simp [publishedChar, colon, Ne.symm colon] at inPublished

theorem publishedText_eq_self
    {text : Text}
    (noColon : ':' ∉ text) :
    publishedText text = text := by
  induction text with
  | nil =>
      rfl
  | cons char rest inductionHypothesis =>
      simp only [List.mem_cons, not_or] at noColon
      obtain ⟨different, noColonInRest⟩ := noColon
      have same := inductionHypothesis noColonInRest
      rw [publishedText] at same ⊢
      simp [publishedChar, Ne.symm different, same]

private theorem map_publishedText_eq_self
    {components : List Text}
    (noColon : ∀ component ∈ components, ':' ∉ component) :
    components.map publishedText = components :=
  calc components.map publishedText
      _ = components.map id :=
        List.map_congr_left fun component member =>
          publishedText_eq_self (noColon component member)
      _ = components := List.map_id components

/-- What stands in for a colon is told by its blank. -/
private theorem blank_mem_publishedText
    {text : Text}
    (member : ':' ∈ text) :
    ' ' ∈ publishedText text :=
  List.mem_flatMap.mpr ⟨':', member, by simp [publishedChar]⟩

/-- Only one text is published as a text without blanks. -/
theorem eq_of_publishedText_eq
    {text published : Text}
    (same : publishedText text = published)
    (noBlank : ' ' ∉ published) :
    text = published := by
  have noColon : ':' ∉ text := fun member => noBlank (same ▸ blank_mem_publishedText member)
  rw [← same, publishedText_eq_self noColon]

/-- Publishing adds no bytes but those of its dash. -/
private theorem mem_encode_of_mem_encode_publishedText
    {text : Text}
    {byte : UInt8}
    (notDash : byte ∉ (Utf8.encode [' ', '-']).data.toList)
    (member : byte ∈ (Utf8.encode (publishedText text)).data.toList) :
    byte ∈ (Utf8.encode text).data.toList := by
  induction text with
  | nil =>
      exact member
  | cons char rest inductionHypothesis =>
      have unfolded : publishedText (char :: rest) = publishedChar char ++ publishedText rest :=
        List.flatMap_cons
      rw [unfolded, Utf8.mem_encode_append_iff] at member
      rw [← List.singleton_append, Utf8.mem_encode_append_iff]
      rcases member with first | later
      · by_cases colon : char = ':'
        · rw [publishedChar, if_pos colon] at first
          exact absurd first notDash
        · rw [publishedChar, if_neg colon] at first
          exact .inl first
      · exact .inr (inductionHypothesis later)

/-- The published form of a plain name is plain. -/
theorem isPlain_publishedText
    {text : Text}
    (plain : Name.IsPlain (Utf8.encode text)) :
    Name.IsPlain (Utf8.encode (publishedText text)) where
  nonempty same :=
    plain.nonempty (congrArg Utf8.encode
      (eq_of_publishedText_eq (Utf8.encode_inj.mp same) (by simp)))
  noZero member :=
    plain.noZero (mem_encode_of_mem_encode_publishedText (by decide) member)
  noSlash member :=
    plain.noSlash (mem_encode_of_mem_encode_publishedText (by decide) member)
  notStay same :=
    plain.notStay (congrArg Utf8.encode
      (eq_of_publishedText_eq (Utf8.encode_inj.mp same) (by simp)))
  notUp same :=
    plain.notUp (congrArg Utf8.encode
      (eq_of_publishedText_eq (Utf8.encode_inj.mp same) (by simp)))

/-- The names that lead from the vault's root to the document. -/
def location (path : DocumentPath) : Location :=
  path.components.map Utf8.encode

theorem location_inj
    {left right : DocumentPath} :
    left.location = right.location ↔ left.components = right.components :=
  (List.map_injective_iff.mpr fun _ _ => Utf8.encode_inj.mp).eq_iff

/-- Paths are told apart by their components. -/
theorem sameComponents_iff
    {left right : DocumentPath} :
    left.sameComponents right = true ↔ left.components = right.components :=
  decide_eq_true_iff

/-- The path has components, none of which stays or goes up. -/
structure IsNamed (path : DocumentPath) : Prop where
  somewhere : path.components ≠ []
  noStay : currentFolder ∉ path.components
  noUp : parentFolder ∉ path.components

/-- The path leads down from the root by at least one name. -/
structure IsNormal (path : DocumentPath) : Prop where
  somewhere : path.components ≠ []
  plain : ∀ name ∈ path.location, name.IsPlain

theorem IsNormal.isNamed
    {path : DocumentPath}
    (normal : path.IsNormal) :
    path.IsNamed where
  somewhere := normal.somewhere
  noStay member := (normal.plain _ (List.mem_map_of_mem member)).notStay rfl
  noUp member := (normal.plain _ (List.mem_map_of_mem member)).notUp rfl

/-- A document is somewhere below its root. -/
theorem IsNormal.location_ne_nil
    {path : DocumentPath}
    (normal : path.IsNormal) :
    path.location ≠ [] := by
  simpa [location] using normal.somewhere

private theorem not_mem_of_mem_splitOn
    {text piece : Text}
    (member : piece ∈ text.splitOn '/') :
    '/' ∉ piece := by
  induction text generalizing piece with
  | nil =>
      simp_all
  | cons char rest inductionHypothesis =>
      rw [List.splitOn_cons_eq_if_modifyHead] at member
      by_cases slash : char = '/'
      · simp only [slash, beq_self_eq_true, if_true, List.mem_cons] at member
        rcases member with rfl | later
        · simp
        · exact inductionHypothesis later
      · simp only [beq_iff_eq, slash, if_false] at member
        cases pieces : rest.splitOn '/' with
        | nil => simp [pieces] at member
        | cons first others =>
            rw [pieces] at inductionHypothesis member
            rcases List.mem_cons.mp member with rfl | later
            · simpa [Ne.symm slash] using inductionHypothesis List.mem_cons_self
            · exact inductionHypothesis (List.mem_cons_of_mem first later)

/-- Components are neither empty nor do they hold a slash. -/
theorem not_mem_of_mem_components
    {path : DocumentPath}
    {component : Text}
    (member : component ∈ path.components) :
    component ≠ [] ∧ '/' ∉ component := by
  obtain ⟨isPiece, nonempty⟩ := List.mem_filter.mp member
  exact ⟨by simpa using nonempty, not_mem_of_mem_splitOn isPiece⟩

/-- Publishing changes each piece of a path by itself. -/
theorem splitOn_publishedText (text : Text) :
    (publishedText text).splitOn '/' = (text.splitOn '/').map publishedText := by
  induction text with
  | nil =>
      rfl
  | cons char rest inductionHypothesis =>
      have unfolded : publishedText (char :: rest) = publishedChar char ++ publishedText rest :=
        List.flatMap_cons
      have pushed (first : Text) (pieces : List Text) :
          (pieces.modifyHead (char :: ·)).map publishedText =
            (pieces.map publishedText).modifyHead (publishedChar char ++ ·) := by
        cases pieces <;> simp [publishedText]
      rw [unfolded, List.splitOn_cons_eq_if_modifyHead]
      by_cases slash : char = '/'
      · subst slash
        have kept : publishedChar '/' = ['/'] := rfl
        rw [kept, List.singleton_append, List.splitOn_cons_eq_if_modifyHead, inductionHypothesis]
        rfl
      · simp only [beq_iff_eq, slash, if_false]
        rw [pushed [], ← inductionHypothesis]
        by_cases colon : char = ':'
        · simp [publishedChar, colon, List.splitOn_cons_eq_if_modifyHead, List.modifyHead_modifyHead,
            Function.comp_def]
        · simp [publishedChar, colon, List.splitOn_cons_eq_if_modifyHead, slash]

/-- An output has the components of its document, each of them published. -/
theorem components_output (path : DocumentPath) :
    path.output.components = path.components.map publishedText := by
  rw [components, components, output, splitOn_publishedText, List.filter_map]
  congr 1
  apply List.filter_congr
  intro piece _
  cases piece with
  | nil => rfl
  | cons char rest =>
      by_cases colon : char = ':' <;> simp [publishedText, publishedChar, colon]

/-- Outputs of normal paths are normal. -/
theorem IsNormal.output
    {path : DocumentPath}
    (normal : path.IsNormal) :
    path.output.IsNormal where
  somewhere := by
    simpa [components_output] using normal.somewhere
  plain := by
    intro name member
    rw [location, components_output, List.map_map] at member
    obtain ⟨component, isComponent, rfl⟩ := List.mem_map.mp member
    exact isPlain_publishedText (normal.plain _ (List.mem_map_of_mem isComponent))

end DocumentPath

/-- Nothing on the location has a name that publishing changes. -/
def Location.IsPublished (location : Location) : Prop :=
  ∀ text, Utf8.encode text ∈ location → ':' ∉ text

instance (location : Location) : Decidable location.IsPublished :=
  decidable_of_iff (∀ name ∈ location, ∀ text ∈ Utf8.decode? name, ':' ∉ text)
    ⟨fun noColon text member => noColon _ member text (Utf8.decode?_encode text),
      fun published _ member text decoded =>
        published text (Utf8.decode?_eq_some_iff.mp decoded ▸ member)⟩

theorem Location.IsPublished.of_prefix
    {place location : Location}
    (published : location.IsPublished)
    (onTheWay : place <+: location) :
    place.IsPublished :=
  fun text member => published text (onTheWay.subset member)

theorem Location.isPublished_map_encode
    {texts : List Text}
    (noColon : ∀ text ∈ texts, ':' ∉ text) :
    Location.IsPublished (texts.map Utf8.encode) := by
  intro text member
  obtain ⟨other, isThere, same⟩ := List.mem_map.mp member
  exact Utf8.encode_inj.mp same ▸ noColon other isThere

namespace DocumentPath

/-- Nothing on an output's way is changed by publishing it again. -/
theorem isPublished_output (path : DocumentPath) :
    Location.IsPublished path.output.location := by
  rw [location, components_output]
  refine Location.isPublished_map_encode fun text member => ?_
  obtain ⟨component, -, rfl⟩ := List.mem_map.mp member
  exact not_mem_publishedText component

/-- What is above the first name that publishing changes is above the output too. -/
theorem prefix_output
    {path : DocumentPath}
    {place : Location}
    (onTheWay : place <+: path.location)
    (published : Location.IsPublished place) :
    place <+: path.output.location := by
  obtain ⟨rest, shape⟩ := onTheWay
  obtain ⟨above, below, components_eq, rfl, -⟩ := List.map_eq_append_iff.mp shape.symm
  have same : above.map publishedText = above :=
    map_publishedText_eq_self fun component member =>
      published component (List.mem_map_of_mem member)
  rw [location, components_output, components_eq, List.map_append, same, List.map_append]
  exact List.prefix_append _ _

/-- A document whose names publishing leaves alone stays where it is. -/
theorem location_output_of_isPublished
    {path : DocumentPath}
    (published : Location.IsPublished path.location) :
    path.output.location = path.location := by
  have same : path.components.map publishedText = path.components :=
    map_publishedText_eq_self fun component member =>
      published component (List.mem_map_of_mem member)
  rw [location, components_output, same, ← location]

/-- Publishing leaves a document where it is exactly if it changes none of its names. -/
theorem sameComponents_output_iff
    {path : DocumentPath} :
    path.sameComponents path.output = true ↔ path.output.location = path.location := by
  rw [sameComponents_iff, location_inj, eq_comm]

/-- A document that publishing moves leaves its path at the first name that is changed. -/
theorem exists_renamed
    {path : DocumentPath}
    (renamed : path.output.location ≠ path.location) :
    ∃ above name newName below newBelow,
      path.location = above ++ name :: below ∧
      path.output.location = above ++ newName :: newBelow ∧
      Location.IsPublished above ∧ ¬ Location.IsPublished [name] ∧ newName ≠ name := by
  cases found : path.components.find? fun component => component.contains ':' with
  | none =>
      have noColon : ∀ component ∈ path.components, ':' ∉ component := by
        simpa using List.find?_eq_none.mp found
      rw [location, location, components_output, map_publishedText_eq_self noColon] at renamed
      exact absurd rfl renamed
  | some component =>
      obtain ⟨isRenamed, above, below, shape, before⟩ := List.find?_eq_some_iff_append.mp found
      have colon : ':' ∈ component := by simpa using isRenamed
      have noColon : ∀ other ∈ above, ':' ∉ other := by simpa using before
      refine ⟨above.map Utf8.encode, Utf8.encode component, Utf8.encode (publishedText component),
        below.map Utf8.encode, (below.map publishedText).map Utf8.encode, ?_, ?_, ?_, ?_, ?_⟩
      · rw [location, shape, List.map_append, List.map_cons]
      · rw [location, components_output, shape, List.map_append, map_publishedText_eq_self noColon,
          List.map_append, List.map_cons, List.map_cons]
      · exact Location.isPublished_map_encode noColon
      · intro published
        exact published component (by simp) colon
      · intro same
        apply not_mem_publishedText component
        rwa [Utf8.encode_inj.mp same]

section Joining

variable {components : List Text}

private theorem joinBelow_cons
    {root component : Text}
    (root_ne_nil : root ≠ []) :
    joinBelow root (component :: components) =
      joinBelow (root ++ '/' :: component) components := by
  simp [joinBelow, root_ne_nil]

/-- A path below a root is the root and its components with slashes between them. -/
theorem joinBelow_eq_intercalate
    {root : Text}
    (root_ne_nil : root ≠ []) :
    joinBelow root components = ['/'].intercalate (root :: components) := by
  induction components generalizing root with
  | nil =>
      simp [joinBelow]
  | cons component others inductionHypothesis =>
      rw [joinBelow_cons root_ne_nil, inductionHypothesis (by simp)]
      cases others <;> simp

/-- What is joined below a root can be taken apart again. -/
private theorem splitOn_joinBelow
    (pieces : ∀ component ∈ components, '/' ∉ component)
    {root : Text}
    (root_ne_nil : root ≠ []) :
    (joinBelow root components).splitOn '/' = root.splitOn '/' ++ components := by
  induction components generalizing root with
  | nil =>
      simp [joinBelow]
  | cons component others inductionHypothesis =>
      obtain ⟨isPiece, otherPieces⟩ := List.forall_mem_cons.mp pieces
      rw [joinBelow_cons root_ne_nil, inductionHypothesis otherPieces (by simp),
        List.splitOn_append_cons_self, List.splitOn_eq_singleton isPiece]
      simp

private theorem head?_joinBelow
    {root : Text}
    (root_ne_nil : root ≠ []) :
    (joinBelow root components).head? = root.head? := by
  induction components generalizing root with
  | nil =>
      rfl
  | cons component others inductionHypothesis =>
      rw [joinBelow_cons root_ne_nil, inductionHypothesis (by simp),
        List.head?_append_of_ne_nil _ root_ne_nil]

/-- A path with components does not end with a slash. -/
private theorem getLast?_joinBelow
    (pieces : ∀ component ∈ components, component ≠ [] ∧ '/' ∉ component)
    {root : Text}
    (root_ne_nil : root ≠ [])
    (noSlash : components = [] → root.getLast? ≠ some '/') :
    (joinBelow root components).getLast? ≠ some '/' := by
  induction components generalizing root with
  | nil =>
      exact noSlash rfl
  | cons component others inductionHypothesis =>
      obtain ⟨⟨nonempty, isPiece⟩, otherPieces⟩ := List.forall_mem_cons.mp pieces
      rw [joinBelow_cons root_ne_nil]
      refine inductionHypothesis otherPieces (by simp) fun _ ends => ?_
      rw [List.getLast?_append_cons, List.getLast?_cons_of_ne_nil nonempty] at ends
      exact isPiece (List.mem_of_getLast? ends)

end Joining

/-- How a path below a root begins, what its pieces are and how it does not end. -/
private theorem within_parts
    {path : DocumentPath}
    (somewhere : path.components ≠ [])
    (root : Text) :
    ((path.within root).head? = some '/' ↔ root.head? = some '/') ∧
      ((path.within root).splitOn '/').filter (fun piece => !piece.isEmpty) =
        (root.splitOn '/').filter (fun piece => !piece.isEmpty) ++ path.components ∧
      (path.within root).getLast? ≠ some '/' := by
  have pieces : ∀ component ∈ path.components, component ≠ [] ∧ '/' ∉ component :=
    fun component member => not_mem_of_mem_components member
  have nonempties : path.components.filter (fun piece => !piece.isEmpty) = path.components := by
    rw [List.filter_eq_self]
    intro component member
    simpa using (pieces component member).1
  rcases eq_or_ne root [] with rfl | root_ne_nil
  · -- Below an empty path the first component begins the route.
    obtain ⟨first, others, shape⟩ := List.exists_cons_of_ne_nil somewhere
    have joined : path.within [] = joinBelow first others := by
      rw [within, shape]
      rfl
    rw [shape] at pieces nonempties ⊢
    obtain ⟨⟨first_ne_nil, noSlash⟩, otherPieces⟩ := List.forall_mem_cons.mp pieces
    rw [joined, head?_joinBelow first_ne_nil,
      splitOn_joinBelow (fun component member => (otherPieces component member).2) first_ne_nil,
      List.splitOn_eq_singleton noSlash]
    refine ⟨⟨fun starts => ?_, fun starts => nomatch starts⟩, nonempties,
      getLast?_joinBelow otherPieces first_ne_nil fun _ ends => ?_⟩
    · exact absurd (List.mem_of_head? starts) noSlash
    · exact absurd (List.mem_of_getLast? ends) noSlash
  · rw [within, head?_joinBelow root_ne_nil,
      splitOn_joinBelow (fun component member => (pieces component member).2) root_ne_nil,
      List.filter_append, nonempties]
    exact ⟨.rfl, rfl, getLast?_joinBelow pieces root_ne_nil fun nothing => absurd nothing somewhere⟩

/-- The path of a document's file is the route to the document's location. -/
theorem IsNamed.route_within
    {path : DocumentPath}
    (named : path.IsNamed)
    (root : Text) :
    Route.ofText (path.within root) = (Route.ofText root).below path.location := by
  obtain ⟨starts, pieces, ends⟩ := within_parts named.somewhere root
  have steps : path.components.map Step.ofPiece = path.location.map .enter := by
    rw [location, List.map_map]
    refine List.map_congr_left fun component member => ?_
    have notStay : component ≠ ['.'] := fun same => named.noStay (by rwa [same] at member)
    have notUp : component ≠ ['.', '.'] := fun same => named.noUp (by rwa [same] at member)
    rw [Step.ofPiece, if_neg notStay, if_neg notUp]
    rfl
  simp only [Route.ofText, Route.below, ends, decide_false, starts, pieces, List.map_append, steps]

/-- Names that a legible route enters are plain. -/
theorem IsNamed.isNormal
    {path : DocumentPath}
    (named : path.IsNamed)
    {base : Route}
    (legible : (base.below path.location).holdsZero = false) :
    path.IsNormal where
  somewhere := named.somewhere
  plain name member := by
    obtain ⟨component, isComponent, rfl⟩ := List.mem_map.mp member
    obtain ⟨nonempty, noSlash⟩ := not_mem_of_mem_components isComponent
    refine ⟨?_, ?_, mt Utf8.slash_mem_encode_iff.mp noSlash, ?_, ?_⟩
    · exact fun nothing => nonempty (Utf8.encode_inj.mp nothing)
    · have noZero := List.any_eq_false.mp legible (.enter (Utf8.encode component))
        (List.mem_append_right _ (List.mem_map_of_mem member))
      simpa [Step.holdsZero] using noZero
    · exact fun stays => named.noStay (by rwa [Utf8.encode_inj.mp stays] at isComponent)
    · exact fun goesUp => named.noUp (by rwa [Utf8.encode_inj.mp goesUp] at isComponent)

/-- The folders above are the proper beginnings of a path that are not empty. -/
private theorem mem_foldersAbove_iff
    {reversed folder : List Text}
    (noStay : currentFolder ∉ reversed) :
    folder ∈ foldersAbove reversed ↔ folder ≠ [] ∧ folder <:+ reversed ∧ folder ≠ reversed := by
  induction reversed with
  | nil =>
      simp [foldersAbove]
  | cons component above inductionHypothesis =>
      simp only [List.mem_cons, not_or] at noStay
      obtain ⟨different, noStayAbove⟩ := noStay
      rw [foldersAbove, if_neg (Ne.symm different), List.suffix_cons_iff]
      by_cases atRoot : above = []
      · subst atRoot
        simp only [List.isEmpty_nil, if_true, List.not_mem_nil, List.suffix_nil, false_iff]
        tauto
      · have longer : folder = above → folder ≠ component :: above := by
          rintro rfl same
          simpa using congrArg List.length same
        have shorter : folder <:+ above → folder ≠ component :: above := by
          rintro suffix rfl
          exact Nat.not_succ_le_self _ suffix.length_le
        rw [if_neg (by simpa using atRoot), List.mem_cons, inductionHypothesis noStayAbove]
        constructor
        · rintro (rfl | ⟨nonempty, suffix, -⟩)
          · exact ⟨atRoot, .inr (List.suffix_refl _), longer rfl⟩
          · exact ⟨nonempty, .inr suffix, shorter suffix⟩
        · rintro ⟨nonempty, same | suffix, notWhole⟩
          · exact absurd same notWhole
          · exact or_iff_not_imp_left.mpr fun notAbove => ⟨nonempty, suffix, notAbove⟩

/-- The innermost folder comes first, and each lies in the next. -/
private theorem pairwise_foldersAbove
    {reversed : List Text}
    (noStay : currentFolder ∉ reversed) :
    (foldersAbove reversed).Pairwise fun inner outer => outer <:+ inner ∧ outer ≠ inner := by
  induction reversed with
  | nil =>
      exact .nil
  | cons component above inductionHypothesis =>
      simp only [List.mem_cons, not_or] at noStay
      obtain ⟨different, noStayAbove⟩ := noStay
      rw [foldersAbove, if_neg (Ne.symm different)]
      split
      · exact .nil
      · exact .cons (fun folder member => ((mem_foldersAbove_iff noStayAbove).mp member).2)
          (inductionHypothesis noStayAbove)

/-- Components with slashes between them are found again. -/
theorem components_intercalate
    {pieces : List Text}
    (pieces_ne_nil : pieces ≠ [])
    (areComponents : ∀ piece ∈ pieces, piece ≠ [] ∧ '/' ∉ piece) :
    components ⟨['/'].intercalate pieces⟩ = pieces := by
  rw [components, List.splitOn_intercalate '/' (fun piece member => (areComponents piece member).2)
    pieces_ne_nil, List.filter_eq_self]
  intro piece member
  simpa using (areComponents piece member).1

private theorem currentFolder_not_mem
    {path : DocumentPath}
    (normal : path.IsNormal) :
    currentFolder ∉ path.components.reverse :=
  mt List.mem_reverse.mp normal.isNamed.noStay

private theorem components_folder
    {path : DocumentPath}
    (normal : path.IsNormal)
    {folder : List Text}
    (member : folder ∈ foldersAbove path.components.reverse) :
    components ⟨['/'].intercalate folder.reverse⟩ = folder.reverse := by
  obtain ⟨nonempty, isSuffix, -⟩ := (mem_foldersAbove_iff (currentFolder_not_mem normal)).mp member
  refine components_intercalate (by simpa using nonempty) ?_
  intro piece inFolder
  exact not_mem_of_mem_components
    (List.mem_reverse.mp (isSuffix.subset (List.mem_reverse.mp inFolder)))

/-- An enclosing folder is a beginning of its document's location. -/
private theorem location_folder
    {path : DocumentPath}
    (normal : path.IsNormal)
    {folder : List Text}
    (member : folder ∈ foldersAbove path.components.reverse) :
    location ⟨['/'].intercalate folder.reverse⟩ = folder.reverse.map Utf8.encode := by
  rw [location, components_folder normal member]

/-- The enclosing folders are what lies on the way to the document, but for the root. -/
theorem mem_enclosingFolders_iff
    {path : DocumentPath}
    (normal : path.IsNormal)
    {place : Location} :
    place ∈ path.enclosingFolders.map location ↔
      place ≠ [] ∧ place <+: path.location ∧ place ≠ path.location := by
  have encode_injective : Function.Injective Utf8.encode := fun _ _ => Utf8.encode_inj.mp
  have noStay := currentFolder_not_mem normal
  rw [enclosingFolders, List.map_map, List.mem_map]
  constructor
  · rintro ⟨folder, member, rfl⟩
    obtain ⟨nonempty, isSuffix, notWhole⟩ := (mem_foldersAbove_iff noStay).mp member
    rw [Function.comp_apply, location_folder normal member, location]
    refine ⟨by simpa using nonempty, ?_, fun same => notWhole ?_⟩
    · have isPrefix := List.reverse_prefix.mpr isSuffix
      rw [List.reverse_reverse] at isPrefix
      exact isPrefix.map _
    · rw [← List.map_injective_iff.mpr encode_injective same, List.reverse_reverse]
  · rintro ⟨nonempty, ⟨rest, shape⟩, notWhole⟩
    obtain ⟨above, below, components_eq, rfl, -⟩ := List.map_eq_append_iff.mp shape.symm
    have member : above.reverse ∈ foldersAbove path.components.reverse := by
      refine (mem_foldersAbove_iff noStay).mpr ⟨by simpa using nonempty, ?_, fun same => ?_⟩
      · rw [List.reverse_suffix, components_eq]
        exact List.prefix_append above below
      · exact notWhole (by rw [location, List.reverse_inj.mp same])
    refine ⟨above.reverse, member, ?_⟩
    rw [Function.comp_apply, location_folder normal member, List.reverse_reverse]

/-- The enclosing folders lie on the way to the document. -/
theorem enclosingFolders_onTheWay
    {path : DocumentPath}
    (normal : path.IsNormal)
    {folder : DocumentPath}
    (member : folder ∈ path.enclosingFolders) :
    folder.IsNormal ∧ folder.location <+: path.location ∧
      folder.location ≠ path.location := by
  obtain ⟨nonempty, onTheWay, notWhole⟩ :=
    (mem_enclosingFolders_iff normal).mp (List.mem_map_of_mem member)
  refine ⟨⟨by simpa [location] using nonempty, ?_⟩, onTheWay, notWhole⟩
  exact fun name inLocation => normal.plain name (onTheWay.subset inLocation)

/-- The innermost enclosing folder comes first, and each lies in the next. -/
theorem pairwise_enclosingFolders
    {path : DocumentPath}
    (normal : path.IsNormal) :
    (path.enclosingFolders.map location).Pairwise fun inner outer =>
      outer <+: inner ∧ outer ≠ inner := by
  rw [enclosingFolders, List.map_map, List.pairwise_map]
  refine (pairwise_foldersAbove (currentFolder_not_mem normal)).imp_of_mem ?_
  rintro inner outer innerMember outerMember ⟨isSuffix, different⟩
  rw [Function.comp_apply, Function.comp_apply, location_folder normal innerMember,
    location_folder normal outerMember]
  refine ⟨(List.reverse_prefix.mpr isSuffix).map _, fun same => different ?_⟩
  exact List.reverse_inj.mp
    (List.map_injective_iff.mpr (fun _ _ => Utf8.encode_inj.mp) same)

/-- No folder encloses a document twice. -/
theorem nodup_enclosingFolders
    {path : DocumentPath}
    (normal : path.IsNormal) :
    (path.enclosingFolders.map location).Nodup :=
  (pairwise_enclosingFolders normal).imp fun ⟨_, different⟩ => Ne.symm different

end DocumentPath

end NotePublisher
