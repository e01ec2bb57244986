import NotePublisher.Proofs.Document.LinkTargets
import NotePublisher.Proofs.Markup.Inert
import NotePublisher.Proofs.Markup.LinkGrammar

namespace NotePublisher

/-!
# Which documents a link can lead to

A link goes by what is written: by a path's suffix, and by the target that its
brackets leave room for (`WikiLink.IsTarget`). Whether a document is markdown
goes by the name of its file. The two agree on documents with a name before the
suffix (`DocumentPath.linksTo_singleton_iff`). A file that is named by the
suffix alone is no markdown, but the path of the folder it lies in, with the
slash, is a target that names it (`DocumentPath.linksTo_iff_of_unmarked`).
-/

namespace WikiLink

/-- What can be written as the target of a link: nothing that ends the target or the line. -/
structure IsTarget (target : Text) : Prop where
  noBar : '|' ∉ target
  noClosing : ¬ closing <:+: target
  unbroken : ∀ char ∈ target, Text.isLineBreak char = false

instance decidableIsTarget (target : Text) : Decidable (IsTarget target) :=
  decidable_of_iff
    ('|' ∉ target ∧ ¬ closing <:+: target ∧ target.all (!Text.isLineBreak ·) = true)
    ⟨fun ⟨noBar, noClosing, unbroken⟩ => ⟨noBar, noClosing, by simpa using unbroken⟩,
      fun isTarget => ⟨isTarget.noBar, isTarget.noClosing, by simpa using isTarget.unbroken⟩⟩

theorem IsTarget.of_infix
    {part whole : Text}
    (occurs : part <:+: whole)
    (isTarget : IsTarget whole) :
    IsTarget part where
  noBar member := isTarget.noBar (occurs.subset member)
  noClosing closes := isTarget.noClosing (closes.trans occurs)
  unbroken char member := isTarget.unbroken char (occurs.subset member)

/-- A slash at its end changes nothing in whether a target can be written. -/
theorem isTarget_append_slash_iff
    {target : Text} :
    IsTarget (target ++ ['/']) ↔ IsTarget target := by
  constructor
  · exact fun isTarget => isTarget.of_infix (List.prefix_append _ _).isInfix
  · intro isTarget
    refine ⟨by simpa using isTarget.noBar, ?_, ?_⟩
    · exact Text.not_infix_append_cons (by decide) isTarget.noClosing (by decide)
    · exact List.forall_mem_append.mpr ⟨isTarget.unbroken, List.forall_mem_singleton.mpr rfl⟩

/-- A body between brackets is one link. -/
theorem scan_of_body
    {body : Text}
    (unbroken : ∀ char ∈ body, Text.isLineBreak char = false)
    (absent : ¬ closing <:+: body ++ closing.dropLast) :
    recogniser.scan (opening ++ body ++ closing) = [.marked (ofBody body false)] := by
  have starts : Text.dropStart? opening (opening ++ body ++ closing) =
      some (body ++ (closing ++ [])) :=
    Text.dropStart?_eq_some_iff.mpr (by simp)
  have fenced : Text.splitAtFence? closing Text.isLineBreak (body ++ (closing ++ [])) =
      some (body, []) :=
    Text.splitAtFence?_of_absent fences.closing_ne_nil unbroken absent []
  have found : recogniser.recognise? (opening ++ body ++ closing) =
      some (ofBody body false, []) := by
    simp only [recogniser, recognise?, starts, Option.bind_some, fenced, Option.map_some]
  rw [recogniser.scan_of_recognised found, recogniser.scan_nil]

/-- Targets that are read can be written. -/
theorem isTarget_of_mem
    {text : Text}
    {link : WikiLink}
    (member : link ∈ Piece.markedItems (recogniser.scan text)) :
    IsTarget link.target := by
  obtain ⟨front, rest, found⟩ := recogniser.exists_recognised_of_mem member
  obtain ⟨body, after, -, unbroken, absent, rfl⟩ := parts_of_recognised found
  have inBody : targetOfBody body <+: body := List.takeWhile_prefix _
  refine ⟨fun bar => ?_, fun closes => absent ?_, fun char inTarget => ?_⟩
  · simpa using List.mem_takeWhile_imp bar
  · exact (closes.trans inBody.isInfix).trans (List.prefix_append _ _).isInfix
  · exact unbroken char (inBody.subset inTarget)

/-- The targets of links are exactly the texts that can be written as one. -/
theorem exists_link_iff
    {target : Text} :
    (∃ text, ∃ link ∈ Piece.markedItems (recogniser.scan text), link.target = target) ↔
      IsTarget target := by
  constructor
  · rintro ⟨text, link, member, rfl⟩
    exact isTarget_of_mem member
  · intro isTarget
    -- Behind a bar the closing fence stands apart from a bracket at the end of the target.
    have absent : ¬ closing <:+: (target ++ ['|']) ++ closing.dropLast := by
      rw [List.append_assoc]
      exact Text.not_infix_append_cons (by decide) isTarget.noClosing (by decide)
    have unbroken : ∀ char ∈ target ++ ['|'], Text.isLineBreak char = false :=
      List.forall_mem_append.mpr ⟨isTarget.unbroken, List.forall_mem_singleton.mpr rfl⟩
    refine ⟨opening ++ (target ++ ['|']) ++ closing, ofBody (target ++ ['|']) false, ?_, ?_⟩
    · rw [scan_of_body unbroken absent]
      exact List.mem_singleton.mpr rfl
    · have noBars : ∀ char ∈ target, (char != '|') = true := by
        intro char member
        simpa using ne_of_mem_of_not_mem member isTarget.noBar
      simp [ofBody, targetOfBody, List.takeWhile_append_of_pos noBars]

end WikiLink

/-- A target without brackets and bars, between brackets, is recorded as one link. -/
theorem links_resolveLinks_target
    {index : DocumentIndex}
    {urlBase target : Text}
    (noBar : '|' ∉ target)
    (noBracket : ']' ∉ target)
    (unbroken : ∀ char ∈ target, Text.isLineBreak char = false) :
    (resolveLinks index urlBase (WikiLink.opening ++ target ++ WikiLink.closing)).links =
      [⟨WikiLink.opening ++ target ++ WikiLink.closing, target,
        LinkOutcome.ofTarget index urlBase target⟩] := by
  have absent : ¬ WikiLink.closing <:+: target ++ WikiLink.closing.dropLast := by
    -- The closing fence has two brackets, the target none.
    intro occurs
    have counted := occurs.sublist.count_le ']'
    rw [List.count_append, List.count_eq_zero.mpr noBracket] at counted
    simp [WikiLink.closing] at counted
  have target_eq : (WikiLink.ofBody target false).target = target := by
    refine List.takeWhile_eq_self_iff.mpr fun char member => ?_
    simpa using ne_of_mem_of_not_mem member noBar
  have source_eq : (WikiLink.ofBody target false).source =
      WikiLink.opening ++ target ++ WikiLink.closing := by
    rw [WikiLink.source, WikiLink.body_ofBody]
    exact List.append_nil _
  have recorded : LinkRecord.ofLink index urlBase (.ofLink (WikiLink.ofBody target false)) =
      ⟨WikiLink.opening ++ target ++ WikiLink.closing, target,
        LinkOutcome.ofTarget index urlBase target⟩ := by
    simp only [LinkRecord.ofLink, LinkText.ofLink, source_eq, target_eq]
  rw [resolveLinks_eq, WikiLink.scan_of_body unbroken absent, ← recorded]
  rfl

namespace DocumentIndex

variable {index : DocumentIndex} {urlBase : Text} {document : DocumentPath}

/-- Some text holds a link that is resolved to the document. -/
def LinksTo
    (index : DocumentIndex)
    (urlBase : Text)
    (document : DocumentPath) :
    Prop :=
  ∃ text, ∃ record ∈ (resolveLinks index urlBase text).links,
    ∃ url, record.outcome = .resolved document url

/-- Links lead to what the targets that can be written stand for, but for the empty target. -/
theorem linksTo_iff :
    index.LinksTo urlBase document ↔
      ∃ target, WikiLink.IsTarget target ∧ target ≠ [] ∧
        index.resolve? target = some document := by
  constructor
  · rintro ⟨text, record, listed, url, resolvedTo⟩
    rw [resolveLinks_links] at listed
    obtain ⟨link, member, rfl⟩ := List.mem_map.mp listed
    obtain ⟨target_ne_nil, found, -⟩ := LinkOutcome.ofTarget_eq_resolved_iff.mp resolvedTo
    exact ⟨link.target, WikiLink.isTarget_of_mem member, target_ne_nil, found⟩
  · rintro ⟨target, isTarget, target_ne_nil, found⟩
    obtain ⟨text, link, member, rfl⟩ := WikiLink.exists_link_iff.mpr isTarget
    exact ⟨text, _, resolveLinks_links index urlBase text ▸ List.mem_map_of_mem member,
      document.url urlBase,
      LinkOutcome.ofTarget_eq_resolved_iff.mpr ⟨target_ne_nil, found, rfl⟩⟩

end DocumentIndex

namespace DocumentPath

variable {path : DocumentPath} {name target urlBase : Text}

section Written

variable (normal : path.IsNormal) (tidy : path.IsTidy)

include normal tidy

/-- A markdown document by itself can be linked exactly if its name is a target. -/
theorem linksTo_singleton_iff
    (name_ne_nil : name ≠ [])
    (named : path.fileName = name ++ markdownSuffix) :
    DocumentIndex.LinksTo ⟨[path]⟩ urlBase path ↔ WikiLink.IsTarget name := by
  rw [normal.fileName_eq_lastSegment tidy] at named
  simp only [DocumentIndex.linksTo_iff, DocumentIndex.resolve?_singleton]
  constructor
  · rintro ⟨target, isTarget, -, isNamed⟩
    have same : Text.lastSegment target = name :=
      List.append_cancel_right (isNamed.lastSegment_eq.symm.trans named)
    exact same ▸ isTarget.of_infix (Text.lastSegment_suffix target).isInfix
  · intro isTarget
    exact ⟨name, isTarget, name_ne_nil, isNamedBy_of_lastSegment_eq named⟩

/-- A markdown document whose path holds nothing that links are made of is linked by its name. -/
theorem links_of_name
    (name_ne_nil : name ≠ [])
    (named : path.fileName = name ++ markdownSuffix)
    (noBar : '|' ∉ path.text)
    (noBracket : ']' ∉ path.text)
    (unbroken : ∀ char ∈ path.text, Text.isLineBreak char = false) :
    (resolveLinks ⟨[path]⟩ urlBase (WikiLink.opening ++ name ++ WikiLink.closing)).links =
      [⟨WikiLink.opening ++ name ++ WikiLink.closing, name,
        .resolved path (path.url urlBase)⟩] := by
  rw [normal.fileName_eq_lastSegment tidy] at named
  have inPath : name ⊆ path.text := by
    have ends := Text.lastSegment_suffix path.text
    rw [named] at ends
    exact fun char member => ends.subset (List.mem_append_left _ member)
  have resolvedTo : LinkOutcome.ofTarget ⟨[path]⟩ urlBase name =
      .resolved path (path.url urlBase) :=
    LinkOutcome.ofTarget_eq_resolved_iff.mpr ⟨name_ne_nil,
      DocumentIndex.resolve?_singleton.mpr (isNamedBy_of_lastSegment_eq named), rfl⟩
  rw [links_resolveLinks_target (fun bar => noBar (inPath bar))
    (fun bracket => noBracket (inPath bracket)) (fun char member => unbroken char (inPath member)),
    resolvedTo]

/--
The only target but the empty one that names a document which is not markdown
is the path of its folder with the slash, if the suffix alone is its name.
-/
theorem isNamedBy_iff_of_unmarked
    (unmarked : path.isMarkdown = false)
    (target_ne_nil : target ≠ []) :
    path.IsNamedBy target ↔
      ∃ folder, target = folder ++ ['/'] ∧ path.text = folder ++ '/' :: markdownSuffix := by
  constructor
  · intro named
    -- With a name before the suffix the document would be markdown.
    have noName : Text.lastSegment target = [] := by
      by_contra name_ne_nil
      have markdown : path.isMarkdown = true :=
        isMarkdown_iff.mpr ⟨_, name_ne_nil,
          (normal.fileName_eq_lastSegment tidy).trans named.lastSegment_eq⟩
      rw [unmarked] at markdown
      cases markdown
    have slash : '/' ∈ target := by
      by_contra noSlash
      exact target_ne_nil ((Text.lastSegment_of_not_mem noSlash).symm.trans noName)
    obtain ⟨folder, shape, -⟩ := Text.exists_eq_append_lastSegment slash
    rw [noName] at shape
    refine ⟨folder, shape, ?_⟩
    rw [(isNamedBy_iff_of_slash slash).mp named, shape]
    simp
  · rintro ⟨folder, rfl, written⟩
    exact .inl (written.trans (by simp))

/--
A document that is not markdown can be linked exactly if it is named by the
suffix alone and the path of its folder is a target.
-/
theorem linksTo_iff_of_unmarked
    (unmarked : path.isMarkdown = false)
    {index : DocumentIndex}
    (listed : path ∈ index.documents) :
    index.LinksTo urlBase path ↔
      ∃ folder, path.text = folder ++ '/' :: markdownSuffix ∧ WikiLink.IsTarget folder := by
  rw [DocumentIndex.linksTo_iff]
  constructor
  · rintro ⟨target, isTarget, target_ne_nil, found⟩
    have named := DocumentIndex.isNamedBy_of_resolve? found
    obtain ⟨folder, rfl, written⟩ :=
      (isNamedBy_iff_of_unmarked normal tidy unmarked target_ne_nil).mp named
    exact ⟨folder, written, WikiLink.isTarget_append_slash_iff.mp isTarget⟩
  · rintro ⟨folder, written, isTarget⟩
    have path_eq : path = ⟨(folder ++ ['/']) ++ markdownSuffix⟩ :=
      congrArg mk (written.trans (by simp))
    refine ⟨folder ++ ['/'], WikiLink.isTarget_append_slash_iff.mpr isTarget, by simp, ?_⟩
    rw [path_eq] at listed ⊢
    exact DocumentIndex.resolve?_of_mem (by simp) listed

end Written

end DocumentPath

end NotePublisher
