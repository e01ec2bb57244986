import NotePublisher.Document.Index
import NotePublisher.Markup.Inline

namespace NotePublisher

/-!
# Link records

Each wiki link of a document becomes a markdown link to the document that its
target stands for, or its target in bold when there is none. What became of
each link is recorded, in the order of the text. An empty target stands for
no document.
-/

/-- What a link turned into. -/
inductive LinkOutcome where
  | resolved (document : DocumentPath) (url : Text)
  | unresolved
  deriving DecidableEq, Repr

/-- A link's source and target, and what it turned into. -/
structure LinkRecord where
  raw : Text
  target : Text
  outcome : LinkOutcome
  deriving DecidableEq, Repr

namespace LinkOutcome

/-- What the target of a link turns into, for an index published below an address. -/
def ofTarget
    (index : DocumentIndex)
    (urlBase target : Text) :
    LinkOutcome :=
  if target.isEmpty then
    unresolved
  else
    match index.resolve? target with
    | some document => resolved document (document.url urlBase)
    | none => unresolved

/-- The text put in the place of a link. -/
def render
    (outcome : LinkOutcome)
    (link : LinkText) :
    Text :=
  match outcome with
  | resolved _ url =>
      '[' :: link.display ++ [']', '('] ++ url ++ [')']
  | unresolved =>
      ['*', '*'] ++ link.target ++ ['*', '*']

end LinkOutcome

namespace LinkRecord

/-- The record of a link. -/
def ofLink
    (index : DocumentIndex)
    (urlBase : Text)
    (link : LinkText) :
    LinkRecord where
  raw := link.raw
  target := link.target
  outcome := LinkOutcome.ofTarget index urlBase link.target

/-- Whether a document was found for the link. -/
def isResolved (record : LinkRecord) : Bool :=
  match record.outcome with
  | .resolved _ _ => true
  | .unresolved => false

end LinkRecord

/-- A text whose links have been replaced, with a record of each. -/
structure LinkedText where
  text : Text
  links : List LinkRecord
  deriving DecidableEq, Repr

/--
A text with its links replaced, from its nodes: the slices of the runs, and
what each link turns into in its place. There is none if a span of a node
covers no part of the text.
-/
def spliceLinks?
    (index : DocumentIndex)
    (urlBase text : Text) :
    List InlineNode →
    Option LinkedText
  | [] => some ⟨[], []⟩
  | .text span :: others =>
      (span.slice? text).bind fun run =>
        (spliceLinks? index urlBase text others).map fun linked =>
          { linked with text := run ++ linked.text }
  | .link full target label :: others =>
      (LinkText.ofSpans? text full target label).bind fun link =>
        let record := LinkRecord.ofLink index urlBase link
        (spliceLinks? index urlBase text others).map fun linked =>
          { text := record.outcome.render link ++ linked.text
            links := record :: linked.links }

/--
Replace the wiki links of a text. The spans of its nodes cover parts of it, so
the nodes can be spliced (`InlineNode.spliceLinks?_parse`).
-/
def resolveLinks
    (index : DocumentIndex)
    (urlBase text : Text) :
    LinkedText :=
  (spliceLinks? index urlBase text (InlineNode.parse text)).getD ⟨[], []⟩

end NotePublisher
