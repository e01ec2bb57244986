import NotePublisher.Document.LinkRecord
import NotePublisher.Markup.Comment
import NotePublisher.Markup.Diagram
import NotePublisher.Markup.Callout

namespace NotePublisher

/-!
# Rewriting a document

A vault's markdown becomes plain markdown in four stages, each on the text the
one before it left: hidden comments are dropped, wiki links replaced, diagrams
made embeddable and note markers expanded.
-/

/-- What rewriting depends on besides the text. -/
structure RewriteContext where
  /-- The files of the vault. -/
  index : DocumentIndex
  /-- The address the vault is published below. -/
  urlBase : Text
  /-- Where pages load the renderer of diagrams from. -/
  scriptSource : Text := Diagram.defaultScriptSource
  deriving DecidableEq, Repr

/-- A text after all stages, with a record of each of its links. -/
def rewriteText
    (context : RewriteContext)
    (text : Text) :
    LinkedText :=
  let linked := resolveLinks context.index context.urlBase (stripComments text)
  {
    text := expandCallouts (embedDiagrams context.scriptSource linked.text)
    links := linked.links
  }

/-- A document as it is to be stored. -/
structure RewrittenDocument where
  source : DocumentPath
  output : DocumentPath
  text : Text
  links : List LinkRecord
  deriving DecidableEq, Repr

namespace RewrittenDocument

/-- The document at a path, from its text in the vault. -/
def ofText
    (context : RewriteContext)
    (source : DocumentPath)
    (text : Text) :
    RewrittenDocument :=
  let rewritten := rewriteText context text
  {
    source := source
    output := source.output
    text := rewritten.text
    links := rewritten.links
  }

/-- Whether the document is stored as another file than it was read from. -/
def isRenamed (document : RewrittenDocument) : Bool :=
  !document.source.sameComponents document.output

/-- The number of links that became markdown links. -/
def resolvedCount (document : RewrittenDocument) : Nat :=
  document.links.countP LinkRecord.isResolved

/-- The links that no document was found for. -/
def unresolvedLinks (document : RewrittenDocument) : List LinkRecord :=
  document.links.filter fun record => !record.isResolved

/-- The number of links that no document was found for. -/
def unresolvedCount (document : RewrittenDocument) : Nat :=
  document.unresolvedLinks.length

end RewrittenDocument

end NotePublisher
