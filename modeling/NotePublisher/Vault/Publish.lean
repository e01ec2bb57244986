import NotePublisher.Vault.Scan
import NotePublisher.Vault.Store

namespace NotePublisher

/-!
# Publishing a vault

A run compiles the patterns of folders to leave out, indexes the vault, and
then rewrites one markdown document after the other. A fatal error ends the
run before any file is touched; a document that cannot be read or stored is
reported and the run goes on with the next.
-/

/-- What a run is asked to do. -/
structure PublishOptions where
  root : Text
  urlBase : Text := []
  excludes : List Text := []
  scriptSource : Text := Diagram.defaultScriptSource
  /-- Rewrite every document without storing any. -/
  dryRun : Bool := false
  deriving DecidableEq, Repr

/-- What became of a file of the vault. -/
inductive PublishOutcome where
  | skipped (document : DocumentPath)
  | published (document : RewrittenDocument)
  | failed (document : DocumentPath) (error : VaultError)
  deriving DecidableEq, Repr

/-- A document that could not be published, and why. -/
structure PublishFailure where
  document : DocumentPath
  error : VaultError
  deriving DecidableEq, Repr

/-- What became of the files of a vault, by kind and in the order of the index. -/
structure PublishReport where
  published : List RewrittenDocument
  skipped : List DocumentPath
  failures : List PublishFailure
  deriving DecidableEq, Repr

namespace PublishReport

/-- The report of what became of the files. -/
def ofOutcomes (outcomes : List PublishOutcome) : PublishReport where
  published := outcomes.filterMap fun
    | .published document => some document
    | _ => none
  skipped := outcomes.filterMap fun
    | .skipped document => some document
    | _ => none
  failures := outcomes.filterMap fun
    | .failed document error => some ⟨document, error⟩
    | _ => none

/-- Whether every document was published. -/
def isSuccess (report : PublishReport) : Bool :=
  report.failures.isEmpty

/-- The number of links that no document was found for. -/
def unresolvedCount (report : PublishReport) : Nat :=
  (report.published.flatMap RewrittenDocument.unresolvedLinks).length

end PublishReport

namespace Vault

/-- Rewrite a markdown document, and store it unless the run is a dry one. -/
def publishMarkdown
    (options : PublishOptions)
    (context : RewriteContext)
    (document : DocumentPath) :
    VaultAction RewrittenDocument :=
  if options.dryRun then
    prepareDocument options.root context document
  else
    rewriteDocument options.root context document

/-- Publish one file of the vault. -/
def publishOne
    (options : PublishOptions)
    (context : RewriteContext)
    (document : DocumentPath)
    (session : Session) :
    PublishOutcome × Session :=
  if document.isMarkdown then
    match publishMarkdown options context document session with
    | .ok rewritten changed => (.published rewritten, changed)
    | .error error changed =>
        (.failed document error,
          { changed with events := changed.events ++ [.publishFailed document error] })
  else
    (.skipped document,
      { session with events := session.events ++ [.skipping document] })

/-- Publish files of the vault one after the other. -/
def publishEach
    (options : PublishOptions)
    (context : RewriteContext) :
    List DocumentPath →
    Session →
    List PublishOutcome × Session
  | [], session => ([], session)
  | document :: others, session =>
      let (outcome, afterOne) := publishOne options context document session
      let (outcomes, afterAll) := publishEach options context others afterOne
      (outcome :: outcomes, afterAll)

/-- Publish a whole vault. -/
def publish (options : PublishOptions) : VaultAction PublishReport := do
  let excludes ←
    match compileExcludes options.excludes with
    | .ok patterns => pure patterns
    | .error error => throw error
  let index ← buildIndex options.root excludes
  let context : RewriteContext :=
    { index := index, urlBase := options.urlBase, scriptSource := options.scriptSource }
  VaultAction.note (.publishing index.size options.root)
  let outcomes ← fun session =>
    let (outcomes, changed) := publishEach options context index.documents session
    .ok outcomes changed
  let report := PublishReport.ofOutcomes outcomes
  VaultAction.note
    (.finished report.published.length report.skipped.length report.failures.length
      report.unresolvedCount)
  pure report

end Vault

end NotePublisher
