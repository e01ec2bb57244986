import NotePublisher.Vault.Publish

namespace NotePublisher

/-!
# Summaries

What a run prints: one line for each published document, the failures, and a
last line with the counts; or, when the run could not be carried out, an error
with the causes behind it.
-/

namespace Summary

/-- Texts as lines. -/
def lines (texts : List String) : String :=
  String.join (texts.map (· ++ "\n"))

/-- The counts of a document's links. -/
def linkCounts (document : RewrittenDocument) : String :=
  let total := toString document.links.length ++ " links"
  if document.unresolvedCount = 0 then
    total
  else
    total ++ ", " ++ toString document.unresolvedCount ++ " unresolved"

/-- The line of a published document. -/
def publishedLine (document : RewrittenDocument) : String :=
  let source := document.source.text.toString
  let name :=
    if document.isRenamed then
      source ++ " -> " ++ document.output.text.toString
    else
      source
  name ++ " (" ++ linkCounts document ++ ")"

/-- The line of a document that could not be published. -/
def failureLine (failure : PublishFailure) : String :=
  "Error: " ++ failure.document.text.toString ++ ": " ++ failure.error.message

/-- The line with the counts of a run. -/
def countsLine
    (dryRun : Bool)
    (report : PublishReport) :
    String :=
  (if dryRun then "Would publish " else "Published ") ++
    toString report.published.length ++ " documents, skipped " ++
    toString report.skipped.length ++ " other files, " ++
    toString report.failures.length ++ " failed, " ++
    toString report.unresolvedCount ++ " unresolved links"

/-- What a run prints about what it published. -/
def ofReport
    (dryRun : Bool)
    (report : PublishReport) :
    String :=
  lines (report.published.map publishedLine ++ [countsLine dryRun report])

/-- What a run prints about what it could not publish. -/
def ofFailures (report : PublishReport) : String :=
  lines (report.failures.map failureLine)

/-- A text behind a mark; further lines are indented as far as the mark is wide. -/
def indented
    (mark text : String) :
    String :=
  let indent := String.ofList (List.replicate mark.length ' ')
  mark ++ ("\n" ++ indent).intercalate (text.splitOn "\n")

/-- The lines of causes, numbered if there are several. -/
def causeLines (causes : List String) : List String :=
  match causes with
  | [] => []
  | [cause] => ["", "Caused by:", indented "    " cause]
  | _ =>
      "" :: "Caused by:" ::
        causes.mapIdx fun number cause =>
          let digits := toString number
          let blanks := String.ofList (List.replicate (5 - digits.length) ' ')
          indented (blanks ++ digits ++ ": ") cause

/-- What is printed about an error and the causes behind it. -/
def ofError
    (message : String)
    (causes : List String) :
    String :=
  lines (("Error: " ++ message) :: causeLines causes)

end Summary

end NotePublisher
