import TemplateTidy.Beautify
import TemplateTidy.Exclude.Spec
import TemplateTidy.Settings.Basic

/-!
# Formatting documents

A document goes through up to three stages: it may be excluded, its markup may
be laid out, and its code may go through a formatter from outside. A stage that
fails is reported, and the document goes on as it was before that stage; a
strict run ends there instead.

Every line of the report is logged, and told to whoever listens, at the moment
it is made. What a run has done remains done when it ends early: the stages it
has started and the lines it has told are kept beside its result.
-/

namespace TemplateTidy

/-- The stages of a document that can fail on their own account. -/
inductive Stage where
  | markup
  | code
  deriving Repr, DecidableEq

namespace Stage

/-- The name of a stage. -/
def name : Stage → Text
  | markup => "markup formatting".toList
  | code => "code formatting".toList

/-- What is reported of a stage that has succeeded. -/
def success : Stage → Text
  | markup => "  ✔ Markup formatted.".toList
  | code => "  ✔ Code formatter applied.".toList

/-- What is reported of a stage that has failed. -/
def failure (cause : Failure) : Stage → Text
  | markup =>
    "  ✘ Markup formatting failed, keeping original markup: ".toList ++ cause.message
  | code => "  ✘ Code formatter failed: ".toList ++ cause.message

end Stage

/-- Why a document was not formatted at all. -/
inductive DocumentError where
  /-- It cannot be said whether the document is excluded. -/
  | exclusion (error : ExcludeError)
  /-- A stage of a strict run failed. -/
  | failed (stage : Stage) (cause : Failure)
  deriving Repr, DecidableEq

/-- The wording of an error. -/
def DocumentError.message : DocumentError → Text
  | exclusion error => error.message
  | failed stage cause => stage.name ++ " failed: ".toList ++ cause.message

/-- What becomes of a document: its new text, if that is another one, and the
lines reported to the user. -/
structure Report where
  text : Option Text
  lines : List Text
  deriving Repr, DecidableEq

/-- Lays out the markup of a document. -/
abbrev MarkupStage := Text → Run Text

/-- Reformats the code of a document. -/
abbrev CodeStage := Text → Except Failure Text

/-- What a run asks of those outside it. -/
inductive Call where
  /-- A line is told to whoever listens to the report. -/
  | tell (line : Text)
  /-- A text is given to a stage. -/
  | start (stage : Stage) (text : Text)
  deriving Repr, DecidableEq

namespace Call

/-- The line that is told. -/
def line? : Call → Option Text
  | tell line => some line
  | start .. => none

/-- The stage that is started, with the text it is given. -/
def started? : Call → Option (Stage × Text)
  | tell _ => none
  | start stage text => some (stage, text)

end Call

/-- What a run has done so far: its log, the next draw for a nonce, the lines of
the report, and its calls in order. -/
structure Progress where
  log : List LogEntry := []
  nextDraw : Nat
  lines : List Text := []
  calls : List Call := []

/-- The end of a document's run: what it has done, and the report. -/
structure DocumentRun where
  log : List LogEntry
  nextDraw : Nat
  calls : List Call
  result : Except DocumentError Report

namespace Document

/-- A part of a run. What it has done is kept when it ends in an error. -/
abbrev Work := ExceptT DocumentError (StateM Progress)

/-- Adds a line to the report: the line is told and logged as well. -/
def say (line : Text) : Work Unit :=
  modify fun p =>
    { p with
      log := p.log ++ [.debug .service line]
      lines := p.lines ++ [line]
      calls := p.calls ++ [.tell line] }

/-- Gives a text to a stage. -/
def start (stage : Stage) (s : Text) : Work Unit :=
  modify fun p => { p with calls := p.calls ++ [.start stage s] }

/-- The text after a stage that was given `s`. A stage that fails leaves the text
as it was, or ends a strict run. -/
def settle (strict : Bool) (stage : Stage) (s : Text) (result : Except Failure Text) :
    Work Text := do
  match result with
  | .ok t =>
    say stage.success
    return t
  | .error cause =>
    -- the end of a strict run is not reported: whoever called it is given the cause
    if strict then throw (.failed stage cause)
    say (stage.failure cause)
    return s

/-- The markup stage, if it is wanted. -/
def markupStage (strict : Bool) (settings : Settings) (markup : MarkupStage) (s : Text) :
    Work Text := do
  if settings.formatHtml then
    start .markup s
    let run := markup s
    -- before the result is looked at, so that a failing stage has its log
    modify fun p => { p with log := p.log ++ run.log, nextDraw := run.nextDraw }
    settle strict .markup s run.result
  else return s

/-- The code stage, if there is one. -/
def codeStage (strict : Bool) (code : Option CodeStage) (s : Text) : Work Text := do
  match code with
  | none => return s
  | some format =>
    start .code s
    settle strict .code s (format s)

/-- The new text of a document that was `s` and has become `t`, if that is
another one. -/
def conclude (s t : Text) : Work (Option Text) := do
  if t = s then
    say "  - No changes.".toList
    return none
  else return some t

/-- The stages of a document that is not excluded. -/
def stages (settings : Settings) (markup : MarkupStage) (code : Option CodeStage) (strict : Bool)
    (s : Text) : Work (Option Text) := do
  let t ← markupStage strict settings markup s
  let t ← codeStage strict code t
  conclude s t

/-- Skips an excluded document. -/
def skip (path : Text) : Work (Option Text) := do
  say ("  - '".toList ++ path ++ "' is excluded. Skipping.".toList)
  return none

/-- A whole run, given whether the document is excluded. -/
def format (excluded : Except ExcludeError Bool) (settings : Settings) (markup : MarkupStage)
    (code : Option CodeStage) (strict : Bool) (path s : Text) : Work (Option Text) := do
  match excluded with
  -- unlike the other stages this one ends a run that is not strict too
  | .error e => throw (.exclusion e)
  | .ok true => skip path
  | .ok false => stages settings markup code strict s

/-- Carries out a run. The next draw for a nonce is `draw`. -/
def perform (draw : Nat) (work : Work (Option Text)) : DocumentRun :=
  let (result, p) := work.run.run { nextDraw := draw }
  { log := p.log
    nextDraw := p.nextDraw
    calls := p.calls
    result := result.map fun text => ⟨text, p.lines⟩ }

end Document

/-- Formats a document with given stages. A document without a path is never
excluded. -/
def formatDocumentWith (cwd : Text) (settings : Settings) (markup : MarkupStage)
    (code : Option CodeStage) (root : Option Text) (strict : Bool) (draw : Nat) (path : Option Text)
    (s : Text) : DocumentRun :=
  let path := path.getD []
  let excluded := isExcluded cwd settings.exclude root path
  Document.perform draw (Document.format excluded settings markup code strict path s)

/-- Formats a document. -/
def formatDocument (draws : Draws) (cwd : Text) (settings : Settings) (code : Option CodeStage)
    (root : Option Text) (strict : Bool) (draw : Nat) (path : Option Text) (s : Text) :
    DocumentRun :=
  let markup := beautify draws draw (MarkupOptions.ofRecord settings.html) settings.shortTags
  formatDocumentWith cwd settings markup code root strict draw path s

end TemplateTidy
