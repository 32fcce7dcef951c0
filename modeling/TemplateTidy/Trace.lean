import TemplateTidy.Html.TagEvent
import TemplateTidy.Markup.Format

/-!
# What a run leaves behind

A run of the program ends with a result or a failure, and on its way it writes
entries into a log. Whether anyone reads the log is not its concern.
-/

namespace TemplateTidy

/-- The part of the program that writes a log entry. -/
inductive LogSource where
  | beautifier
  | disguise
  | service
  | settings
  deriving Repr, DecidableEq

/-- How important a log entry is. -/
inductive LogLevel where
  | debug
  | warning
  deriving Repr, DecidableEq

/-- An entry of the log. -/
structure LogEntry where
  source : LogSource
  level : LogLevel
  message : Text
  deriving Repr, DecidableEq

namespace LogEntry

/-- An entry for those who trace a run. -/
def debug (source : LogSource) (message : Text) : LogEntry :=
  ⟨source, .debug, message⟩

end LogEntry

/-- Why a template could not be formatted. -/
inductive Failure where
  /-- The markup holds something that makes no sense. -/
  | markup (fault : Html.Fault)
  | indentation (fault : IndentFault)
  /-- A formatter from outside failed, with an error of the given kind. -/
  | outside (kind message : Text)
  deriving Repr, DecidableEq

/-- The wording of a failure. -/
def Failure.message : Failure → Text
  | markup fault => fault.message
  | indentation fault => fault.message
  | outside _ message => message

/-- The end of a run: its log, the next draw for a nonce, and its result. -/
structure Run (α : Type) where
  log : List LogEntry
  nextDraw : Nat
  result : Except Failure α

/-- Where a run writes its log. -/
inductive Tracer where
  /-- To a logger that the caller brings along. -/
  | supplied (name : Text)
  /-- To the logger of the given name, set to the given level. -/
  | named (name : Text) (level : Int)
  /-- Nowhere. -/
  | silent
  deriving Repr, DecidableEq

namespace Tracer

/-- The name of the logger where none is given. -/
def defaultName : Text :=
  "phpbeautify".toList

/-- A logger that is brought along always wins; otherwise a run is traced only
if that is wanted. -/
def choose (supplied : Option Text) (enabled : Bool) (name : Option Text) (level : Int) : Tracer :=
  match supplied with
  | some logger => .supplied logger
  | none =>
    if enabled then .named (if (name.getD []).isEmpty then defaultName else name.getD []) level
    else .silent

end Tracer

end TemplateTidy
