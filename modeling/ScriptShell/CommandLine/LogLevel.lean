import ScriptShell.Text.Logged

/-!
How much of the log is shown, and its lines.
-/

namespace ScriptShell

inductive LogLevel where
  | debug
  | info
  | warn
  | error
deriving DecidableEq, Repr

namespace LogLevel

def name : LogLevel → String
  | .debug => "Debug"
  | .info => "Info"
  | .warn => "Warn"
  | .error => "Error"

/-- The label of a line of the log. -/
def label : LogLevel → String
  | .debug => "DEBUG"
  | .info => "INFO"
  | .warn => "WARN"
  | .error => "ERROR"

/-- Warnings, or everything when asked to be verbose. -/
def ofVerbosity (verbose : Bool) : LogLevel := if verbose then .debug else .warn

/-- What stands before a message in the log. -/
def lineStart (level : LogLevel) : String := " " ++ level.label ++ " "

/-- A message in the log. -/
def entry (level : LogLevel) (message : String) : String := level.lineStart ++ logged message

end LogLevel

end ScriptShell
