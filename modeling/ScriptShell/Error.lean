/-!
What can go wrong, as causes; each kind of cause has one function that words it.
-/

namespace ScriptShell

/-- Why a file or a stream could not be read or written. -/
inductive IoError where
  | notFound
  | notDirectory
  | isDirectory
  | invalidEncoding
  | other (message : String)
deriving DecidableEq, Repr

def IoError.message : IoError → String
  | .notFound => "No such file or directory (os error 2)"
  | .notDirectory => "Not a directory (os error 20)"
  | .isDirectory => "Is a directory (os error 21)"
  | .invalidEncoding => "stream did not contain valid UTF-8"
  | .other message => message

/-- Why a unit has no value. -/
inductive EvalError where
  /-- The text is not a program. -/
  | parse (message : String) (line : Option Nat)
  /-- The program threw; `kind` is the class of what it threw. -/
  | runtime (kind message : String) (file : Option String) (line : Option Nat)
  /-- The evaluator is gone, after this last output. -/
  | disconnected (output : String)
  /-- The evaluator's answer makes no sense. -/
  | protocol (reason : String)
  | io (message : String)
deriving DecidableEq, Repr

namespace EvalError

def message : EvalError → String
  | .parse message _ => "Parse error: " ++ message
  | .runtime kind message _ _ => kind ++ ": " ++ message
  | .disconnected _ => "Evaluator process exited"
  | .protocol reason => "Evaluator protocol error: " ++ reason
  | .io message => "IO error: " ++ message

/-- What the user sees: the message, and where it happened if file and line are both known. -/
def report (e : EvalError) : String :=
  match e with
  | .runtime _ _ (some file) (some line) =>
    e.message ++ "\n  in " ++ file ++ " on line " ++ toString line
  | _ => e.message

/-- The evaluator cannot be used any more. -/
def isFatal : EvalError → Bool
  | .disconnected _ => true
  | _ => false

end EvalError

/-- Why the terminal cannot start or go on. -/
inductive TerminalError where
  | bootstrapNotFound
  | editorUnavailable (reason : String)
  | evaluatorUnavailable (binary reason : String)
  | preloadMissing (path : String)
  | preloadUnreadable (path : String) (cause : IoError)
  | protocol (reason : String)
  | io (cause : IoError)
deriving DecidableEq, Repr

def TerminalError.message : TerminalError → String
  | .bootstrapNotFound =>
    "Could not find autoload file. Set SCRIPTIFY_BOOTLOADER or ensure vendor/autoload.php exists."
  | .editorUnavailable reason =>
    "Line editing is not available, cannot start interactive terminal: " ++ reason
  | .evaluatorUnavailable binary reason =>
    "Evaluator '" ++ binary ++ "' is not available: " ++ reason
  | .preloadMissing path => "Preload file not found: " ++ path
  | .preloadUnreadable path cause =>
    "Preload file could not be read: " ++ path ++ ": " ++ cause.message
  | .protocol reason => "Evaluator protocol error: " ++ reason
  | .io cause => "IO error: " ++ cause.message

end ScriptShell
