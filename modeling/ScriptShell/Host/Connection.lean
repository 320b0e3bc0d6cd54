import ScriptShell.Host.Frame
import ScriptShell.Host.Request
import ScriptShell.Text.Bytes

/-!
An evaluator in a process of its own. A request is one line; the answer is the next frame among the
lines that the process writes, whatever was asked, and the text before it is output.
-/

namespace ScriptShell

open Text

/-- A process that answers lines: the bytes that it writes to one line, whether it exits then, and
its next state. -/
class HostProcess (η : Type) where
  answer : η → String → (List UInt8 × Bool) × η

/-- How the process is started. -/
structure HostOptions where
  binary : String := "php"
  /-- Settings that override those of the host. -/
  ini : List String := []
deriving DecidableEq, Repr, Inhabited

/-- The arguments of the process; `script` is the program that answers requests. -/
def HostOptions.arguments (o : HostOptions) (script : String) : List String :=
  ["-d", "display_errors=stderr"] ++ o.ini.flatMap (fun setting => ["-d", setting]) ++
    ["-r", script]

/-- A process and what is known of it. -/
structure Connection (η : Type) where
  host : η
  /-- The process has not exited. -/
  alive : Bool := true
  /-- Bytes written by the process and not yet read. -/
  unread : List UInt8 := []
  version : String := ""
  /-- Changes with the names that the host knows. -/
  generation : Nat := 0
  /-- The names as last listed, until the generation changes. -/
  listing : Option Symbols := none

namespace Connection

/-- The text of a piece of output, its newline included. -/
def textOfPiece? (piece : List UInt8 × Bool) : Option (List Char) :=
  (decodeUtf8? piece.1).map fun cs => if piece.2 then cs ++ ['\n'] else cs

/-- Without the newline that the host puts before a frame. -/
def dropSeparator (cs : List Char) : List Char := (dropSuffix? ['\n'] cs).getD cs

/-- Read pieces of output up to the next frame; gives the frame, the text before it and the pieces
after it. The text of earlier pieces is the first argument. -/
def readFrame (stray : List Char) :
    List (List UInt8 × Bool) → Except EvalError (Response × String) × List (List UInt8 × Bool)
  | [] => (.error (.disconnected (String.ofList stray)), [])
  | piece :: rest =>
    match textOfPiece? piece with
    | none => (.error (.io IoError.invalidEncoding.message), rest)
    | some text =>
      match Frame.decodeLine? text with
      | none => readFrame (stray ++ text) rest
      | some (before, some response) =>
        (.ok (response, String.ofList (dropSeparator (stray ++ before))), rest)
      | some (_, none) => (.error (.protocol "malformed frame"), rest)

variable {η : Type} [HostProcess η]

/-- Send a request and read up to the next frame. -/
def exchange (c : Connection η) (r : Request) :
    Except EvalError (Response × String) × Connection η :=
  if c.alive then
    let ((bytes, exits), host) := HostProcess.answer c.host r.encode
    let (reply, rest) := readFrame [] (pieces 10 (c.unread ++ bytes))
    (reply, { c with host, alive := !exits, unread := joinPieces 10 rest })
  else (.error (.disconnected ""), c)

def unexpected (r : Request) (response : Response) : String :=
  "unexpected reply to " ++ r.name ++ ": " ++ Diagnostic.ofResponse response

/-- Run a unit. A new generation forgets the listing of names. -/
def evaluate (c : Connection η) (code : String) (b : Bindings) :
    Except EvalError Evaluation × Connection η :=
  let request := Request.ofUnit code b
  match c.exchange request with
  | (.ok (.ok result bindings output generation, stray), c) =>
    (.ok { result, bindings, output := stray ++ output },
      if generation = c.generation then c else { c with generation, listing := none })
  | (.ok (.error failure _, _), c) => (.error failure.toEvalError, c)
  | (.ok (response, _), c) => (.error (.protocol (unexpected request response)), c)
  | (.error e, c) => (.error e, c)

/-- The names that the host knows; asked for only if they may have changed. -/
def symbols (c : Connection η) : Except EvalError Symbols × Connection η :=
  match c.listing with
  | some listing => (.ok listing, c)
  | none =>
    match c.exchange .symbols with
    | (.ok (.symbols listing, _), c) => (.ok listing, { c with listing := some listing })
    | (.ok (response, _), c) => (.error (.protocol (unexpected .symbols response)), c)
    | (.error e, c) => (.error e, c)

instance : Evaluator (Connection η) := ⟨evaluate, symbols⟩

/-- Connect to a process that has been started: load the bootstrap file and export the environment.
The process is given back beside the outcome. -/
def open? (host : η) (binary : String) (bootstrap : Option String) (env : NameMap String) :
    Except TerminalError (Connection η) × η :=
  let request := Request.init bootstrap env
  let unavailable := TerminalError.evaluatorUnavailable binary
  let (reply, c) := exchange ({ host } : Connection η) request
  (match reply with
    | .ok (.ready version generation, _) => .ok { c with version, generation }
    | .ok (.error failure _, _) => .error (unavailable failure.toEvalError.report)
    | .ok (response, _) => .error (.protocol (unexpected request response))
    | .error (.disconnected _) => .error (unavailable "process exited during startup")
    | .error e => .error (.protocol e.message),
  c.host)

end Connection

end ScriptShell
