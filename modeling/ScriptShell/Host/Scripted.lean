import ScriptShell.Host.Connection
import ScriptShell.Json.Printer

/-!
A host that answers each kind of request from a list and keeps a log of what it was sent.
-/

namespace ScriptShell

/-- One answer: the bytes written and whether the host exits after them. -/
structure HostStep where
  output : List UInt8
  exits : Bool := false
deriving DecidableEq, Repr, Inhabited

structure ScriptedHost where
  init : List HostStep := []
  eval : List HostStep := []
  symbols : List HostStep := []
  log : List String := []
deriving DecidableEq, Repr, Inhabited

namespace ScriptedHost

open Text

/-- The bytes of a frame that holds a document. -/
def frame (payload : Json) : List UInt8 :=
  encodeUtf8 ('\n' :: Frame.marker ++ payload.print ++ ['\n'])

def readyFrame : Json :=
  .obj [("status", .str "ready"), ("version", .str "8.3.0"), ("generation", .int 1)]

def okFrame : Json :=
  .obj [("status", .str "ok"), ("result", .null), ("bindings", .obj []), ("output", .str ""),
    ("generation", .int 1)]

def symbolsFrame : Json :=
  .obj [("status", .str "symbols"), ("functions", .arr []), ("classes", .arr [])]

/-- The next answer of a list, or the default one. -/
def next (default : Json) : List HostStep → HostStep × List HostStep
  | [] => ({ output := frame default }, [])
  | step :: rest => (step, rest)

/-- A line without the newline that ends it. -/
def withoutNewline (line : String) : String :=
  String.ofList ((dropSuffix? ['\n'] line.toList).getD line.toList)

def answer (h : ScriptedHost) (line : String) : (List UInt8 × Bool) × ScriptedHost :=
  let h := { h with log := h.log ++ [withoutNewline line] }
  let op := ((Json.parse? line).bind fun v => v.field? "op").bind Json.text?
  match op with
  | some "init" =>
    let (step, init) := next readyFrame h.init
    ((step.output, step.exits), { h with init })
  | some "eval" =>
    let (step, eval) := next okFrame h.eval
    ((step.output, step.exits), { h with eval })
  | _ =>
    let (step, symbols) := next symbolsFrame h.symbols
    ((step.output, step.exits), { h with symbols })

instance : HostProcess ScriptedHost := ⟨answer⟩

/-- The only program that can be started. -/
def program : String := "php"

/-- Start the host, if its program is the one that can be found. -/
def start (h : ScriptedHost) (o : HostOptions) (script : String) : Except IoError ScriptedHost :=
  if (o.binary :: o.ini).any fun s => s.toList.contains '\x00' then
    .error (.other "nul byte found in provided data")
  else if o.binary = program then
    let arguments := Json.arr ((o.arguments script).map .str)
    .ok { h with log := h.log ++ [arguments.render] }
  else .error .notFound

end ScriptedHost

end ScriptShell
