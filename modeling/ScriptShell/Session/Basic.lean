import ScriptShell.Memory
import ScriptShell.Session.Input
import ScriptShell.Statement.Buffer
import ScriptShell.Statement.Expression

/-!
A session gathers lines into units, hands each unit to its evaluator and shows what comes back.
Every operation gives its result beside the session that follows, also when it fails: a failure to
write leaves everything done before it in place.
-/

namespace ScriptShell

inductive Phase where
  | single
  | continuation
  | executing
  | terminated
deriving DecidableEq, Repr, Inhabited

structure SessionConfig where
  prompt : String := "php> "
  continuationPrompt : String := "php* "
  /-- Lines that end the session, white space around them aside. -/
  exitKeywords : List String := ["exit", "quit"]
  /-- Show errors in colour. -/
  colors : Bool := false
deriving DecidableEq, Repr, Inhabited

/-- What a session reports to the log. -/
inductive Warning where
  | symbolsUnavailable (cause : EvalError)
  | preloadStatementFailed (cause : EvalError)
  | preloadFailed (failed total : Nat)
  | serviceFileMissing (path : String)
  | configIgnored (message : String)
deriving DecidableEq, Repr

def Warning.message : Warning → String
  | .symbolsUnavailable cause => "could not list symbols: " ++ cause.message
  | .preloadStatementFailed cause => "preload statement failed: " ++ cause.message
  | .preloadFailed failed total =>
    toString failed ++ " of " ++ toString total ++ " preload statements failed"
  | .serviceFileMissing path => "service environment file not found: " ++ path
  | .configIgnored message => "ignoring user config: " ++ message

/-- Where a session writes; one that is closed refuses any text. -/
structure Console where
  written : String := ""
  closed : Bool := false
deriving DecidableEq, Repr, Inhabited

/-- A text on lines of its own: closed by a newline unless it is empty or has one. -/
def closeLine (text : String) : String :=
  if text = "" then "" else if text.toList.getLast? = some '\n' then text else text ++ "\n"

structure Session (ε : Type) where
  evaluator : ε
  config : SessionConfig := {}
  memory : Memory := {}
  buffer : StatementBuffer := {}
  phase : Phase := .single
  console : Console := {}
  warnings : List Warning := []

namespace Session

variable {ε : Type}

/-- The prompt of the present phase. -/
def prompt (s : Session ε) : String :=
  if s.phase = .continuation then s.config.continuationPrompt else s.config.prompt

/-- Stop; what is pending is dropped. -/
def terminate (s : Session ε) : Session ε :=
  { s with buffer := s.buffer.clear, phase := .terminated }

def warn (s : Session ε) (w : Warning) : Session ε := { s with warnings := s.warnings ++ [w] }

/-- Write a text; an empty one is written even to a closed console. -/
def write (s : Session ε) (text : String) : Except TerminalError Unit × Session ε :=
  if text = "" then (.ok (), s)
  else if s.console.closed then (.error (.io (.other "sink closed")), s)
  else (.ok (), { s with console := { s.console with written := s.console.written ++ text } })

/-- Record a unit's imports; `true` when the unit holds nothing else. -/
def observe (s : Session ε) (unit : String) : Bool × Session ε :=
  let (absorbed, memory) := s.memory.observe unit
  (absorbed, { s with memory })

/-- Write short names out and remember the variables; gives the text to run. -/
def prepare (s : Session ε) (unit : String) : String × Session ε :=
  let (resolved, memory) := s.memory.prepare unit
  (resolved, { s with memory })

/-- How an evaluation is shown: its output, then its value unless that is null. -/
def displayed (e : Evaluation) : String :=
  closeLine e.output ++
    match e.result with
    | some v => if v.isNull then "" else v.repr ++ "\n"
    | none => ""

/-- A text in red. -/
def red (text : String) : String := "\x1b[31m" ++ text ++ "\x1b[39m"

/-- How a failure is shown: the last output of an evaluator that is gone, then the report. -/
def reported (config : SessionConfig) (e : EvalError) : String :=
  (match e with
    | .disconnected output => closeLine output
    | _ => "") ++
  (if config.colors then red e.report else e.report) ++ "\n"

/-- Show a failure. -/
def report (s : Session ε) (e : EvalError) : Except TerminalError Unit × Session ε :=
  s.write (reported s.config e)

variable [Evaluator ε]

/-- Ask the evaluator for its names; without an answer the old ones stay. -/
def refreshSymbols (s : Session ε) : Session ε :=
  match Evaluator.symbols s.evaluator with
  | (.ok symbols, evaluator) => { s with evaluator, memory := { s.memory with symbols } }
  | (.error e, evaluator) => { s with evaluator }.warn (.symbolsUnavailable e)

/-- A new session, its evaluator's names asked for. -/
def start (evaluator : ε) (config : SessionConfig) : Session ε :=
  ({ evaluator, config } : Session ε).refreshSymbols

/-- Run code on the context and take over the bindings it leaves; a failure changes nothing but the
evaluator. -/
def execute (s : Session ε) (code : String) : Except EvalError Evaluation × Session ε :=
  match Evaluator.evaluate s.evaluator code s.memory.context with
  | (.ok evaluation, evaluator) =>
    (.ok evaluation,
      { s with evaluator, memory := (s.memory.capture evaluation.bindings).rebuild }.refreshSymbols)
  | (.error e, evaluator) => (.error e, { s with evaluator })

/-- Show what became of a unit. A fatal failure ends the session; nothing does if it cannot be
shown. -/
def conclude (s : Session ε) (outcome : Except EvalError Evaluation) :
    Except TerminalError Unit × Session ε :=
  let (text, next) := match outcome with
    | .ok evaluation => (displayed evaluation, Phase.single)
    | .error e => (reported s.config e, if e.isFatal then .terminated else .single)
  match s.write text with
  | (.ok (), s) => (.ok (), { s with phase := next })
  | failed => failed

/-- Treat a closed unit: remember its imports, or else run it and show what became of it. -/
def dispatch (s : Session ε) (unit : String) : Except TerminalError Unit × Session ε :=
  match s.observe unit with
  | (true, s) => (.ok (), { s with phase := .single })
  | (false, s) =>
    let (resolved, s) := s.prepare unit
    let (outcome, s) := { s with phase := .executing }.execute (wrapExpression resolved)
    s.conclude outcome

/-- Treat one line. -/
def submit (s : Session ε) (line : String) : Except TerminalError Unit × Session ε :=
  if s.config.exitKeywords.contains (trim line) then (.ok (), s.terminate)
  else
    match s.buffer.feed line with
    | (.incomplete, buffer) => (.ok (), { s with buffer, phase := .continuation })
    | (.blank, buffer) => (.ok (), { s with buffer })
    | (.complete unit, buffer) => { s with buffer }.dispatch unit

/-- Treat the reads of a source one by one until the session ends, the end of input included. -/
def runEvents (s : Session ε) (history : History) (prompts : List String) :
    List ReadEvent → Except TerminalError Unit × Session ε × LineSource
  | [] =>
    if s.phase = .terminated then (.ok (), s, ⟨[], history, prompts⟩)
    else
      let source : LineSource := ⟨[], history, prompts ++ [s.prompt]⟩
      match s.write "\n" with
      | (.ok (), s) => (.ok (), { s with phase := .terminated }, source)
      | (.error e, s) => (.error e, s, source)
  | event :: rest =>
    if s.phase = .terminated then (.ok (), s, ⟨event :: rest, history, prompts⟩)
    else
      let prompts := prompts ++ [s.prompt]
      match event with
      | .failed cause => (.error (.io cause), s, ⟨rest, history, prompts⟩)
      | .interrupted =>
        runEvents { s with buffer := s.buffer.clear, phase := .single } history prompts rest
      | .line text =>
        let history := if isBlank text then history else history.add text
        match s.submit text with
        | (.ok (), s) => s.runEvents history prompts rest
        | (.error e, s) => (.error e, s, ⟨rest, history, prompts⟩)

/-- Read and treat lines until the session ends. -/
def run (s : Session ε) (source : LineSource) :
    Except TerminalError Unit × Session ε × LineSource :=
  s.runEvents source.history source.prompts source.upcoming

end Session

end ScriptShell
