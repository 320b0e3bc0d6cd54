import ScriptShell.Session.Basic

/-!
A preload file is run unit by unit before the first prompt. Units are closed by brackets alone and
are never wrapped; one that fails is reported and passed over.
-/

namespace ScriptShell

/-- What became of the units of a preload file. -/
structure PreloadReport where
  executed : Nat := 0
  failed : Nat := 0
  imports : Nat := 0
deriving DecidableEq, Repr, Inhabited

def PreloadReport.success (r : PreloadReport) : Bool := r.failed == 0

namespace Preload

open Text

/-- A script without white space around it, its opening tag and its closing tag. -/
def stripDelimiters (source : List Char) : List Char :=
  let text := Text.trim source
  let opened := dropPrefix? "<?php".toList text <|> dropPrefix? "<?".toList text
  let text := opened.getD text
  (dropSuffix? "?>".toList text).getD text

/-- The lines of a script without its tags. -/
def scriptLines (source : String) : List String :=
  (Text.lines (stripDelimiters source.toList)).map String.ofList

variable {ε : Type} [Evaluator ε]

/-- Show what became of a preloaded unit and count it; values are not shown. -/
def conclude (s : Session ε) (r : PreloadReport) :
    Except EvalError Evaluation → Except TerminalError PreloadReport × Session ε
  | .ok evaluation =>
    match s.write (closeLine evaluation.output) with
    | (.ok (), s) => (.ok { r with executed := r.executed + 1 }, s)
    | (.error e, s) => (.error e, s)
  | .error cause =>
    match (s.warn (.preloadStatementFailed cause)).report cause with
    | (.ok (), s) =>
      (.ok { r with failed := r.failed + 1 }, if cause.isFatal then s.terminate else s)
    | (.error e, s) => (.error e, s)

/-- Treat one unit of a preload file. -/
def dispatch (s : Session ε) (r : PreloadReport) (unit : String) :
    Except TerminalError PreloadReport × Session ε :=
  match s.observe unit with
  | (true, s) => (.ok { r with imports := r.imports + 1 }, s)
  | (false, s) =>
    let (resolved, s) := s.prepare unit
    let (outcome, s) := s.execute resolved
    conclude s r outcome

/-- Treat the units that lines form, the one left open at the end included, up to the end of the
session. -/
def runLines (s : Session ε) (buffer : StatementBuffer) (r : PreloadReport) :
    List String → Except TerminalError PreloadReport × Session ε
  | [] =>
    match buffer.takeRemainder.1 with
    | some unit => dispatch s r unit
    | none => (.ok r, s)
  | line :: rest =>
    match buffer.feed line with
    | (.complete unit, buffer) =>
      match dispatch s r unit with
      | (.ok r, s) => if s.phase = .terminated then (.ok r, s) else runLines s buffer r rest
      | failed => failed
    | (_, buffer) => runLines s buffer r rest

/-- Run the text of a preload file. -/
def runSource (s : Session ε) (source : String) : Except TerminalError PreloadReport × Session ε :=
  runLines s { closing := .bracketsOnly } {} (scriptLines source)

/-- Run a preload file, given what reading it came to. -/
def runFile (s : Session ε) (path : String) :
    Except IoError String → Except TerminalError PreloadReport × Session ε
  | .ok source => runSource s source
  | .error .notFound => (.error (.preloadMissing path), s)
  | .error cause => (.error (.preloadUnreadable path cause), s)

end Preload

end ScriptShell
