import ScriptShell.Files.Tree
import ScriptShell.Host.Connection
import ScriptShell.Session.Basic
import ScriptShell.Toml.Parser

/-!
The user's settings. Every setting has a value of its own, so neither the file nor anything in it
has to be there.
-/

namespace ScriptShell

structure TerminalSettings where
  prompt : String := "php> "
  continuationPrompt : String := "php* "
  exitKeywords : List String := ["exit", "quit"]
  historySize : Nat := 1000
  viMode : Bool := false
  colors : Bool := true
  /-- A file to run before the first prompt. -/
  preload : Option String := none
deriving DecidableEq, Repr, Inhabited

structure EnvironmentSettings where
  /-- Where the files of services are. -/
  directory : String := "/etc/scriptify"
  /-- Further places of the bootstrap file. -/
  bootstrapPaths : List String := []
deriving DecidableEq, Repr, Inhabited

structure Settings where
  terminal : TerminalSettings := {}
  host : HostOptions := {}
  environment : EnvironmentSettings := {}
deriving DecidableEq, Repr, Inhabited

/-- Why settings cannot be had. -/
inductive SettingsError where
  | io (cause : IoError)
  | parse
deriving DecidableEq, Repr

def SettingsError.message : SettingsError → String
  | .io cause => "IO error: " ++ cause.message
  | .parse => "Config parse error"

namespace Settings

open Toml

def readTerminal? (v : Toml) : Option TerminalSettings := do
  let d : TerminalSettings := {}
  match ← v.record? ["prompt", "continuation_prompt", "exit_keywords", "history_size", "vi_mode",
      "colors", "preload"] with
  | [prompt, continuation, keywords, history, vi, colors, preload] =>
    some {
      prompt := ← withDefault? d.prompt text? prompt
      continuationPrompt := ← withDefault? d.continuationPrompt text? continuation
      exitKeywords := ← withDefault? d.exitKeywords texts? keywords
      historySize := ← withDefault? d.historySize natural? history
      viMode := ← withDefault? d.viMode Toml.boolean? vi
      colors := ← withDefault? d.colors Toml.boolean? colors
      preload := ← withDefault? d.preload (fun v => v.text?.map some) preload }
  | _ => none

def readHost? (v : Toml) : Option HostOptions := do
  let d : HostOptions := {}
  match ← v.record? ["binary", "ini"] with
  | [binary, ini] =>
    some { binary := ← withDefault? d.binary text? binary, ini := ← withDefault? d.ini texts? ini }
  | _ => none

def readEnvironment? (v : Toml) : Option EnvironmentSettings := do
  let d : EnvironmentSettings := {}
  match ← v.record? ["env_dir", "bootstrap_paths"] with
  | [directory, paths] =>
    some {
      directory := ← withDefault? d.directory text? directory
      bootstrapPaths := ← withDefault? d.bootstrapPaths texts? paths }
  | _ => none

/-- Settings from the root table of a file. -/
def ofToml? (v : Toml) : Option Settings := do
  match ← v.record? ["terminal", "php", "environment"] with
  | [terminal, host, environment] =>
    some {
      terminal := ← withDefault? {} readTerminal? terminal
      host := ← withDefault? {} readHost? host
      environment := ← withDefault? {} readEnvironment? environment }
  | _ => none

/-- The directory of the settings, given two variables of the process. -/
def directory? (configHome home : Option String) : Option String :=
  match configHome, home with
  | some d, _ => some (Path.join d "scriptify")
  | none, some h => some (Path.join (Path.join h ".config") "scriptify")
  | none, none => none

/-- The file of the settings. -/
def path? (configHome home : Option String) : Option String :=
  (directory? configHome home).map fun d => Path.join d "config.toml"

/-- Read settings; without a file they keep their own values. -/
def load (files : FileTree) (path : Option String) : Except SettingsError Settings :=
  match path with
  | none => .ok {}
  | some path =>
    if files.present path then
      match files.read path with
      | .error e => .error (.io e)
      | .ok content =>
        match (Toml.parse? content).bind ofToml? with
        | some s => .ok s
        | none => .error .parse
    else .ok {}

/-- What a session takes from the settings. -/
def sessionConfig (s : Settings) : SessionConfig :=
  { prompt := s.terminal.prompt, continuationPrompt := s.terminal.continuationPrompt,
    exitKeywords := s.terminal.exitKeywords, colors := s.terminal.colors }

end Settings

end ScriptShell
