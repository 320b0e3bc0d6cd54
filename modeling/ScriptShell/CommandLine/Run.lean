import ScriptShell.CommandLine.Help
import ScriptShell.CommandLine.LogLevel
import ScriptShell.Config.Settings
import ScriptShell.Launch.Banner
import ScriptShell.Launch.Bootstrap
import ScriptShell.Session.Preload

/-!
A run of the program from its arguments to its exit. Startup ends at the first thing that fails;
once there is a prompt, only reading and writing can fail.
-/

namespace ScriptShell.CommandLine

/-- What a run finds when it starts. -/
structure Invocation where
  arguments : List String
  environment : NameMap String := ∅
  files : FileTree := {}
  /-- Standard input, which is no terminal. -/
  input : List UInt8 := []

/-- What a run leaves: its exit code, what it wrote, its warnings, the error it stopped at, and the
host if one was started. -/
structure Outcome (η : Type) where
  exitCode : Nat := 0
  output : String := ""
  warnings : List Warning := []
  error : Option TerminalError := none
  host : Option η := none

namespace Outcome

/-- A run that stops at an error. -/
def fail {η : Type} (o : Outcome η) (e : TerminalError) : Outcome η :=
  { o with exitCode := 1, error := some e }

end Outcome

variable {η : Type} [HostProcess η]

/-- Add what a session has written and reported. -/
def Outcome.ofSession (o : Outcome η) (s : Session (Connection η)) : Outcome η :=
  { o with output := o.output ++ s.console.written, warnings := o.warnings ++ s.warnings
           host := some s.evaluator.host }

/-- Run the preload file, if there is one, and warn of units that failed. -/
def runPreload (files : FileTree) (path : Option String) (s : Session (Connection η)) :
    Except TerminalError Unit × Session (Connection η) :=
  match path with
  | none => (.ok (), s)
  | some path =>
    match Preload.runFile s path (files.read path) with
    | (.error e, s) => (.error e, s)
    | (.ok r, s) =>
      (.ok (), if r.success then s else s.warn (.preloadFailed r.failed (r.failed + r.executed)))

/-- Run the preload file and then the lines of standard input. -/
def runSession (p : Invocation) (settings : Settings) (a : Arguments) (o : Outcome η)
    (c : Connection η) : Outcome η :=
  let preload :=
    discoverPreload p.files a.preload settings.terminal.preload p.files.workingDirectory
  match runPreload p.files preload (Session.start c settings.sessionConfig) with
  | (.error e, s) => (o.ofSession s).fail e
  | (.ok (), s) =>
    match s.run (.ofBytes p.input) with
    | (.error e, s, _) => (o.ofSession s).fail e
    | (.ok (), s, _) => o.ofSession s

/-- Start the host and show the banner before the session runs. -/
def runHost (p : Invocation) (settings : Settings) (a : Arguments) (o : Outcome η)
    (env : NameMap String) (bootstrap : String) (launch : HostOptions → Except IoError η) :
    Outcome η :=
  match launch settings.host with
  | .error cause => o.fail (.evaluatorUnavailable settings.host.binary cause.message)
  | .ok host =>
    match Connection.open? host settings.host.binary (some bootstrap) env with
    | (.error e, host) => { o with host := some host }.fail e
    | (.ok c, _) =>
      let banner := Banner.text bootstrap env.size settings.terminal.colors
      runSession p settings a { o with output := o.output ++ banner } c

/-- The variables of the service, if one is named, and a warning if its file is missing. -/
def loadService (files : FileTree) (directory : String) :
    Option String → Except IoError (NameMap String × List Warning)
  | none => .ok (∅, [])
  | some service =>
    match Environment.load files directory service with
    | .error e => .error e
    | .ok (env, found) =>
      .ok (env,
        if found then [] else [.serviceFileMissing (Environment.servicePath directory service)])

/-- The `terminal` command. -/
def runTerminal (p : Invocation) (settings : Settings) (a : Arguments) (o : Outcome η)
    (launch : HostOptions → Except IoError η) : Outcome η :=
  match loadService p.files settings.environment.directory a.service with
  | .error e => o.fail (.io e)
  | .ok (env, warnings) =>
    let o := { o with warnings := o.warnings ++ warnings }
    let probe := BootstrapProbe.ofProcess (p.environment.get? BootstrapProbe.variableName) p.files
      settings.environment.bootstrapPaths
    match probe.discover p.files with
    | .error e => o.fail e
    | .ok bootstrap => runHost p settings a o (Environment.merge env a.env) bootstrap launch

/-- The settings of a run, with a warning when there is a file that cannot be used. -/
def loadSettings (p : Invocation) : Settings × List Warning :=
  let path := Settings.path? (p.environment.get? "XDG_CONFIG_HOME") (p.environment.get? "HOME")
  match Settings.load p.files path with
  | .ok settings => (settings, [])
  | .error e => ({}, [.configIgnored e.message])

/-- The binary of the command line goes before that of the settings. -/
def withBinary (settings : Settings) (binary : Option String) : Settings :=
  { settings with host := { settings.host with binary := binary.getD settings.host.binary } }

/-- A variable that is there and not empty. -/
def Invocation.isSet (p : Invocation) (name : String) : Bool :=
  (p.environment.get? name).any fun value => value != ""

/-- Help has colours, though no terminal shows it. -/
def Invocation.forcesColor (p : Invocation) : Bool :=
  p.isSet "CLICOLOR_FORCE" && !p.isSet "NO_COLOR"

/-- Run the program; `launch` starts the host. -/
def run (p : Invocation) (launch : HostOptions → Except IoError η) : Outcome η :=
  match parse? p.arguments with
  | none => { exitCode := 2 }
  | some .showVersion => { output := versionLine }
  | some (.showHelp level) => { output := helpText p.forcesColor level }
  | some (.version _) => { output := versionLine, warnings := (loadSettings p).2 }
  | some (.terminal a) =>
    let (settings, warnings) := loadSettings p
    runTerminal p (withBinary settings a.php) a { warnings } launch

end ScriptShell.CommandLine
