import ScriptShell.CommandLine.Run

/-!
The program. It reads what a run finds, runs it and writes what it leaves. No processes are started
here, so every host is reported as not found.
-/

namespace ScriptShell.CommandLine

instance : HostProcess Empty := ⟨fun host _ => nomatch host⟩

/-- What is found under a path, if anything. -/
def nodeAt (path : String) : IO (Option FileNode) := do
  try
    return some (.file (← IO.FS.readBinFile path).toList)
  catch
    | .inappropriateType .. => return some .directory
    | _ => return none

/-- The files among some paths, seen from a working directory. -/
def filesAt (directory : String) (paths : List String) : IO FileTree := do
  let nodes ← paths.filterMapM fun path => do
    return (← nodeAt path).map fun node => (Path.resolve directory path, node)
  return { nodes, cwd := Path.names directory }

/-- The variables that a run looks at. -/
def relevantVariables : List String :=
  ["HOME", "XDG_CONFIG_HOME", "CLICOLOR_FORCE", "NO_COLOR", BootstrapProbe.variableName]

/-- The variables of the process among some names. -/
def variablesAmong (names : List String) : IO (NameMap String) := do
  let found ← names.filterMapM fun name => do return (← IO.getEnv name).map fun v => (name, v)
  return NameMap.ofList found

/-- The paths that a run looks at once its settings are known. -/
def relevantPaths (p : Invocation) (settings : Settings) (a : Arguments) : List String :=
  let probe := BootstrapProbe.ofProcess (p.environment.get? BootstrapProbe.variableName) p.files
    settings.environment.bootstrapPaths
  (a.service.map (Environment.servicePath settings.environment.directory)).toList ++
    probe.candidates ++ a.preload.toList ++ settings.terminal.preload.toList ++ [defaultPreload]

/-- What a run finds: first its settings, then the files that they lead to. -/
def findInvocation (arguments : List String) : IO Invocation := do
  let directory := toString (← IO.currentDir)
  let environment ← variablesAmong relevantVariables
  let path := Settings.path? (environment.get? "XDG_CONFIG_HOME") (environment.get? "HOME")
  let files ← filesAt directory path.toList
  let p : Invocation := { arguments, environment, files }
  match parse? arguments with
  | some (.terminal a) =>
    let found ← filesAt directory (relevantPaths p (loadSettings p).1 a)
    let input := (← (← IO.getStdin).readBinToEnd).toList
    return { p with files := { files with nodes := files.nodes ++ found.nodes }, input }
  | _ => return p

/-- Write what a run leaves; gives its exit code. -/
def writeOutcome (o : Outcome Empty) : IO UInt32 := do
  for warning in o.warnings do
    IO.eprintln (LogLevel.warn.entry warning.message)
  let stdout ← IO.getStdout
  stdout.putStr o.output
  stdout.flush
  match o.error with
  | some e => IO.eprintln ("Error: " ++ e.message)
  | none => if o.exitCode = 2 then IO.eprint (helpText false .top)
  return UInt32.ofNat o.exitCode

end ScriptShell.CommandLine

def main (arguments : List String) : IO UInt32 := do
  let p ← ScriptShell.CommandLine.findInvocation arguments
  ScriptShell.CommandLine.writeOutcome (ScriptShell.CommandLine.run p fun _ => .error .notFound)
