import ScriptShell.Files.Tree

/-!
Where the bootstrap file and the preload file are looked for.
-/

namespace ScriptShell

/-- Places of the bootstrap file. -/
structure BootstrapProbe where
  explicit : Option String := none
  cwd : String
  /-- The directory of the running program. -/
  programDirectory : Option String := none
  extra : List String := []
deriving DecidableEq, Repr

namespace BootstrapProbe

/-- The variable that names a bootstrap file. -/
def variableName : String := "SCRIPTIFY_BOOTLOADER"

def autoload (directory : String) : String :=
  Path.join (Path.join directory "vendor") "autoload.php"

/-- The candidates in the order in which they are tried. -/
def candidates (p : BootstrapProbe) : List String :=
  p.explicit.toList ++ [autoload p.cwd] ++
    (p.programDirectory.map fun d => autoload (Path.join d "..")).toList ++ p.extra

/-- The first candidate that is a file, as an absolute path. -/
def discover (p : BootstrapProbe) (files : FileTree) : Except TerminalError String :=
  match p.candidates.find? files.isFile with
  | none => .error .bootstrapNotFound
  | some path =>
    match files.canonical path with
    | .ok path => .ok path
    | .error e => .error (.io e)

/-- The probe of a process: an empty variable counts as unset. -/
def ofProcess (value : Option String) (files : FileTree) (extra : List String) : BootstrapProbe :=
  { explicit := value.filter (· != ""), cwd := files.workingDirectory, extra }

end BootstrapProbe

/-- The preload file of a working directory. -/
def defaultPreload : String := ".scriptify-preload.php"

/-- The preload file: that of the command line, the configured one, or the default one if it is
there. -/
def discoverPreload (files : FileTree) (argument configured : Option String) (cwd : String) :
    Option String :=
  match argument <|> configured with
  | some path => some path
  | none =>
    let path := Path.join cwd defaultPreload
    if files.isFile path then some path else none

end ScriptShell
