import ScriptShell.Error
import ScriptShell.Files.Path
import ScriptShell.Text.Bytes

/-!
A tree of files as seen from a working directory. Files and directories are listed by their absolute
names; whatever lies above one of them is a directory too.
-/

namespace ScriptShell

inductive FileNode where
  | file (content : List UInt8)
  | directory
deriving DecidableEq, Repr

structure FileTree where
  nodes : List (List String × FileNode) := []
  /-- The names of the working directory. -/
  cwd : List String := []
deriving DecidableEq, Repr, Inhabited

namespace FileTree

open Text

/-- What is found under absolute names. -/
def node? (t : FileTree) (names : List String) : Option FileNode :=
  match t.nodes.lookup names with
  | some node => some node
  | none =>
    if names.isPrefixOf t.cwd || t.nodes.any fun n => names.isPrefixOf n.1 then some .directory
    else none

/-- The longest name and the longest path that can be looked up, in bytes. -/
def maxNameSize : Nat := 255
def maxPathSize : Nat := 4095

def tooLong : IoError := .other "File name too long (os error 36)"

/-- Follow names down from a directory; gives the absolute names that they lead to. -/
def follow (t : FileTree) (here : List String) :
    List String → Except IoError (List String × FileNode)
  | [] => .ok (here, .directory)
  | "." :: rest => t.follow here rest
  | ".." :: rest => t.follow here.dropLast rest
  | name :: rest =>
    if name.utf8ByteSize > maxNameSize then .error tooLong
    else match t.node? (here ++ [name]) with
      | none => .error .notFound
      | some .directory => t.follow (here ++ [name]) rest
      | some (.file content) =>
        if rest.isEmpty then .ok (here ++ [name], .file content) else .error .notDirectory

def find (t : FileTree) (path : String) : Except IoError (List String × FileNode) :=
  if path = "" then .error .notFound
  else if path.toList.contains '\x00' then
    .error (.other "file name contained an unexpected NUL byte")
  else if path.utf8ByteSize > maxPathSize then .error tooLong
  else t.follow (if Path.isAbsolute path then [] else t.cwd) (Path.steps path)

/-- The text of a file. -/
def read (t : FileTree) (path : String) : Except IoError String :=
  match t.find path with
  | .error e => .error e
  | .ok (_, .directory) => .error .isDirectory
  | .ok (_, .file content) =>
    match decodeUtf8? content with
    | some cs => .ok (String.ofList cs)
    | none => .error .invalidEncoding

/-- Something is found under the path. -/
def present (t : FileTree) (path : String) : Bool :=
  match t.find path with
  | .ok _ => true
  | .error _ => false

def isFile (t : FileTree) (path : String) : Bool :=
  match t.find path with
  | .ok (_, .file _) => true
  | _ => false

/-- The absolute path that a path leads to. -/
def canonical (t : FileTree) (path : String) : Except IoError String :=
  (t.find path).map fun found => Path.ofNames found.1

/-- The working directory as a path. -/
def workingDirectory (t : FileTree) : String := Path.ofNames t.cwd

end FileTree

end ScriptShell
