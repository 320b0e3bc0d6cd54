/-!
Paths: names joined by slashes. A path that starts with a slash is absolute.
-/

namespace ScriptShell.Path

def isAbsolute (path : String) : Bool := path.toList.head? = some '/'

/-- Put a path below another; an absolute one replaces it. -/
def join (base path : String) : String :=
  if isAbsolute path then path
  else if base = "" || base.toList.getLast? = some '/' then base ++ path
  else base ++ "/" ++ path

/-- The names of a path, empty ones left out. -/
def names (path : String) : List String := (path.splitOn "/").filter (· != "")

/-- The names that a look-up goes through: a slash at the end asks for a directory. -/
def steps (path : String) : List String :=
  names path ++ if path.toList.getLast? = some '/' then ["."] else []

/-- The names of a path below a directory, where no name is a link. -/
def resolve (directory path : String) : List String :=
  (names (join directory path)).foldl (fun here name =>
    if name = "." then here else if name = ".." then here.dropLast else here ++ [name]) []

/-- The absolute path of these names. -/
def ofNames (names : List String) : String := "/" ++ String.intercalate "/" names

end ScriptShell.Path
