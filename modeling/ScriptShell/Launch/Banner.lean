/-!
The lines shown before the first prompt.
-/

namespace ScriptShell.Banner

def title : String := "Scriptify Interactive Terminal"

def details (bootstrap : String) (count : Nat) : List String :=
  ["Autoloader: " ++ bootstrap] ++
    (if count = 0 then [] else ["Environment variables loaded: " ++ toString count]) ++
    ["Type 'exit' or press Ctrl+D to quit"]

/-- A text in bold green. -/
def emphasized (text : String) : String := "\x1b[1m\x1b[32m" ++ text ++ "\x1b[39m\x1b[0m"

/-- A text in yellow. -/
def yellow (text : String) : String := "\x1b[33m" ++ text ++ "\x1b[39m"

/-- The banner, an empty line at its end. -/
def text (bootstrap : String) (count : Nat) (colors : Bool) : String :=
  let lines :=
    if colors then emphasized title :: (details bootstrap count).map yellow
    else title :: details bootstrap count
  String.join (lines.map (· ++ "\n")) ++ "\n"

end ScriptShell.Banner
