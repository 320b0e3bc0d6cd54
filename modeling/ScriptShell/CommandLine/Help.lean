import ScriptShell.CommandLine.Arguments
import ScriptShell.CommandLine.Span

/-!
The texts that the command line shows about itself. A page is made from what the command line
accepts: its commands, its operand and its options, each in a section with one column of labels.
-/

namespace ScriptShell.CommandLine

def toolName : String := "scriptify"

def toolVersion : String := "0.5.7"

def versionLine : String := toolName ++ " " ++ toolVersion ++ "\n"

/-- What is said of one command, operand or option. -/
structure HelpItem where
  label : List Span
  description : String
deriving DecidableEq, Repr

def Flag.valueName? : Flag → Option String
  | .php => some "BINARY"
  | .env => some "KEY=VALUE"
  | .preload => some "FILE"
  | _ => none

def Flag.description : Flag → String
  | .verbose => "Enable verbose output"
  | .php => "PHP binary used to evaluate code"
  | .env => "Set environment variables (can be used multiple times)"
  | .preload => "File to execute before the first prompt"
  | .help => "Print help"
  | .version => "Print version"

/-- The short name of an option, or as many blanks, and a long name with what it takes. -/
def Flag.label (f : Flag) : List Span :=
  (match f.shortName? with
    | some c => [.literal (String.ofList ['-', c]), .plain ", "]
    | none => [.plain "    "]) ++
  .literal ("--" ++ String.ofList f.longName) ::
  match f.valueName? with
  | some name => [.plain (" <" ++ name ++ ">")]
  | none => []

def Flag.item (f : Flag) : HelpItem := ⟨f.label, f.description⟩

namespace Level

def about : Level → String
  | .top => toolName
  | .terminal => "Open an interactive PHP terminal with autoloader and environment variables"
  | .version => "Print version information"
  | .help => "Print this message or the help of the given subcommand(s)"

/-- How the command is called. -/
def call (level : Level) : String :=
  if level = .top then toolName else toolName ++ " " ++ level.name

/-- What a command takes beside options. -/
def operand? : Level → Option (String × String)
  | .terminal =>
    some ("[SERVICE]", "Optional service name to load environment variables from")
  | .help => some ("[COMMAND]...", "Print help for the subcommand(s)")
  | _ => none

def commandItem (level : Level) : HelpItem := ⟨[.literal level.name], level.about⟩

/-- What may follow the call. -/
def usage (level : Level) : List String :=
  (if level.flags.isEmpty then [] else ["[OPTIONS]"]) ++
    (if level.commands.isEmpty then [] else ["<COMMAND>"]) ++
      (level.operand?.map Prod.fst).toList

/-- The sections of a page; one without items is left out. -/
def sections (level : Level) : List (String × List HelpItem) :=
  [("Commands:", level.commands.map commandItem),
   ("Arguments:", level.operand?.toList.map fun o => ⟨[.plain o.1], o.2⟩),
   ("Options:", level.flags.map Flag.item)].filter fun s => !s.2.isEmpty

end Level

/-- The width of the widest label. -/
def labelColumn (items : List HelpItem) : Nat :=
  (items.map fun i => Span.width i.label).foldl Nat.max 0

/-- An item with its description two blanks after the column of labels. -/
def HelpItem.line (column : Nat) (i : HelpItem) : List Span :=
  let gap := column - Span.width i.label + 2
  .plain "  " :: i.label ++ [.plain (String.ofList (List.replicate gap ' ') ++ i.description)]

def sectionLines (s : String × List HelpItem) : List (List Span) :=
  [] :: [.heading s.1] :: s.2.map fun i => i.line (labelColumn s.2)

def helpLines (level : Level) : List (List Span) :=
  [.plain level.about] :: [] ::
    ([.heading "Usage:", .plain " ", .literal level.call] ++
      level.usage.map fun part => .plain (" " ++ part)) ::
    level.sections.flatMap sectionLines

def helpText (colored : Bool) (level : Level) : String :=
  String.join ((helpLines level).map fun line => Span.renderAll colored line ++ "\n")

end ScriptShell.CommandLine
