import ScriptShell.Launch.Environment

/-!
The command line: two commands, options that hold for both, and options of the terminal. An option
that takes a value takes it after `=` or from the next argument, which may not look like an option.
-/

namespace ScriptShell.CommandLine

open Text

/-- Where an argument stands: before a command or after it. -/
inductive Level where
  | top
  | terminal
  | version
  | help
deriving DecidableEq, Repr

inductive Flag where
  | verbose
  | php
  | env
  | preload
  | help
  | version
deriving DecidableEq, Repr

namespace Flag

def takesValue : Flag → Bool
  | .php | .env | .preload => true
  | _ => false

def longName : Flag → List Char
  | .verbose => "verbose".toList
  | .php => "php".toList
  | .env => "env".toList
  | .preload => "preload".toList
  | .help => "help".toList
  | .version => "version".toList

def shortName? : Flag → Option Char
  | .verbose => some 'v'
  | .env => some 'e'
  | .help => some 'h'
  | .version => some 'V'
  | _ => none

end Flag

def Level.flags : Level → List Flag
  | .top => [.verbose, .php, .help, .version]
  | .terminal => [.env, .preload, .verbose, .php, .help]
  | .version => [.verbose, .php, .help]
  | .help => []

/-- The commands that may be given. -/
def Level.commands : Level → List Level
  | .top => [.terminal, .version, .help]
  | _ => []

/-- The word that leads to a level. -/
def Level.name : Level → String
  | .top => ""
  | .terminal => "terminal"
  | .version => "version"
  | .help => "help"

/-- What a command line asks for. -/
structure Arguments where
  verbose : Bool := false
  php : Option String := none
  service : Option String := none
  env : List (String × String) := []
  preload : Option String := none
deriving DecidableEq, Repr, Inhabited

inductive Command where
  | terminal (arguments : Arguments)
  | version (arguments : Arguments)
  | showVersion
  | showHelp (level : Level)
deriving DecidableEq, Repr

/-- What one argument gives: options, the last of which may wait for a value, a value, the mark
after which nothing is an option, or nothing that could be understood. -/
inductive Lexeme where
  | flags (given : List Flag) (last : Flag) (value : Option String)
  | value (s : String)
  | escape
  | unknown
deriving DecidableEq, Repr

/-- An option by its long name, with or without a value. -/
def longLexeme (level : Level) (cs : List Char) : Lexeme :=
  let (name, value) := match splitOnce? '=' cs with
    | some (name, value) => (name, some (String.ofList value))
    | none => (cs, none)
  match level.flags.find? fun f => f.longName == name with
  | some f => if value.isSome && !f.takesValue then .unknown else .flags [] f value
  | none => .unknown

/-- Options by their short names; the value of the last one may follow it directly. -/
def shortLexeme (level : Level) (given : List Flag) : List Char → Lexeme
  | [] => .unknown
  | c :: cs =>
    match level.flags.find? fun f => f.shortName? == some c with
    | none => .unknown
    | some f =>
      if f.takesValue then
        if cs.isEmpty then .flags given.reverse f none
        else .flags given.reverse f (some (String.ofList ((dropPrefix? ['='] cs).getD cs)))
      else if f = .help ∨ f = .version ∨ cs.isEmpty then .flags given.reverse f none
      else shortLexeme level (f :: given) cs

def lexeme (level : Level) (argument : String) : Lexeme :=
  match argument.toList with
  | ['-', '-'] => .escape
  | '-' :: '-' :: cs => longLexeme level cs
  | '-' :: c :: cs => shortLexeme level [] (c :: cs)
  | _ => .value argument

/-- An argument that an option takes as its value. -/
def isValue (argument : String) : Bool :=
  match argument.toList with
  | '-' :: _ :: _ => false
  | _ => true

/-- Why a command line is not run: it is wrong, or it only asks for a text. -/
inductive Stop where
  | usage
  | show (command : Command)
deriving DecidableEq, Repr

/-- Take note of an option; none but `--env` may be given twice. -/
def Arguments.note (a : Arguments) (level : Level) (f : Flag) (value : String) :
    Except Stop Arguments :=
  match f with
  | .verbose => if a.verbose then .error .usage else .ok { a with verbose := true }
  | .php => if a.php.isSome then .error .usage else .ok { a with php := some value }
  | .preload =>
    if a.preload.isSome || value = "" then .error .usage else .ok { a with preload := some value }
  | .env =>
    match Environment.parsePair? value with
    | some pair => .ok { a with env := a.env ++ [pair] }
    | none => .error .usage
  | .help => .error (.show (.showHelp level))
  | .version => .error (.show .showVersion)

/-- Take note of a value that belongs to no option. -/
def Arguments.place (a : Arguments) (level : Level) (value : String) : Except Stop Arguments :=
  if level = .terminal ∧ a.service = none then .ok { a with service := some value }
  else .error .usage

/-- Options without values. -/
def Arguments.noteAll (a : Arguments) (level : Level) (flags : List Flag) : Except Stop Arguments :=
  flags.foldlM (fun a f => a.note level f "") a

/-- The arguments after a command. -/
def parseCommand (level : Level) (a : Arguments) : List String → Except Stop Arguments
  | [] => .ok a
  | argument :: rest =>
    match lexeme level argument with
    | .unknown => .error .usage
    | .escape => rest.foldlM (fun a value => a.place level value) a
    | .value value => do
      let a ← a.place level value
      parseCommand level a rest
    | .flags given last value => do
      let a ← a.noteAll level given
      match value, last.takesValue, rest with
      | some value, _, rest => parseCommand level (← a.note level last value) rest
      | none, false, rest => parseCommand level (← a.note level last "") rest
      | none, true, next :: rest =>
        if isValue next then parseCommand level (← a.note level last next) rest else .error .usage
      | none, true, [] => .error .usage

/-- Options before the command hold unless they are given after it. -/
def Arguments.inherit (a outer : Arguments) : Arguments :=
  { a with verbose := a.verbose || outer.verbose, php := a.php <|> outer.php }

/-- The level that names of commands lead to. -/
def Level.find? (level : Level) : List String → Option Level
  | [] => some level
  | name :: rest => (level.commands.find? fun l => l.name == name).bind fun l => l.find? rest

/-- The arguments up to and after the command; a fault in a value that is an argument of its own
waits in `noted` for the next option, or until the command has been read. -/
def parseTop (noted : Except Stop Arguments) : List String → Except Stop Command
  | [] => .error .usage
  | argument :: rest =>
    match lexeme .top argument with
    | .unknown | .escape => .error .usage
    | .value "terminal" => do
      let inner ← parseCommand .terminal {} rest
      .ok (.terminal (inner.inherit (← noted)))
    | .value "version" => do
      let inner ← parseCommand .version {} rest
      .ok (.version (inner.inherit (← noted)))
    | .value "help" =>
      match Level.top.find? rest with
      | some level => .ok (.showHelp level)
      | none => .error .usage
    | .value _ => .error .usage
    | .flags given last value => do
      let a ← (← noted).noteAll .top given
      match value, last.takesValue, rest with
      | some value, _, rest => parseTop (.ok (← a.note .top last value)) rest
      | none, false, rest => parseTop (.ok (← a.note .top last "")) rest
      | none, true, next :: rest =>
        if isValue next then parseTop (a.note .top last next) rest else .error .usage
      | none, true, [] => .error .usage

/-- What a command line asks for; `none` if it is wrong. -/
def parse? (arguments : List String) : Option Command :=
  match parseTop (.ok {}) arguments with
  | .ok command => some command
  | .error (.show command) => some command
  | .error .usage => none

end ScriptShell.CommandLine
