import SqlFront.Json.Encode
import SqlFront.Settings.File

/-!
# Command lines

A command line names a command and gives options to it. Options stand before or behind the name of
the command; each may be given once on either side, and the one behind counts. The value of an
option is the next argument, or it follows the name in the same argument. Behind `--` no argument
is an option.
-/

set_option autoImplicit false

namespace SqlFront

/-!
## Usage

Why a command line leads to no command, and what the user is told about it.
-/

inductive CommandOption
  | dialect | configFile | logLevel
deriving DecidableEq

inductive Usage
  /-- The user asks for help. -/
  | help
  /-- The user asks for the version. -/
  | version
  /-- Nothing is given at all. -/
  | nothingGiven
  /-- There are options, but no command. -/
  | noCommand
  | unknownCommand (name : String)
  | unknownArgument (text : String)
  | missingValue (option : CommandOption)
  | repeated (option : CommandOption)
  /-- The SQL text of the command is missing. -/
  | missingText
  /-- A value for an option that has none. -/
  | unneededValue (text : String)
deriving DecidableEq

def helpText : String :=
  "Usage: sqlfront [OPTIONS] <COMMAND>\n\n" ++
  "Commands:\n" ++
  "  parse <SQL>   Show the statement of a text as JSON\n" ++
  "  tokens <SQL>  Show the tokens of a text\n" ++
  "  dialects      List the dialects\n" ++
  "  config        Show the settings that count\n\n" ++
  "Options:\n" ++
  "  -d, --dialect <DIALECT>  The dialect of the text\n" ++
  "  -c, --config <FILE>      The settings file\n" ++
  "      --log-level <LEVEL>  What is logged\n" ++
  "  -h, --help               Show this text\n" ++
  "  -V, --version            Show the version\n"

def versionText : String := "sqlfront 0.1.0\n"

def Usage.message : Usage → String
  | .help => helpText
  | .version => versionText
  | .nothingGiven => helpText
  | .noCommand => "a command is missing\n"
  | .unknownCommand name => "unknown command '" ++ name ++ "'\n"
  | .unknownArgument text => "unknown argument '" ++ text ++ "'\n"
  | .missingValue _ => "the value of an option is missing\n"
  | .repeated _ => "an option is given twice\n"
  | .missingText => "the SQL text is missing\n"
  | .unneededValue text => "the option '" ++ text ++ "' takes no value\n"

/-!
## What a command prints

What the program does when it is called, and the text that it prints.
-/

inductive Command
  /-- Show the statement of a text. -/
  | parse (sql : String)
  /-- Show the tokens of a text. -/
  | tokens (sql : String)
  /-- List the dialects. -/
  | dialects
  /-- Show the settings that count. -/
  | config
deriving DecidableEq

namespace Command

def statementText (s : Settings) (sql : String) : Except Fault String :=
  let rule := ShardingRule.ofSettings s.sharding
  let catalog := Catalog.ofSettings s.sharding
  let cache := Cache.ofCapacity s.cache.capacity
  (cache.parse s.cache.enabled 0 s.dialect rule catalog sql).1.map fun statement =>
    statement.toJson.pretty ""

def tokenLines (d : Dialect) (sql : String) : Except Fault String :=
  match (TokenStream.ofText d sql.toList).all with
  | .ok ts => .ok (String.join (ts.map fun t => t.describe ++ "\n"))
  | .error f => .error (.ofLexical f)

def dialectLines : String := String.join (Dialect.all.map fun d => d.name ++ "\n")

def output (s : Settings) : Command → Except Fault String
  | .parse sql => statementText s sql
  | .tokens sql => tokenLines s.dialect sql
  | .dialects => .ok dialectLines
  | .config => s.toText

end Command

/-! ## Given options -/

structure GivenOptions where
  dialect? : Option String := none
  configFile? : Option String := none
  logLevel? : Option String := none
deriving DecidableEq

namespace GivenOptions

def value? (g : GivenOptions) : CommandOption → Option String
  | .dialect => g.dialect?
  | .configFile => g.configFile?
  | .logLevel => g.logLevel?

def give (g : GivenOptions) (o : CommandOption) (value : String) : Except Usage GivenOptions :=
  if (g.value? o).isSome then .error (.repeated o)
  else
    match o with
    | .dialect => .ok { g with dialect? := some value }
    | .configFile =>
      if value.isEmpty then .error (.missingValue o) else .ok { g with configFile? := some value }
    | .logLevel => .ok { g with logLevel? := some value }

def overlay (first second : GivenOptions) : GivenOptions :=
  ⟨second.dialect?.or first.dialect?, second.configFile?.or first.configFile?,
    second.logLevel?.or first.logLevel?⟩

end GivenOptions

/-! ## Options -/

/-- What has been read on one side of the name of the command. The last option stays open until
the next argument shows that it is complete. -/
structure OptionReader where
  given : GivenOptions := {}
  open? : Option (CommandOption × Option String) := none
deriving DecidableEq

namespace OptionReader

def close (r : OptionReader) : Except Usage GivenOptions :=
  match r.open? with
  | none => .ok r.given
  | some (o, none) => .error (.missingValue o)
  | some (o, some value) => r.given.give o value

def awaited? (r : OptionReader) : Option CommandOption :=
  match r.open? with
  | some (o, none) => some o
  | _ => none

def isUntouched (r : OptionReader) : Bool := r == {}

def option (r : OptionReader) (o : CommandOption) : Option String → Except Usage OptionReader
  | some value => do return ⟨← (← r.close).give o value, none⟩
  | none => do return ⟨← r.close, some (o, none)⟩

def request (r : OptionReader) (u : Usage) : Except Usage OptionReader := do
  let _ ← r.close
  .error u

def long (atStart : Bool) (r : OptionReader) (cs : List Char) : Except Usage OptionReader :=
  let name := String.ofList (cs.takeWhile (· != '='))
  let value? := if cs.contains '=' then some (String.ofList ((cs.dropWhile (· != '=')).drop 1))
    else none
  let plain (u : Usage) : Except Usage OptionReader :=
    if value?.isSome then .error (.unneededValue name) else r.request u
  match name with
  | "dialect" => r.option .dialect value?
  | "config" => r.option .configFile value?
  | "log-level" => r.option .logLevel value?
  | "help" => plain .help
  | "version" => if atStart then plain .version else .error (.unknownArgument name)
  | _ => .error (.unknownArgument name)

def short (atStart : Bool) (r : OptionReader) (letter : Char) (cs : List Char) :
    Except Usage OptionReader :=
  let value? :=
    match cs with
    | [] => none
    | '=' :: cs => some (String.ofList cs)
    | cs => some (String.ofList cs)
  match letter with
  | 'd' => r.option .dialect value?
  | 'c' => r.option .configFile value?
  | 'h' => r.request .help
  | 'V' => if atStart then r.request .version else .error (.unknownArgument "V")
  | letter => .error (.unknownArgument (String.singleton letter))

/-- An argument that is an option, or the value of one; `none` for any other argument. The version
is asked for only `atStart`, before the name of the command. -/
def argument? (atStart : Bool) (r : OptionReader) (text : String) :
    Option (Except Usage OptionReader) :=
  match text.toList, r.awaited? with
  | '-' :: '-' :: cs, _ => some (r.long atStart cs)
  | '-' :: letter :: cs, _ => some (r.short atStart letter cs)
  | _, some o => some (.ok { r with open? := some (o, some text) })
  | _, none => none

end OptionReader

/-! ## Commands -/

inductive CommandName
  | parse | tokens | dialects | config
deriving DecidableEq

namespace CommandName

def all : List CommandName := [.parse, .tokens, .dialects, .config]

def name : CommandName → String
  | .parse => "parse"
  | .tokens => "tokens"
  | .dialects => "dialects"
  | .config => "config"

def ofName? (text : String) : Option CommandName := all.find? (fun c => c.name == text)

def takesText : CommandName → Bool
  | .parse => true
  | .tokens => true
  | _ => false

def command : CommandName → Option String → Except Usage Command
  | .parse, some sql => .ok (.parse sql)
  | .tokens, some sql => .ok (.tokens sql)
  | .dialects, _ => .ok .dialects
  | .config, _ => .ok .config
  | _, none => .error .missingText

end CommandName

structure Invocation where
  given : GivenOptions
  command : Command
deriving DecidableEq

namespace Invocation

def behind (name : CommandName) :
    (literal : Bool) → OptionReader → Option String → List String →
      Except Usage (GivenOptions × Command)
  | _, r, text?, [] => do
    let given ← r.close
    return (given, ← name.command text?)
  | literal, r, text?, arg :: args =>
    if !literal && arg == "--" then behind name true r text? args
    else
      match if literal then none else r.argument? false arg with
      | some (.ok r) => behind name literal r text? args
      | some (.error u) => .error u
      | none =>
        if name.takesText && text?.isNone then do
          let given ← r.close
          behind name literal ⟨given, none⟩ (some arg) args
        else .error (.unknownArgument arg)

def isCommand (arg : String) : Bool := arg == "help" || (CommandName.ofName? arg).isSome

def helpOn : List String → Usage
  | [] => .help
  | arg :: args =>
    if isCommand arg then args.head?.elim .help .unknownCommand else .unknownCommand arg

def start : OptionReader → List String → Except Usage Invocation
  | r, [] => do
    let _ ← r.close
    .error (if r.isUntouched then .nothingGiven else .noCommand)
  | r, arg :: args =>
    if r.awaited?.isNone && arg == "help" then .error (helpOn args)
    else
      match if r.awaited?.isSome then none else CommandName.ofName? arg with
      | some name => do
        let (behind, command) ← behind name false {} none args
        let given ← r.close
        return ⟨given.overlay behind, command⟩
      | none =>
        if arg == "--" then
          match args with
          | [] => start r []
          | arg :: _ => .error (if isCommand arg then .unknownArgument arg else .unknownCommand arg)
        else
          match r.argument? true arg with
          | some (.ok r) => start r args
          | some (.error u) => .error u
          | none => .error (.unknownCommand arg)

def ofArguments (args : List String) : Except Usage Invocation := start {} args

def settings (i : Invocation) (file? : Option String) (e : Environment) : Except Fault Settings :=
  Settings.load file? e i.given.dialect? i.given.logLevel?

def output (i : Invocation) (file? : Option String) (e : Environment) : Except Fault String := do
  let s ← i.settings file? e
  return trimmedEnd (← i.command.output s) ++ "\n"

end Invocation

end SqlFront
