import SqlFront.CommandLine.Invocation

/-!
# The program

Reads the settings file and the environment, and prints what the command line asks for.
-/

set_option autoImplicit false

namespace SqlFront

def defaultSettingsFile : String := "shardsql.toml"

/-- The text of the settings file, if there is one. A file that the command line names has to be
there. -/
def settingsFile (named? : Option String) : IO (Except Fault (Option String)) := do
  try
    let text ← IO.FS.readFile (named?.getD defaultSettingsFile)
    return .ok (some text)
  catch
    | .noFileOrDirectory name code details =>
      return if named?.isNone then .ok none
        else .error (.unreadable (toString (IO.Error.noFileOrDirectory name code details)))
    | e => return .error (.unreadable (toString e))

def run (args : List String) : IO UInt32 := do
  match Invocation.ofArguments args with
  | .error u =>
    if u = .help ∨ u = .version then
      IO.print u.message
      return 0
    else
      IO.eprint u.message
      return 2
  | .ok i =>
    let file ← settingsFile i.given.configFile?
    let environment ← Environment.read (fun name => IO.getEnv name)
    match file.bind (fun file? => i.output file? environment) with
    | .ok text =>
      IO.print text
      return 0
    | .error f =>
      IO.eprintln ("Error: " ++ f.message)
      return 1

end SqlFront

def main (args : List String) : IO UInt32 := SqlFront.run args
