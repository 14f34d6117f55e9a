import VenueLink.Command.Run
import VenueLink.Http.Handler

/-!
# The program

The outer layer: it takes the words of the command line and the environment, reads the
configuration file, and prints what comes of it. It has no network of its own, so the venue
cannot be reached, no session begins, and the present instant is of no consequence.
-/

namespace VenueLink.Command

/-- The variables of the environment that the program looks at. -/
def environmentNames : List String :=
  ["DATABASE_URL", "IQ_IDENTIFIER", "IQ_PASSWORD"]

/-- The environment of the program. -/
def readEnvironment : IO Environment := do
  let values ← environmentNames.mapM fun name => do
    return (name, ← IO.getEnv name)
  return fun name => (values.lookup name).join

/-- The text of a file, or why it cannot be read. -/
def readConfigFile (path : String) : IO (Except String String) := do
  try
    return .ok (← IO.FS.readFile path)
  catch _ =>
    return .error "No such file or directory (os error 2)"

/-- How the program is used. -/
def usage : String :=
  "Usage: optbridge [--log-level LEVEL] [--log-json] [--config FILE] [--database-url URL] " ++
    "server|balances|resolve|status\n"

/-- Do what an invocation asks for, and print what comes of it. -/
def perform (i : Invocation) : IO UInt32 := do
  let contents ← match i.config with
    | some path => readConfigFile path
    | none => pure (.ok "")
  let surroundings : Surroundings :=
    { file := fun _ => contents
      network := Web.offline
      wire := { refuses := true }
      now := 0 }
  match run surroundings i with
  | .ok (.answer j) =>
    IO.println j.pretty
    return 0
  | .ok (.ready address) =>
    IO.eprint ("Error: cannot listen on " ++ address ++ "\n")
    return 1
  | .error f =>
    IO.eprint f.text
    return 1

end VenueLink.Command

open VenueLink VenueLink.Command in
/-- Run the program. -/
def main (words : List String) : IO UInt32 := do
  match Invocation.read (← readEnvironment) words with
  | .ok i => perform i
  | .error .version =>
    IO.println ("optbridge " ++ Http.version)
    return 0
  | .error .help =>
    IO.print usage
    return 0
  | .error .misuse =>
    IO.eprint usage
    return 2
