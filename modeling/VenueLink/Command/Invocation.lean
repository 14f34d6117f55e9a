import VenueLink.Command.Flag
import VenueLink.Text.Digits

/-!
# What the program is asked to do

An `Invocation` is what a command line and the environment ask for. A flag that is given wins
over the environment.
-/

namespace VenueLink.Command

/-- What the program does. -/
inductive Action where
  | serve (bind : Option String)
  | balances (kinds : String)
  | resolve (ticker search : String)
  | status (orderId : Int)
deriving DecidableEq

/-- What the program is asked to do, and with which settings. -/
structure Invocation where
  /-- The path of the configuration file. -/
  config : Option String
  databaseUrl : Option String
  identifier : Option String
  password : Option String
  action : Action
deriving DecidableEq

/-- The value of a variable of the environment. -/
abbrev Environment := String → Option String

/-- The action that a command line asks for. -/
def Line.action (l : Line) : Except Stop Action :=
  match l.verb, l.operands with
  | some .server, [] => .ok (.serve (l.value? "bind"))
  | some .balances, [] => .ok (.balances ((l.value? "types").getD "1,4"))
  | some .resolve, [ticker] => .ok (.resolve ticker ((l.value? "type").getD "auto"))
  | some .status, [id] =>
    match Text.readInt64? id.toList with
    | some orderId => .ok (.status orderId)
    | none => .error .misuse
  | _, _ => .error .misuse

/-- What is asked for by the words of a command line. -/
def Invocation.read (environment : Environment) (words : List String) :
    Except Stop Invocation := do
  let l ← Line.read words
  if l.waiting.isSome then .error .misuse
  let action ← l.action
  .ok
    { config := l.value? "config"
      databaseUrl := (l.value? "database-url").or (environment "DATABASE_URL")
      identifier := (l.value? "identifier").or (environment "IQ_IDENTIFIER")
      password := (l.value? "password").or (environment "IQ_PASSWORD")
      action := action }

end VenueLink.Command
