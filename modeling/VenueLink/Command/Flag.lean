/-!
# Reading a command line

A command line holds flags, which may have a value, a command, and the operands of the command.
Flags before the command are those of the program, flags after it those of the command.
`Line.read` goes through the words once and stops at the first one that cannot be understood, or
that asks for nothing but the version or help.
-/

namespace VenueLink.Command

/-- A flag of the command line. -/
structure Flag where
  long : String
  short : Option Char := none
  hasValue : Bool := true
deriving DecidableEq

/-- What the program can be told to do. -/
inductive Verb where
  | server
  | balances
  | resolve
  | status
deriving DecidableEq

namespace Verb

/-- The command of a name. -/
def ofName? : String → Option Verb
  | "server" => some server
  | "balances" => some balances
  | "resolve" => some resolve
  | "status" => some status
  | _ => none

/-- How many operands a command has. -/
def operands : Verb → Nat
  | server => 0
  | balances => 0
  | resolve => 1
  | status => 1

/-- The flags of a command. -/
def flags (v : Verb) : List Flag :=
  (match v with
    | server => [{ long := "bind", short := some 'b' }]
    | balances => [{ long := "types", short := some 't' }]
    | resolve => [{ long := "type", short := some 't' }]
    | status => []) ++ [{ long := "identifier" }, { long := "password" }]

end Verb

/-- The flags before the command. -/
def mainFlags : List Flag :=
  [{ long := "log-level", short := some 'l' }, { long := "log-json", hasValue := false },
    { long := "config", short := some 'c' }, { long := "database-url" }]

/-- Why a command line is not read to its end. -/
inductive Stop where
  /-- Nothing but the version is asked for. -/
  | version
  /-- Nothing but help is asked for. -/
  | help
  /-- The command line cannot be understood. -/
  | misuse
deriving DecidableEq

/-- What has been read of a command line. -/
structure Line where
  verb : Option Verb := none
  operands : List String := []
  /-- The flags that were given, by their long names. -/
  given : List (String × String) := []
  /-- The flag whose value comes next. -/
  waiting : Option String := none
  /-- Every word that follows is an operand. -/
  plain : Bool := false
deriving DecidableEq

namespace Line

/-- The flags that can be given at this point. -/
def flags (l : Line) : List Flag :=
  match l.verb with
  | none => mainFlags
  | some v => v.flags

/-- The value of a flag. -/
def value? (l : Line) (long : String) : Option String :=
  l.given.lookup long

/-- A flag is given; none may be given twice. -/
def give (l : Line) (long value : String) : Except Stop Line :=
  if (l.value? long).isSome then .error .misuse
  else .ok { l with given := l.given ++ [(long, value)] }

/-- A flag that has a value: the value is there, or it comes next. -/
def giveValue (l : Line) (long : String) : Option String → Except Stop Line
  | some value => l.give long value
  | none =>
    if (l.value? long).isSome then .error .misuse else .ok { l with waiting := some long }

/-- A flag by its long name, with what follows an equality sign. -/
def readLong (l : Line) (name : String) (value : Option String) : Except Stop Line :=
  match l.flags.find? (·.long = name), value with
  | some f, value =>
    if f.hasValue then l.giveValue name value
    else if value.isSome then .error .misuse
    else l.give name ""
  | none, none =>
    if name = "help" then .error .help
    else if name = "version" && l.verb.isNone then .error .version
    else .error .misuse
  | none, some _ => .error .misuse

/-- Flags by their short names; the last one may be followed by its value. -/
def readShort (l : Line) : List Char → Except Stop Line
  | [] => .ok l
  | c :: rest =>
    match l.flags.find? (·.short = some c) with
    | some f =>
      l.giveValue f.long <| match rest with
        | [] => none
        | '=' :: value => some (String.ofList value)
        | value => some (String.ofList value)
    | none =>
      if c = 'h' then .error .help
      else if c = 'V' && l.verb.isNone then .error .version
      else .error .misuse

/-- A word that is not a flag: the command, or one of its operands. -/
def readOperand (l : Line) (word : String) : Except Stop Line :=
  match l.verb with
  | none =>
    if l.plain then .error .misuse
    else if word = "help" then .error .help
    else
      match Verb.ofName? word with
      | some v => .ok { l with verb := some v }
      | none => .error .misuse
  | some v =>
    if l.operands.length < v.operands then .ok { l with operands := l.operands ++ [word] }
    else .error .misuse

/-- A word that begins with a dash and says more. -/
def looksLikeFlag (word : String) : Bool :=
  match word.toList with
  | '-' :: _ :: _ => true
  | _ => false

/-- Read a word. -/
def readWord (l : Line) (word : String) : Except Stop Line :=
  match l.waiting with
  | some long =>
    if looksLikeFlag word then .error .misuse else { l with waiting := none }.give long word
  | none =>
    if l.plain then l.readOperand word
    else
      match word.toList with
      | ['-', '-'] => .ok { l with plain := true }
      | '-' :: '-' :: cs =>
        let name := cs.takeWhile (· != '=')
        let value := if name.length < cs.length
          then some (String.ofList (cs.drop (name.length + 1))) else none
        l.readLong (String.ofList name) value
      | '-' :: c :: cs => l.readShort (c :: cs)
      | _ => l.readOperand word

/-- Read the words of a command line. -/
def read (words : List String) : Except Stop Line :=
  words.foldlM readWord {}

end Line

end VenueLink.Command
