import VenueLink.Document.Reading
import VenueLink.Error
import VenueLink.Json.Lenient

/-!
# Instruments

The families of instruments that the venue trades, the searches that look through them, and the
recognition of ticker symbols. `Instrument.find?` looks for a ticker in a message of the venue.
-/

namespace VenueLink.Instrument

/-- A family of instruments. -/
inductive Family where
  | crypto
  | forex
  | cfd
  | digitalOption
  | fxOption
deriving DecidableEq

namespace Family

/-- The name of a family. -/
def name : Family → String
  | crypto => "crypto"
  | forex => "forex"
  | cfd => "cfd"
  | digitalOption => "digital-option"
  | fxOption => "fx-option"

/-- The family of a name. -/
def ofName? : String → Option Family
  | "crypto" => some crypto
  | "forex" => some forex
  | "cfd" => some cfd
  | "digital-option" => some digitalOption
  | "fx-option" => some fxOption
  | _ => none

/-- A family by its name. -/
def reading : Reading Family :=
  Reading.choice ofName?

/-- A family is read back from its name. -/
theorem ofName?_name (f : Family) : ofName? f.name = some f := by
  cases f <;> decide

end Family

/-- Which families a search for a ticker goes through. -/
inductive Search where
  | digitalOption
  | fxOption
  /-- Digital options first, then fx options. -/
  | auto
deriving DecidableEq

namespace Search

/-- The name of a search. -/
def name : Search → String
  | digitalOption => "digital-option"
  | fxOption => "fx-option"
  | auto => "auto"

/-- The search of a name. -/
def ofName? : String → Option Search
  | "digital-option" => some digitalOption
  | "fx-option" => some fxOption
  | "auto" => some auto
  | _ => none

/-- A search by its name. -/
def reading : Reading Search :=
  Reading.choice ofName?

/-- The families to try, in order. -/
def families : Search → List Family
  | digitalOption => [.digitalOption]
  | fxOption => [.fxOption]
  | auto => [.digitalOption, .fxOption]

/-- The search that a caller names, in any case and with blanks around; no name at all is
`auto`. -/
def ofText (s : String) : Except OperationError Search :=
  let name := Text.lowerAscii (Text.trim s)
  if name = "" then .ok auto
  else match ofName? name with
    | some search => .ok search
    | none => .error (.client
        ("unknown instrument type '" ++ name ++
          "', expected digital-option, fx-option or auto"))

end Search

/-- The ticker of an order that names no instrument. -/
def defaultTicker : String := "EURUSD"

/-- The instrument id is really a ticker symbol: six or more ASCII letters and nothing else. -/
def looksLikeTicker (id : String) : Bool :=
  let cs := id.toList
  6 ≤ cs.length && cs.all Text.isAsciiLetter

/-- The message is named like one about instruments. -/
def isAboutInstruments (raw : Json) : Bool :=
  match raw.get? "name" with
  | some (.string name) => Text.occursIn "instrument".toList (Text.lowerAscii name).toList
  | _ => false

/-- The instruments that a message lists. -/
def listed? (raw : Json) : Option (List Json) :=
  ((raw.payload ["msg", "result"]).get? "instruments").bind Json.array?

/-- The entry has the ticker, up to the case of ASCII letters. -/
def hasTicker (ticker : String) (entry : Json) : Bool :=
  Text.sameIgnoringCase (entry.getD "ticker").asText ticker

/-- The id of the first instrument with the ticker that the message lists, if the message is
about instruments and that id is not empty. -/
def find? (raw : Json) (ticker : String) : Option String :=
  if isAboutInstruments raw then do
    let entries ← listed? raw
    let entry ← entries.find? (hasTicker ticker)
    let id := entry.getD "id"
    if id.isTruthy then some id.asText else none
  else none

end VenueLink.Instrument
