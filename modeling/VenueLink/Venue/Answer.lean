import VenueLink.Balance
import VenueLink.Exchange.Basic
import VenueLink.Order.Record

/-!
# Answers of the venue

How the answer to each kind of request is recognised and read. A list of balances answers every
caller who waits for one, so it is shared; all other answers belong to one caller. The
acknowledgement of an order is known by an order id alone, and reading it also settles what is
kept of the order.
-/

namespace VenueLink

/-- What is read from an answer. -/
inductive Answer where
  | balances (found : List Balance)
  /-- The id of an instrument. -/
  | instrument (id : String)
  /-- The id of an order, and what is kept of it. -/
  | order (id : Int) (kept : Order.Details)
  /-- A message, or a part of one. -/
  | message (value : Json)
deriving DecidableEq

namespace Answer

/-- What is kept of an order, if the answer acknowledges one. -/
def kept? : Answer → Option Order.Details
  | order _ kept => some kept
  | _ => none

/-- The answer as JSON. -/
def toJson : Answer → Json
  | balances found => .array (found.map Balance.toJson)
  | instrument id => .string id
  | order id _ => .integer id
  | message value => value

open Exchange (Matcher)

/-- Any list of balances; those of the given kinds are read. -/
def toBalances (kinds : List Int) : Matcher Answer where
  accepts raw := (Balance.listed? raw).isSome
  answer raw := .balances (Balance.extract raw kinds)
  shared := true
  prunes := true

/-- A list of instruments that has the ticker. -/
def toInstrument (ticker : String) : Matcher Answer where
  accepts raw := (Instrument.find? raw ticker).isSome
  answer raw := .instrument ((Instrument.find? raw ticker).getD "")

/-- Any message with an order id. -/
def toPlacement (draft : Order.Draft) : Matcher Answer where
  accepts raw := (Order.idIn? raw).isSome
  answer raw :=
    let id := (Order.idIn? raw).getD 0
    .order id (draft.details id raw)
  rejects := Order.isRejection

/-- Any message that names the order. -/
def toStatus (id : Int) : Matcher Answer where
  accepts raw := Order.isNamedIn raw id
  answer raw := .message raw

/-- Any message that fits a pattern; its `value` is read. A message that fits the other pattern
is a refusal. -/
def toPattern (wanted : Json) (refusal : Option Json) (shared prunes : Bool) :
    Matcher Answer where
  accepts raw := Json.fits wanted raw
  answer raw := .message (raw.getD "value")
  rejects raw := refusal.any (Json.fits · raw)
  shared := shared
  prunes := prunes

end Answer

end VenueLink
