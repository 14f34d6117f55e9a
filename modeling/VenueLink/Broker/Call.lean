import VenueLink.Account
import VenueLink.Config.Basic
import VenueLink.Exchange.Plan
import VenueLink.Venue.Answer
import VenueLink.Venue.Frame

/-!
# Calls

The five operations of a broker, and the plan of exchanges that each of them follows once it is
known that there is a session. An exchange that fails makes an operation unsuccessful, it is not
an error; an error means that the operation could not be tried.
-/

namespace VenueLink

open Exchange

/-- An operation that a caller asks for. -/
inductive Call where
  | login (credentials : Credentials)
  /-- The balances of the given kinds. -/
  | balances (kinds : List Int)
  /-- The id of the instrument with a ticker. -/
  | instrument (search : Instrument.Search) (ticker : String)
  | placement (request : Order.Request)
  /-- The state of an order. -/
  | status (orderId : Int)

/-- The answer to an operation. -/
inductive CallReply where
  | login (outcome : LoginOutcome)
  | balances (report : BalanceReport)
  | instrument (report : Resolved)
  | placement (report : PlacementReport)
  | status (report : StatusReport)

/-- The answer as JSON. -/
def CallReply.toJson : CallReply → Json
  | login outcome => outcome.toJson
  | balances report => report.toJson
  | instrument report => report.toJson
  | placement report => report.toJson
  | status report => report.toJson

/-- What comes of an operation. -/
abbrev CallResult := Except OperationError CallReply

namespace Call

/-- An exchange within a limit. -/
def spec (frame : Frame) (matcher : Matcher Answer) (limit : Limit) : Spec Answer :=
  ⟨frame.toJson, matcher, limit.deadline, limit.settle⟩

/-! ### Balances -/

/-- The kinds that are asked for; none stand for the default. -/
def kindsOrDefault (kinds : List Int) : List Int :=
  if kinds.isEmpty then Balance.defaultKinds else kinds

/-- What an exchange for balances comes to. -/
def balanceReport : Resolution Answer → BalanceReport
  | .matched ⟨.balances found, _, _⟩ => ⟨true, found⟩
  | _ => .failed

/-- Ask once for the balances. -/
def balancesPlan (limits : Limits) (kinds : List Int) : Plan Answer CallResult 1 :=
  let kinds := kindsOrDefault kinds
  .exchange (spec (.balances kinds) (Answer.toBalances kinds) limits.balances) fun r =>
    .report (.ok (.balances (balanceReport r)))

/-! ### Instruments -/

/-- The instrument that an exchange has found. -/
def foundIn : Resolution Answer → Option String
  | .matched ⟨.instrument id, _, _⟩ => some id
  | _ => none

/-- Ask for the instruments of one family after the other until the ticker is found; `seen` are
the messages of the exchanges so far. -/
def searchPlan (limits : Limits) (ticker : String) :
    (families : List Instrument.Family) → (seen : List Json) →
      Plan Answer CallResult families.length
  | [], seen => .report (.ok (.instrument ⟨false, none, seen⟩))
  | f :: rest, seen =>
    .exchange (spec (.instruments f) (Answer.toInstrument ticker) limits.instruments) fun r =>
      match foundIn r with
      | some id => .report (.ok (.instrument ⟨true, some id, seen ++ r.transcript⟩))
      | none => searchPlan limits ticker rest (seen ++ r.transcript)

/-! ### Orders -/

/-- Only two families of options can be ordered. -/
def orderedFamily : Instrument.Family → Instrument.Family
  | .fxOption => .fxOption
  | _ => .digitalOption

/-- The balance to use: that of the request, else that of the account. -/
def orderedBalance (request : Order.Request) (profile : Profile) : Int :=
  if request.userBalanceId ≠ 0 then request.userBalanceId else profile.balanceId

/-- What an exchange for a placement comes to. -/
def placementReport : Resolution Answer → PlacementReport
  | .matched ⟨.order id _, raw, _⟩ => ⟨true, some id, some raw⟩
  | r => ⟨false, none, some (.array r.transcript)⟩

/-- The content of the frame that places an order. -/
def placementOf (profile : Profile) (request : Order.Request) (side : Order.Side)
    (instrumentId : String) : Order.Placement :=
  ⟨orderedBalance request profile, orderedFamily request.family, instrumentId, side,
    request.amount⟩

/-- An order on its way to the venue. -/
def draftOf (profile : Profile) (request : Order.Request) (side : Order.Side)
    (instrumentId : String) : Order.Draft :=
  ⟨request, side, orderedBalance request profile, instrumentId⟩

/-- Place an order for an instrument. -/
def placePlan (limits : Limits) (profile : Profile) (request : Order.Request)
    (side : Order.Side) (instrumentId : String) : Plan Answer CallResult 1 :=
  .exchange (spec (placementOf profile request side instrumentId).frame
      (Answer.toPlacement (draftOf profile request side instrumentId)) limits.placeOrder)
    fun r => .report (.ok (.placement (placementReport r)))

/-- The error of an order whose ticker could not be resolved. -/
def unresolved (ticker : String) (family : Instrument.Family) : OperationError :=
  .client ("Unable to resolve instrument_id for " ++ ticker ++ " under " ++ family.name ++
    ". Provide instrument_id explicitly.")

/-- Place an order, after looking up its instrument if it has only a ticker. -/
def placementPlan (limits : Limits) (profile : Profile) (request : Order.Request)
    (side : Order.Side) : (n : Nat) × Plan Answer CallResult n :=
  let family := orderedFamily request.family
  match request.tickerToResolve with
  | none => ⟨1, placePlan limits profile request side request.namedInstrument⟩
  | some ticker =>
    ⟨2, .exchange (spec (.instrumentChanges family profile.userGroupId profile.isRegulated)
        (Answer.toInstrument ticker) limits.instruments) fun r =>
      match foundIn r with
      | some id => placePlan limits profile request side id
      | none => .report (.error (unresolved ticker family))⟩

/-! ### Order states -/

/-- What an exchange for the state of an order comes to. -/
def statusReport : Resolution Answer → StatusReport
  | .matched ⟨.message raw, _, _⟩ => ⟨true, raw⟩
  | r => ⟨false, .array r.transcript⟩

/-- Ask for order changes, and wait for one of the order. -/
def statusPlan (limits : Limits) (orderId : Int) : Plan Answer CallResult 1 :=
  .exchange (spec .orderChanges (Answer.toStatus orderId) limits.orderStatus) fun r =>
    .report (.ok (.status (statusReport r)))

end Call

end VenueLink
