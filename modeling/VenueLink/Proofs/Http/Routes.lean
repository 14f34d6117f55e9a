import VenueLink.Http.Handler

/-!
# What routes lead to

What a request asks for depends on its route, and each route leads to a few things only:
`Route.Offers` is the list of them. So whatever a request asks for tells its route.

## Main results

* `Request.offers_actionOn`: what a request on a route asks for is on the list.
* `Request.exists_route`: a request that asks for more than a response is on a route that allows
  its method.
-/

namespace VenueLink.Http

/-- What a request on a route may ask for. -/
inductive Route.Offers : Route → Action → Prop where
  | respond {route} (response : Response) : Offers route (.respond response)
  | health : Offers .health .health
  | login (c : Credentials) : Offers .login (.call (.login c))
  | balances (types : Option String) :
      Offers .balances (.call (.balances (Balance.kindsOf types)))
  | instrument (search : Instrument.Search) (ticker : String) :
      Offers .instruments (.call (.instrument search ticker))
  | placement (request : Order.Request) : Offers .orders (.call (.placement request))
  | listOrders : Offers .orders .listOrders
  | status (written : List Char) (id : Int) : Offers (.orderStatus written) (.call (.status id))
  | upsertResult (result : DailyResult) : Offers .upsertResult (.upsertResult result)
  | listResults (account : Option String) (date : Option Date) :
      Offers .results (.listResults account date)

namespace Request

variable {route : Route} {r : Request}

/-- A request with a body asks for what is made of it. -/
theorem offers_read {reading : Reading α} {f : α → Action} (hf : ∀ a, route.Offers (f a)) :
    route.Offers (r.read reading f) := by
  rw [read]
  split
  · exact .respond _
  · split
    · exact hf _
    · exact .respond _
    · exact .respond _

/-- A request with a field asks for what is made of it. -/
theorem offers_field {name : String} {f : Option String → Action}
    (hf : ∀ value, route.Offers (f value)) : route.Offers (r.field name f) := by
  rw [field]
  split
  · exact hf _
  · exact .respond _

/-- What is done on a route is something that the route offers. -/
theorem offers_actionOn (r : Request) (route : Route) : route.Offers (r.actionOn route) := by
  cases route with
  | health => exact .health
  | login =>
    rw [actionOn, login]
    refine offers_read fun c => ?_
    split
    · exact .respond _
    · exact .login c
  | balances =>
    rw [actionOn, balances]
    exact offers_field fun types => .balances types
  | instruments =>
    rw [actionOn, instrument, fields]
    refine offers_field fun type => offers_field fun ticker => ?_
    split
    · exact .respond _
    · split
      · exact .respond _
      · exact .instrument _ _
  | orders =>
    rw [actionOn]
    split
    · rw [placeOrder]
      exact offers_read fun request => .placement request
    · exact .listOrders
  | orderStatus written =>
    rw [actionOn, orderStatus]
    split
    · exact .respond _
    · split
      · exact .status _ _
      · exact .respond _
  | upsertResult =>
    rw [actionOn, upsertResult]
    refine offers_read fun result => ?_
    dsimp only
    split
    · exact .respond _
    · exact .upsertResult _
  | results =>
    rw [actionOn, listResults, fields]
    refine offers_field fun account => offers_field fun date => ?_
    dsimp only
    split
    · exact .listResults _ _
    · split
      · exact .listResults _ _
      · exact .respond _

/-- A request that asks for more than a response is on a route that allows its method. -/
theorem exists_route {x : Action} (h : r.action = x) (hx : ∀ response, x ≠ .respond response) :
    ∃ route, Route.ofPath? r.path = some route ∧ r.method ∈ route.allowed ∧
      r.actionOn route = x := by
  rw [action] at h
  split at h
  · exact absurd h.symm (hx _)
  · split at h
    · exact absurd h.symm (hx _)
    next route hroute =>
      split at h
      next hmethod => exact ⟨route, hroute, hmethod, h⟩
      · exact absurd h.symm (hx _)

end Request

end VenueLink.Http
