import VenueLink.Http.Handler

/-!
# The service

A broker with its callers, some of whom come over HTTP. Calls go on in the background; each of
them ends with a report. `Service.step` takes one step, `Service.run` takes several.
-/

namespace VenueLink

/-- What is reported to a caller. -/
inductive Delivered where
  | result (r : CallResult)
  | response (r : Http.Response)

/-- A broker that serves calls and HTTP requests. -/
abbrev Service : Type := Broker Delivered

namespace Service

/-- What can happen to a service. -/
inductive Step where
  | call (label : String) (c : Call)
  | http (label : String) (r : Http.Request)
  /-- The session answers differently from now on. -/
  | session (s : SessionScript)
  /-- The stores fail from now on, or no longer. -/
  | stores (failure : Option StorageError)
  | wire (c : Wire.Control)
  | advance (duration : Nat)

/-- Serve an HTTP request. -/
def serve (s : Service) (label : String) (r : Http.Request) : Service :=
  let respond (s : Service) (response : Http.Response) : Service :=
    s.reply label (.response (r.finish response))
  match r.action with
  | .respond response => respond s response
  | .health => respond s (.ofPhase s.board.link.phase)
  | .call c => Broker.call s label c fun result => .response (r.finish (.ofResult result))
  | .listOrders => respond s (.ofStore (fun records => .of 200 (.orders records)) s.listOrders)
  | .upsertResult result =>
    let (s, outcome) := s.upsertResult result
    respond s (.ofStore (fun row => .ok row.toJson) outcome)
  | .listResults account date =>
    respond s (.ofStore
      (fun rows => .ok (DailyResult.groupsJson (DailyResult.groupByAccount rows)))
      (s.listResults account date))

/-- Take a step. -/
def step (s : Service) : Step → Service
  | .call label c => Broker.call s label c .result
  | .http label r => s.serve label r
  | .session script => { s with session := script }
  | .stores failure => { s with storeFailure := failure }
  | .wire c => s.tick (.wire c)
  | .advance duration => s.tick (.advance duration)

/-- Take several steps. -/
def run (s : Service) (steps : List Step) : Service :=
  steps.foldl step s

end Service

end VenueLink
