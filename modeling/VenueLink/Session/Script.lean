import VenueLink.Account
import VenueLink.Error

/-!
# Scripted sessions

A session with the venue whose answers are laid down beforehand.
-/

namespace VenueLink

/-- What a scripted login answers. -/
structure LoginScript where
  answer : Except OperationError LoginOutcome
  /-- The token that the session has once a login was asked for, if it changes. -/
  token : Option (Option String) := none

/-- A session with the venue whose answers are laid down beforehand. -/
structure SessionScript where
  token : Option String
  /-- Why there is no session, if there is none. -/
  refusal : Option OperationError
  profile : Except OperationError Profile
  login : LoginScript

namespace SessionScript

/-- Log in: the answer carries what the venue says and what it has seen. -/
def logIn (s : SessionScript) (c : Credentials) :
    SessionScript × Except OperationError LoginOutcome :=
  ({ s with token := s.login.token.getD s.token },
    s.login.answer.map fun o =>
      { o with raw := .object [("seen", c.toJson), ("venue", o.raw)] })

end SessionScript

end VenueLink
