import VenueLink.Exchange.Basic

/-!
# Plans

What a caller wants from the venue: a few exchanges one after the other, where each may depend
on how the one before it ended, and a report at the end.
-/

namespace VenueLink.Exchange

/-- A plan of at most `n` exchanges. -/
inductive Plan (α ρ : Type) : Nat → Type where
  /-- Report, with nothing left to do. -/
  | report (r : ρ) : Plan α ρ n
  /-- Run an exchange, then go on. -/
  | exchange (spec : Spec α) (next : Resolution α → Plan α ρ n) : Plan α ρ (n + 1)

namespace Plan

/-- The same exchanges with another report. -/
def map (f : ρ → σ) : Plan α ρ n → Plan α σ n
  | report r => report (f r)
  | exchange spec next => exchange spec fun r => (next r).map f

end Plan

end VenueLink.Exchange
