import VenueLink.Proofs.Broker.OrderState
import VenueLink.Proofs.Order.Ids

/-!
# Ids that name one order only

A question for the state of an order is answered by a message that names the order, and ids are
compared as doubles for that. Integers below the 53rd power of two have a double of their own,
and so have some of the larger ones (`Order.Apart`). A message that carries integers names such
an order only with its very id, and then no state of another order is answered. Any other order
is taken for one with a different id in some message.

## Main results

* `named_exactly_iff_apart`: the orders that are only named by their ids.
-/

namespace VenueLink

open Exchange Switchboard Json Text Double

namespace Order

variable {raw : Json} {k : Int}

/-- No other integer of 64 bits has the same double. -/
def Apart (k : Int) : Prop :=
  ∀ i, IsInt64 i → roundedInt i = roundedInt k → i = k

/-- The fields that may name an order are integers of 64 bits, as numbers or as texts, or are
nothing that is compared with one. -/
def HoldsIntegers (raw : Json) : Prop :=
  ∀ key ∈ ["id", "order_id"], ∀ v, (raw.payload ["msg", "result"]).get? key = some v →
    v.asDouble? = none ∨ ∃ i, v.writtenInt? = some i ∧ IsInt64 i

/-- One of the fields that may name an order is the integer. -/
def Carries (raw : Json) (k : Int) : Prop :=
  ∃ key ∈ ["id", "order_id"], ∃ v, (raw.payload ["msg", "result"]).get? key = some v ∧
    v.writtenInt? = some k

/-- Small numbers stay apart as doubles. -/
theorem apart_of_lt (hk : k.natAbs < mantissaBound) : Apart k :=
  fun _ _ h => (roundedInt_inj hk).mp h

/-- An integer is taken for the id exactly if both round to the same double. -/
theorem isNumbered_iff_of_writtenInt? {v : Json}
    (hv : v.asDouble? = none ∨ ∃ i, v.writtenInt? = some i ∧ IsInt64 i) (hk : IsInt64 k) :
    isNumbered k (some v) = true ↔
      ∃ i, IsInt64 i ∧ v.writtenInt? = some i ∧ roundedInt i = roundedInt k := by
  rw [isNumbered_some_iff]
  rcases hv with hnone | ⟨i, hi, hint⟩
  · constructor
    · rintro ⟨x, hx, -⟩
      cases hnone.symm.trans hx
    · rintro ⟨i, hint, hi, -⟩
      obtain ⟨x, hx, -⟩ := value?_of_writtenInt? hi hint
      cases hnone.symm.trans hx
  · rw [equals_ofInt_iff hi hint hk]
    constructor
    · exact fun h => ⟨i, hint, hi, h⟩
    · rintro ⟨j, -, hj, h⟩
      rwa [Option.some.inj (hi.symm.trans hj)]

/-- A message that carries integers names the orders that have the double of one of them. -/
theorem isNamedIn_iff_of_holdsIntegers (h : HoldsIntegers raw) (hk : IsInt64 k) :
    isNamedIn raw k = true ↔ ∃ i, IsInt64 i ∧ Carries raw i ∧ roundedInt i = roundedInt k := by
  have hfield : ∀ key ∈ ["id", "order_id"],
      isNumbered k ((raw.payload ["msg", "result"]).get? key) = true ↔
        ∃ v, (raw.payload ["msg", "result"]).get? key = some v ∧
          ∃ i, IsInt64 i ∧ v.writtenInt? = some i ∧ roundedInt i = roundedInt k := by
    intro key hkey
    cases hget : (raw.payload ["msg", "result"]).get? key with
    | none => exact iff_of_false Bool.false_ne_true fun ⟨_, hv, _⟩ => nomatch hv
    | some v =>
      rw [isNumbered_iff_of_writtenInt? (h key hkey v hget) hk]
      simp only [Option.some_inj, exists_eq_left']
  rw [isNamedIn_iff, hfield "id" (by decide), hfield "order_id" (by decide)]
  constructor
  · rintro (⟨v, hv, i, hint, hi, heq⟩ | ⟨v, hv, i, hint, hi, heq⟩)
    · exact ⟨i, hint, ⟨"id", by decide, v, hv, hi⟩, heq⟩
    · exact ⟨i, hint, ⟨"order_id", by decide, v, hv, hi⟩, heq⟩
  · rintro ⟨i, hint, ⟨key, hkey, v, hv, hi⟩, heq⟩
    rcases List.mem_pair.mp hkey with rfl | rfl
    · exact .inl ⟨v, hv, i, hint, hi, heq⟩
    · exact .inr ⟨v, hv, i, hint, hi, heq⟩

/-- An order is named by its id. -/
theorem isNamedIn_iff_of_apart (h : HoldsIntegers raw) (hk : IsInt64 k) (hapart : Apart k) :
    isNamedIn raw k = true ↔ Carries raw k := by
  rw [isNamedIn_iff_of_holdsIntegers h hk]
  constructor
  · rintro ⟨i, hi, hcarries, heq⟩
    rwa [hapart i hi heq] at hcarries
  · exact fun hcarries => ⟨k, hk, hcarries, rfl⟩

/-- A message of one integer. -/
theorem holdsIntegers_id {i : Int} (hi : IsInt64 i) :
    HoldsIntegers (object [("id", integer i)]) := by
  intro key hkey v hv
  rcases List.mem_pair.mp hkey with rfl | rfl
  · obtain rfl := Option.some.inj hv
    exact .inr ⟨i, rfl, hi⟩
  · cases hv

/-- A plain message carries the id that stands in it. -/
theorem carries_id_iff {i : Int} : Carries (object [("id", integer i)]) k ↔ i = k := by
  constructor
  · rintro ⟨key, hkey, v, hv, hk⟩
    rcases List.mem_pair.mp hkey with rfl | rfl
    · obtain rfl := Option.some.inj hv
      exact Option.some.inj hk
    · cases hv
  · rintro rfl
    exact ⟨"id", by decide, integer i, rfl, rfl⟩

/-- An order that is only named by its id has a double of its own. -/
theorem apart_of_isNamedIn_iff (hk : IsInt64 k)
    (h : ∀ raw, HoldsIntegers raw → (isNamedIn raw k = true ↔ Carries raw k)) : Apart k := by
  intro i hi heq
  have hholds := holdsIntegers_id hi
  have hnamed :=
    (isNamedIn_iff_of_holdsIntegers hholds hk).mpr ⟨i, hi, carries_id_iff.mpr rfl, heq⟩
  exact carries_id_iff.mp ((h _ hholds).mp hnamed)

end Order

namespace Broker

variable {ρ : Type} {config : VenueConfig} {session : SessionScript}
  {responders : List Responder} {deeds : List (Deed ρ)} {caller : Nat} {label : String}
  {k : Int} {tell : CallResult → ρ}

/-- A state that is answered is that of a message that names the order. -/
theorem named_of_status
    (hcall : (start config session responders).Brought deeds caller
      (.call label (.status k) tell)) {r : ρ}
    (hr : (start config session responders).board.Answers
      ((start config session responders).history deeds) caller r) :
    ∃ result, r = tell result ∧ ∀ report, result = .ok (.status report) →
      report.success = true →
      Order.isNamedIn report.raw k = true := by
  rcases le_or_gt k 0 with hneg | hpos
  · obtain ⟨b, -, htrod⟩ := trod_of_brought hcall
    have hprepare : (b.prepare (.status k)).2 =
        ⟨0, .report (.error (.client ("invalid order id " ++ toString k)))⟩ :=
      congrArg Prod.snd (if_pos hneg)
    rw [hprepare] at htrod
    obtain rfl := Answers.unique (orderly_board_start _ _ _) hr htrod.told_of_report
    exact ⟨_, rfl, fun report h => nomatch h⟩
  · obtain ⟨ex, hasks⟩ := exists_asksState hpos hcall
    obtain ⟨report, rfl, hnames⟩ := hasks.answered r hr
    refine ⟨_, rfl, fun report' heq hsuccess => ?_⟩
    cases heq
    obtain ⟨before, n, hmeets, -⟩ := hnames hsuccess
    exact hmeets.accepts

end Broker

namespace Order

open Broker in
/-- **Naming an order.** That in all messages that carry integers an order is named by its id
and by nothing else is so exactly if no other integer has its double, and always if the id is
below the 53rd power of two. In every course the state that is answered for such an order, if it
is read from a message that carries integers, is read from one that carries the id. -/
theorem named_exactly_iff_apart {k : Int} (hk : IsInt64 k) :
    ((∀ raw, HoldsIntegers raw → (isNamedIn raw k = true ↔ Carries raw k)) ↔ Apart k) ∧
      (k.natAbs < mantissaBound → Apart k) ∧
      (Apart k → ∀ {ρ : Type} (config : VenueConfig) (session : SessionScript)
        (responders : List Responder) (deeds : List (Deed ρ)) (caller : Nat) (label : String)
        (tell : CallResult → ρ),
        (start config session responders).Brought deeds caller (.call label (.status k) tell) →
        ∀ r, (start config session responders).board.Answers
          ((start config session responders).history deeds) caller r →
        ∃ result, r = tell result ∧ ∀ report, result = .ok (.status report) →
          report.success = true →
          HoldsIntegers report.raw → Carries report.raw k) := by
  refine ⟨⟨apart_of_isNamedIn_iff hk, fun hapart raw h => isNamedIn_iff_of_apart h hk hapart⟩,
    apart_of_lt,
    fun hapart ρ config session responders deeds caller label tell hcall r hr => ?_⟩
  obtain ⟨result, rfl, hnamed⟩ := named_of_status hcall hr
  exact ⟨result, rfl, fun report heq hsuccess h =>
    (isNamedIn_iff_of_apart h hk hapart).mp (hnamed report heq hsuccess)⟩

end Order

namespace Service

open Broker

/-- The state of an order is asked for, and a message comes in. -/
def askingFor (k : Int) (m : Json) : List (Deed CallResult) :=
  [.call "a" (.status k) id, .advance 150, .wire (.push m)]

/-- The receipt of an order is taken for its state, and it carries the id. -/
theorem receipt_names_its_order :
    Order.isNamedIn receipt 5 = true ∧ Order.Apart 5 ∧
      (fresh.course (askingFor 5 receipt)).board.reports.map (stateOf ·.report) =
        [some ⟨true, receipt⟩] ∧
      ∀ r, fresh.board.Answers (fresh.history (askingFor 5 receipt)) 0 r →
        ∃ result, r = id result ∧ ∀ report, result = .ok (.status report) →
          report.success = true →
          Order.HoldsIntegers report.raw → Order.Carries report.raw 5 := by
  have hbrought : fresh.Brought (askingFor 5 receipt) 0 (.call "a" (.status 5) id) :=
    ⟨[], (askingFor 5 receipt).drop 1, rfl, by decide +kernel⟩
  obtain ⟨hnames, hsmall, hstates⟩ := Order.named_exactly_iff_apart (k := 5) (by decide)
  have hapart : Order.Apart 5 := hsmall (by decide)
  exact ⟨(hnames.mpr hapart _ (Order.holdsIntegers_id (by decide))).mpr
    (Order.carries_id_iff.mpr rfl),
    hapart, by decide +kernel, hstates hapart {} loggedIn [] _ 0 "a" id hbrought⟩

/-- A message about another order whose id has the same double. -/
def neighbour : Json :=
  .object [("id", .integer 9007199254740993)]

/-- The state of an order with a different id is answered. -/
theorem neighbour_is_taken :
    Order.isNamedIn neighbour 9007199254740992 = true ∧
      ¬Order.Carries neighbour 9007199254740992 ∧
      (fresh.course (askingFor 9007199254740992 neighbour)).board.reports.map
        (stateOf ·.report) = [some ⟨true, neighbour⟩] ∧
      ¬∀ k raw, IsInt64 k → Order.HoldsIntegers raw →
        (Order.isNamedIn raw k = true ↔ Order.Carries raw k) := by
  have hnamed : Order.isNamedIn neighbour 9007199254740992 = true := by decide +kernel
  have hother : ¬Order.Carries neighbour 9007199254740992 := fun h =>
    absurd (Order.carries_id_iff.mp h) (by decide)
  refine ⟨hnamed, hother, by decide +kernel, fun h => hother ?_⟩
  exact (h 9007199254740992 neighbour (by decide) (Order.holdsIntegers_id (by decide))).mp
    hnamed

end Service

end VenueLink
