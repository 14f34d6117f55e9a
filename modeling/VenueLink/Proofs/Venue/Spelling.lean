import VenueLink.Order.Record
import VenueLink.Proofs.Json.Integers
import VenueLink.Session.Live

/-!
# Ids and times that are sent as texts

The ids of orders and balances and the time at which a session ends are all read as integers,
whether the venue sends them as numbers or as texts. Two messages that differ only in how an
integer is written are read alike if the text is read as the number is (`readsAlike_of_asInt?`).
That is so for every integer of at most 53 binary digits and zeros behind them, but the digits
of a longer one are cut off in the text alone.

## Main results

* `text_is_read_iff`: which integers of 64 bits may be sent as numbers and as texts.
-/

namespace VenueLink

open Text Double

namespace Json

/-- The two values have the same fields, but for some that are `a` in one and `b` in the other.
-/
def SameBut (a b p q : Json) : Prop :=
  ∀ key, p.get? key = q.get? key ∨ p.get? key = some a ∧ q.get? key = some b

variable {a b p q : Json}

/-- The number under any key is the same when the two numbers that differ in spelling are. -/
theorem SameBut.bind_asInt? (h : SameBut a b p q) (hab : a.asInt? = b.asInt?) (key : String) :
    (p.get? key).bind asInt? = (q.get? key).bind asInt? := by
  rcases h key with hsame | ⟨hp, hq⟩
  · rw [hsame]
  · rw [hp, hq]
    exact hab

/-- A number is not null. -/
theorem isNull_of_asInt?_eq_some {j : Json} {i : Int} (h : j.asInt? = some i) :
    j.isNull = false := by
  cases j <;> first | rfl | cases h

end Json

open Json

/-- Whatever is sent, `a` and `b` make the same id and the same time. -/
structure ReadsAlike (a b : Json) : Prop where
  /-- The id of an order. -/
  order : ∀ raw raw' : Json, SameBut a b (raw.payload ["msg", "result", "message"])
    (raw'.payload ["msg", "result", "message"]) → Order.idIn? raw = Order.idIn? raw'
  /-- The id of a balance in a list. -/
  balance : ∀ entry entry', SameBut a b entry entry' →
    (Balance.ofEntry entry).id = (Balance.ofEntry entry').id
  /-- The id of the balance that an account uses. -/
  profile : ∀ body body' : Json, SameBut a b (body.payload ["result", "data"])
    (body'.payload ["result", "data"]) →
      (LiveSession.profileIn body).balanceId = (LiveSession.profileIn body').balanceId
  /-- The second at which a session expires. -/
  expiry : ∀ body body' : Json, SameBut a b (body.payload ["data", "result"])
    (body'.payload ["data", "result"]) →
      LiveSession.expiryIn? body = LiveSession.expiryIn? body'

/-- Values that are the same integer are read alike. -/
theorem readsAlike_of_asInt? {a b : Json} {n : Int} (ha : a.asInt? = some n)
    (hb : b.asInt? = some n) : ReadsAlike a b := by
  have hab := ha.trans hb.symm
  refine ⟨fun raw raw' h => ?_, fun entry entry' h => ?_, fun body body' h => ?_,
    fun body body' h => ?_⟩
  · have horder := h.bind_asInt? hab "order_id"
    rw [Order.idIn?, Order.idIn?]
    generalize raw.payload ["msg", "result", "message"] = p at *
    generalize raw'.payload ["msg", "result", "message"] = q at *
    rcases h "id" with hsame | ⟨hp, hq⟩
    · rw [hsame]
      cases (q.get? "id").filter (!·.isNull) with
      | none => exact congrArg (Option.filter _) horder
      | some v => rfl
    · rw [hp, hq, Option.filter_some, Option.filter_some, isNull_of_asInt?_eq_some ha,
        isNull_of_asInt?_eq_some hb]
      exact congrArg (Option.filter _) hab
  · change ((entry.getD "id").asInt?).getD 0 = ((entry'.getD "id").asInt?).getD 0
    rw [getD, getD]
    rcases h "id" with hsame | ⟨hp, hq⟩
    · rw [hsame]
    · rw [hp, hq]
      exact congrArg (Option.getD · 0) hab
  · exact congrArg (Option.getD · 0) (h.bind_asInt? hab "balance_id")
  · exact congrArg (Option.filter _) (h.bind_asInt? hab "expires_at")

/-- **Integers as texts.** An integer of 64 bits that is sent as a number is read as it is. Sent
as a text, with any blanks around, it is read as it is exactly if it has a double of its own or
is the largest one of all; and then no id and no time depends on which of the two was sent. -/
theorem text_is_read_iff {n : Int} (hn : IsInt64 n) {before after : List Char}
    (hbefore : ∀ c ∈ before, isBlank c = true) (hafter : ∀ c ∈ after, isBlank c = true) :
    (integer n).asInt? = some n ∧
      ((string (spaced before after n)).asInt? = some n ↔ IsExact n.natAbs ∨ n = maxInt64) ∧
      (IsExact n.natAbs ∨ n = maxInt64 →
        ReadsAlike (string (spaced before after n)) (integer n)) := by
  have hnumber := asInt?_integer hn
  have htext : (string (spaced before after n)).asInt? = some n ↔
      IsExact n.natAbs ∨ n = maxInt64 := by
    rw [asInt?_of_text (writtenInt?_spaced hbefore hafter n) hn, Option.some_inj,
      clamp_roundedInt_eq_iff hn]
  exact ⟨hnumber, htext, fun h => readsAlike_of_asInt? (htext.mpr h) hnumber⟩

/-- An integer of 54 bits that ends in a zero, with blanks around it. -/
theorem spaced_text_is_read :
    spaced [' '] ['\n'] (-9007199254740994) = " -9007199254740994\n" ∧
      (string " -9007199254740994\n").asInt? = some (-9007199254740994) ∧
      ReadsAlike (string " -9007199254740994\n") (integer (-9007199254740994)) := by
  have hspaced : spaced [' '] ['\n'] (-9007199254740994) = " -9007199254740994\n" := by decide
  have hexact : IsExact (-9007199254740994 : Int).natAbs :=
    ⟨4503599627370497, 1, by decide, by decide⟩
  have hint : IsInt64 (-9007199254740994) := by decide
  have hbefore : ∀ c ∈ [' '], isBlank c = true := List.forall_mem_singleton.mpr rfl
  have hafter : ∀ c ∈ ['\n'], isBlank c = true := List.forall_mem_singleton.mpr rfl
  obtain ⟨-, htext, halike⟩ := text_is_read_iff hint hbefore hafter
  rw [hspaced] at htext halike
  exact ⟨hspaced, htext.mpr (.inl hexact), halike (.inl hexact)⟩

/-- The last digit of a longer integer is lost in its text, and so is that of the id of an
order. -/
theorem long_text_is_not_read :
    (integer 9007199254740993).asInt? = some 9007199254740993 ∧
      (string "9007199254740993").asInt? = some 9007199254740992 ∧
      Order.idIn? (object [("id", string "9007199254740993")]) = some 9007199254740992 ∧
      ¬∀ n, IsInt64 n → ∀ before after, (∀ c ∈ before, isBlank c = true) →
        (∀ c ∈ after, isBlank c = true) → (string (spaced before after n)).asInt? = some n := by
  have hread : (string "9007199254740993").asInt? = some 9007199254740992 := by decide +kernel
  refine ⟨by decide, hread, by decide +kernel, fun h => ?_⟩
  have hself := h 9007199254740993 (by decide) [] [] (by simp) (by simp)
  have hspaced : spaced [] [] 9007199254740993 = "9007199254740993" := by decide
  rw [hspaced, hread] at hself
  exact absurd (Option.some.inj hself) (by decide)

end VenueLink
