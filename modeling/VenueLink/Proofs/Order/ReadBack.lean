import VenueLink.DailyResult
import VenueLink.Order.Record
import VenueLink.Proofs.Calendar.Instants
import VenueLink.Proofs.Document.Restored
import VenueLink.Proofs.Json.Integers
import VenueLink.Proofs.Uuid
import VenueLink.Proofs.Venue.Frames

/-!
# Requests, records and results that are read back

An order request, the record of an order and a daily result can hold more than what can be read:
their integers have no bounds, a timestamp may be no instant, and a response may list its keys
in any order. What has been read keeps within these limits (`Fits`), and whatever keeps within
them is read back from its JSON with all its parts. Amounts, dates and identifiers need no
limits, since each of them is read back from its text.

## Main results

* `Request.fits_of_build`, `Record.fits_of_build`, `DailyResult.fits_of_build`: what has been
  read fits.
* `Request.read_toJson`, `Record.read_toJson`, `DailyResult.read_toJson`: what fits is read
  back.
* `records_are_read_back`: both together.
-/

namespace VenueLink

open Document Json Fields

/-- A number of 64 bits is read back. -/
theorem Reading.int64_ofJson {i : Int} (h : Text.IsInt64 i) :
    int64 (ofJson (.integer i)) = .ok i :=
  integer_ofJson h.1 h.2

namespace Order

/-- So is an amount. -/
theorem amountReading_ofJson (a : Decimal) : amountReading (ofJson (amountJson a)) = .ok a := by
  rw [amountJson, ofJson, amountReading, Reading.stringWith, Decimal.ofText?_text]
  all_goals simp

/-- So is a side. -/
theorem side_ofJson (s : Side) : Side.reading (ofJson (.string s.name)) = .ok s :=
  Reading.choice_string s.ofName?_name

/-- So is a family of instruments. -/
theorem family_ofJson (f : Instrument.Family) :
    Instrument.Family.reading (ofJson (.string f.name)) = .ok f :=
  Reading.choice_string f.ofName?_name

/-- The integers of 32 bits. -/
def IsInt32 (i : Int) : Prop :=
  -2147483648 ≤ i ∧ i ≤ 2147483647

/-- So is a number of 32 bits. -/
theorem int32_ofJson {i : Int} (h : IsInt32 i) : Reading.int32 (ofJson (.integer i)) = .ok i :=
  Reading.integer_ofJson h.1 h.2

namespace Request

/-- The integers of the request are within their ranges. -/
structure Fits (r : Request) : Prop where
  balance : Text.IsInt64 r.userBalanceId
  leverage : ∀ n ∈ r.leverage, IsInt32 n

/-- A request that is read fits. -/
theorem fits_of_build {values : String → Option Document} {r : Request}
    (h : fields.build values = .ok r) : r.Fits := by
  obtain ⟨_, takeProfitKind, h₁, -, rfl⟩ := exists_of_build_seq h
  obtain ⟨_, takeProfitValue, h₂, -, rfl⟩ := exists_of_build_seq h₁
  obtain ⟨_, stopLoseKind, h₃, -, rfl⟩ := exists_of_build_seq h₂
  obtain ⟨_, stopLoseValue, h₄, -, rfl⟩ := exists_of_build_seq h₃
  obtain ⟨_, stopPrice, h₅, -, rfl⟩ := exists_of_build_seq h₄
  obtain ⟨_, limitPrice, h₆, -, rfl⟩ := exists_of_build_seq h₅
  obtain ⟨_, leverage, h₇, hleverage, rfl⟩ := exists_of_build_seq h₆
  obtain ⟨_, amount, h₈, -, rfl⟩ := exists_of_build_seq h₇
  obtain ⟨_, action, h₉, -, rfl⟩ := exists_of_build_seq h₈
  obtain ⟨_, side, h₁₀, -, rfl⟩ := exists_of_build_seq h₉
  obtain ⟨_, instrumentId, h₁₁, -, rfl⟩ := exists_of_build_seq h₁₀
  obtain ⟨_, family, h₁₂, -, rfl⟩ := exists_of_build_seq h₁₁
  obtain ⟨balance, hbalance, rfl⟩ := exists_of_build_map h₁₂
  constructor
  · rcases of_build_fieldOr hbalance with rfl | ⟨d, hd⟩
    · exact (by decide : Text.IsInt64 0)
    · exact Reading.bounds_of_integer hd
  · intro n hn
    obtain ⟨d, hd⟩ := of_build_optionalField hleverage n hn
    exact Reading.bounds_of_integer hd

/-- A request is read back. -/
theorem read_toJson {r : Request} (h : r.Fits) : fields.read (ofJson r.toJson) = .ok r := by
  have hbalance := Reading.int64_ofJson h.balance
  have hfamily := family_ofJson r.family
  have hamount := amountReading_ofJson r.amount
  have hleverage := Reading.optional_ofOption (w := .integer)
    (fun n hn => int32_ofJson (h.leverage n hn))
    (by simp)
  have hstring : ∀ s : Option String,
      Reading.optional Reading.string (ofJson (.ofOption .string s)) = .ok s :=
    fun s => Reading.optional_ofOption (fun _ _ => rfl) (by simp)
  have hprice : ∀ a : Option Decimal,
      Reading.optional amountReading (ofJson (.ofOption amountJson a)) = .ok a :=
    fun a => Reading.optional_ofOption (fun x _ => amountReading_ofJson x)
      (by simp [amountJson])
  rw [toJson, read_ofJson]
  · simp only [fields, build_seq, build_map]
    rw [build_fieldOr (d := ofJson (.integer r.userBalanceId)) rfl, hbalance,
      build_fieldOr (d := ofJson (.string r.family.name)) rfl, hfamily,
      build_optionalField (d := ofJson (.ofOption .string r.instrumentId)) rfl, hstring,
      build_optionalField (d := ofJson (.ofOption .string r.side)) rfl, hstring,
      build_optionalField (d := ofJson (.ofOption .string r.action)) rfl, hstring,
      build_field (d := ofJson (amountJson r.amount)) rfl, hamount,
      build_optionalField (d := ofJson (.ofOption .integer r.leverage)) rfl, hleverage,
      build_optionalField (d := ofJson (.ofOption amountJson r.limitPrice)) rfl, hprice,
      build_optionalField (d := ofJson (.ofOption amountJson r.stopPrice)) rfl, hprice,
      build_optionalField (d := ofJson (.ofOption amountJson r.stopLoseValue)) rfl, hprice,
      build_optionalField (d := ofJson (.ofOption .string r.stopLoseKind)) rfl, hstring,
      build_optionalField (d := ofJson (.ofOption amountJson r.takeProfitValue)) rfl, hprice,
      build_optionalField (d := ofJson (.ofOption .string r.takeProfitKind)) rfl, hstring]
    rfl
  · simp only [List.forall_mem_cons, List.not_mem_nil, false_implies, implies_true, and_true]
    exact ⟨accepts_of_ok (hstring _) rfl, accepts_of_ok hamount rfl,
      accepts_of_ok (hstring _) rfl, accepts_of_ok hfamily rfl, accepts_of_ok hleverage rfl,
      accepts_of_ok (hprice _) rfl, accepts_of_ok (hstring _) rfl,
      accepts_of_ok (hstring _) rfl, accepts_of_ok (hprice _) rfl, accepts_of_ok (hprice _) rfl,
      accepts_of_ok (hstring _) rfl, accepts_of_ok (hprice _) rfl, accepts_of_ok hbalance rfl⟩
  · simp

end Request

namespace Record

/-- The integers of the record are within their ranges, its times are instants, and its response
lists its keys in increasing order. -/
structure Fits (r : Record) : Prop where
  balance : Text.IsInt64 r.details.userBalanceId
  leverage : IsInt32 r.details.leverage
  order : Text.IsInt64 r.details.brokerOrderId
  response : r.details.rawPlaceResponse.Proper
  created : r.createdAt.IsInstant
  updated : r.updatedAt.IsInstant

/-- A time that is read is an instant. -/
theorem isInstant_of_reading {d : Document} {t : Timestamp}
    (h : Reading.stringWith Timestamp.ofText? d = .ok t) : t.IsInstant := by
  obtain ⟨s, hs⟩ := Reading.exists_of_stringWith h
  exact Timestamp.isInstant_of_ofText? hs

/-- A record that is read fits. -/
theorem fits_of_build {values : String → Option Document} {r : Record}
    (h : fields.build values = .ok r) : r.Fits := by
  obtain ⟨_, updatedAt, h₁, hupdated, rfl⟩ := exists_of_build_seq h
  obtain ⟨_, createdAt, h₂, hcreated, rfl⟩ := exists_of_build_seq h₁
  obtain ⟨_, rawPlaceResponse, h₃, hraw, rfl⟩ := exists_of_build_seq h₂
  obtain ⟨_, status, h₄, -, rfl⟩ := exists_of_build_seq h₃
  obtain ⟨_, brokerOrderId, h₅, horder, rfl⟩ := exists_of_build_seq h₄
  obtain ⟨_, takeProfitKind, h₆, -, rfl⟩ := exists_of_build_seq h₅
  obtain ⟨_, takeProfitValue, h₇, -, rfl⟩ := exists_of_build_seq h₆
  obtain ⟨_, stopLoseKind, h₈, -, rfl⟩ := exists_of_build_seq h₇
  obtain ⟨_, stopLoseValue, h₉, -, rfl⟩ := exists_of_build_seq h₈
  obtain ⟨_, stopPrice, h₁₀, -, rfl⟩ := exists_of_build_seq h₉
  obtain ⟨_, limitPrice, h₁₁, -, rfl⟩ := exists_of_build_seq h₁₀
  obtain ⟨_, leverage, h₁₂, hleverage, rfl⟩ := exists_of_build_seq h₁₁
  obtain ⟨_, amount, h₁₃, -, rfl⟩ := exists_of_build_seq h₁₂
  obtain ⟨_, side, h₁₄, -, rfl⟩ := exists_of_build_seq h₁₃
  obtain ⟨_, instrumentId, h₁₅, -, rfl⟩ := exists_of_build_seq h₁₄
  obtain ⟨_, family, h₁₆, -, rfl⟩ := exists_of_build_seq h₁₅
  obtain ⟨_, balance, h₁₇, hbalance, rfl⟩ := exists_of_build_seq h₁₆
  obtain ⟨id, -, rfl⟩ := exists_of_build_map h₁₇
  obtain ⟨d, hbalance⟩ := of_build_field hbalance
  obtain ⟨d, hleverage⟩ := of_build_field hleverage
  obtain ⟨d, horder⟩ := of_build_field horder
  obtain ⟨d, hraw⟩ := of_build_field hraw
  obtain ⟨d, hcreated⟩ := of_build_field hcreated
  obtain ⟨d, hupdated⟩ := of_build_field hupdated
  exact ⟨Reading.bounds_of_integer hbalance, Reading.bounds_of_integer hleverage,
    Reading.bounds_of_integer horder, proper_of_toJson _ hraw, isInstant_of_reading hcreated,
    isInstant_of_reading hupdated⟩

/-- A record is read back. -/
theorem read_toJson {r : Record} (h : r.Fits) : fields.read (ofJson r.toJson) = .ok r := by
  have hid : Reading.stringWith Uuid.ofText? (ofJson (.string r.id.text)) = .ok r.id :=
    Reading.stringWith_ofJson (Uuid.ofText?_text _)
  have hbalance := Reading.int64_ofJson h.balance
  have hfamily := family_ofJson r.details.family
  have hside := side_ofJson r.details.side
  have hleverage := int32_ofJson h.leverage
  have horder := Reading.int64_ofJson h.order
  have hraw :
      Reading.json (ofJson r.details.rawPlaceResponse) = .ok r.details.rawPlaceResponse :=
    toJson_ofJson _ h.response
  have hcreated : Reading.stringWith Timestamp.ofText? (ofJson (.string r.createdAt.text)) =
      .ok r.createdAt :=
    Reading.stringWith_ofJson (Timestamp.ofText?_text h.created)
  have hupdated : Reading.stringWith Timestamp.ofText? (ofJson (.string r.updatedAt.text)) =
      .ok r.updatedAt :=
    Reading.stringWith_ofJson (Timestamp.ofText?_text h.updated)
  have hstring : ∀ s, Reading.string (ofJson (.string s)) = .ok s := fun _ => rfl
  rw [toJson, read_ofJson]
  · simp only [fields, build_seq, build_map]
    rw [build_field (d := ofJson (.string r.id.text)) rfl, hid,
      build_field (d := ofJson (.integer r.details.userBalanceId)) rfl, hbalance,
      build_field (d := ofJson (.string r.details.family.name)) rfl, hfamily,
      build_field (d := ofJson (.string r.details.instrumentId)) rfl, hstring,
      build_field (d := ofJson (.string r.details.side.name)) rfl, hside,
      build_field (d := ofJson (amountJson r.details.amount)) rfl, amountReading_ofJson,
      build_field (d := ofJson (.integer r.details.leverage)) rfl, hleverage,
      build_field (d := ofJson (amountJson r.details.limitPrice)) rfl, amountReading_ofJson,
      build_field (d := ofJson (amountJson r.details.stopPrice)) rfl, amountReading_ofJson,
      build_field (d := ofJson (amountJson r.details.stopLoseValue)) rfl, amountReading_ofJson,
      build_field (d := ofJson (.string r.details.stopLoseKind)) rfl, hstring,
      build_field (d := ofJson (amountJson r.details.takeProfitValue)) rfl,
      amountReading_ofJson, build_field (d := ofJson (.string r.details.takeProfitKind)) rfl,
      hstring, build_field (d := ofJson (.integer r.details.brokerOrderId)) rfl, horder,
      build_field (d := ofJson (.string r.details.status)) rfl, hstring,
      build_field (d := ofJson r.details.rawPlaceResponse) rfl, hraw,
      build_field (d := ofJson (.string r.createdAt.text)) rfl, hcreated,
      build_field (d := ofJson (.string r.updatedAt.text)) rfl, hupdated]
    rfl
  · have hamount := amountReading_ofJson
    simp only [List.forall_mem_cons, List.not_mem_nil, false_implies, implies_true, and_true]
    exact ⟨accepts_of_ok (hamount _) rfl, accepts_of_ok horder rfl, accepts_of_ok hcreated rfl,
      accepts_of_ok hid rfl, accepts_of_ok (hstring _) rfl, accepts_of_ok hfamily rfl,
      accepts_of_ok hleverage rfl, accepts_of_ok (hamount _) rfl, accepts_of_ok hraw rfl,
      accepts_of_ok hside rfl, accepts_of_ok (hstring _) rfl, accepts_of_ok (hstring _) rfl,
      accepts_of_ok (hamount _) rfl, accepts_of_ok (hamount _) rfl,
      accepts_of_ok (hstring _) rfl, accepts_of_ok (hamount _) rfl, accepts_of_ok hupdated rfl,
      accepts_of_ok hbalance rfl⟩
  · simp

end Record

end Order

namespace DailyResult

/-- The counts of the result have 32 bits. -/
structure Fits (r : DailyResult) : Prop where
  win : r.tally.win < 4294967296
  loss : r.tally.loss < 4294967296
  tie : r.tally.tie < 4294967296
  maxConsecutiveWin : r.tally.maxConsecutiveWin < 4294967296
  maxConsecutiveLoss : r.tally.maxConsecutiveLoss < 4294967296
  consecutiveWin : r.tally.consecutiveWin < 4294967296
  consecutiveLoss : r.tally.consecutiveLoss < 4294967296

/-- A count has been read, or is zero. -/
theorem lt_of_build_count {values : String → Option Document} {key : String} {n : Nat}
    (h : (fieldOr key Reading.nat32 0).build values = .ok n) : n < 4294967296 := by
  rcases of_build_fieldOr h with rfl | ⟨d, hd⟩
  · decide
  · exact Reading.lt_of_natBelow hd

/-- A result that is read fits. -/
theorem fits_of_build {values : String → Option Document} {r : DailyResult}
    (h : fields.build values = .ok r) : r.Fits := by
  obtain ⟨_, consecutiveLoss, h₁, hconsecutiveLoss, rfl⟩ := exists_of_build_seq h
  obtain ⟨_, consecutiveWin, h₂, hconsecutiveWin, rfl⟩ := exists_of_build_seq h₁
  obtain ⟨_, maxConsecutiveLoss, h₃, hmaxLoss, rfl⟩ := exists_of_build_seq h₂
  obtain ⟨_, maxConsecutiveWin, h₄, hmaxWin, rfl⟩ := exists_of_build_seq h₃
  obtain ⟨_, tie, h₅, htie, rfl⟩ := exists_of_build_seq h₄
  obtain ⟨_, loss, h₆, hloss, rfl⟩ := exists_of_build_seq h₅
  obtain ⟨_, win, h₇, hwin, rfl⟩ := exists_of_build_seq h₆
  obtain ⟨_, account, h₈, -, rfl⟩ := exists_of_build_seq h₇
  obtain ⟨date, -, rfl⟩ := exists_of_build_map h₈
  exact ⟨lt_of_build_count hwin, lt_of_build_count hloss, lt_of_build_count htie,
    lt_of_build_count hmaxWin, lt_of_build_count hmaxLoss, lt_of_build_count hconsecutiveWin,
    lt_of_build_count hconsecutiveLoss⟩

/-- A daily result is read back. -/
theorem read_toJson {r : DailyResult} (h : r.Fits) : fields.read (ofJson r.toJson) = .ok r := by
  have hdate : Reading.stringWith Date.ofText? (ofJson (.string r.date.text)) = .ok r.date :=
    Reading.stringWith_ofJson (Date.ofText?_text _)
  have hstring : ∀ s, Reading.string (ofJson (.string s)) = .ok s := fun _ => rfl
  have hwin := Reading.natBelow_ofJson h.win
  have hloss := Reading.natBelow_ofJson h.loss
  have htie := Reading.natBelow_ofJson h.tie
  have hmaxWin := Reading.natBelow_ofJson h.maxConsecutiveWin
  have hmaxLoss := Reading.natBelow_ofJson h.maxConsecutiveLoss
  have hconsecutiveWin := Reading.natBelow_ofJson h.consecutiveWin
  have hconsecutiveLoss := Reading.natBelow_ofJson h.consecutiveLoss
  rw [toJson, read_ofJson]
  · simp only [fields, build_seq, build_map, Reading.nat32]
    rw [build_field (d := ofJson (.string r.date.text)) rfl, hdate,
      build_field (d := ofJson (.string r.account)) rfl, hstring,
      build_fieldOr (d := ofJson (.integer r.tally.win)) rfl, hwin,
      build_fieldOr (d := ofJson (.integer r.tally.loss)) rfl, hloss,
      build_fieldOr (d := ofJson (.integer r.tally.tie)) rfl, htie,
      build_fieldOr (d := ofJson (.integer r.tally.maxConsecutiveWin)) rfl, hmaxWin,
      build_fieldOr (d := ofJson (.integer r.tally.maxConsecutiveLoss)) rfl, hmaxLoss,
      build_fieldOr (d := ofJson (.integer r.tally.consecutiveWin)) rfl, hconsecutiveWin,
      build_fieldOr (d := ofJson (.integer r.tally.consecutiveLoss)) rfl, hconsecutiveLoss]
    rfl
  · simp only [List.forall_mem_cons, List.not_mem_nil, false_implies, implies_true, and_true]
    exact ⟨accepts_of_ok (hstring _) rfl, accepts_of_ok hconsecutiveLoss rfl,
      accepts_of_ok hconsecutiveWin rfl, accepts_of_ok hdate rfl, accepts_of_ok hloss rfl,
      accepts_of_ok hmaxLoss rfl, accepts_of_ok hmaxWin rfl, accepts_of_ok htie rfl,
      accepts_of_ok hwin rfl⟩
  · simp

end DailyResult

/-- **Records.** Every order request, every record of an order and every daily result that can
be read, from a text or from a JSON value, is read back from its JSON with all its parts: its
amounts with their places, its dates whatever their years, its times to the nanosecond, and the
whole response of the venue. So the request that is read back has the side and the ticker to
look up that it had. -/
theorem records_are_read_back :
    (∀ r, Reading.Reads Order.Request.fields.read r →
      readJson Order.Request.fields.read r.toJson = .ok r ∧
        ∀ r', readJson Order.Request.fields.read r.toJson = .ok r' →
          r'.resolvedSide = r.resolvedSide ∧ r'.tickerToResolve = r.tickerToResolve) ∧
    (∀ r, Reading.Reads Order.Record.fields.read r →
      readJson Order.Record.fields.read r.toJson = .ok r) ∧
    ∀ r, Reading.Reads DailyResult.fields.read r →
      readJson DailyResult.fields.read r.toJson = .ok r := by
  refine ⟨fun r hr => ?_, fun r hr => ?_, fun r hr => ?_⟩
  · obtain ⟨d, hd⟩ := hr.exists_document
    obtain ⟨values, hbuild⟩ := exists_of_read hd
    have hread :=
      Reading.readJson_of_ofJson
        (Order.Request.read_toJson (Order.Request.fits_of_build hbuild))
    refine ⟨hread, fun r' hr' => ?_⟩
    obtain rfl := Except.ok.inj (hread.symm.trans hr')
    exact ⟨rfl, rfl⟩
  · obtain ⟨d, hd⟩ := hr.exists_document
    obtain ⟨values, hbuild⟩ := exists_of_read hd
    exact Reading.readJson_of_ofJson
      (Order.Record.read_toJson (Order.Record.fits_of_build hbuild))
  · obtain ⟨d, hd⟩ := hr.exists_document
    obtain ⟨values, hbuild⟩ := exists_of_read hd
    exact Reading.readJson_of_ofJson
      (DailyResult.read_toJson (DailyResult.fits_of_build hbuild))

/-- The record of an order that was placed in the last leap second of all and changed in the
first one of all instants, with a response of any form. -/
def extremeRecord : Json :=
  object [("amount", string "10.50"), ("brokerOrderId", integer 9223372036854775807),
    ("createdAt", string "+262142-12-31T23:59:60.120456789Z"),
    ("id", string "urn:uuid:00112233-4455-6677-8899-aabbccddeeff"),
    ("instrumentId", string "do1861"), ("instrumentType", string "fx-option"),
    ("leverage", integer (-2147483648)), ("limitPrice", integer 0),
    ("rawPlaceResponse", object [("id", integer 7), ("msg", array [null, bool true])]),
    ("side", string "sell"), ("status", string "open"), ("stopLoseKind", string ""),
    ("stopLoseValue", integer 0), ("stopPrice", string "-0.001"),
    ("takeProfitKind", string "percent"), ("takeProfitValue", integer 0),
    ("updatedAt", string "-262143-01-01t05:30:00.1+05:30"),
    ("userBalanceId", integer (-9223372036854775808))]

/-- The record is read, and its times are written in another form; a request and a result that
leave out what may be left out are read too. -/
theorem extremeRecord_is_read_back :
    (∃ r : Order.Record, readJson Order.Record.fields.read extremeRecord = .ok r ∧
      r.createdAt.nanos = 1120456789 ∧ r.updatedAt.text = "-262143-01-01T00:00:00.100Z" ∧
      readJson Order.Record.fields.read r.toJson = .ok r) ∧
    (∃ r : Order.Request, readText Order.Request.fields.read
      "\x7b\"amount\":1.50,\"side\":null\x7d" = .ok r ∧
      readJson Order.Request.fields.read r.toJson = .ok r) ∧
    ∃ r : DailyResult,
      readJson DailyResult.fields.read (array [string "-262143-01-01", string "a", integer 3]) =
        .ok r ∧
      readJson DailyResult.fields.read r.toJson = .ok r := by
  have hrecord : (readJson Order.Record.fields.read extremeRecord).toOption.map
      (fun r => (r.createdAt.nanos, r.updatedAt.text)) =
        some (1120456789, "-262143-01-01T00:00:00.100Z") := by
    decide +kernel
  have hrequest :
      (readText Order.Request.fields.read "\x7b\"amount\":1.50,\"side\":null\x7d").toOption.map
      (fun r => r.amount.text) = some "1.5" := by
    decide +kernel
  have hresult : (readJson DailyResult.fields.read
      (array [string "-262143-01-01", string "a", integer 3])).toOption.map
        (fun r => r.tally.win) = some 3 := by
    decide +kernel
  obtain ⟨record, hrecord, htimes⟩ := Option.map_eq_some_iff.mp hrecord
  obtain ⟨request, hrequest, -⟩ := Option.map_eq_some_iff.mp hrequest
  obtain ⟨result, hresult, -⟩ := Option.map_eq_some_iff.mp hresult
  rw [toOption_eq_some_iff] at hrecord hrequest hresult
  obtain ⟨hnanos, htext⟩ := Prod.mk.inj htimes
  obtain ⟨hrequests, hrecords, hresults⟩ := records_are_read_back
  exact ⟨⟨record, hrecord, hnanos, htext, hrecords record (.inr ⟨_, hrecord⟩)⟩,
    ⟨request, hrequest, (hrequests request (.inl ⟨_, hrequest⟩)).1⟩,
    ⟨result, hresult, hresults result (.inr ⟨_, hresult⟩)⟩⟩

end VenueLink
