import VenueLink.Config.Text
import VenueLink.Proofs.Document.Compact
import VenueLink.Proofs.Document.Restored
import VenueLink.Proofs.Toml.Passable

/-!
# Settings over defaults

A configuration gives some of the settings at each of its levels, and says nothing about the
others. What it gives is an overlay, which has a place for each setting that may be filled or
not; laid over the defaults, it changes the settings that it has and no others, however deep
they lie. A configuration is read as its overlay laid over the defaults, whatever else stands in
it.

Settings that are written give each setting, so they are read back.

## Main results

* `Limits.Overlay.GivenBy.builds`, `VenueConfig.Overlay.GivenBy.builds`,
  `ServiceConfig.Overlay.GivenBy.builds`: the settings of one level.
* `VenueConfig.read_of_givenBy`, `ServiceConfig.read_of_givenBy`: settings are read as an
  overlay over the defaults.
* `VenueConfig.givenBy_toJson`: written settings give each setting.
* `settings_are_overlaid`: the above for configuration files and for JSON.
-/

namespace VenueLink

open Document Fields

/-! ### Forms of settings -/

namespace Document

/-- The document is the string. -/
def IsString (s : String) (d : Document) : Prop :=
  d = .string s

/-- The document is the number, and the number has 64 bits. -/
def IsNat64 (n : Nat) (d : Document) : Prop :=
  d = .integer n ∧ n < 18446744073709551616

/-- The document is the string, or `null` in place of one. -/
def IsNullable : Option String → Document → Prop
  | none, d => d = .null
  | some s, d => d = .string s

end Document

section Builds

variable {d : Document} {key : String}

/-- A text is the given one, or the default. -/
theorem builds_string {s : Option String} (h : d.Gives key IsString s) (default : String) :
    (fieldOr key Reading.string default).Builds d (s.getD default) := by
  refine builds_fieldOr (fun s v hv => ?_) h default
  rw [hv, Reading.string]

/-- So is a number. -/
theorem builds_nat64 {n : Option Nat} (h : d.Gives key IsNat64 n) (default : Nat) :
    (fieldOr key Reading.nat64 default).Builds d (n.getD default) := by
  refine builds_fieldOr (fun n v hv => ?_) h default
  obtain ⟨rfl, hn⟩ := hv
  exact Reading.natBelow_ofJson hn

/-- So is a text that may be null. -/
theorem builds_nullable {s : Option (Option String)} (h : d.Gives key IsNullable s)
    (default : Option String) :
    (fieldOr key (Reading.optional Reading.string) default).Builds d (s.getD default) := by
  refine builds_fieldOr (fun s v hv => ?_) h default
  cases s <;> obtain rfl : v = _ := hv <;> rfl

end Builds

/-! ### Limits -/

namespace Limits

/-- The limits that a configuration gives. -/
structure Overlay where
  balances : Option Nat := none
  balancesSettle : Option Nat := none
  instruments : Option Nat := none
  instrumentsSettle : Option Nat := none
  placeOrder : Option Nat := none
  placeOrderSettle : Option Nat := none
  orderStatus : Option Nat := none
  orderStatusSettle : Option Nat := none

namespace Overlay

/-- The limits that are given, and those of `base` where none is given. -/
def laidOver (o : Overlay) (base : Limits) : Limits where
  balances :=
    ⟨o.balances.getD base.balances.deadline, o.balancesSettle.getD base.balances.settle⟩
  instruments :=
    ⟨o.instruments.getD base.instruments.deadline,
      o.instrumentsSettle.getD base.instruments.settle⟩
  placeOrder :=
    ⟨o.placeOrder.getD base.placeOrder.deadline, o.placeOrderSettle.getD base.placeOrder.settle⟩
  orderStatus :=
    ⟨o.orderStatus.getD base.orderStatus.deadline,
      o.orderStatusSettle.getD base.orderStatus.settle⟩

/-- The document is a table that gives these limits and no others. -/
structure GivenBy (o : Overlay) (d : Document) : Prop where
  table : d.IsTable
  balances : d.Gives "balances_ms" IsNat64 o.balances
  balancesSettle : d.Gives "balances_settle_ms" IsNat64 o.balancesSettle
  instruments : d.Gives "instruments_ms" IsNat64 o.instruments
  instrumentsSettle : d.Gives "instruments_settle_ms" IsNat64 o.instrumentsSettle
  placeOrder : d.Gives "place_order_ms" IsNat64 o.placeOrder
  placeOrderSettle : d.Gives "place_order_settle_ms" IsNat64 o.placeOrderSettle
  orderStatus : d.Gives "order_status_ms" IsNat64 o.orderStatus
  orderStatusSettle : d.Gives "order_status_settle_ms" IsNat64 o.orderStatusSettle

/-- The limits are built of what is given, laid over the base. -/
theorem GivenBy.builds {o : Overlay} {d : Document} (h : o.GivenBy d) (base : Limits) :
    (fields base).Builds d (o.laidOver base) := by
  have hbuilds := (builds_nat64 h.balances base.balances.deadline).map ofFields
    |>.seq (builds_nat64 h.balancesSettle base.balances.settle)
    |>.seq (builds_nat64 h.instruments base.instruments.deadline)
    |>.seq (builds_nat64 h.instrumentsSettle base.instruments.settle)
    |>.seq (builds_nat64 h.placeOrder base.placeOrder.deadline)
    |>.seq (builds_nat64 h.placeOrderSettle base.placeOrder.settle)
    |>.seq (builds_nat64 h.orderStatus base.orderStatus.deadline)
    |>.seq (builds_nat64 h.orderStatusSettle base.orderStatus.settle)
  rw [fields]
  exact hbuilds

end Overlay

/-- The limits are read as an overlay over the defaults. -/
theorem read_of_givenBy {o : Overlay} {d : Document} (h : o.GivenBy d) (hd : d.Passable) :
    (fields {}).read d = .ok (o.laidOver {}) :=
  (h.builds {}).read h.table hd

end Limits

/-! ### Settings for a venue -/

namespace VenueConfig

/-- The settings for a venue that a configuration gives. -/
structure Overlay where
  streamUrl : Option String := none
  loginUrl : Option String := none
  sessionUrl : Option String := none
  profileUrl : Option String := none
  httpTimeout : Option Nat := none
  transcriptCap : Option Nat := none
  limits : Option Limits.Overlay := none

namespace Overlay

/-- The settings that are given, and those of `base` where none is given. -/
def laidOver (o : Overlay) (base : VenueConfig) : VenueConfig where
  streamUrl := o.streamUrl.getD base.streamUrl
  loginUrl := o.loginUrl.getD base.loginUrl
  sessionUrl := o.sessionUrl.getD base.sessionUrl
  profileUrl := o.profileUrl.getD base.profileUrl
  httpTimeout := o.httpTimeout.getD base.httpTimeout
  transcriptCap := o.transcriptCap.getD base.transcriptCap
  limits := (o.limits.getD {}).laidOver base.limits

/-- The document is a table that gives these settings and no others. -/
structure GivenBy (o : Overlay) (d : Document) : Prop where
  table : d.IsTable
  streamUrl : d.Gives "ws_url" IsString o.streamUrl
  loginUrl : d.Gives "login_url" IsString o.loginUrl
  sessionUrl : d.Gives "session_url" IsString o.sessionUrl
  profileUrl : d.Gives "profile_url" IsString o.profileUrl
  httpTimeout : d.Gives "http_timeout_secs" IsNat64 o.httpTimeout
  transcriptCap : d.Gives "transcript_cap" IsNat64 o.transcriptCap
  limits : d.Gives "timeouts" Limits.Overlay.GivenBy o.limits

/-- The settings of the venue are built of what is given, laid over the base. -/
theorem GivenBy.builds {o : Overlay} {d : Document} (h : o.GivenBy d) (hd : d.Passable)
    {base : VenueConfig} (hbase : base.limits = {}) :
    (fields base).Builds d (o.laidOver base) := by
  have hlimits : d.Gives "timeouts" (fun l v => (Limits.fields {}).read v = .ok l)
      (o.limits.map fun l => l.laidOver {}) :=
        h.limits.map hd fun _ _ hv hl => Limits.read_of_givenBy hl hv
  have hover : (o.limits.map fun l => l.laidOver {}).getD base.limits =
      (o.limits.getD {}).laidOver base.limits := by
    rw [hbase]
    cases o.limits <;> rfl
  have hbuilds := (builds_string h.streamUrl base.streamUrl).map VenueConfig.mk
    |>.seq (builds_string h.loginUrl base.loginUrl)
    |>.seq (builds_string h.sessionUrl base.sessionUrl)
    |>.seq (builds_string h.profileUrl base.profileUrl)
    |>.seq (builds_nat64 h.httpTimeout base.httpTimeout)
    |>.seq (builds_nat64 h.transcriptCap base.transcriptCap)
    |>.seq (builds_fieldOr (fun _ _ => id) hlimits base.limits)
  rw [laidOver, ← hover, fields]
  exact hbuilds

end Overlay

/-- The settings for a venue are read as an overlay over the defaults. -/
theorem read_of_givenBy {o : Overlay} {d : Document} (h : o.GivenBy d) (hd : d.Passable) :
    reading d = .ok (o.laidOver {}) :=
  (h.builds hd rfl).read h.table hd

end VenueConfig

/-! ### Settings of the service -/

namespace ServiceConfig

/-- The settings of the service that a configuration gives. -/
structure Overlay where
  bind : Option String := none
  databaseUrl : Option (Option String) := none
  venue : Option VenueConfig.Overlay := none

namespace Overlay

/-- The settings that are given, and those of `base` where none is given. -/
def laidOver (o : Overlay) (base : ServiceConfig) : ServiceConfig where
  bind := o.bind.getD base.bind
  databaseUrl := o.databaseUrl.getD base.databaseUrl
  venue := (o.venue.getD {}).laidOver base.venue

/-- The document is a table that gives these settings and no others. -/
structure GivenBy (o : Overlay) (d : Document) : Prop where
  table : d.IsTable
  bind : d.Gives "bind" IsString o.bind
  databaseUrl : d.Gives "database_url" IsNullable o.databaseUrl
  venue : d.Gives "iqoption" VenueConfig.Overlay.GivenBy o.venue

/-- So are those of the service. -/
theorem GivenBy.builds {o : Overlay} {d : Document} (h : o.GivenBy d) (hd : d.Passable)
    {base : ServiceConfig} (hbase : base.venue = {}) :
    (fields base).Builds d (o.laidOver base) := by
  have hvenue : d.Gives "iqoption" (fun c v => VenueConfig.reading v = .ok c)
      (o.venue.map fun c => c.laidOver {}) :=
        h.venue.map hd fun _ _ hv hc => VenueConfig.read_of_givenBy hc hv
  have hover : (o.venue.map fun c => c.laidOver {}).getD base.venue =
      (o.venue.getD {}).laidOver base.venue := by
    rw [hbase]
    cases o.venue <;> rfl
  have hbuilds := (builds_string h.bind base.bind).map ServiceConfig.mk
    |>.seq (builds_nullable h.databaseUrl base.databaseUrl)
    |>.seq (builds_fieldOr (fun _ _ => id) hvenue base.venue)
  rw [laidOver, ← hover, fields]
  exact hbuilds

end Overlay

/-- The settings of the service are read as an overlay over the defaults. -/
theorem read_of_givenBy {o : Overlay} {d : Document} (h : o.GivenBy d) (hd : d.Passable) :
    reading d = .ok (o.laidOver {}) :=
  (h.builds hd rfl).read h.table hd

end ServiceConfig

/-! ### Written settings -/

/-- A number of 64 bits is an integer of JSON. -/
theorem isInteger_natCast {n : Nat} (h : n < 18446744073709551616) : IsInteger n := by
  constructor
  · rw [Text.minInt64]
    omega
  · exact Int.ofNat_lt.mpr h

namespace Limits

/-- The limits as an overlay that gives each of them. -/
def overlay (l : Limits) : Overlay where
  balances := l.balances.deadline
  balancesSettle := l.balances.settle
  instruments := l.instruments.deadline
  instrumentsSettle := l.instruments.settle
  placeOrder := l.placeOrder.deadline
  placeOrderSettle := l.placeOrder.settle
  orderStatus := l.orderStatus.deadline
  orderStatusSettle := l.orderStatus.settle

/-- The limits have 64 bits. -/
def Fits (l : Limits) : Prop :=
  ∀ limit ∈ [l.balances, l.instruments, l.placeOrder, l.orderStatus],
    limit.deadline < 18446744073709551616 ∧ limit.settle < 18446744073709551616

/-- Limits that are written give themselves. -/
theorem givenBy_toJson {l : Limits} (h : l.Fits) : l.overlay.GivenBy (ofJson l.toJson) := by
  obtain ⟨hbalances, hinstruments, hplaceOrder, horderStatus⟩ :
      (_ ∧ _) ∧ (_ ∧ _) ∧ (_ ∧ _) ∧ _ ∧ _ := by simpa [Fits] using h
  exact {
    table := ⟨_, rfl⟩
    balances := ⟨_, rfl, rfl, hbalances.1⟩
    balancesSettle := ⟨_, rfl, rfl, hbalances.2⟩
    instruments := ⟨_, rfl, rfl, hinstruments.1⟩
    instrumentsSettle := ⟨_, rfl, rfl, hinstruments.2⟩
    placeOrder := ⟨_, rfl, rfl, hplaceOrder.1⟩
    placeOrderSettle := ⟨_, rfl, rfl, hplaceOrder.2⟩
    orderStatus := ⟨_, rfl, rfl, horderStatus.1⟩
    orderStatusSettle := ⟨_, rfl, rfl, horderStatus.2⟩ }

/-- They are written in plain values. -/
theorem plain_toJson {l : Limits} (h : l.Fits) (room : Nat) : Plain (room + 1) l.toJson := by
  obtain ⟨hbalances, hinstruments, hplaceOrder, horderStatus⟩ :
      (_ ∧ _) ∧ (_ ∧ _) ∧ (_ ∧ _) ∧ _ ∧ _ := by simpa [Fits] using h
  exact ⟨isInteger_natCast hbalances.1, isInteger_natCast hbalances.2,
    isInteger_natCast hinstruments.1, isInteger_natCast hinstruments.2,
    isInteger_natCast horderStatus.1, isInteger_natCast horderStatus.2,
    isInteger_natCast hplaceOrder.1, isInteger_natCast hplaceOrder.2, trivial⟩

end Limits

namespace VenueConfig

/-- The settings as an overlay that gives each of them. -/
def overlay (c : VenueConfig) : Overlay where
  streamUrl := c.streamUrl
  loginUrl := c.loginUrl
  sessionUrl := c.sessionUrl
  profileUrl := c.profileUrl
  httpTimeout := c.httpTimeout
  transcriptCap := c.transcriptCap
  limits := c.limits.overlay

/-- A configuration laid over another one hides it. -/
theorem laidOver_overlay (c base : VenueConfig) : c.overlay.laidOver base = c := rfl

/-- Settings that are all given are read as they are. -/
theorem read_of_givenBy_overlay {c : VenueConfig} {j : Json}
    (h : c.overlay.GivenBy (ofJson j)) : reading (ofJson j) = .ok c := by
  rw [read_of_givenBy h (passable_ofJson j), laidOver_overlay]

/-- The numbers among the settings have 64 bits. -/
structure Fits (c : VenueConfig) : Prop where
  httpTimeout : c.httpTimeout < 18446744073709551616
  transcriptCap : c.transcriptCap < 18446744073709551616
  limits : c.limits.Fits

/-- Written settings give each setting. -/
theorem givenBy_toJson {c : VenueConfig} (h : c.Fits) :
    c.overlay.GivenBy (ofJson c.toJson) where
  table := ⟨_, rfl⟩
  streamUrl := ⟨_, rfl, rfl⟩
  loginUrl := ⟨_, rfl, rfl⟩
  sessionUrl := ⟨_, rfl, rfl⟩
  profileUrl := ⟨_, rfl, rfl⟩
  httpTimeout := ⟨_, rfl, rfl, h.httpTimeout⟩
  transcriptCap := ⟨_, rfl, rfl, h.transcriptCap⟩
  limits := ⟨_, rfl, Limits.givenBy_toJson h.limits⟩

/-- Written settings are a table in a table. -/
theorem plain_toJson {c : VenueConfig} (h : c.Fits) (room : Nat) : Plain (room + 2) c.toJson :=
  ⟨isInteger_natCast h.httpTimeout, trivial, trivial, trivial,
    Limits.plain_toJson h.limits room, isInteger_natCast h.transcriptCap, trivial, trivial⟩

end VenueConfig

/-- A configuration is read as what it gives laid over the defaults, and other keys make no
difference: a file as the settings of the service, a JSON value or text as settings for a venue.
Settings for a venue are read back from the JSON they are written as, and from a text of JSON
that lists them in another order. -/
theorem settings_are_overlaid :
    (∀ text d, Toml.read? text = some d → ∀ o : ServiceConfig.Overlay, o.GivenBy d →
      ServiceConfig.ofText? text = some (o.laidOver {})) ∧
    (∀ d : Document, d.Passable → ∀ o : VenueConfig.Overlay, o.GivenBy d →
      (∀ j, ofJson j = d → readJson VenueConfig.reading j = .ok (o.laidOver {})) ∧
      ∀ text rest, scan text.toList = (d, rest) → rest.all isSpace = true →
        readText VenueConfig.reading text = .ok (o.laidOver {})) ∧
    ∀ c : VenueConfig, c.Fits →
      readJson VenueConfig.reading c.toJson = .ok c ∧
      readText VenueConfig.reading c.toJson.compact = .ok c ∧
      ∀ j, Plain maxDepth j → c.overlay.GivenBy (ofJson j) →
        readText VenueConfig.reading j.compact = .ok c := by
  refine ⟨fun text d hd o ho => ?_,
    fun d hd o ho => ⟨fun j hj => ?_, fun text rest hscan hrest => ?_⟩,
      fun c hc => ⟨?_, ?_, fun j hj ho => ?_⟩⟩
  · rw [ServiceConfig.ofText?, hd]
    exact congrArg Except.toOption
      (ServiceConfig.read_of_givenBy ho (Toml.passable_of_read? hd))
  · exact Reading.readJson_of_ofJson (hj ▸ VenueConfig.read_of_givenBy ho hd)
  · rw [readText, hscan]
    dsimp only
    rw [VenueConfig.read_of_givenBy ho hd]
    exact if_pos hrest
  · exact Reading.readJson_of_ofJson
      (VenueConfig.read_of_givenBy_overlay (VenueConfig.givenBy_toJson hc))
  · rw [readText_compact _ (VenueConfig.plain_toJson hc 125)]
    exact VenueConfig.read_of_givenBy_overlay (VenueConfig.givenBy_toJson hc)
  · rw [readText_compact _ hj]
    exact VenueConfig.read_of_givenBy_overlay ho

/-- A file and a text of JSON that give one setting two levels down, beside keys that are none;
and settings with the largest number, which are read back. -/
theorem partialFile_is_overlaid :
    ServiceConfig.ofText?
      "owner = [1]\n[iqoption]\nspare = 'x'\n[iqoption.timeouts]\nbalances_ms = 2500" =
      some { venue := { limits := { balances := ⟨2500, 50⟩ } } } ∧
    readText VenueConfig.reading
      "\x7b\"spare\": \"x\", \"timeouts\": \x7b\"balances_ms\": 2500\x7d\x7d " =
      .ok { limits := { balances := ⟨2500, 50⟩ } } ∧
    readText VenueConfig.reading
      (VenueConfig.toJson { transcriptCap := 18446744073709551615 }).compact =
      .ok { transcriptCap := 18446744073709551615 } := by
  have hlimits : ({ balances := some 2500 } : Limits.Overlay).GivenBy
      (.object [(.named "balances_ms", .integer 2500)] none) :=
    ⟨⟨_, rfl⟩, ⟨_, rfl, rfl, by decide⟩, rfl, rfl, rfl, rfl, rfl, rfl, rfl⟩
  have hvenue : ({ limits := some { balances := some 2500 } } : VenueConfig.Overlay).GivenBy
      (.object [(.named "spare", .string "x"),
        (.named "timeouts", .object [(.named "balances_ms", .integer 2500)] none)] none) :=
    ⟨⟨_, rfl⟩, rfl, rfl, rfl, rfl, rfl, rfl, _, rfl, hlimits⟩
  have hpass : Passable (.object [(.named "spare", .string "x"),
      (.named "timeouts", .object [(.named "balances_ms", .integer 2500)] none)] none) :=
    ⟨rfl, rfl, ⟨rfl, rfl, trivial⟩, trivial⟩
  refine ⟨?_, ?_, ?_⟩
  · exact settings_are_overlaid.1 _
      (.object [(.named "owner", .array [.integer 1] none), (.named "iqoption", _)] none)
        (by decide +kernel)
      { venue := some _ } ⟨⟨_, rfl⟩, rfl, rfl, _, rfl, hvenue⟩
  · exact (settings_are_overlaid.2.1 _ hpass _ hvenue).2 _ [' '] (by decide +kernel) (by decide)
  · exact (settings_are_overlaid.2.2 _ ⟨by decide, by decide, by simp [Limits.Fits]⟩).2.1

end VenueLink
