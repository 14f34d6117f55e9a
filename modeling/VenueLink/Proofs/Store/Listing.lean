import Mathlib.Data.List.Induction
import Mathlib.Data.String.Basic
import VenueLink.Store.Results

/-!
# Listings of daily results

A table of daily results keeps the last result that was written for each account and day, and no
other (`mem_ofWrites_iff`). A listing has those of them that are wanted, in an order in which no
two results of one account and day could both stand (`Above`), so that it has each of them once.

## Main results

* `mem_ofWrites_iff`: what a table has after some writes.
* `pairwise_list`, `filter_list`: the order of a listing, and what it has for each account and
  day.
-/

namespace VenueLink

namespace Date

/-- Dates are compared by year, then month, then day. -/
theorem before_iff {a b : Date} : a.before b = true ↔
    a.year < b.year ∨ a.year = b.year ∧
      (a.month < b.month ∨ a.month = b.month ∧ a.day < b.day) := by
  simp only [before, order, beq_iff_eq, Ordering.then_eq_lt, compare_lt_iff_lt,
    compare_eq_iff_eq]

/-- No date comes before itself. -/
theorem before_irrefl (a : Date) : a.before a = false := by
  simp [Bool.eq_false_iff, before_iff]

/-- What comes before an earlier date comes before a later one. -/
theorem before_trans {a b c : Date} (hab : a.before b = true) (hbc : b.before c = true) :
    a.before c = true := by
  rw [before_iff] at *
  omega

/-- Of two different days one is before the other. -/
theorem eq_of_not_before {a b : Date} (hab : a.before b = false) (hba : b.before a = false) :
    a = b := by
  rw [Bool.eq_false_iff, Ne, before_iff] at hab hba
  have hyear : a.year = b.year := by omega
  have hmonth : a.month = b.month := by omega
  have hday : a.day = b.day := by omega
  cases a
  cases b
  simp_all

/-- Not coming before is transitive too. -/
theorem not_before_trans {a b c : Date} (hab : a.before b = false) (hbc : b.before c = false) :
    a.before c = false := by
  rw [Bool.eq_false_iff, Ne, before_iff] at *
  omega

/-- One of two dates does not come before the other. -/
theorem not_before_total (a b : Date) : a.before b = false ∨ b.before a = false := by
  rw [Bool.eq_false_iff, Bool.eq_false_iff, Ne, Ne, before_iff, before_iff]
  omega

end Date

namespace ResultTable

/-! ### What a table has -/

/-- The key of a result is its date and its account. -/
theorem sameKey_iff {a b : DailyResult} :
    sameKey a b = true ↔ a.date = b.date ∧ a.account = b.account := by
  simp [sameKey]

/-- Two results have different keys when their dates or their accounts differ. -/
theorem sameKey_eq_false_iff {a b : DailyResult} :
    sameKey a b = false ↔ (a.date = b.date → a.account ≠ b.account) := by
  rw [Bool.eq_false_iff, Ne, sameKey_iff, not_and]

/-- A result has its own key. -/
theorem sameKey_refl (a : DailyResult) : sameKey a a = true :=
  sameKey_iff.mpr ⟨rfl, rfl⟩

/-- Having the same key is symmetric. -/
theorem sameKey_comm (a b : DailyResult) : sameKey a b = sameKey b a := by
  rw [Bool.eq_iff_iff, sameKey_iff, sameKey_iff]
  exact and_congr eq_comm eq_comm

/-- It is transitive. -/
theorem sameKey_trans {a b c : DailyResult} (hab : sameKey a b = true)
    (hbc : sameKey b c = true) : sameKey a c = true := by
  rw [sameKey_iff] at *
  exact ⟨hab.1.trans hbc.1, hab.2.trans hbc.2⟩

/-- No two rows are of one account and day. -/
def Keyed (rows : List DailyResult) : Prop :=
  rows.Pairwise fun a b => sameKey a b = false

/-- One row for each key does not depend on the order of the rows. -/
theorem Keyed.perm {rows rows' : List DailyResult} (h : Keyed rows) (hp : rows.Perm rows') :
    Keyed rows' :=
  (hp.pairwise_iff fun {a b} hab => (sameKey_comm b a).trans hab).mp h

/-- A result takes the place of the one of its account and day, and leaves all others. -/
theorem mem_put_iff {rows : List DailyResult} (h : Keyed rows) {w r : DailyResult} :
    r ∈ put w rows ↔ r = w ∨ r ∈ rows ∧ sameKey r w = false := by
  induction rows with
  | nil => simp [put]
  | cons x rest ih =>
    obtain ⟨hx, hrest⟩ := List.pairwise_cons.mp h
    rw [put]
    split
    next hsame =>
      -- nothing behind `x` is of its account and day
      have hothers : ∀ y ∈ rest, sameKey y w = false := fun y hy => by
        rw [Bool.eq_false_iff]
        intro hyw
        rw [sameKey_comm] at hyw
        exact absurd (hx y hy) (by rw [sameKey_trans hsame hyw]; decide)
      rw [List.mem_cons, List.mem_cons]
      constructor
      · rintro (rfl | hr)
        · exact .inl rfl
        · exact .inr ⟨.inr hr, hothers r hr⟩
      · rintro (rfl | ⟨rfl | hr, hne⟩)
        · exact .inl rfl
        · rw [hsame] at hne
          cases hne
        · exact .inr hr
    next hne =>
      have hxw : sameKey x w = false := by simpa using hne
      rw [List.mem_cons, ih hrest, List.mem_cons]
      constructor
      · rintro (rfl | rfl | ⟨hr, hrw⟩)
        · exact .inr ⟨.inl rfl, hxw⟩
        · exact .inl rfl
        · exact .inr ⟨.inr hr, hrw⟩
      · rintro (rfl | ⟨rfl | hr, hrw⟩)
        · exact .inr (.inl rfl)
        · exact .inl rfl
        · exact .inr (.inr ⟨hr, hrw⟩)

/-- Writing keeps one row for each key. -/
theorem keyed_put {rows : List DailyResult} (h : Keyed rows) (w : DailyResult) :
    Keyed (put w rows) := by
  induction rows with
  | nil => exact List.pairwise_singleton _ _
  | cons x rest ih =>
    obtain ⟨hx, hrest⟩ := List.pairwise_cons.mp h
    rw [put]
    split
    next hsame =>
      refine List.pairwise_cons.mpr ⟨fun y hy => ?_, hrest⟩
      rw [Bool.eq_false_iff]
      intro hwy
      exact absurd (hx y hy) (by rw [sameKey_trans hsame hwy]; decide)
    next hne =>
      have hxw : sameKey x w = false := by simpa using hne
      refine List.pairwise_cons.mpr ⟨fun y hy => ?_, ih hrest⟩
      rcases (mem_put_iff hrest).mp hy with rfl | ⟨hy, -⟩
      · exact hxw
      · exact hx y hy

/-- The table after some results have been written. -/
def ofWrites (writes : List DailyResult) : ResultTable :=
  writes.foldl upsert {}

/-- The last write comes to the table that the others have left. -/
theorem ofWrites_concat (writes : List DailyResult) (w : DailyResult) :
    ofWrites (writes ++ [w]) = (ofWrites writes).upsert w := by
  simp [ofWrites]

/-- A table has one row for each key. -/
theorem keyed_ofWrites (writes : List DailyResult) : Keyed (ofWrites writes).rows := by
  induction writes using List.reverseRecOn with
  | nil => exact List.Pairwise.nil
  | append_singleton writes w ih =>
    rw [ofWrites_concat]
    exact keyed_put ih w

/-- `r` is the last of the results written for its account and day. -/
def IsLatest (writes : List DailyResult) (r : DailyResult) : Prop :=
  ∃ earlier later, writes = earlier ++ r :: later ∧ ∀ w ∈ later, sameKey w r = false

/-- The last write is the latest of its key, and leaves other keys alone. -/
theorem isLatest_concat_iff {writes : List DailyResult} {w r : DailyResult} :
    IsLatest (writes ++ [w]) r ↔ r = w ∨ IsLatest writes r ∧ sameKey r w = false := by
  constructor
  · rintro ⟨earlier, later, heq, hlater⟩
    rcases List.eq_nil_or_concat later with rfl | ⟨later, last, rfl⟩
    · obtain ⟨-, h⟩ := List.append_inj' heq rfl
      exact .inl (List.cons.inj h).1.symm
    · rw [List.concat_eq_append] at heq hlater
      rw [← List.cons_append, ← List.append_assoc] at heq
      obtain ⟨rfl, h⟩ := List.append_inj' heq rfl
      obtain rfl := (List.cons.inj h).1
      refine .inr ⟨⟨earlier, later, rfl, fun v hv => hlater v (List.mem_append_left _ hv)⟩, ?_⟩
      rw [sameKey_comm]
      exact hlater w (by simp)
  · rintro (rfl | ⟨⟨earlier, later, rfl, hlater⟩, hne⟩)
    · exact ⟨writes, [], rfl, by simp⟩
    · refine ⟨earlier, later ++ [w], by simp, fun v hv => ?_⟩
      rcases List.mem_append.mp hv with hv | hv
      · exact hlater v hv
      · obtain rfl := List.mem_singleton.mp hv
        rwa [sameKey_comm]

/-- A table has the last result written for each account and day, and no other. -/
theorem mem_ofWrites_iff {writes : List DailyResult} {r : DailyResult} :
    r ∈ (ofWrites writes).rows ↔ IsLatest writes r := by
  induction writes using List.reverseRecOn with
  | nil => simp [ofWrites, IsLatest]
  | append_singleton writes w ih =>
    rw [ofWrites_concat, upsert, mem_put_iff (keyed_ofWrites writes), isLatest_concat_iff, ih]

/-- For every account and day ever written there is a last result. -/
theorem exists_isLatest {writes : List DailyResult} {w : DailyResult} (hw : w ∈ writes) :
    ∃ r, IsLatest writes r ∧ sameKey r w = true := by
  induction writes using List.reverseRecOn with
  | nil => cases hw
  | append_singleton writes v ih =>
    by_cases hvw : sameKey v w = true
    · exact ⟨v, isLatest_concat_iff.mpr (.inl rfl), hvw⟩
    · have hmem : w ∈ writes := by
        rcases List.mem_append.mp hw with h | h
        · exact h
        · obtain rfl := List.mem_singleton.mp h
          exact absurd (sameKey_refl _) hvw
      obtain ⟨r, hr, hrw⟩ := ih hmem
      refine ⟨r, isLatest_concat_iff.mpr (.inr ⟨hr, ?_⟩), hrw⟩
      rw [Bool.eq_false_iff]
      intro hrv
      rw [sameKey_comm] at hrv
      exact hvw (sameKey_trans hrv hrw)

/-! ### The order of a listing -/

/-- `a` stands above `b` in a listing: its account comes first, or it is a later day of the same
one. -/
def Above (a b : DailyResult) : Prop :=
  a.account < b.account ∨ a.account = b.account ∧ b.date.before a.date = true

instance : Std.Irrefl Above where
  irrefl a := by
    rintro (h | ⟨-, h⟩)
    · exact lt_irrefl _ h
    · rw [Date.before_irrefl] at h
      cases h

/-- Of two results only one is above the other. -/
theorem Above.asymm {a b : DailyResult} (hab : Above a b) (hba : Above b a) : False := by
  rcases hab with hab | ⟨heq, hab⟩ <;> rcases hba with hba | ⟨heq', hba⟩
  · exact lt_asymm hab hba
  · exact hab.ne heq'.symm
  · exact hba.ne heq.symm
  · have := Date.before_trans hab hba
    rw [Date.before_irrefl] at this
    cases this

instance : Std.Antisymm Above where
  antisymm _ _ hab hba := (hab.asymm hba).elim

/-- Results are listed by account, those of one account from the latest date. -/
theorem listedBefore_iff {a b : DailyResult} : listedBefore a b = true ↔
    a.account < b.account ∨ a.account = b.account ∧ a.date.before b.date = false := by
  simp [listedBefore]

/-- The order of the listing is transitive. -/
theorem listedBefore_trans (a b c : DailyResult) (hab : listedBefore a b = true)
    (hbc : listedBefore b c = true) : listedBefore a c = true := by
  rw [listedBefore_iff] at *
  rcases hab with hab | ⟨heq, hab⟩ <;> rcases hbc with hbc | ⟨heq', hbc⟩
  · exact .inl (lt_trans hab hbc)
  · exact .inl (heq' ▸ hab)
  · exact .inl (heq ▸ hbc)
  · exact .inr ⟨heq.trans heq', Date.not_before_trans hab hbc⟩

/-- It compares any two results. -/
theorem listedBefore_total (a b : DailyResult) :
    (listedBefore a b || listedBefore b a) = true := by
  rw [Bool.or_eq_true, listedBefore_iff, listedBefore_iff]
  rcases lt_trichotomy a.account b.account with h | h | h
  · exact .inl (.inl h)
  · exact (Date.not_before_total a.date b.date).imp (fun hd => .inr ⟨h, hd⟩)
      fun hd => .inr ⟨h.symm, hd⟩
  · exact .inr (.inl h)

/-- Rows of different accounts or days that may stand in an order in a listing stand in no
other. -/
theorem above_of_listedBefore {a b : DailyResult} (h : listedBefore a b = true)
    (hne : sameKey a b = false) : Above a b := by
  rcases listedBefore_iff.mp h with h | ⟨heq, hd⟩
  · exact .inl h
  · refine .inr ⟨heq, ?_⟩
    by_contra hba
    exact sameKey_eq_false_iff.mp hne (Date.eq_of_not_before hd (by simpa using hba)) heq

/-- A listing has the rows that are asked for. -/
theorem mem_list_iff {table : ResultTable} {account : Option String} {date : Option Date}
    {r : DailyResult} :
    r ∈ table.list account date ↔ r ∈ table.rows ∧ isWanted account date r = true := by
  rw [list, List.mem_mergeSort, List.mem_filter]

/-- A listing has one row for each key. -/
theorem keyed_list {table : ResultTable} (h : Keyed table.rows) (account : Option String)
    (date : Option Date) : Keyed (table.list account date) :=
  Keyed.perm (List.Pairwise.filter _ h) (List.mergeSort_perm _ _).symm

/-- A listing goes by account, and from the newest day of an account to its oldest. -/
theorem pairwise_list {table : ResultTable} (h : Keyed table.rows) (account : Option String)
    (date : Option Date) : (table.list account date).Pairwise Above :=
  (List.pairwise_mergeSort listedBefore_trans listedBefore_total _).imp₂
    (fun _ _ hle hne => above_of_listedBefore hle hne) (keyed_list h account date)

/-- Which results are asked for depends on their keys only. -/
theorem isWanted_of_sameKey {account : Option String} {date : Option Date} {a b : DailyResult}
    (h : sameKey a b = true) : isWanted account date a = isWanted account date b := by
  obtain ⟨hd, ha⟩ := sameKey_iff.mp h
  rw [isWanted, isWanted, hd, ha]

/-- Of a keyed list, the rows of one account and day are the one that is there. -/
theorem Keyed.filter_eq {rows : List DailyResult} (h : Keyed rows) {r w : DailyResult}
    (hr : r ∈ rows) (hrw : sameKey r w = true) : rows.filter (sameKey w) = [r] := by
  have hkeyed : Keyed (rows.filter (sameKey w)) := List.Pairwise.filter _ h
  have hmem : r ∈ rows.filter (sameKey w) :=
    List.mem_filter.mpr ⟨hr, (sameKey_comm w r).trans hrw⟩
  have hall : ∀ a ∈ rows.filter (sameKey w),
      ∀ b ∈ rows.filter (sameKey w), sameKey a b = true :=
    fun a ha b hb => sameKey_trans ((sameKey_comm a w).trans (List.mem_filter.mp ha).2)
      (List.mem_filter.mp hb).2
  match hrows : rows.filter (sameKey w) with
  | [] => rw [hrows] at hmem; cases hmem
  | [a] => rw [hrows] at hmem; rw [List.mem_singleton.mp hmem]
  | a :: b :: rest =>
    rw [hrows] at hkeyed hall
    have hne := (List.pairwise_cons.mp hkeyed).1 b List.mem_cons_self
    rw [hall a List.mem_cons_self b (by simp)] at hne
    cases hne

/-- For every account and day that was ever written and is wanted, a listing has one row, the
last one written. -/
theorem filter_list {writes : List DailyResult} {w : DailyResult} (hw : w ∈ writes)
    {account : Option String} {date : Option Date} (hwanted : isWanted account date w = true) :
    ∃ r, ((ofWrites writes).list account date).filter (sameKey w) = [r] ∧
      IsLatest writes r := by
  obtain ⟨r, hr, hrw⟩ := exists_isLatest hw
  refine ⟨r, Keyed.filter_eq (keyed_list (keyed_ofWrites writes) account date) ?_ hrw, hr⟩
  exact mem_list_iff.mpr ⟨mem_ofWrites_iff.mpr hr, (isWanted_of_sameKey hrw).trans hwanted⟩

end ResultTable

end VenueLink
