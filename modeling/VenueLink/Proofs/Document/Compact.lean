import VenueLink.Document.Reading
import VenueLink.Json.Printer
import VenueLink.Proofs.Number.ReadBack

/-!
# Texts that are read back

The text of a value without blanks is scanned as that value, whatever follows it. The strings
are those of the value although some characters are written as escapes, and the integers
although their digits are counted only up to a bound; how deep the value is nested is limited by
the scan, and what is nested deeper is not read at all. Doubles are left out: their text is the
shortest one, and it is read in two roundings.

## Main results

* `scanQuoted_escaped`: a string is scanned up to its quote.
* `scanUnsigned_digits`: an integer is scanned up to the end of its digits.
* `scanValue_compact`: a value is scanned up to its end.
* `readText_compact`: a text is read like the value it was written from.
* `readText_nested`: the text of a value that is nested too deep is not read.
-/

namespace VenueLink.Document

open Json Text

/-! ### Strings -/

/-- The piece stands for the character; a code unit may stand for a control character. -/
inductive Stands : Piece → Char → Prop where
  | char (c : Char) : Stands (.char c) c
  | unit (c : Char) (h : c.toNat < 32) : Stands (.unit c.toNat) c

/-- The escape of a control character is read back as its number. -/
theorem hexUnit?_control :
    ∀ n < 32, hexUnit? '0' '0' (hexDigit (n / 16)) (hexDigit n) = some n := by
  decide

/-- Every character of a string is scanned as one piece that stands for it. -/
theorem scanQuoted_escapedChar (c : Char) (rest : List Char) :
    ∃ p, Stands p c ∧ scanQuoted (escapedChar c ++ rest) = (scanQuoted rest).push p := by
  have heq : ∀ {n : Nat}, c.toNat = n → Char.ofNat n = c := fun h => h ▸ Char.ofNat_toNat c
  rw [escapedChar]
  split
  next h => exact ⟨_, h ▸ .char _, rfl⟩
  next hquote =>
  split
  next h => exact ⟨_, h ▸ .char _, rfl⟩
  next hbackslash =>
  split
  next h => exact ⟨_, h ▸ .char _, rfl⟩
  split
  next h => exact ⟨_, h ▸ .char _, rfl⟩
  split
  next h => exact ⟨_, h ▸ .char _, rfl⟩
  split
  next h => exact ⟨_, heq h ▸ .char _, rfl⟩
  split
  next h => exact ⟨_, heq h ▸ .char _, rfl⟩
  split
  next h =>
    refine ⟨_, .unit c h, ?_⟩
    have hunit := hexUnit?_control c.toNat h
    simp only [List.cons_append, List.nil_append]
    rw [scanQuoted, hunit]
  next h =>
    refine ⟨_, .char c, ?_⟩
    rw [List.singleton_append, scanQuoted.eq_def]
    split
    next heq => cases heq
    next heq => exact absurd (List.cons.inj heq).1 hquote
    next heq => exact absurd (List.cons.inj heq).1 hbackslash
    next heq => exact absurd (List.cons.inj heq).1 hbackslash
    next heq => exact absurd (List.cons.inj heq).1 hbackslash
    next heq => exact absurd (List.cons.inj heq).1 hbackslash
    next heq =>
      obtain ⟨rfl, rfl⟩ := List.cons.inj heq
      rw [if_neg h]

/-- Pieces are put together to the characters that they stand for. -/
theorem assemble_of_stands {ps : List Piece} {cs : List Char} (h : List.Forall₂ Stands ps cs) :
    assemble ps = some cs := by
  induction h with
  | nil => rfl
  | @cons p c ps cs hp hrest ih =>
    cases hp with
    | char => rw [assemble, ih, Option.map_some]
    | unit _ hc =>
      have hhigh : isHigh c.toNat = false := by
        simp only [isHigh, Bool.and_eq_false_iff, decide_eq_false_iff_not]
        omega
      have hlow : isLow c.toNat = false := by
        simp only [isLow, Bool.and_eq_false_iff, decide_eq_false_iff_not]
        omega
      cases hrest with
      | nil => simp [assemble, hhigh, hlow]
      | @cons q d qs ds hq hrest =>
        cases hq with
        | char =>
          rw [assemble, ih, hhigh, hlow]
          · simp
          · simp
        | unit =>
          rw [assemble, ih, hhigh, hlow]
          simp

/-- A string is scanned up to its quote. -/
theorem scanQuoted_escaped (cs rest : List Char) : ∃ ps, List.Forall₂ Stands ps cs ∧
    scanQuoted (cs.flatMap escapedChar ++ '"' :: rest) = ⟨ps, none, rest⟩ := by
  induction cs with
  | nil => exact ⟨[], .nil, rfl⟩
  | cons c cs ih =>
    obtain ⟨ps, hps, hscan⟩ := ih
    obtain ⟨p, hp, hfirst⟩ := scanQuoted_escapedChar c (cs.flatMap escapedChar ++ '"' :: rest)
    refine ⟨p :: ps, .cons hp hps, ?_⟩
    rw [List.flatMap_cons, List.append_assoc, hfirst, hscan]
    rfl

/-- A string in quotes is a key and a value. -/
theorem scanQuoted_quoted (s : String) (rest : List Char) :
    ∃ q : Quoted, scanQuoted (s.toList.flatMap escapedChar ++ '"' :: rest) = q ∧
      q.broken = none ∧ q.rest = rest ∧ q.key = .named s ∧ q.document = .string s := by
  obtain ⟨ps, hps, hscan⟩ := scanQuoted_escaped s.toList rest
  have hkey : Quoted.key ⟨ps, none, rest⟩ = .named s := by
    rw [Quoted.key, assemble_of_stands hps]
    exact congrArg Key.named String.ofList_toList
  exact ⟨_, hscan, rfl, rfl, hkey, by rw [Quoted.document, hkey]⟩

/-! ### Integers -/

/-- The text ends here, or goes on with what may follow a value. -/
def Ends (rest : List Char) : Prop :=
  ∀ c ∈ rest.head?, c = ',' ∨ c = ']' ∨ c = '\x7d'

/-- A number may end with the text. -/
theorem ends_nil : Ends [] := nofun

/-- It may end before a comma. -/
theorem ends_cons_comma (rest : List Char) : Ends (',' :: rest) := by
  rintro c ⟨⟩
  exact .inl rfl

/-- It may end before the bracket of an array. -/
theorem ends_cons_bracket (rest : List Char) : Ends (']' :: rest) := by
  rintro c ⟨⟩
  exact .inr (.inl rfl)

/-- It may end before the brace of an object. -/
theorem ends_cons_brace (rest : List Char) : Ends ('\x7d' :: rest) := by
  rintro c ⟨⟩
  exact .inr (.inr rfl)

/-- There are no other ends. -/
theorem Ends.cases {rest : List Char} (h : Ends rest) :
    rest = [] ∨ ∃ r, rest = ',' :: r ∨ rest = ']' :: r ∨ rest = '\x7d' :: r := by
  cases rest with
  | nil => exact .inl rfl
  | cons c r => exact .inr ⟨r, by rcases h c rfl with rfl | rfl | rfl <;> simp⟩

/-- There are no more digits after the end of a number. -/
theorem not_isDigit_of_ends {rest : List Char} (h : Ends rest) :
    rest.takeWhile Char.isDigit = [] ∧ rest.dropWhile Char.isDigit = rest := by
  rcases h.cases with rfl | ⟨r, rfl | rfl | rfl⟩ <;> exact ⟨rfl, rfl⟩

/-- A number is not written with a zero in front. -/
theorem head?_toDigits (n : Nat) (hn : n ≠ 0) : (Nat.toDigits 10 n).head? ≠ some '0' := by
  induction n using Nat.strongRecOn with
  | ind n ih =>
    rw [Nat.toDigits_eq_if (by decide)]
    split
    next hlt =>
      have hdigit : ∀ d < 10, d ≠ 0 → [d.digitChar].head? ≠ some '0' := by decide
      exact hdigit n hlt hn
    next hge =>
      rw [List.head?_append_of_ne_nil _ Nat.toDigits_ne_nil]
      exact ih (n / 10) (by omega) (by omega)

/-- Digits that amount to a number of 64 bits are all kept. -/
theorem foldl_addWhole {ds : List Char} {n : Nat} (hds : ∀ c ∈ ds, c.isDigit = true)
    (hn : Nat.ofDigitChars 10 ds n < keptBound) :
    ds.foldl Digits.addWhole ⟨n, 0, false⟩ = ⟨Nat.ofDigitChars 10 ds n, 0, false⟩ := by
  induction ds generalizing n with
  | nil => rfl
  | cons c rest ih =>
    have hzero : ('0' : Char).toNat = 48 := rfl
    rw [Nat.ofDigitChars_cons, hzero, Nat.mul_comm] at hn ⊢
    have hnext := (Decimal.le_ofDigitChars rest _).trans_lt hn
    have hstep : Digits.addWhole ⟨n, 0, false⟩ c = ⟨n * 10 + (c.toNat - 48), 0, false⟩ := by
      rw [Digits.addWhole]
      dsimp only
      rw [Bool.false_or, if_neg (by simpa using hnext)]
    rw [List.foldl_cons, hstep, ih (fun d hd => hds d (List.mem_cons_of_mem c hd)) hn]

/-- An integer is scanned up to the end of its digits. -/
theorem scanUnsigned_digits (negative : Bool) {n : Nat} (hn : n < keptBound) {rest : List Char}
    (hrest : Ends rest) :
    scanUnsigned negative (Nat.toDigits 10 n ++ rest) =
      (wholeNumber negative ⟨n, 0, false⟩, rest) := by
  have hdigits : ∀ c ∈ Nat.toDigits 10 n, c.isDigit = true := fun c => isDigit_of_mem_toDigits
  obtain ⟨htake, hdrop⟩ := not_isDigit_of_ends hrest
  have hvalue : Nat.ofDigitChars 10 (Nat.toDigits 10 n) 0 = n := digitsValue_toDigits n
  have hplain :
      ((Nat.toDigits 10 n).length ≠ 1 && (Nat.toDigits 10 n).head? = some '0') = false := by
    rcases eq_or_ne n 0 with rfl | hne
    · decide
    · simp [head?_toDigits n hne]
  have hkept : (Nat.toDigits 10 n).foldl Digits.addWhole {} = ⟨n, 0, false⟩ := by
    have hfold := foldl_addWhole hdigits (n := 0) (hvalue.symm ▸ hn)
    rwa [hvalue] at hfold
  rw [scanUnsigned, List.takeWhile_append_of_pos hdigits, List.dropWhile_append_of_pos hdigits,
    htake, hdrop, List.append_nil, hkept]
  dsimp only
  rw [if_neg (by simp [Nat.toDigits_ne_nil]), hplain, if_neg (by decide)]
  rcases hrest.cases with rfl | ⟨r, rfl | rfl | rfl⟩ <;> rfl

/-- The integers of a JSON value: those of 64 bits, signed or unsigned. -/
def IsInteger (i : Int) : Prop :=
  minInt64 ≤ i ∧ i < keptBound

/-- A number with a sign that is small enough is a negative integer. -/
theorem wholeNumber_true {n : Nat} (hpos : 0 < n) (hn : 2 * n ≤ keptBound) :
    wholeNumber true ⟨n, 0, false⟩ = .integer (-(n : Int)) := by
  have hzero : (n = 0 || keptBound < 2 * n) = false := by simp; omega
  rw [wholeNumber]
  dsimp only
  rw [if_neg (by decide), if_neg (by decide), hzero, if_neg (by decide)]

/-- An integer is read back. -/
theorem scanScalar_integer {i : Int} (hi : IsInteger i) {rest : List Char} (hrest : Ends rest) :
    scanScalar ((toString i).toList ++ rest) = (.integer i, rest) := by
  obtain ⟨hlow, hhigh⟩ := hi
  cases i with
  | ofNat n =>
    have hn : n < keptBound := Int.ofNat_lt.mp hhigh
    change scanScalar ((String.ofList (Nat.toDigits 10 n)).toList ++ rest) = _
    rw [String.toList_ofList]
    obtain ⟨c, cs, hcs⟩ := List.exists_cons_of_ne_nil (Nat.toDigits_ne_nil (n := n) (b := 10))
    have hc : c.isDigit = true :=
      isDigit_of_mem_toDigits (hcs ▸ List.mem_cons_self : c ∈ Nat.toDigits 10 n)
    have hscan := scanUnsigned_digits false hn hrest
    rw [hcs, List.cons_append] at hscan ⊢
    have hne : ∀ d : Char, d.isDigit = false → c ≠ d := by
      rintro d hd rfl
      cases hc.symm.trans hd
    rw [scanScalar, if_pos hc, hscan]
    · rfl
    all_goals
      intro heq
      exact absurd heq (hne _ (by decide))
  | negSucc n =>
    have hn : 2 * (n + 1) ≤ keptBound := by
      rw [minInt64] at hlow
      rw [keptBound]
      omega
    change scanScalar (("-" ++ String.ofList (Nat.toDigits 10 (n + 1))).toList ++ rest) = _
    rw [String.toList_append, String.toList_ofList, String.toList_ofList, List.singleton_append,
      List.cons_append, scanScalar, scanUnsigned_digits true (by omega) hrest,
      wholeNumber_true (Nat.succ_pos n) hn]
    rfl

/-! ### Values -/

mutual

/-- The value has no doubles, its integers have 64 bits, and it lies in no more than `room`
containers one inside another. -/
def Plain : (room : Nat) → Json → Prop
  | _, .integer i => IsInteger i
  | _, .double _ => False
  | 0, .array _ => False
  | room + 1, .array items => PlainItems room items
  | 0, .object _ => False
  | room + 1, .object fields => PlainFields room fields
  | _, _ => True

/-- All items are plain. -/
def PlainItems (room : Nat) : List Json → Prop
  | [] => True
  | x :: xs => Plain room x ∧ PlainItems room xs

/-- The values of all fields are plain. -/
def PlainFields (room : Nat) : List (String × Json) → Prop
  | [] => True
  | (_, x) :: xs => Plain room x ∧ PlainFields room xs

end

/-- A value, an item or a field may begin with the character. -/
def Begins (c : Char) : Prop :=
  isSpace c = false ∧ c ≠ ']' ∧ c ≠ '\x7d'

instance (c : Char) : Decidable (Begins c) :=
  inferInstanceAs (Decidable (_ ∧ _ ∧ _))

/-- A value may begin with a digit. -/
theorem begins_of_isDigit {c : Char} (h : c.isDigit = true) : Begins c := by
  refine ⟨?_, ?_, ?_⟩
  · by_contra hspace
    simp only [isSpace, Bool.or_eq_false_iff, decide_eq_false_iff_not, not_and_or,
      not_not] at hspace
    rcases hspace with ((rfl | rfl) | rfl) | rfl <;> exact absurd h (by decide)
  · rintro rfl
    exact absurd h (by decide)
  · rintro rfl
    exact absurd h (by decide)

/-- No blanks are skipped before the beginning of a value. -/
theorem skipSpace_of_begins {c : Char} (h : Begins c) (cs : List Char) :
    skipSpace (c :: cs) = c :: cs := by
  rw [skipSpace, List.dropWhile_cons_of_neg (by simp [h.1])]

/-- A text stands between quotes, its characters escaped. -/
theorem toList_quoted (s : String) :
    (quoted s).toList = '"' :: (s.toList.flatMap escapedChar ++ ['"']) := by
  rw [quoted, String.toList_ofList]

/-- The items of an array stand between brackets. -/
theorem toList_compact_array (items : List Json) :
    (compact (.array items)).toList = '[' :: ((compactItems items).toList ++ [']']) := by
  rw [compact, String.toList_append, String.toList_append]
  rfl

/-- The fields of an object stand between braces. -/
theorem toList_compact_object (fields : List (String × Json)) :
    (compact (.object fields)).toList =
      '\x7b' :: ((compactFields fields).toList ++ ['\x7d']) := by
  rw [compact, String.toList_append, String.toList_append]
  rfl

/-- An integer begins with a digit or a sign. -/
theorem exists_toList_integer (i : Int) :
    ∃ c cs, (toString i).toList = c :: cs ∧ Begins c ∧ c ≠ '[' ∧ c ≠ '\x7b' := by
  cases i with
  | ofNat n =>
    obtain ⟨c, cs, hcs⟩ := List.exists_cons_of_ne_nil (Nat.toDigits_ne_nil (n := n) (b := 10))
    have hc : c.isDigit = true :=
      isDigit_of_mem_toDigits (hcs ▸ List.mem_cons_self : c ∈ Nat.toDigits 10 n)
    change ∃ c cs, (String.ofList (Nat.toDigits 10 n)).toList = c :: cs ∧ _
    rw [String.toList_ofList]
    refine ⟨c, cs, hcs, begins_of_isDigit hc, ?_, ?_⟩
    all_goals
      rintro rfl
      exact absurd hc (by decide)
  | negSucc n =>
    refine ⟨'-', Nat.toDigits 10 (n + 1), ?_, by decide⟩
    change ("-" ++ String.ofList (Nat.toDigits 10 (n + 1))).toList = _
    rw [String.toList_append, String.toList_ofList, String.toList_ofList]
    rfl

/-- The text of a value begins like a value. -/
theorem exists_toList_compact {room : Nat} {j : Json} (h : Plain room j) :
    ∃ c cs, (compact j).toList = c :: cs ∧ Begins c := by
  cases j with
  | null => exact ⟨_, _, rfl, by decide⟩
  | bool b => cases b <;> exact ⟨_, _, rfl, by decide⟩
  | integer i =>
    obtain ⟨c, cs, hcs, hc, -⟩ := exists_toList_integer i
    exact ⟨c, cs, hcs, hc⟩
  | double d => cases room <;> exact h.elim
  | string s => exact ⟨_, _, toList_quoted s, by decide⟩
  | array items => exact ⟨_, _, toList_compact_array items, by decide⟩
  | object fields => exact ⟨_, _, toList_compact_object fields, by decide⟩

/-! ### Steps of the scan -/

section Steps

variable {fuel depth : Nat} {c : Char} {cs r : List Char} {d : Document}

/-- What begins neither an array nor an object is read as a scalar. -/
theorem scanValue_scalar (hc : Begins c) (hbracket : c ≠ '[') (hbrace : c ≠ '\x7b') :
    scanValue (fuel + 1) depth (c :: cs) = scanScalar (c :: cs) := by
  rw [scanValue, skipSpace_of_begins hc]
  split
  next heq => exact absurd (List.cons.inj heq).1 hbracket
  next heq => exact absurd (List.cons.inj heq).1 hbrace
  next => rfl

/-- An array is read as its items. -/
theorem scanValue_array (hc : Begins c) (hdepth : depth < maxDepth) {items : List Document}
    {broken : Option Fault}
    (hitems : scanItems fuel (depth + 1) (c :: cs) = (items, broken, r)) :
    scanValue (fuel + 1) depth ('[' :: c :: cs) = (.array items broken, r) := by
  rw [scanValue, skipSpace_of_begins (by decide)]
  split
  next heq =>
    obtain rfl := (List.cons.inj heq).2
    rw [skipSpace_of_begins hc]
    split
    next heq => exact absurd (List.cons.inj heq).1 hc.2.1
    next heq => cases heq
    next =>
      rw [hitems]
      exact congrArg (·, r) (if_pos hdepth)
  next heq => exact absurd (List.cons.inj heq).1 (by decide)
  next hne _ => exact (hne _ rfl).elim

/-- An object is read as its fields. -/
theorem scanValue_object (hc : Begins c) (hdepth : depth < maxDepth)
    {fields : List (Key × Document)} {broken : Option Fault}
    (hfields : scanFields fuel (depth + 1) (c :: cs) = (fields, broken, r)) :
    scanValue (fuel + 1) depth ('\x7b' :: c :: cs) = (.object fields broken, r) := by
  rw [scanValue, skipSpace_of_begins (by decide)]
  split
  next heq => exact absurd (List.cons.inj heq).1 (by decide)
  next heq =>
    obtain rfl := (List.cons.inj heq).2
    rw [skipSpace_of_begins hc]
    split
    next heq => exact absurd (List.cons.inj heq).1 hc.2.2
    next heq => cases heq
    next =>
      rw [hfields]
      exact congrArg (·, r) (if_pos hdepth)
  next _ hne => exact (hne _ rfl).elim

/-- A bracket ends the items. -/
theorem scanItems_last (hvalue : scanValue fuel depth cs = (d, ']' :: r))
    (hd : d.skipFault = none) :
    scanItems (fuel + 1) depth cs = ([d], none, r) := by
  rw [scanItems, hvalue]
  dsimp only
  rw [hd]
  rfl

/-- After a comma the next items follow. -/
theorem scanItems_comma (hvalue : scanValue fuel depth cs = (d, ',' :: r))
    (hd : d.skipFault = none) {items : List Document} {rest : List Char}
    (hrest : scanItems fuel depth r = (items, none, rest)) :
    scanItems (fuel + 1) depth cs = (d :: items, none, rest) := by
  rw [scanItems, hvalue]
  dsimp only
  rw [hd]
  dsimp only
  rw [skipSpace_of_begins (by decide)]
  split
  next heq =>
    obtain rfl := (List.cons.inj heq).2
    rw [hrest]
  next heq => exact absurd (List.cons.inj heq).1 (by decide)
  next heq => cases heq
  next hne _ _ => exact (hne _ rfl).elim

/-- A field is scanned like an item after its key and a colon. -/
theorem scanFields_quoted (key : String) {after : List Char}
    (hvalue : scanValue fuel depth cs = (d, after)) (hd : d.skipFault = none) :
    scanFields (fuel + 1) depth ('"' :: (key.toList.flatMap escapedChar ++ '"' :: ':' :: cs)) =
      match skipSpace after with
      | ',' :: r =>
        let (fields, broken, rest) := scanFields fuel depth r
        ((.named key, d) :: fields, broken, rest)
      | '\x7d' :: r => ([(.named key, d)], none, r)
      | [] => ([(.named key, d)], some .truncated, [])
      | _ => ([(.named key, d)], some .malformed, []) := by
  obtain ⟨q, hscan, hbroken, hrest, hkey, -⟩ := scanQuoted_quoted key (':' :: cs)
  rw [scanFields, skipSpace_of_begins (by decide)]
  split
  next heq =>
    obtain rfl := (List.cons.inj heq).2
    rw [hscan]
    dsimp only
    rw [hbroken]
    dsimp only
    rw [hrest, skipSpace_of_begins (by decide)]
    split
    next heq =>
      obtain rfl := (List.cons.inj heq).2
      rw [hvalue, hkey]
      dsimp only
      split
      next hfault => cases hd.symm.trans hfault
      next => rfl
    next heq => cases heq
    next hne _ => exact (hne _ rfl).elim
  next heq => cases heq
  next hne _ => exact (hne _ rfl).elim

/-- A brace ends the fields. -/
theorem scanFields_last (key : String) (hvalue : scanValue fuel depth cs = (d, '\x7d' :: r))
    (hd : d.skipFault = none) :
    scanFields (fuel + 1) depth ('"' :: (key.toList.flatMap escapedChar ++ '"' :: ':' :: cs)) =
      ([(.named key, d)], none, r) :=
  scanFields_quoted key hvalue hd

/-- After a comma the next fields follow. -/
theorem scanFields_comma (key : String) (hvalue : scanValue fuel depth cs = (d, ',' :: r))
    (hd : d.skipFault = none) {fields : List (Key × Document)} {rest : List Char}
    (hrest : scanFields fuel depth r = (fields, none, rest)) :
    scanFields (fuel + 1) depth ('"' :: (key.toList.flatMap escapedChar ++ '"' :: ':' :: cs)) =
      ((.named key, d) :: fields, none, rest) := by
  rw [scanFields_quoted key hvalue hd, skipSpace_of_begins (by decide)]
  split
  next heq =>
    obtain rfl := (List.cons.inj heq).2
    rw [hrest]
  next heq => exact absurd (List.cons.inj heq).1 (by decide)
  next heq => cases heq
  next hne _ _ => exact (hne _ rfl).elim

/-- An array without items is read as such. -/
theorem scanValue_emptyArray (hdepth : depth < maxDepth) :
    scanValue (fuel + 1) depth ('[' :: ']' :: r) = (.array [] none, r) :=
  congrArg (·, r) (if_pos hdepth)

/-- An object without fields is read as such. -/
theorem scanValue_emptyObject (hdepth : depth < maxDepth) :
    scanValue (fuel + 1) depth ('\x7b' :: '\x7d' :: r) = (.object [] none, r) :=
  congrArg (·, r) (if_pos hdepth)

end Steps

/-! ### Values without blanks -/

/-- There is a comma between two items. -/
theorem toList_compactItems_cons (x y : Json) (ys : List Json) :
    (compactItems (x :: y :: ys)).toList =
    (compact x).toList ++ ',' :: (compactItems (y :: ys)).toList := by
  simp [compactItems]

/-- A field is its key, a colon and its value. -/
theorem toList_compactFields_singleton (key : String) (x : Json) :
    (compactFields [(key, x)]).toList =
    '"' :: (key.toList.flatMap escapedChar ++ '"' :: ':' :: (compact x).toList) := by
  simp [compactFields, toList_quoted]

/-- There is a comma between two fields. -/
theorem toList_compactFields_cons (key : String) (x : Json) (f : String × Json)
    (fs : List (String × Json)) :
    (compactFields ((key, x) :: f :: fs)).toList = '"' :: (key.toList.flatMap escapedChar ++
      '"' :: ':' :: ((compact x).toList ++ ',' :: (compactFields (f :: fs)).toList)) := by
  simp [compactFields, toList_quoted]

/-- The text of items begins like a value. -/
theorem exists_toList_compactItems {room : Nat} {x : Json} (xs : List Json) (h : Plain room x) :
    ∃ c cs, (compactItems (x :: xs)).toList = c :: cs ∧ Begins c := by
  obtain ⟨c, cs, hcs, hc⟩ := exists_toList_compact h
  cases xs with
  | nil => exact ⟨c, cs, hcs, hc⟩
  | cons y ys => exact ⟨c, _, by rw [toList_compactItems_cons, hcs, List.cons_append], hc⟩

/-- The text of fields begins with the quote of a key. -/
theorem exists_toList_compactFields (f : String × Json) (fs : List (String × Json)) :
    ∃ cs, (compactFields (f :: fs)).toList = '"' :: cs := by
  obtain ⟨key, x⟩ := f
  cases fs with
  | nil => exact ⟨_, toList_compactFields_singleton key x⟩
  | cons g gs => exact ⟨_, toList_compactFields_cons key x g gs⟩

mutual

/-- A value is scanned up to its end. -/
theorem scanValue_compact : (j : Json) → ⦃room fuel depth : Nat⦄ → ⦃rest :
    List Char⦄ → Plain room j →
    depth + room ≤ maxDepth → 2 * (compact j).toList.length ≤ fuel → Ends rest →
    scanValue fuel depth ((compact j).toList ++ rest) = (ofJson j, rest)
  | .null => by
    intro _ fuel _ _ _ _ hfuel _
    obtain ⟨fuel, rfl⟩ := Nat.exists_eq_add_one.mpr (Nat.zero_lt_of_lt hfuel)
    exact scanValue_scalar (by decide) (by decide) (by decide)
  | .bool b => by
    intro _ fuel _ _ _ _ hfuel _
    cases b
    all_goals
      obtain ⟨fuel, rfl⟩ := Nat.exists_eq_add_one.mpr (Nat.zero_lt_of_lt hfuel)
      exact scanValue_scalar (by decide) (by decide) (by decide)
  | .integer i => by
    intro _ fuel _ rest h _ hfuel hrest
    obtain ⟨c, cs, hcs, hc, hbracket, hbrace⟩ := exists_toList_integer i
    have hscalar := scanScalar_integer h hrest
    rw [compact, hcs] at hfuel ⊢
    rw [hcs] at hscalar
    obtain ⟨fuel, rfl⟩ := Nat.exists_eq_add_one.mpr (Nat.zero_lt_of_lt hfuel)
    rw [List.cons_append, scanValue_scalar hc hbracket hbrace]
    exact hscalar
  | .double _ => by
    intro room _ _ _ h _ _ _
    cases room <;> exact h.elim
  | .string s => by
    intro _ fuel _ rest _ _ hfuel _
    obtain ⟨q, hscan, -, hrest, -, hdocument⟩ := scanQuoted_quoted s rest
    rw [compact, toList_quoted] at hfuel ⊢
    obtain ⟨fuel, rfl⟩ := Nat.exists_eq_add_one.mpr (Nat.zero_lt_of_lt hfuel)
    rw [List.cons_append, List.append_assoc, List.singleton_append,
      scanValue_scalar (by decide) (by decide) (by decide), scanScalar, hscan]
    exact Prod.ext hdocument hrest
  | .array [] => by
    intro room fuel _ _ h hroom hfuel _
    obtain ⟨fuel, rfl⟩ := Nat.exists_eq_add_one.mpr (Nat.zero_lt_of_lt hfuel)
    cases room with
    | zero => exact h.elim
    | succ room => exact scanValue_emptyArray (by omega)
  | .array (x :: xs) => by
    intro room fuel depth rest h hroom hfuel _
    cases room with
    | zero => exact h.elim
    | succ room =>
      rw [toList_compact_array] at hfuel ⊢
      simp only [List.length_cons, List.length_append, List.length_nil] at hfuel
      obtain ⟨fuel, rfl⟩ := Nat.exists_eq_add_one.mpr (Nat.zero_lt_of_lt hfuel)
      have hitems : scanItems fuel (depth + 1) _ = (_, _, rest) :=
        scanItems_compact (x :: xs) (List.cons_ne_nil x xs) h (by omega) (by omega)
      obtain ⟨c, cs, hcs, hc⟩ := exists_toList_compactItems xs h.1
      rw [List.cons_append, List.append_assoc, List.singleton_append]
      rw [hcs, List.cons_append] at hitems ⊢
      rw [scanValue_array hc (by omega) hitems, ofJson]
  | .object [] => by
    intro room fuel _ _ h hroom hfuel _
    obtain ⟨fuel, rfl⟩ := Nat.exists_eq_add_one.mpr (Nat.zero_lt_of_lt hfuel)
    cases room with
    | zero => exact h.elim
    | succ room => exact scanValue_emptyObject (by omega)
  | .object (f :: fs) => by
    intro room fuel depth rest h hroom hfuel _
    cases room with
    | zero => exact h.elim
    | succ room =>
      rw [toList_compact_object] at hfuel ⊢
      simp only [List.length_cons, List.length_append, List.length_nil] at hfuel
      obtain ⟨fuel, rfl⟩ := Nat.exists_eq_add_one.mpr (Nat.zero_lt_of_lt hfuel)
      have hfields : scanFields fuel (depth + 1) _ = (_, _, rest) :=
        scanFields_compact (f :: fs) (List.cons_ne_nil f fs) h (by omega) (by omega)
      obtain ⟨cs, hcs⟩ := exists_toList_compactFields f fs
      rw [List.cons_append, List.append_assoc, List.singleton_append]
      rw [hcs, List.cons_append] at hfields ⊢
      rw [scanValue_object (by decide) (by omega) hfields, ofJson]

/-- The items of an array are scanned up to its end. -/
theorem scanItems_compact :
    (xs : List Json) → xs ≠ [] → {room fuel depth : Nat} → {rest : List Char} →
    PlainItems room xs → depth + room ≤ maxDepth →
      2 * (compactItems xs).toList.length + 1 ≤ fuel →
    scanItems fuel depth ((compactItems xs).toList ++ ']' :: rest) = (ofItems xs, none, rest)
  | [] => absurd rfl
  | [x] => by
    intro _ _ fuel _ rest h hroom hfuel
    obtain ⟨fuel, rfl⟩ := Nat.exists_eq_add_one.mpr (Nat.zero_lt_of_lt hfuel)
    have hvalue :=
      scanValue_compact x h.1 hroom (Nat.le_of_succ_le_succ hfuel) (ends_cons_bracket rest)
    exact scanItems_last hvalue (skipFault_ofJson x)
  | x :: y :: ys => by
    intro _ _ fuel _ rest h hroom hfuel
    rw [toList_compactItems_cons] at hfuel ⊢
    simp only [List.length_cons, List.length_append] at hfuel
    obtain ⟨fuel, rfl⟩ := Nat.exists_eq_add_one.mpr (Nat.zero_lt_of_lt hfuel)
    have hfirst : 2 * (compact x).toList.length ≤ fuel := by omega
    have hothers : 2 * (compactItems (y :: ys)).toList.length + 1 ≤ fuel := by omega
    rw [List.append_assoc, List.cons_append]
    exact scanItems_comma (scanValue_compact x h.1 hroom hfirst (ends_cons_comma _))
      (skipFault_ofJson x)
      (scanItems_compact (y :: ys) (List.cons_ne_nil y ys) h.2 hroom hothers)

/-- The fields of an object are scanned up to its end. -/
theorem scanFields_compact : (fs : List (String × Json)) → fs ≠ [] → {room fuel depth : Nat} →
    {rest : List Char} → PlainFields room fs → depth + room ≤ maxDepth →
    2 * (compactFields fs).toList.length + 1 ≤ fuel →
    scanFields fuel depth ((compactFields fs).toList ++ '\x7d' :: rest) =
      (ofFields fs, none, rest)
  | [] => absurd rfl
  | [(key, x)] => by
    intro _ _ fuel _ rest h hroom hfuel
    rw [toList_compactFields_singleton] at hfuel ⊢
    simp only [List.length_cons, List.length_append] at hfuel
    obtain ⟨fuel, rfl⟩ := Nat.exists_eq_add_one.mpr (Nat.zero_lt_of_lt hfuel)
    have hfirst : 2 * (compact x).toList.length ≤ fuel := by omega
    rw [List.cons_append, List.append_assoc, List.cons_append, List.cons_append]
    exact scanFields_last key (scanValue_compact x h.1 hroom hfirst (ends_cons_brace rest))
      (skipFault_ofJson x)
  | (key, x) :: f :: fs => by
    intro _ _ fuel _ rest h hroom hfuel
    rw [toList_compactFields_cons] at hfuel ⊢
    simp only [List.length_cons, List.length_append] at hfuel
    obtain ⟨fuel, rfl⟩ := Nat.exists_eq_add_one.mpr (Nat.zero_lt_of_lt hfuel)
    have hfirst : 2 * (compact x).toList.length ≤ fuel := by omega
    have hothers : 2 * (compactFields (f :: fs)).toList.length + 1 ≤ fuel := by omega
    rw [List.cons_append, List.append_assoc, List.cons_append, List.cons_append,
      List.append_assoc, List.cons_append]
    exact scanFields_comma key (scanValue_compact x h.1 hroom hfirst (ends_cons_comma _))
      (skipFault_ofJson x)
      (scanFields_compact (f :: fs) (List.cons_ne_nil f fs) h.2 hroom hothers)

end

/-- A text without blanks is read like the value it was written from. -/
theorem readText_compact {α : Type} (r : Reading α) {j : Json} (h : Plain maxDepth j) :
    readText r (compact j) = r (ofJson j) := by
  have hscan : scan (compact j).toList = (ofJson j, []) := by
    have hvalue : scanValue (2 * (compact j).toList.length + 2) 0 _ = _ :=
      scanValue_compact j h (by omega) (by omega) ends_nil
    rwa [List.append_nil] at hvalue
  rw [readText, hscan]
  exact bind_pure (r (ofJson j))

/-! ### Texts that are nested too deep -/

/-- No value can be read from the document. -/
def Unread (d : Document) : Prop :=
  ∃ f, d.toJson = .error f

/-- An array that breaks off before its first item is not read. -/
theorem unread_array_nil (f : Fault) : Unread (.array [] (some f)) :=
  ⟨f, by rw [toJson, toItems]; rfl⟩

/-- An array is not read if its first item is not. -/
theorem Unread.array {d : Document} (h : Unread d) (items : List Document)
    (broken : Option Fault) : Unread (.array (d :: items) broken) := by
  obtain ⟨f, hf⟩ := h
  exact ⟨f, by rw [toJson, toItems, hf]; rfl⟩

/-- What lies too deep is not read. -/
theorem unread_atDepth {depth : Nat} {d : Document} (h : depth < maxDepth → Unread d) :
    Unread (atDepth depth d) := by
  rw [atDepth]
  split
  next hdepth => exact h hdepth
  next => exact ⟨.malformed, rfl⟩

/-- The first of the items of an array is a scanned value, unless there is none. -/
theorem scanItems_fst (fuel depth : Nat) (cs : List Char) :
    (∃ f, scanItems fuel depth cs = ([], some f, cs)) ∨
      ∃ fuel' items broken rest, scanItems fuel depth cs =
        ((scanValue fuel' depth cs).1 :: items, broken, rest) := by
  cases fuel with
  | zero => exact .inl ⟨.truncated, rfl⟩
  | succ fuel =>
    right
    refine ⟨fuel, ?_⟩
    rw [scanItems]
    dsimp only
    split
    · exact ⟨_, _, _, rfl⟩
    · split <;> exact ⟨_, _, _, rfl⟩

/-- After a bracket there is something that must not lie too deep. -/
theorem scanValue_bracket (fuel depth : Nat) (cs : List Char) :
    ∃ d rest, scanValue (fuel + 1) depth ('[' :: cs) = (atDepth depth d, rest) := by
  rw [scanValue, skipSpace_of_begins (by decide)]
  split
  next => split <;> exact ⟨_, _, rfl⟩
  next heq => exact absurd (List.cons.inj heq).1 (by decide)
  next hne _ => exact (hne _ rfl).elim

/-- After two brackets it is an array of what follows the first of them. -/
theorem scanValue_brackets (fuel depth : Nat) (cs : List Char) :
    (scanValue (fuel + 1) depth ('[' :: '[' :: cs)).1 =
      atDepth depth (.array (scanItems fuel (depth + 1) ('[' :: cs)).1
        (scanItems fuel (depth + 1) ('[' :: cs)).2.1) :=
  rfl

/-- A text with more opening brackets in front than a value may have around it is not read. -/
theorem unread_of_brackets (n : Nat) (fuel depth : Nat) (cs : List Char)
    (h : maxDepth ≤ depth + n) :
    Unread (scanValue fuel depth (List.replicate (n + 1) '[' ++ cs)).1 := by
  induction n generalizing fuel depth with
  | zero =>
    cases fuel with
    | zero => exact ⟨.truncated, rfl⟩
    | succ fuel =>
      obtain ⟨d, rest, hvalue⟩ := scanValue_bracket fuel depth cs
      change Unread (scanValue (fuel + 1) depth ('[' :: cs)).1
      rw [hvalue]
      exact unread_atDepth fun hlt => absurd h (Nat.not_le.mpr hlt)
  | succ n ih =>
    cases fuel with
    | zero => exact ⟨.truncated, rfl⟩
    | succ fuel =>
      change Unread (scanValue (fuel + 1) depth ('[' :: '[' :: (List.replicate n '[' ++ cs))).1
      rw [scanValue_brackets]
      refine unread_atDepth fun _ => ?_
      rcases scanItems_fst fuel (depth + 1)
        ('[' :: (List.replicate n '[' ++ cs)) with ⟨f, hitems⟩ |
        ⟨fuel', items, broken, rest, hitems⟩
      · rw [hitems]
        exact unread_array_nil f
      · rw [hitems]
        exact (ih fuel' (depth + 1) (by omega)).array items broken

/-- An empty array inside `n` others. -/
def nested : Nat → Json
  | 0 => .array []
  | n + 1 => .array [nested n]

/-- The text of nested arrays is all their brackets. -/
theorem toList_compact_nested (n : Nat) :
    (compact (nested n)).toList = List.replicate (n + 1) '[' ++ List.replicate (n + 1) ']' := by
  induction n with
  | zero => decide
  | succ n ih =>
    rw [nested, toList_compact_array, compactItems, ih, List.append_assoc,
      ← List.replicate_succ']
    rfl

/-- The text of a value that is nested too deep is not read. -/
theorem readText_nested {n : Nat} (h : maxDepth ≤ n) :
    ∃ f, readText Reading.json (compact (nested n)) = .error f := by
  obtain ⟨f, hf⟩ : Unread (scan (compact (nested n)).toList).1 := by
    rw [toList_compact_nested]
    exact unread_of_brackets n _ 0 _ (by omega)
  refine ⟨f, ?_⟩
  rw [readText]
  generalize scan (compact (nested n)).toList = scanned at hf ⊢
  change Except.bind (toJson scanned.1) _ = .error f
  rw [hf]
  rfl

end VenueLink.Document
