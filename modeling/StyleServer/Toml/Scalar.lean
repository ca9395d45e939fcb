/-
  Unquoted values of TOML: booleans, numbers, dates and times.

  An unquoted value is read from the run of characters it is made of, and is
  refused unless the whole run has one of the forms.
-/
import StyleServer.Text.Digit
import StyleServer.Text.Utf8
import StyleServer.Toml.Value

namespace StyleServer

namespace Toml

/-! ## Numbers -/

/-- The values of digits, between which single underscores may stand. -/
def digits? (base : Nat) : Text → Option (List Nat)
  | [] => none
  | [c] => (digit? base c).map ([·])
  | c :: '_' :: rest => do return (← digit? base c) :: (← digits? base rest)
  | c :: rest => do return (← digit? base c) :: (← digits? base rest)

/-- A sign, and what follows it. -/
def sign (text : Text) : Option Char × Text :=
  match text with
  | '+' :: rest => (some '+', rest)
  | '-' :: rest => (some '-', rest)
  | _ => (none, text)

/-- Decimal digits without a leading zero. -/
def decimal? (text : Text) : Option Nat := do
  let digits ← digits? 10 text
  if digits.length > 1 ∧ digits.head? = some 0 then none else return ofDigits 10 digits

/-- An integer. -/
def integer? (text : Text) : Option Int :=
  match text with
  | '0' :: 'x' :: rest => (digits? 16 rest).map fun d => ofDigits 16 d
  | '0' :: 'o' :: rest => (digits? 8 rest).map fun d => ofDigits 8 d
  | '0' :: 'b' :: rest => (digits? 2 rest).map fun d => ofDigits 2 d
  | _ =>
    let (s, rest) := sign text
    (decimal? rest).map fun n => if s = some '-' then -(n : Int) else n

/-- The integer fits into 128 bits, with a sign or without. -/
def fits (value : Int) : Bool := -(Nat.pow 2 127 : Int) ≤ value && value < (Nat.pow 2 128 : Int)

/-- A text before the first character that satisfies `p`, and the text from it on. -/
def upTo (p : Char → Bool) (text : Text) : Text × Text :=
  (text.takeWhile (!p ·), text.dropWhile (!p ·))

/-- The exponent that follows its letter. -/
def exponent? (text : Text) : Option Int := do
  let (s, rest) := sign text
  let n := ofDigits 10 (← digits? 10 rest)
  return if s = some '-' then -(n : Int) else n

/-- `digits · 10 ^ exponent` is within the range of double precision: it is below the
    midpoint between the largest finite number and the next power of two. -/
def isFinite (digits : Nat) (exponent : Int) : Bool :=
  let magnitude := (Nat.toDigits 10 digits).length + exponent
  digits = 0 || magnitude < 309 ||
    (magnitude = 309 &&
      digits * Nat.pow 10 exponent.toNat <
        (Nat.pow 2 1024 - Nat.pow 2 970) * Nat.pow 10 (-exponent).toNat)

/-- The digits and the exponent of a number with a fraction or an exponent. -/
def float? (text : Text) : Option (Nat × Int) := do
  let (number, power) := upTo (fun c => c == 'e' || c == 'E') (sign text).2
  let (whole, fraction) := upTo (· == '.') number
  let n ← decimal? whole
  let f ← match fraction with
    | [] => some []
    | _ :: rest => digits? 10 rest
  let e ← match power with
    | [] => some 0
    | _ :: rest => exponent? rest
  if fraction.isEmpty ∧ power.isEmpty then none
  else return (n * Nat.pow 10 f.length + ofDigits 10 f, e - f.length)

/-- One of the names of numbers that are not finite. -/
def isNamedFloat (text : Text) : Bool :=
  let body := (sign text).2
  body = ['i', 'n', 'f'] || body = ['n', 'a', 'n']

/-! ## Dates and times -/

/-- A number of exactly `count` digits at the front of a text, and the rest. -/
def fixed? (count : Nat) (text : Text) : Option (Nat × Text) :=
  let digits := text.take count
  if digits.length = count ∧ digits.all Char.isDigit then
    some (ofDigits 10 (digits.map fun c => c.toNat - '0'.toNat), text.drop count)
  else none

/-- What follows a character at the front of a text. -/
def behind? (c : Char) : Text → Option Text
  | [] => none
  | d :: rest => if c = d then some rest else none

/-- Number of days of a month. -/
def daysIn (year month : Nat) : Nat :=
  if month = 2 then if year % 4 = 0 ∧ (year % 100 ≠ 0 ∨ year % 400 = 0) then 29 else 28
  else if month ∈ [4, 6, 9, 11] then 30 else 31

/-- A date at the front of a text, and the rest. -/
def date? (text : Text) : Option (Text × Text) := do
  let (year, rest) ← fixed? 4 text
  let (month, rest) ← fixed? 2 (← behind? '-' rest)
  let (day, rest) ← fixed? 2 (← behind? '-' rest)
  if 1 ≤ month ∧ month ≤ 12 ∧ 1 ≤ day ∧ day ≤ daysIn year month then return (text.take 10, rest)
  else none

/-- Hours and minutes at the front of a text, and the rest. -/
def clock? (text : Text) : Option (Text × Text) := do
  let (hour, rest) ← fixed? 2 text
  let (minute, rest) ← fixed? 2 (← behind? ':' rest)
  if hour < 24 ∧ minute < 60 then return (text.take 5, rest) else none

/-- The digits of a fraction in their normal form: at most nine, and no zeros at the
    end, save when there is nothing else. -/
def fraction (digits : Text) : Text :=
  match ((digits.take 9).reverse.dropWhile (· == '0')).reverse with
  | [] => ['0']
  | significant => significant

/-- Seconds with their colon, perhaps with a fraction, in their normal form, and the
    rest. -/
def seconds? (text : Text) : Option (Text × Text) := do
  let (second, rest) ← fixed? 2 (← behind? ':' text)
  let whole := text.take 3
  if second > 60 then none
  else match behind? '.' rest with
    | none => return (whole, rest)
    | some after =>
      let digits := after.takeWhile Char.isDigit
      if digits.isEmpty then none
      else return (whole ++ '.' :: fraction digits, after.dropWhile Char.isDigit)

/-- A time, whose seconds may be left out, in its normal form, and the rest. -/
def time? (text : Text) : Option (Text × Text) := do
  let (clock, rest) ← clock? text
  if rest.head? = some ':' then
    let (seconds, rest) ← seconds? rest
    return (clock ++ seconds, rest)
  else return (clock, rest)

/-- The offset from universal time that a whole text writes, in its normal form. -/
def offset? (text : Text) : Option Text :=
  match text with
  | [] => some []
  | ['Z'] | ['z'] => some ['Z']
  | '+' :: rest | '-' :: rest =>
    match clock? rest with
    | some (clock, []) =>
      let isZero := clock = ['0', '0', ':', '0', '0']
      some ((if isZero then '+' else text.headD '+') :: clock)
    | _ => none
  | _ => none

/-- The date, the time, or the date with a time and perhaps an offset that a whole text
    writes, in its normal form. -/
def dateTime? (text : Text) : Option Text :=
  match date? text with
  | none =>
    match time? text with
    | some (time, []) => some time
    | _ => none
  | some (day, []) => some day
  | some (day, separator :: rest) => do
    if separator = 'T' ∨ separator = 't' ∨ separator = ' ' then
      let (time, rest) ← time? rest
      return day ++ 'T' :: time ++ (← offset? rest)
    else none

/-! ## Runs -/

/-- A character that ends an unquoted value. -/
def endsRun (c : Char) : Bool :=
  c ∈ [' ', '\t', '\n', '\r', ',', ']', '\x7d', '#', '=', '"', '\'', '[', '\x7b']

/-- The characters of an unquoted value at the front of a text, and the rest.  A single
    blank stays inside when a date stands before it and a digit behind it. -/
def unquotedRun (text : Text) : Text × Text :=
  let (run, rest) := upTo endsRun text
  match rest with
  | ' ' :: c :: _ =>
    if (date? run).any (·.2.isEmpty) ∧ c.isDigit then
      let (clock, rest) := upTo endsRun (rest.drop 1)
      (run ++ ' ' :: clock, rest)
    else (run, rest)
  | _ => (run, rest)

/-- The value that a run of characters writes. -/
def ofRun? (run : Text) : Option Toml :=
  if run = "true".toList then some (.boolean true)
  else if run = "false".toList then some (.boolean false)
  else if isNamedFloat run then some (.float (String.ofList run))
  else match integer? run with
    | some n => some (if fits n then .integer n else .outOfRange)
    | none =>
      match float? run with
      | some (digits, exponent) =>
        some (if isFinite digits exponent then .float (String.ofList run) else .outOfRange)
      | none => (dateTime? run).map fun text => .date (String.ofList text)

end Toml

end StyleServer
