/-
  Hosts of URLs.

  Special schemes have domains and addresses: a domain is decoded and written in
  ASCII; one whose last label is a number is an address of four bytes.  Other
  schemes keep a host as it is.
-/
import StyleServer.Domain.Basic
import StyleServer.Text.Fragment
import StyleServer.Url.Percent

namespace StyleServer

namespace Host

/-! ## Addresses of four bytes -/

/-- A number of an address: with `0x` in base sixteen, with `0` in base eight, else
    decimal. -/
def number? (text : Text) : Option Nat :=
  let inBase (base : Nat) (digits : Text) : Option Nat := do
    return ofDigits base (← digits.mapM (digit? base))
  match text with
  | [] => none
  | '0' :: 'x' :: digits | '0' :: 'X' :: digits => inBase 16 digits
  | '0' :: d :: digits => inBase 8 (d :: digits)
  | digits => inBase 10 digits

/-- The labels of a domain, without an empty one at the end. -/
def labels (domain : Text) : List Text :=
  let parts := Text.splitOn '.' domain
  if parts.getLast? = some [] ∧ parts.length > 1 then parts.dropLast else parts

/-- The last label of a domain is a number. -/
def endsInNumber (domain : Text) : Bool :=
  match (labels domain).getLast? with
  | some label => (!label.isEmpty && label.all Char.isDigit) || (number? label).isSome
  | none => false

/-- The four bytes of a number as written. -/
def dotted (n : Nat) : Text :=
  (".".intercalate ([n / 16777216, n / 65536 % 256, n / 256 % 256, n % 256].map toString)).toList

/-- An address of up to four numbers, of which the last fills the bytes that are left. -/
def address4? (domain : Text) : Option Text := do
  let numbers ← (labels domain).mapM number?
  let last ← numbers.getLast?
  let first := numbers.dropLast
  if numbers.length ≤ 4 ∧ first.all (· < 256) ∧ last < Nat.pow 256 (4 - first.length) then
    return dotted (first.zipIdx.foldl (fun n (x, i) => n + x * Nat.pow 256 (3 - i)) last)
  else none

/-! ## Addresses of sixteen bytes -/

/-- A group of an address: one to four digits of base sixteen. -/
def group? (text : Text) : Option Nat := do
  let values ← text.mapM (digit? 16)
  if 1 ≤ values.length ∧ values.length ≤ 4 then return ofDigits 16 values else none

/-- A byte in decimal digits, without a leading zero. -/
def decimalByte? (text : Text) : Option Nat := do
  let values ← text.mapM (digit? 10)
  let n := ofDigits 10 values
  if values.isEmpty ∨ (values.length > 1 ∧ values.head? = some 0) ∨ n > 255 then none else return n

/-- The groups between colons; the last may be four decimal bytes. -/
def groups? : List Text → Option (List Nat)
  | [] => some []
  | [last] =>
    match group? last with
    | some n => some [n]
    | none =>
      match (Text.splitOn '.' last).mapM decimalByte? with
      | some [a, b, c, d] => some [a * 256 + b, c * 256 + d]
      | _ => none
  | g :: gs => do return (← group? g) :: (← groups? gs)

/-- A text before and behind the first double colon. -/
def cutDouble : Text → Option (Text × Text)
  | ':' :: ':' :: rest => some ([], rest)
  | c :: rest => (cutDouble rest).map fun (a, b) => (c :: a, b)
  | [] => none

/-- The groups of a text between colons; none of an empty text. -/
def groupsOf? (text : Text) : Option (List Nat) :=
  if text.isEmpty then some [] else groups? (Text.splitOn ':' text)

/-- The eight groups of an address, of which a double colon leaves out some. -/
def address6? (text : Text) : Option (List Nat) :=
  match cutDouble text with
  | none => (groupsOf? text).filter (·.length = 8)
  | some (before, after) => do
    let first ← if before.contains '.' then none else groupsOf? before
    let last ← groupsOf? after
    if first.length + last.length < 8 then
      return first ++ List.replicate (8 - first.length - last.length) 0 ++ last
    else none

/-- Length of the run of zeros at the front. -/
def zeros (groups : List Nat) : Nat := (groups.takeWhile (· = 0)).length

/-- Where the first longest run of two or more zeros begins, and its length. -/
def longestZeros (groups : List Nat) : Nat × Nat :=
  let runs := (List.range groups.length).map fun i => (i, zeros (groups.drop i))
  runs.foldl (fun best run => if 1 < run.2 ∧ best.2 < run.2 then run else best) (0, 0)

/-- Groups as written, with colons between them. -/
def writeGroups (groups : List Nat) : String :=
  ":".intercalate (groups.map fun n => String.ofList (Nat.toDigits 16 n))

/-- An address as written. -/
def writeAddress6 (groups : List Nat) : Text :=
  let (start, count) := longestZeros groups
  let inner := if count = 0 then writeGroups groups
    else writeGroups (groups.take start) ++ "::" ++ writeGroups (groups.drop (start + count))
  ("[" ++ inner ++ "]").toList

/-- An address between brackets, as it is written. -/
def bracketed? (host : Text) : Option Text :=
  match host with
  | '[' :: inner =>
    if inner.getLast? = some ']' then (address6? inner.dropLast).map writeAddress6 else none
  | _ => none

/-! ## Hosts -/

/-- A character that no domain holds. -/
def isForbiddenInDomain (c : Char) : Bool :=
  c.toNat ≤ 0x20 || c.toNat = 0x7F ||
    ['%', '#', '/', ':', '<', '>', '?', '@', '[', '\\', ']', '^', '|'].contains c

/-- A host of a special scheme in its normal form. -/
def special? (host : Text) : Option Text :=
  if host.head? = some '[' then bracketed? host
  else do
    let domain ← Domain.ascii? (decodeUtf8 (Percent.decode host))
    if domain.isEmpty || domain.any isForbiddenInDomain then none
    else if endsInNumber domain then address4? domain
    else some domain

/-- A character that no host holds. -/
def isForbidden (c : Char) : Bool :=
  ['\x00', '\t', '\n', '\r', ' ', '#', '/', ':', '<', '>', '?', '@', '[', '\\', ']', '^',
    '|'].contains c

/-- A host of a scheme that is not special. -/
def other? (host : Text) : Option Text :=
  if host.head? = some '[' then bracketed? host
  else if host.any isForbidden then none
  else some (Percent.encode [] host)

end Host

end StyleServer
