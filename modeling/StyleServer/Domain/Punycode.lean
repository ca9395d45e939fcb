/-
  Labels of domains in ASCII.

  A label with other characters is written in letters, digits and hyphens: its
  ASCII characters, a hyphen when there are any, and then a code for the others.
  The code tells in increasing order of the characters where each of them is to
  be inserted, as the difference to the place before, in digits of base
  thirty-six.  A digit below a threshold, which moves with the differences so
  far, ends a number.

  `Punycode.encode` writes a label and `Punycode.decode?` reads one.
-/
import StyleServer.Text.Utf8

namespace StyleServer

namespace Punycode

/-! ## Numbers -/

/-- A digit. -/
def digitChar (n : Nat) : Char := Char.ofNat (if n < 26 then 0x61 + n else 0x16 + n)

/-- The value of a digit. -/
def digitValue? (c : Char) : Option Nat :=
  if c.isLower then some (c.toNat - 0x61)
  else if c.isDigit then some (c.toNat - 0x16)
  else none

/-- The threshold at a place of a number, places being counted in steps of thirty-six. -/
def threshold (bias place : Nat) : Nat :=
  if place ≤ bias then 1 else if bias + 26 ≤ place then 26 else place - bias

theorem threshold_pos (bias place : Nat) : 1 ≤ threshold bias place := by
  unfold threshold
  split
  · omega
  · split <;> omega

/-- Divides a difference until it is small, counting the steps. -/
def shrink (delta place : Nat) : Nat × Nat :=
  if 455 < delta then shrink (delta / 35) (place + 36) else (delta, place)
termination_by delta
decreasing_by omega

/-- The bias behind a difference, `count` characters being there; the first one counts
    less. -/
def adapt (delta count : Nat) (isFirst : Bool) : Nat :=
  let delta := if isFirst then delta / 700 else delta / 2
  let (delta, place) := shrink (delta + delta / count) 0
  place + 36 * delta / (delta + 38)

/-- A number from a place on. -/
def writeNumber (bias place n : Nat) : Text :=
  let t := threshold bias place
  if n < t then [digitChar n]
  else
    digitChar (t + (n - t) % (36 - t)) :: writeNumber bias (place + 36) ((n - t) / (36 - t))
termination_by n
decreasing_by
  have h := threshold_pos bias place
  have h' : (n - threshold bias place) / (36 - threshold bias place) ≤ n - threshold bias place :=
    Nat.div_le_self ..
  omega

/-! ## Writing -/

/-- A point inside the writing of a label. -/
structure Writer where
  delta : Nat
  bias : Nat
  /-- The number of characters that are written. -/
  count : Nat
  /-- The code, its last digit first. -/
  code : Text

/-- Passes a character of the label while the occurrences of the one with number `n` are
    written. -/
def Writer.pass (ascii n : Nat) (w : Writer) (c : Char) : Writer :=
  if c.toNat < n then { w with delta := w.delta + 1 }
  else if c.toNat = n then
    { delta := 0
      bias := adapt w.delta (w.count + 1) (w.count = ascii)
      count := w.count + 1
      code := (writeNumber w.bias 36 w.delta).reverse ++ w.code }
  else w

/-- Writes the characters of a label whose numbers are given in increasing order, from
    `least` on. -/
def Writer.write (label : Text) (ascii : Nat) : Nat → List Nat → Writer → Writer
  | _, [], w => w
  | least, n :: ns, w =>
    let w := { w with delta := w.delta + (n - least) * (w.count + 1) }
    let w := label.foldl (Writer.pass ascii n) w
    write label ascii (n + 1) ns { w with delta := w.delta + 1 }

/-- A character of ASCII. -/
def isAscii (c : Char) : Bool := c.toNat < 0x80

/-- The code of a label. -/
def encode (label : Text) : Text :=
  let ascii := label.filter isAscii
  let others := ((label.filter (!isAscii ·)).map Char.toNat).mergeSort.eraseReps
  let w := Writer.write label ascii.length 0x80 others ⟨0, 72, ascii.length, []⟩
  (if ascii.isEmpty then [] else ascii ++ ['-']) ++ w.code.reverse

/-! ## Reading -/

/-- Numbers of a code stay below this one. -/
def bound : Nat := 4294967296

/-- Reads a number from a place on, whose digits weigh `weight`, and adds it to `sum`;
    leaves the rest of the code. -/
def readNumber? (bias : Nat) : Nat → Nat → Nat → Text → Option (Nat × Text)
  | _, _, _, [] => none
  | place, weight, sum, c :: rest => do
    let digit ← digitValue? c
    let sum := sum + digit * weight
    let t := threshold bias place
    if sum ≥ bound then none
    else if digit < t then return (sum, rest)
    else if weight * (36 - t) ≥ bound then none
    else readNumber? bias (place + 36) (weight * (36 - t)) sum rest

theorem readNumber?_length {bias place weight sum n : Nat} {code rest : Text}
    (h : readNumber? bias place weight sum code = some (n, rest)) :
    rest.length < code.length := by
  induction code generalizing place weight sum with
  | nil => simp [readNumber?] at h
  | cons c cs ih =>
    simp only [readNumber?, Option.bind_eq_bind, Option.bind_eq_some_iff] at h
    obtain ⟨digit, -, h⟩ := h
    split at h
    · cases h
    · split at h
      · simp only [Option.pure_def, Option.some.injEq, Prod.mk.injEq] at h
        simp [← h.2]
      · split at h
        · cases h
        · exact Nat.lt_succ_of_lt (ih h)

/-- Inserts the characters of a code into a label: `n` is the number of the last one, and
    the next is inserted from `place` on. -/
def insertAll? (bias n place : Nat) (label code : Text) : Option Text :=
  if code.isEmpty then some label
  else match _h : readNumber? bias 36 1 place code with
    | none => none
    | some (sum, rest) =>
      let count := label.length + 1
      let n := n + sum / count
      let place' := sum % count
      if n.isValidChar then
        insertAll? (adapt (sum - place) count (place = 0)) n (place' + 1)
          (label.take place' ++ Char.ofNat n :: label.drop place') rest
      else none
termination_by code.length
decreasing_by exact readNumber?_length _h

/-- The label of a code.  The last hyphen, unless it comes first, ends the ASCII
    characters. -/
def decode? (code : Text) : Option Text :=
  let behind := (code.reverse.takeWhile (· != '-')).reverse
  let ascii := code.take (code.length - behind.length - 1)
  if ascii.isEmpty then insertAll? 72 0x80 0 [] code
  else insertAll? 72 0x80 0 ascii behind

end Punycode

end StyleServer
