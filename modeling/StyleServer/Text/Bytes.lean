/-
  Texts as bytes.

  * `Text.bytes`: the UTF-8 form.
  * `decodeUtf8`: reads bytes back.  Bytes that are no UTF-8 give U+FFFD, one for
    each longest beginning of a character.
-/
import StyleServer.Text.Utf8

namespace StyleServer

/-- The UTF-8 form of a text. -/
def Text.bytes (text : Text) : List UInt8 := text.flatMap String.utf8EncodeChar

/-- What a first byte asks for: its own bits, the range of the byte behind it, and how
    many bytes follow that one. -/
structure Utf8Lead where
  bits : Nat
  low : Nat
  high : Nat
  more : Nat

/-- What a first byte of several asks for. -/
def Utf8Lead.of? (b : Nat) : Option Utf8Lead :=
  if 0xC2 ≤ b ∧ b ≤ 0xDF then some ⟨b - 0xC0, 0x80, 0xBF, 0⟩
  else if b = 0xE0 then some ⟨0, 0xA0, 0xBF, 1⟩
  else if b = 0xED then some ⟨0xD, 0x80, 0x9F, 1⟩
  else if 0xE1 ≤ b ∧ b ≤ 0xEF then some ⟨b - 0xE0, 0x80, 0xBF, 1⟩
  else if b = 0xF0 then some ⟨0, 0x90, 0xBF, 2⟩
  else if b = 0xF4 then some ⟨4, 0x80, 0x8F, 2⟩
  else if 0xF1 ≤ b ∧ b ≤ 0xF3 then some ⟨b - 0xF0, 0x80, 0xBF, 2⟩
  else none

/-- The character that stands for bytes which are none. -/
def replacement : Char := '\ufffd'

/-- The character of which `value` has been read and `more` bytes are to come. -/
def continueUtf8 (value more low high : Nat) : List UInt8 → Char × List UInt8
  | [] => (replacement, [])
  | b :: rest =>
    if low ≤ b.toNat ∧ b.toNat ≤ high then
      let value := value * 64 + (b.toNat - 0x80)
      match more with
      | 0 => (Char.ofNat value, rest)
      | more + 1 => continueUtf8 value more 0x80 0xBF rest
    else (replacement, b :: rest)

theorem continueUtf8_length (value more low high : Nat) (bytes : List UInt8) :
    (continueUtf8 value more low high bytes).2.length ≤ bytes.length := by
  induction bytes generalizing value more low high with
  | nil => simp [continueUtf8]
  | cons b rest ih =>
    unfold continueUtf8
    split
    · cases more with
      | zero => simp
      | succ more => exact Nat.le_succ_of_le (ih ..)
    · simp

/-- The text of bytes. -/
def decodeUtf8 (bytes : List UInt8) : Text :=
  match bytes with
  | [] => []
  | b :: rest =>
    if b.toNat < 0x80 then Char.ofNat b.toNat :: decodeUtf8 rest
    else match Utf8Lead.of? b.toNat with
      | none => replacement :: decodeUtf8 rest
      | some lead =>
        let read := continueUtf8 lead.bits lead.more lead.low lead.high rest
        read.1 :: decodeUtf8 read.2
termination_by bytes.length
decreasing_by
  · simp
  · simp
  · have := continueUtf8_length lead.bits lead.more lead.low lead.high rest
    simp only [List.length_cons]
    omega

end StyleServer
