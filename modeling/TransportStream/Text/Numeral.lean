/-!
# Numerals of fixed base and width

The messages of this library write identifiers in hexadecimal with a fixed number of digits and a
few small fields in binary.  Numbers that need more digits than asked for are written in full.
-/

namespace TransportStream.Text

/-- The digits of `n` in the given base, padded with zeros in front to `width` digits.  Digits
above nine are lower-case letters. -/
def paddedDigits (base width n : Nat) : String :=
  String.ofList ((Nat.toDigits base n).leftpad width '0')

/-- `n` in hexadecimal with at least `width` digits. -/
def hex (width n : Nat) : String :=
  paddedDigits 16 width n

/-- `n` in hexadecimal with at least `width` digits, marked as such by `0x`. -/
def markedHex (width n : Nat) : String :=
  "0x" ++ hex width n

/-- `n` in binary, marked as such by `0b`. -/
def markedBinary (n : Nat) : String :=
  "0b" ++ paddedDigits 2 1 n

example : markedHex 4 0x100 = "0x0100" := by decide +kernel

example : markedBinary 2 = "0b10" := by decide +kernel

end TransportStream.Text
