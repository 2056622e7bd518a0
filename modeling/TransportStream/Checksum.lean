import TransportStream.Bytes

/-!
# The CRC-32 of sections

Sections end with a cyclic redundancy check over the polynomial `0x04c11db7`: the register starts
with all bits set, bits enter it from the most significant one of each byte on, and nothing is
inverted at the end.  The check is made so that running it over a section together with its own
CRC field leaves zero.

## One byte at a time

Eight single-bit steps depend on the register only through its top byte, so what they add to the
rest of the register is looked up: `table` holds it for each of the 256 values of that byte, and
`step` does eight steps at once.
-/

namespace TransportStream.Checksum

/-- The generator polynomial without its leading term. -/
def polynomial : UInt32 := 0x04c11db7

/-- The value of the register before the first bit. -/
def initial : UInt32 := 0xffffffff

/-- One step of the register when a zero bit enters: the bit that leaves decides whether the
polynomial is added. -/
def shift (register : UInt32) : UInt32 :=
  if register &&& 0x80000000 = 0 then register <<< 1 else (register <<< 1) ^^^ polynomial

/-- Eight such steps. -/
def shiftByte (register : UInt32) : UInt32 :=
  shift (shift (shift (shift (shift (shift (shift (shift register)))))))

/-- What a byte that leaves the register adds to it, for every byte. -/
def table : Vector UInt32 256 :=
  Vector.ofFn fun i => shiftByte (UInt32.ofNat i.val <<< 24)

theorem get_table (i : Fin 256) : table.get i = shiftByte (UInt32.ofNat i.val <<< 24) :=
  Vector.getElem_ofFn i.isLt

/-- The register after one more byte. -/
def step (register : UInt32) (b : UInt8) : UInt32 :=
  (register <<< 8) ^^^ table.get ((register >>> 24).toUInt8 ^^^ b).toFin

/-- The CRC-32 of a byte string. -/
def sum (bytes : Bytes) : UInt32 :=
  bytes.foldl step initial

@[simp] theorem sum_nil : sum [] = initial := rfl

theorem sum_append (x y : Bytes) : sum (x ++ y) = y.foldl step (sum x) :=
  List.foldl_append

end TransportStream.Checksum
