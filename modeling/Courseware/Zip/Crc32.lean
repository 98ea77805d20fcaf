import Courseware.Text.Utf8

/-!
The checksum of archive entries, CRC-32: the remainder of a division of polynomials over two elements,
with the bits of every byte taken from the lowest on.
-/

namespace Courseware.Zip

/-- One step of the division. -/
def crcStep (c : UInt32) : UInt32 :=
  if c &&& 1 = 1 then (c >>> 1) ^^^ 0xEDB88320 else c >>> 1

/-- Eight steps, for the bits of one byte. -/
def crcByte (c : UInt32) (b : UInt8) : UInt32 :=
  let c := c ^^^ b.toUInt32
  crcStep (crcStep (crcStep (crcStep (crcStep (crcStep (crcStep (crcStep c)))))))

def crc32 (bytes : Bytes) : UInt32 :=
  bytes.foldl crcByte 0xFFFFFFFF ^^^ 0xFFFFFFFF

end Courseware.Zip
