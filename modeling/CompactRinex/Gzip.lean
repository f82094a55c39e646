import CompactRinex.Gzip.Deflate
import CompactRinex.Outcome

/-!
# Gzip files

A gzip file is a header, deflated data, and a checksum and the length of the data. `unpack` gives
the data, as far as they can be recovered; `pack` makes a gzip file of stored blocks.
-/

namespace CompactRinex.Gzip

/-- Why a gzip file cannot be read to its end. -/
inductive GzipError where
  /-- The header is that of another format. -/
  | badHeader
  /-- A string of the header is too long. -/
  | longField
  /-- The header or the checksum ends too early. -/
  | unexpectedEnd
  /-- The deflated data end too early. -/
  | incompleteData
  /-- The data are not deflated data. -/
  | corruptData
  /-- The checksum or the length is that of other data. -/
  | badChecksum
  deriving DecidableEq, Repr

/-! ## Checksums -/

/-- One bit of the division that gives the checksum. -/
def crcBit (crc : UInt32) : UInt32 :=
  if crc &&& 1 = 1 then (crc >>> 1) ^^^ 0xEDB88320 else crc >>> 1

/-- One byte of the division that gives the checksum. -/
def crcByte (crc : UInt32) (b : UInt8) : UInt32 := Nat.repeat crcBit 8 (crc ^^^ b.toUInt32)

/-- The checksum CRC-32. -/
def crc32 (bytes : ByteArray) : UInt32 := bytes.foldl crcByte 0xFFFFFFFF ^^^ 0xFFFFFFFF

/-- The lowest `width` bytes of a number, the lowest first. -/
def littleEndian : Nat → Nat → List UInt8
  | 0, _ => []
  | width + 1, n => UInt8.ofNat n :: littleEndian width (n / 256)

/-! ## Headers -/

/-- The text after `n` bytes. -/
def afterBytes (n : Nat) (bytes : List UInt8) : Except GzipError (List UInt8) :=
  if n ≤ bytes.length then .ok (bytes.drop n) else .error .unexpectedEnd

/-- The text after a field that starts with its length. -/
def afterExtra : List UInt8 → Except GzipError (List UInt8)
  | low :: high :: rest => afterBytes (low.toNat + 256 * high.toNat) rest
  | _ => .error .unexpectedEnd

/-- The most bytes that a string of the header can hold. -/
def stringSize : Nat := 65535

/-- The text after a string that a zero byte ends. -/
def afterString (bytes : List UInt8) : Except GzipError (List UInt8) :=
  if stringSize < (bytes.takeWhile (· != 0)).length then .error .longField
  else match bytes.dropWhile (· != 0) with
    | [] => .error .unexpectedEnd
    | _ :: rest => .ok rest

/-- The text after a checksum of the header, which is the lower half of that of its bytes. -/
def afterHeaderChecksum (file bytes : List UInt8) : Except GzipError (List UInt8) :=
  let header := file.take (file.length - bytes.length)
  match bytes with
  | low :: high :: rest =>
    if [low, high] = littleEndian 2 (crc32 header.toByteArray).toNat then .ok rest
    else .error .badChecksum
  | _ => .error .unexpectedEnd

/-- The flags of a header, which say what parts follow its ten bytes. -/
def headerFlags : List UInt8 → Except GzipError UInt8
  | 0x1F :: 0x8B :: 8 :: flags :: _ => if flags &&& 0xE0 = 0 then .ok flags else .error .badHeader
  | _ => .error .badHeader

/-- The data after the header. -/
def afterHeader (bytes : List UInt8) : Except GzipError (List UInt8) := do
  let rest ← afterBytes 10 bytes
  let flags ← headerFlags bytes
  let rest ← if flags &&& 4 ≠ 0 then afterExtra rest else .ok rest
  let rest ← if flags &&& 8 ≠ 0 then afterString rest else .ok rest
  let rest ← if flags &&& 16 ≠ 0 then afterString rest else .ok rest
  if flags &&& 2 ≠ 0 then afterHeaderChecksum bytes rest else .ok rest

/-! ## Files -/

/-- Whether these bytes are the checksum and the length of the data. What follows them is not
looked at. -/
def checkTrailer (data : ByteArray) (bytes : List UInt8) : Except GzipError Unit := do
  let _ ← afterBytes 8 bytes
  if bytes.take 8 = littleEndian 4 (crc32 data).toNat ++ littleEndian 4 data.size then .ok ()
  else .error .badChecksum

/-- The data of a gzip file as far as they can be recovered, and whether that is all. -/
def unpack (file : List UInt8) : Outcome ByteArray GzipError Unit :=
  match afterHeader file with
  | .error e => .fail .empty e
  | .ok rest =>
    match inflate file.toByteArray (file.length - rest.length) with
    | (.error .corrupt, e) => .fail e.handedOver .corruptData
    | (.error .unexpectedEnd, e) => .fail e.data .incompleteData
    | (.ok (), e) => ⟨e.data, checkTrailer e.data (file.drop ((e.pos + 7) / 8))⟩

/-- The most bytes that a stored block can hold. -/
def blockSize : Nat := 65535

/-- A stored block. -/
def storedBytes (last : Bool) (data : List UInt8) : List UInt8 :=
  (if last then 1 else 0) :: littleEndian 2 data.length ++ littleEndian 2 (65535 - data.length) ++
    data

/-- A gzip file of stored blocks. -/
def pack (data : List UInt8) : List UInt8 :=
  let last := data.length / blockSize
  let stored := (List.range (last + 1)).flatMap fun i =>
    storedBytes (i == last) ((data.drop (blockSize * i)).take blockSize)
  [0x1F, 0x8B, 8, 0, 0, 0, 0, 0, 0, 0xFF] ++ stored ++
    littleEndian 4 (crc32 data.toByteArray).toNat ++ littleEndian 4 data.length

end CompactRinex.Gzip
