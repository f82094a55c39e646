/-!
# Deflated data

Data in blocks: stored, or coded by prefix codes for literals, lengths and distances, which are
either fixed or given by the block. Bits are read from the lowest one of each byte up.

Expanded data are handed over in pieces: a piece when it is full, and what there is of it when the
expansion goes on to the next part of the file. When the file ends too early, everything that has
been expanded is recovered. Data that turn out to be corrupt take the piece they are in with them.
-/

namespace CompactRinex.Gzip

/-- Why compressed data cannot be expanded. -/
inductive InflateError where
  /-- The data end too early. -/
  | unexpectedEnd
  /-- The data are not in this format. -/
  | corrupt
  deriving DecidableEq, Repr

/-! ## Pieces -/

/-- The most bytes that a piece can hold. -/
def pieceSize : Nat := 8192

/-- The number of bytes in a part of the file. -/
def partSize : Nat := 32768

/-- How far an expansion has come. -/
structure Expansion where
  /-- The position of the next bit of the file. -/
  pos : Nat
  /-- The data so far. -/
  data : ByteArray
  /-- How many bytes of the data have been handed over. -/
  settled : Nat

namespace Expansion

/-- Nothing has been expanded of the data that start at a byte. -/
def start (byte : Nat) : Expansion := ⟨8 * byte, .empty, 0⟩

/-- Hands over the present piece. -/
def settle (e : Expansion) : Expansion := { e with settled := e.data.size }

/-- Makes room for a further byte: a full piece is handed over. -/
def makeRoom (e : Expansion) : Expansion :=
  if e.data.size = e.settled + pieceSize then e.settle else e

/-- The data followed by one more byte. -/
def push (e : Expansion) (b : UInt8) : Expansion :=
  let roomy := e.makeRoom
  { roomy with data := roomy.data.push b }

/-- The data followed by `n` bytes, each the one `distance` before it. -/
def copyBack (distance : Nat) : Nat → Expansion → Expansion
  | 0, e => e
  | n + 1, e => copyBack distance n (e.push (e.data[e.data.size - distance]?.getD 0))

/-- The data that have been handed over. -/
def handedOver (e : Expansion) : ByteArray := e.data.extract 0 e.settled

end Expansion

/-- An action on compressed data: from a file and the expansion so far to an answer or an error and
the expansion after it. -/
abbrev Inflater := ReaderT ByteArray (ExceptT InflateError (StateM Expansion))

/-! ## Bits -/

/-- The next bit. The first one of a part of the file comes after a piece is handed over. -/
def bit : Inflater Nat := fun bytes e =>
  let e := if e.pos % (8 * partSize) = 0 then e.settle else e
  match bytes[e.pos / 8]? with
  | some b => (.ok ((b.toNat >>> (e.pos % 8)) % 2), { e with pos := e.pos + 1 })
  | none => (.error .unexpectedEnd, e)

/-- The number of the next `n` bits, the lowest first. -/
def bits : Nat → Inflater Nat
  | 0 => pure 0
  | n + 1 => do
    let low ← bit
    let high ← bits n
    pure (low + 2 * high)

/-- Skips to the start of a byte. -/
def alignByte : Inflater Unit := modify fun e => { e with pos := (e.pos + 7) / 8 * 8 }

/-- Adds a byte to the data. -/
def emit (b : Nat) : Inflater Unit := modify (·.push (UInt8.ofNat b))

/-- Adds `length` bytes to the data, each the one `distance` before it. -/
def copy (length distance : Nat) : Inflater Unit := fun _ e =>
  let e := e.makeRoom
  if distance ≤ e.data.size then (.ok (), e.copyBack distance length) else (.error .corrupt, e)

/-- A value that has to be valid. -/
def checked {α : Type} (valid : α → Bool) (value : α) : Inflater α :=
  if valid value then pure value else throw .corrupt

/-! ## Prefix codes -/

/-- A canonical prefix code: how many words there are of each length from 1 to the greatest, and the
symbols in order of their words. -/
structure PrefixCode where
  counts : List Nat
  symbols : Array Nat

namespace PrefixCode

/-- The code that gives each symbol a word of its length; length 0 is for symbols without a word. A
code without words is taken to have lengths up to 1. -/
def ofLengths (lengths : List Nat) : PrefixCode where
  counts := (List.range (lengths.foldl max 1)).map fun l => lengths.count (l + 1)
  symbols := ((List.range (lengths.foldl max 1)).flatMap fun l =>
    (lengths.zipIdx.filter fun p => p.1 == l + 1).map Prod.snd).toArray

/-- The code of the lengths in a block. Without words it gives length 0 for every bit. -/
def ofLengthLengths (lengths : List Nat) : PrefixCode :=
  if lengths.all (· == 0) then ⟨[2], #[0, 0]⟩ else ofLengths lengths

/-- The number of words of the greatest length that start with no word of the code; negative if the
code has more words than there can be. -/
def spare (code : PrefixCode) : Int :=
  code.counts.foldl (fun (left : Int) (count : Nat) => 2 * left - count) 1

/-- Every sequence of bits starts with a word. -/
def isComplete (code : PrefixCode) : Bool := code.spare == 0

/-- The code is complete, or has at most one word, which is of one bit. -/
def isUsable (code : PrefixCode) : Bool :=
  code.isComplete || code.symbols.isEmpty || code.counts == [1]

/-- The symbol of the next word: `word` holds the bits so far, `first` is the first word of the
present length and `index` the place of its symbol. -/
def symbolFrom (symbols : Array Nat) : List Nat → Nat → Nat → Nat → Inflater Nat
  | [], _, _, _ => throw .corrupt
  | count :: counts, word, first, index => do
    let word := word + (← bit)
    if word < first + count then
      match symbols[index + (word - first)]? with
      | some s => pure s
      | none => throw .corrupt
    else symbolFrom symbols counts (2 * word) (2 * (first + count)) (index + count)

/-- The symbol of the next word. -/
def symbol (code : PrefixCode) : Inflater Nat := symbolFrom code.symbols code.counts 0 0 0

/-- The fixed code of literals and lengths. -/
def fixedLiterals : PrefixCode :=
  ofLengths (List.replicate 144 8 ++ List.replicate 112 9 ++ List.replicate 24 7 ++
    List.replicate 8 8)

/-- The fixed code of distances. -/
def fixedDistances : PrefixCode := ofLengths (List.replicate 32 5)

end PrefixCode

/-! ## Copies -/

/-- The least length and the number of further bits of each length symbol from 257 on. -/
def lengthTable : List (Nat × Nat) :=
  [(3, 0), (4, 0), (5, 0), (6, 0), (7, 0), (8, 0), (9, 0), (10, 0), (11, 1), (13, 1), (15, 1),
    (17, 1), (19, 2), (23, 2), (27, 2), (31, 2), (35, 3), (43, 3), (51, 3), (59, 3), (67, 4),
    (83, 4), (99, 4), (115, 4), (131, 5), (163, 5), (195, 5), (227, 5), (258, 0)]

/-- The least distance and the number of further bits of each distance symbol. -/
def distanceTable : List (Nat × Nat) :=
  [(1, 0), (2, 0), (3, 0), (4, 0), (5, 1), (7, 1), (9, 2), (13, 2), (17, 3), (25, 3), (33, 4),
    (49, 4), (65, 5), (97, 5), (129, 6), (193, 6), (257, 7), (385, 7), (513, 8), (769, 8),
    (1025, 9), (1537, 9), (2049, 10), (3073, 10), (4097, 11), (6145, 11), (8193, 12), (12289, 12),
    (16385, 13), (24577, 13)]

/-- The number that an entry of a table and the bits after its symbol give. -/
def extended (table : List (Nat × Nat)) (entry : Nat) : Inflater Nat :=
  match table[entry]? with
  | some (least, more) => do
    let extra ← bits more
    pure (least + extra)
  | none => throw .corrupt

/-- The copy whose length symbol has been read. -/
def copyFrom (distances : PrefixCode) (symbol : Nat) : Inflater Unit := do
  let length ← extended lengthTable (symbol - 257)
  let distance ← extended distanceTable (← distances.symbol)
  copy length distance

/-! ## Blocks -/

/-- The rest of a coded block, of at most `fuel` symbols. -/
def codedBlock (literals distances : PrefixCode) : Nat → Inflater Unit
  | 0 => throw .corrupt
  | fuel + 1 => do
    let symbol ← literals.symbol
    if symbol < 256 then
      emit symbol
      codedBlock literals distances fuel
    -- Symbol 256 ends the block.
    else if symbol = 256 then pure ()
    else
      copyFrom distances symbol
      codedBlock literals distances fuel

/-- The next `n` bytes, as they are. -/
def rawBytes : Nat → Inflater Unit
  | 0 => pure ()
  | n + 1 => do
    emit (← bits 8)
    rawBytes n

/-- A stored block: its length, given twice, and its bytes. -/
def storedBlock : Inflater Unit := do
  alignByte
  let length ← bits 16
  let complement ← bits 16
  if length + complement = 65535 then rawBytes length else throw .corrupt

/-- The order in which the lengths of the code of lengths are given. -/
def lengthOrder : List Nat := [16, 17, 18, 0, 8, 7, 9, 6, 10, 5, 11, 4, 12, 3, 13, 2, 14, 1, 15]

/-- `count` lengths, after those in `known`, the latest first; at most `fuel` symbols. -/
def codeLengths (code : PrefixCode) (count : Nat) : Nat → List Nat → Inflater (List Nat)
  | 0, _ => throw .corrupt
  | fuel + 1, known =>
    if known.length = count then pure known.reverse
    else if known.length > count then throw .corrupt
    else do
      let symbol ← code.symbol
      if symbol < 16 then codeLengths code count fuel (symbol :: known)
      else if symbol = 16 then
        let n ← bits 2
        match known with
        | [] => throw .corrupt
        | latest :: _ => codeLengths code count fuel (List.replicate (n + 3) latest ++ known)
      else
        let n ← if symbol = 17 then (· + 3) <$> bits 3 else (· + 11) <$> bits 7
        codeLengths code count fuel (List.replicate n 0 ++ known)

/-- How many lengths a block gives: of literals, of distances, and of the code of lengths. -/
def lengthCounts : Inflater (Nat × Nat × Nat) := do
  let counts ← bits 14
  checked (fun c => c.1 ≤ 286 && c.2.1 ≤ 30)
    (counts % 32 + 257, counts / 32 % 32 + 1, counts / 1024 + 4)

/-- The codes that a block gives. There is always a word for the end of the block. -/
def blockCodes : Inflater (PrefixCode × PrefixCode) := do
  let (literals, distances, given) ← lengthCounts
  let lengths ← (List.range given).mapM fun _ => bits 3
  let ordered := lengthOrder.zip lengths
  let code ← checked PrefixCode.isComplete
    (.ofLengthLengths ((List.range 19).map fun s => (ordered.lookup s).getD 0))
  let all ← codeLengths code (literals + distances) (literals + distances + 1) []
  -- A block that cannot be ended is refused.
  let all ← checked (fun lengths => lengths.getD 256 0 != 0) all
  let literalCode ← checked PrefixCode.isUsable (.ofLengths (all.take literals))
  let distanceCode ← checked PrefixCode.isUsable (.ofLengths (all.drop literals))
  pure (literalCode, distanceCode)

/-- A block of the given kind. -/
def block (kind : Nat) : Inflater Unit := do
  let fuel := 8 * (← read).size + 1
  match kind with
  | 0 => storedBlock
  | 1 => codedBlock .fixedLiterals .fixedDistances fuel
  | 2 =>
    let (literals, distances) ← blockCodes
    codedBlock literals distances fuel
  | _ => throw .corrupt

/-- The blocks up to the last one, at most `fuel` of them. The head of a block says whether it is
the last, and its kind. -/
def blocks : Nat → Inflater Unit
  | 0 => throw .corrupt
  | fuel + 1 => do
    let last ← bit
    block (← bits 2)
    if last = 1 then pure () else blocks fuel

/-- Expands the data of a file that start at a byte. -/
def inflate (file : ByteArray) (start : Nat) : Except InflateError Unit × Expansion :=
  blocks (8 * file.size + 1) file (.start start)

end CompactRinex.Gzip
