import Shortfall.Yaml.Fault

/-!
# Characters of a YAML document

A document is read in blocks of 512 bytes, in UTF-8 or, after a byte order mark, in UTF-16. The
characters of a block become available together, and a block with a byte that cannot be read is
none: reading it fails, whenever it comes to that, though the characters in front of the byte can
be used by whoever goes on nevertheless. A character that is cut off by the end of the document
makes reading fail behind the last block.
-/

namespace Shortfall.Yaml

/-- The characters that can be read, and what stops the reading behind them. -/
structure Source where
  chars : List Char
  /-- The numbers of characters in the blocks that can be read. -/
  blocks : List Nat
  broken? : Option Problem
  deriving Repr

inductive Encoding where
  | utf8
  | utf16le
  | utf16be
  deriving DecidableEq, Repr

/-- The outcome of reading one character. -/
inductive Decoded where
  | char (c : Char) (width : Nat)
  /-- More bytes are needed. -/
  | cut (problem : Problem)
  | bad (problem : Problem)

def isAllowed (point : Nat) : Bool :=
  point = 0x09 || point = 0x0A || point = 0x0D || (0x20 ≤ point && point ≤ 0x7E)
    || point = 0x85 || (0xA0 ≤ point && point ≤ 0xD7FF) || (0xE000 ≤ point && point ≤ 0xFFFD)
    || (0x10000 ≤ point && point ≤ 0x10FFFF)

def Decoded.ofPoint (point width : Nat) : Decoded :=
  if isAllowed point then .char (Char.ofNat point) width else .bad .controlCharacter

/-- The value of the trailing bytes behind what was read so far. -/
def trailing? (value : Nat) : Text → Option Nat
  | [] => some value
  | byte :: rest =>
      if byte &&& 0xC0 = 0x80 then trailing? (value * 64 + byte.toNat % 64) rest else none

def utf8Unit (lead : UInt8) (rest : Text) : Decoded :=
  let sequence := fun (width bits least : Nat) =>
    if rest.length + 1 < width then Decoded.cut .incompleteSequence
    else match trailing? (lead.toNat % bits) (rest.take (width - 1)) with
      | none => Decoded.bad .badTrailingOctet
      | some value =>
          if value < least then .bad .badSequenceLength
          else if (0xD800 ≤ value && value ≤ 0xDFFF) || value > 0x10FFFF then .bad .badCodePoint
          else Decoded.ofPoint value width
  if lead < 0x80 then Decoded.ofPoint lead.toNat 1
  else if lead &&& 0xE0 = 0xC0 then sequence 2 32 0x80
  else if lead &&& 0xF0 = 0xE0 then sequence 3 16 0x800
  else if lead &&& 0xF8 = 0xF0 then sequence 4 8 0x10000
  else .bad .badLeadingOctet

def utf16Unit (unitOf : UInt8 → UInt8 → Nat) : Text → Decoded
  | a :: b :: rest =>
      let unit := unitOf a b
      if 0xDC00 ≤ unit && unit < 0xE000 then .bad .strayLowSurrogate
      else if 0xD800 ≤ unit && unit < 0xDC00 then
        match rest with
        | c :: d :: _ =>
            let low := unitOf c d
            if 0xDC00 ≤ low && low < 0xE000 then
              Decoded.ofPoint (0x10000 + (unit - 0xD800) * 0x400 + (low - 0xDC00)) 4
            else .bad .missingLowSurrogate
        | _ => .cut .incompletePair
      else Decoded.ofPoint unit 2
  | _ => .cut .incompleteUnit

def Encoding.unit (encoding : Encoding) (lead : UInt8) (rest : Text) : Decoded :=
  match encoding with
  | .utf8 => utf8Unit lead rest
  | .utf16le => utf16Unit (fun a b => b.toNat * 256 + a.toNat) (lead :: rest)
  | .utf16be => utf16Unit (fun a b => a.toNat * 256 + b.toNat) (lead :: rest)

/-- How a block ended: read to its end, in front of a character that needs more bytes, or at a
byte that cannot be read. -/
inductive BlockEnd where
  | done
  | cut (problem : Problem) (remaining : Nat)
  | bad (problem : Problem)

/-- The characters of a block; `pending` bytes of it belong to the character read last. -/
def readBlock (encoding : Encoding) : (pending : Nat) → Text → List Char × BlockEnd
  | _, [] => ([], .done)
  | pending + 1, _ :: rest => readBlock encoding pending rest
  | 0, lead :: rest =>
      match encoding.unit lead rest with
      | .char c width =>
          let (chars, blockEnd) := readBlock encoding (width - 1) rest
          (c :: chars, blockEnd)
      | .cut problem => ([], .cut problem (rest.length + 1))
      | .bad problem => ([], .bad problem)

def blockSize : Nat := 512

/-- Reads block after block. The bytes of a character that a block cuts off are read again with
the next one. `skipped` bytes of the first block do not count. -/
def readBlocks (encoding : Encoding) : (fuel : Nat) → (skipped : Nat) → Text → Source
  | 0, _, _ => ⟨[], [], none⟩
  | fuel + 1, skipped, bytes =>
      if bytes.isEmpty then ⟨[], [], none⟩
      else
        let (chars, blockEnd) := readBlock encoding 0 ((bytes.take blockSize).drop skipped)
        match blockEnd with
        | .bad problem => ⟨chars, [], some problem⟩
        | .done =>
            let more := readBlocks encoding fuel 0 (bytes.drop blockSize)
            ⟨chars ++ more.chars, chars.length :: more.blocks, more.broken?⟩
        | .cut problem remaining =>
            if bytes.length ≤ blockSize then ⟨chars, [chars.length], some problem⟩
            else
              let more := readBlocks encoding fuel 0 (bytes.drop (blockSize - remaining))
              ⟨chars ++ more.chars, chars.length :: more.blocks, more.broken?⟩

/-- The characters of a document. A byte order mark counts as part of the first block. -/
def Source.ofText (text : Text) : Source :=
  let (encoding, skipped) :=
    match text with
    | 0xFF :: 0xFE :: _ => (Encoding.utf16le, 2)
    | 0xFE :: 0xFF :: _ => (Encoding.utf16be, 2)
    | 0xEF :: 0xBB :: 0xBF :: _ => (Encoding.utf8, 3)
    | _ => (Encoding.utf8, 0)
  readBlocks encoding (text.length + 1) skipped text

end Shortfall.Yaml
