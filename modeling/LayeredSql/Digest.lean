/-! # 64-bit digest of a text

The XXH64 checksum of the UTF-8 bytes of a text. Four lanes absorb the bytes in stripes of 32; the
lanes are merged, the remaining bytes are folded in by eight, four and one, and a final mix spreads
every bit. Several parts are digested as one text with a record separator between them. -/

namespace LayeredSql.Digest

def prime1 : UInt64 := 0x9E3779B185EBCA87
def prime2 : UInt64 := 0xC2B2AE3D27D4EB4F
def prime3 : UInt64 := 0x165667B19E3779F9
def prime4 : UInt64 := 0x85EBCA77C2B2AE63
def prime5 : UInt64 := 0x27D4EB2F165667C5

/-- The seed of every digest in this library. -/
def seed : UInt64 := 0x517CC1B727220A95

def rotateLeft (x k : UInt64) : UInt64 := (x <<< k) ||| (x >>> (64 - k))

/-- The number with the given bytes, lowest first. -/
def littleEndian (bytes : List UInt8) : UInt64 :=
  bytes.foldr (fun b acc => (acc <<< 8) ||| b.toUInt64) 0

def round (acc input : UInt64) : UInt64 := rotateLeft (acc + input * prime2) 31 * prime1

structure Lanes where
  first : UInt64
  second : UInt64
  third : UInt64
  fourth : UInt64

def Lanes.start : Lanes := ⟨seed + prime1 + prime2, seed + prime2, seed, seed - prime1⟩

/-- Feeds one stripe of 32 bytes, eight to each lane. -/
def Lanes.absorb (l : Lanes) (bytes : List UInt8) : Lanes where
  first := round l.first (littleEndian (bytes.take 8))
  second := round l.second (littleEndian ((bytes.drop 8).take 8))
  third := round l.third (littleEndian ((bytes.drop 16).take 8))
  fourth := round l.fourth (littleEndian ((bytes.drop 24).take 8))

/-- Feeds `n` stripes and gives back the bytes behind them. -/
def Lanes.absorbStripes : Nat → Lanes → List UInt8 → Lanes × List UInt8
  | 0, l, bytes => (l, bytes)
  | n + 1, l, bytes => Lanes.absorbStripes n (l.absorb bytes) (bytes.drop 32)

def mergeLane (acc lane : UInt64) : UInt64 := (acc ^^^ round 0 lane) * prime1 + prime4

def Lanes.merge (l : Lanes) : UInt64 :=
  [l.first, l.second, l.third, l.fourth].foldl mergeLane
    (rotateLeft l.first 1 + rotateLeft l.second 7 + rotateLeft l.third 12 + rotateLeft l.fourth 18)

/-- Folds in the bytes behind the last stripe: by eight while they last, then four, then one. -/
def absorbTail (acc : UInt64) : List UInt8 → UInt64
  | b0 :: b1 :: b2 :: b3 :: b4 :: b5 :: b6 :: b7 :: rest =>
    let word := littleEndian [b0, b1, b2, b3, b4, b5, b6, b7]
    absorbTail (rotateLeft (acc ^^^ round 0 word) 27 * prime1 + prime4) rest
  | b0 :: b1 :: b2 :: b3 :: rest =>
    let word := littleEndian [b0, b1, b2, b3]
    absorbTail (rotateLeft (acc ^^^ (word * prime1)) 23 * prime2 + prime3) rest
  | b :: rest => absorbTail (rotateLeft (acc ^^^ (b.toUInt64 * prime5)) 11 * prime1) rest
  | [] => acc

def avalanche (h : UInt64) : UInt64 :=
  let h := (h ^^^ (h >>> 33)) * prime2
  let h := (h ^^^ (h >>> 29)) * prime3
  h ^^^ (h >>> 32)

def ofBytes (bytes : List UInt8) : UInt64 :=
  let size := bytes.length
  if 32 ≤ size then
    let (lanes, rest) := Lanes.absorbStripes (size / 32) Lanes.start bytes
    avalanche (absorbTail (lanes.merge + size.toUInt64) rest)
  else avalanche (absorbTail (seed + prime5 + size.toUInt64) bytes)

def ofText (s : String) : UInt64 := ofBytes s.toUTF8.toList

/-- The text that stands for several parts: the parts with U+001E between them. -/
def joinParts (parts : List String) : String := "\x1E".intercalate parts

def ofParts (parts : List String) : UInt64 := ofText (joinParts parts)

/-- The `n` lowest hexadecimal digits of `value`, highest first. -/
def hexDigits : Nat → Nat → List Char
  | 0, _ => []
  | n + 1, value => hexDigits n (value / 16) ++ [Nat.digitChar (value % 16)]

/-- A digest as 16 lowercase hexadecimal digits. -/
def hex (digest : UInt64) : String := String.ofList (hexDigits 16 digest.toNat)

end LayeredSql.Digest
