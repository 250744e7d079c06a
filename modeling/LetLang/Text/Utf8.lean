/-!
# Decoding UTF-8

Bytes are decoded in order; the first sequence that is not the shortest form of a Unicode scalar
value is a fault. The input comes in blocks, and the position of a fault counts from the beginning
of a block. A sequence that the end of a block or of the input cuts off, also one that can only
become a surrogate, is held back and begins the next block.
-/
namespace LetLang.Text.Utf8

inductive Flaw where
  | start
  | continuation
  | truncated
  deriving DecidableEq, Repr

/-- A faulty sequence: its bytes up to the flaw and the position of the first of them in its
block. -/
structure Fault where
  flaw : Flaw
  bytes : List UInt8
  position : Nat
  deriving DecidableEq, Repr

/-- The range of the second byte after each lead byte of a longer sequence, and the number of
bytes after it; none for a byte that begins no sequence. -/
def lead (byte : UInt8) : Option (UInt8 × UInt8 × Nat) :=
  if 0xC2 ≤ byte ∧ byte ≤ 0xDF then some (0x80, 0xBF, 0)
  else if byte = 0xE0 then some (0xA0, 0xBF, 1)
  else if byte = 0xED then some (0x80, 0x9F, 1)
  else if 0xE1 ≤ byte ∧ byte ≤ 0xEF then some (0x80, 0xBF, 1)
  else if byte = 0xF0 then some (0x90, 0xBF, 2)
  else if byte = 0xF4 then some (0x80, 0x8F, 2)
  else if 0xF1 ≤ byte ∧ byte ≤ 0xF3 then some (0x80, 0xBF, 2)
  else none

/-- The payload of a lead byte with `more + 1` bytes after it. -/
def leadPayload (byte : UInt8) (more : Nat) : Nat :=
  byte.toNat % Nat.pow 2 (5 - more)

/-- The continuation bytes that a sequence has, or its flaw with the bytes that were good. -/
def continuation : (ranges : List (UInt8 × UInt8)) → List UInt8 →
    Except (Flaw × List UInt8) (List UInt8)
  | [], _ => .ok []
  | _ :: _, [] => .error (.truncated, [])
  | (low, high) :: ranges, byte :: rest =>
    if low ≤ byte ∧ byte ≤ high then
      match continuation ranges rest with
      | .ok bytes => .ok (byte :: bytes)
      | .error (flaw, bytes) => .error (flaw, byte :: bytes)
    else .error (.continuation, [])

/-- The first character of a non-empty input and the number of bytes after its first byte, or the
flaw and the bytes before it. -/
def decodeFirst (byte : UInt8) (rest : List UInt8) : Except (Flaw × List UInt8) (Char × Nat) :=
  if byte < 0x80 then .ok (Char.ofNat byte.toNat, 0)
  else
    match lead byte with
    | none => .error (.start, [byte])
    | some (low, high, more) =>
      match continuation ((low, high) :: List.replicate more (0x80, 0xBF)) rest with
      | .error (flaw, bytes) => .error (flaw, byte :: bytes)
      | .ok bytes =>
        let code := bytes.foldl (fun n b => 64 * n + b.toNat % 64) (leadPayload byte more)
        .ok (Char.ofNat code, bytes.length)

/-- Whether more bytes are needed to tell what the first character of an input is. This is also
said of the first two bytes of an encoded surrogate. -/
def isCutOff : List UInt8 → Bool
  | [] => true
  | byte :: rest =>
    match decodeFirst byte rest, rest with
    | .error (.truncated, _), _ => true
    | _, [second] => byte = 0xED && 0xA0 ≤ second && second ≤ 0xBF
    | _, _ => false

/-- The number of bytes in a block. -/
def blockSize : Nat := 8192

/-- A place in a block: its position, and the number of bytes of the block from there on. -/
structure Place where
  position : Nat
  left : Nat
  deriving DecidableEq, Repr

/-- The place of the first character of an input: the beginning of the next block if the block has
ended or cuts the character off. Four bytes hold every character. -/
def Place.settle (place : Place) (bytes : List UInt8) : Place :=
  if isCutOff (bytes.take (min place.left 4)) then
    { position := 0, left := place.left + blockSize }
  else place

/-- The place `n` bytes on. -/
def Place.advance (place : Place) (n : Nat) : Place :=
  { position := place.position + n, left := place.left - n }

/-- The characters of an input that begins at a place. -/
def decodeFrom (place : Place) : List UInt8 → Except Fault (List Char)
  | [] => .ok []
  | byte :: rest =>
    let here := place.settle (byte :: rest)
    match decodeFirst byte rest with
    | .error (flaw, bytes) => .error { flaw, bytes, position := here.position }
    | .ok (c, more) =>
      match decodeFrom (here.advance (more + 1)) (rest.drop more) with
      | .error fault => .error fault
      | .ok cs => .ok (c :: cs)
termination_by bytes => bytes.length

def decode (bytes : List UInt8) : Except Fault (List Char) :=
  decodeFrom { position := 0, left := blockSize } bytes

def Flaw.reason : Flaw → String
  | .start => "invalid start byte"
  | .continuation => "invalid continuation byte"
  | .truncated => "unexpected end of data"

/-- Two hexadecimal digits. -/
def hexByte (byte : UInt8) : String :=
  String.ofList [Nat.digitChar (byte.toNat / 16), Nat.digitChar (byte.toNat % 16)]

def Fault.message (fault : Fault) : String :=
  let place :=
    match fault.bytes with
    | [byte] => "byte 0x" ++ hexByte byte ++ s!" in position {fault.position}"
    | bytes => s!"bytes in position {fault.position}-{fault.position + bytes.length - 1}"
  "'utf-8' codec can't decode " ++ place ++ ": " ++ fault.flaw.reason

end LetLang.Text.Utf8
