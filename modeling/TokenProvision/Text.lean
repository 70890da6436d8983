import TokenProvision.Bytes

/-!
How a text shows bytes, numbers and single characters, and how it is split.

Bytes are written as hexadecimal digits in lower case and read from either case; reading names the
first character that is no digit, and its place among the bytes of the text. Numerals have a given
base and an upper limit. One plus sign may stand in front of one; a minus sign is no digit, and of
two faults the one further left counts. A text falls into lines at the line feeds, and a line into
words at its blanks.
-/
namespace TokenProvision.Text

/-- The digits of a number in base sixteen, without leading zeros. -/
def hexNumber (n : Nat) : String := String.ofList (Nat.toDigits 16 n)

/-- Whether a code below 256 stands for a character that shows: no control character, no hyphen or
space that takes part in line breaking, other than the plain space. -/
def isShown (code : UInt8) : Bool :=
  0x20 ≤ code && code ≠ 0x7f && !(0x80 ≤ code && code ≤ 0xa0) && code ≠ 0xad

/-- The character with a code below 256, in single quotes. -/
def quote (code : UInt8) : String :=
  let inner :=
    match code with
    | 0x00 => "\\0"
    | 0x09 => "\\t"
    | 0x0a => "\\n"
    | 0x0d => "\\r"
    | 0x27 => "\\'"
    | 0x5c => "\\\\"
    | _ =>
      if isShown code then String.singleton (Char.ofNat code.toNat)
      else "\\u\x7b" ++ hexNumber code.toNat ++ "\x7d"
  "'" ++ inner ++ "'"

/-- The code points of the characters with the property White_Space. -/
def blanks : List Nat :=
  [0x09, 0x0a, 0x0b, 0x0c, 0x0d, 0x20, 0x85, 0xa0, 0x1680, 0x2000, 0x2001, 0x2002, 0x2003, 0x2004,
   0x2005, 0x2006, 0x2007, 0x2008, 0x2009, 0x200a, 0x2028, 0x2029, 0x202f, 0x205f, 0x3000]

def isBlank (c : Char) : Bool := blanks.contains c.toNat

/-- The lines of a text; a line feed ends a line and a last line may go without. -/
def lines : List Char → List (List Char)
  | [] => []
  | c :: cs =>
    if c = '\n' then [] :: lines cs
    else
      match lines cs with
      | [] => [[c]]
      | l :: ls => (c :: l) :: ls

/-- The longest runs of characters that are not blank. -/
def words : List Char → List (List Char)
  | [] => []
  | c :: cs =>
    if isBlank c then words cs
    else
      match cs, words cs with
      | d :: _, w :: ws => if isBlank d then [c] :: w :: ws else (c :: w) :: ws
      | _, ws => [c] :: ws

namespace Hex

/-- The lower-case digit of a number below sixteen. -/
def digit (n : Nat) : Char :=
  if n < 10 then Char.ofNat (0x30 + n) else Char.ofNat (0x57 + n)

def byteDigits (b : UInt8) : List Char := [digit (b.toNat / 16), digit (b.toNat % 16)]

def digits (bs : Bytes) : List Char := bs.flatMap byteDigits

def encode (bs : Bytes) : String := String.ofList (digits bs)

/-- The text of a byte string, byte by byte in brackets. -/
def listing (bs : Bytes) : String :=
  "[" ++ String.intercalate ", " (bs.map fun b => encode [b]) ++ "]"

def word (w : UInt16) : String := encode (Bytes.ofUInt16 w)

/-- The value of a digit in either case, by its code. -/
def digitValue? (b : UInt8) : Option UInt8 :=
  if 0x30 ≤ b ∧ b ≤ 0x39 then some (b - 0x30)
  else if 0x61 ≤ b ∧ b ≤ 0x66 then some (b - 0x57)
  else if 0x41 ≤ b ∧ b ≤ 0x46 then some (b - 0x37)
  else none

inductive Fault where
  | oddLength
  | wrongLength
  | invalidCharacter (code : UInt8) (place : Nat)
  deriving DecidableEq, Repr

namespace Fault

def message : Fault → String
  | oddLength => "Odd number of digits"
  | wrongLength => "Invalid string length"
  | invalidCharacter code place =>
    "Invalid character " ++ quote code ++ " at position " ++ toString place

end Fault

/-- Reads pairs of digits, the first of them at `place`. -/
def readPairs (place : Nat) : Bytes → Except Fault Bytes
  | hi :: lo :: rest =>
    match digitValue? hi, digitValue? lo with
    | none, _ => .error (.invalidCharacter hi place)
    | _, none => .error (.invalidCharacter lo (place + 1))
    | some h, some l =>
      match readPairs (place + 2) rest with
      | .error e => .error e
      | .ok bs => .ok ((h * 16 + l) :: bs)
  | _ => .ok []

def utf8 (cs : List Char) : Bytes := cs.flatMap String.utf8EncodeChar

def decode (cs : List Char) : Except Fault Bytes :=
  if (utf8 cs).length % 2 = 1 then .error .oddLength else readPairs 0 (utf8 cs)

def decodeFixed (n : Nat) (cs : List Char) : Except Fault (FixedBytes n) :=
  if (utf8 cs).length % 2 = 1 then .error .oddLength
  else if (utf8 cs).length / 2 ≠ n then .error .wrongLength
  else
    match readPairs 0 (utf8 cs) with
    | .error e => .error e
    | .ok bs =>
      match FixedBytes.ofBytes? n bs with
      | some f => .ok f
      | none => .error .wrongLength

end Hex

namespace Numeral

inductive Fault where
  | empty | invalidDigit | tooLarge
  deriving DecidableEq, Repr

namespace Fault

def message : Fault → String
  | empty => "cannot parse integer from empty string"
  | invalidDigit => "invalid digit found in string"
  | tooLarge => "number too large to fit in target type"

end Fault

/-- The value of a digit of a base up to 36, letters in either case. -/
def digitValue? (base : Nat) (c : Char) : Option Nat :=
  let v :=
    if '0' ≤ c ∧ c ≤ '9' then c.toNat - 0x30
    else if 'a' ≤ c ∧ c ≤ 'z' then c.toNat - 0x57
    else if 'A' ≤ c ∧ c ≤ 'Z' then c.toNat - 0x37
    else base
  if v < base then some v else none

/-- Reads digits behind a number that has been read. -/
def readDigits (base limit : Nat) (n : Nat) : List Char → Except Fault Nat
  | [] => .ok n
  | c :: cs =>
    match digitValue? base c with
    | none => .error .invalidDigit
    | some v =>
      let n := n * base + v
      if limit < n then .error .tooLarge else readDigits base limit n cs

def read (base limit : Nat) : List Char → Except Fault Nat
  | [] => .error .empty
  | ['+'] => .error .invalidDigit
  | '+' :: cs => readDigits base limit 0 cs
  | cs => readDigits base limit 0 cs

end Numeral

end TokenProvision.Text
