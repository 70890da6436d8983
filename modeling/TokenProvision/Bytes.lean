/-!
Byte strings: big-endian numbers, printable ASCII, and strings of a fixed length; labels, short
names that a screen can show; and what every wire codec shares, the causes of a refused encoding or
decoding.
-/
namespace TokenProvision

/-- A byte string, first byte first. -/
abbrev Bytes := List UInt8

namespace Bytes

/-- The number that a byte string writes in big-endian order. -/
def toNat (bs : Bytes) : Nat :=
  bs.foldl (fun n b => n * 256 + b.toNat) 0

/-- The last `width` base-256 digits of a number, most significant first. -/
def ofNat : (width : Nat) → Nat → Bytes
  | 0, _ => []
  | width + 1, n => ofNat width (n / 256) ++ [UInt8.ofNat (n % 256)]

@[simp] theorem toNat_nil : toNat [] = 0 := rfl

@[simp] theorem toNat_concat (bs : Bytes) (b : UInt8) :
    toNat (bs ++ [b]) = toNat bs * 256 + b.toNat := by
  simp [toNat]

@[simp] theorem ofNat_zero (n : Nat) : ofNat 0 n = [] := rfl

@[simp] theorem length_ofNat (width n : Nat) : (ofNat width n).length = width := by
  induction width generalizing n with
  | zero => rfl
  | succ width ih => simp [ofNat, ih]

def ofUInt16 (v : UInt16) : Bytes := ofNat 2 v.toNat

def ofUInt32 (v : UInt32) : Bytes := ofNat 4 v.toNat

@[simp] theorem length_ofUInt16 (v : UInt16) : (ofUInt16 v).length = 2 := length_ofNat 2 _
@[simp] theorem length_ofUInt32 (v : UInt32) : (ofUInt32 v).length = 4 := length_ofNat 4 _

def toUInt8? : Bytes → Option UInt8
  | [b] => some b
  | _ => none

def toUInt16? (bs : Bytes) : Option UInt16 :=
  if bs.length = 2 then some (UInt16.ofNat (toNat bs)) else none

def toUInt32? (bs : Bytes) : Option UInt32 :=
  if bs.length = 4 then some (UInt32.ofNat (toNat bs)) else none

/-- Printable ASCII runs from the space to the tilde. -/
def IsPrintable (b : UInt8) : Prop := 0x20 ≤ b ∧ b ≤ 0x7e

instance (b : UInt8) : Decidable (IsPrintable b) := inferInstanceAs (Decidable (_ ∧ _))

def ArePrintable (bs : Bytes) : Prop := ∀ b ∈ bs, IsPrintable b

instance (bs : Bytes) : Decidable (ArePrintable bs) := List.decidableBAll IsPrintable bs

/-- The text whose characters have the bytes as their code points. -/
def toText (bs : Bytes) : String :=
  String.ofList (bs.map fun b => Char.ofNat b.toNat)

/-- The code points of a text in printable ASCII; a text with any other character has none. -/
def ofPrintable? (s : String) : Option Bytes :=
  if s.toList.all fun c => 0x20 ≤ c.toNat ∧ c.toNat ≤ 0x7e then
    some (s.toList.map fun c => UInt8.ofNat c.toNat)
  else none

end Bytes

@[ext] structure FixedBytes (n : Nat) where
  bytes : Bytes
  length_eq : bytes.length = n
  deriving DecidableEq, Repr

namespace FixedBytes

def ofBytes? (n : Nat) (bs : Bytes) : Option (FixedBytes n) :=
  if h : bs.length = n then some ⟨bs, h⟩ else none

@[simp] theorem ofBytes?_bytes {n : Nat} (f : FixedBytes n) : ofBytes? n f.bytes = some f := by
  simp [ofBytes?, f.length_eq]

def ofNat (n v : Nat) : FixedBytes n := ⟨Bytes.ofNat n v, Bytes.length_ofNat n v⟩

def take (n : Nat) (bs : Bytes) (h : n ≤ bs.length) : FixedBytes n :=
  ⟨List.take n bs, by simp [h]⟩

end FixedBytes

/-- A non-empty printable name of at most `max` bytes. -/
@[ext] structure Label (max : Nat) where
  bytes : Bytes
  nonempty : bytes ≠ []
  length_le : bytes.length ≤ max
  printable : Bytes.ArePrintable bytes
  deriving DecidableEq, Repr

namespace Label

variable {max : Nat}

def ofBytes? (max : Nat) (bs : Bytes) : Option (Label max) :=
  if h : bs ≠ [] ∧ bs.length ≤ max ∧ Bytes.ArePrintable bs then
    some ⟨bs, h.1, h.2.1, h.2.2⟩
  else none

def text (l : Label max) : String := Bytes.toText l.bytes

@[simp] theorem ofBytes?_bytes (l : Label max) : ofBytes? max l.bytes = some l := by
  simpa [ofBytes?, l.nonempty, l.length_le] using l.printable

theorem bytes_of_ofBytes? {bs : Bytes} {l : Label max} (h : ofBytes? max bs = some l) :
    l.bytes = bs := by
  unfold ofBytes? at h
  split at h <;> cases h
  rfl

theorem length_pos (l : Label max) : 0 < l.bytes.length :=
  List.length_pos_iff.2 l.nonempty

end Label

inductive CodecError where
  | invalidLength | invalidUtf8 | invalidEncoding
  deriving DecidableEq, Repr

namespace CodecError

def name : CodecError → String
  | invalidLength => "InvalidLength"
  | invalidUtf8 => "InvalidUtf8"
  | invalidEncoding => "InvalidEncoding"

def message : CodecError → String
  | invalidLength => "Invalid buffer length"
  | invalidUtf8 => "Invalid Utf8 string encoding"
  | invalidEncoding => "Invalid APDU encoding"

end CodecError

/-- Writes a wire form of `needed` bytes where there is room for `room` of them. -/
def writeWithin (room needed : Nat) (bs : Bytes) : Except CodecError Bytes :=
  if room < needed then .error .invalidLength else .ok bs

theorem writeWithin_of_le {room needed : Nat} (bs : Bytes) (h : needed ≤ room) :
    writeWithin room needed bs = .ok bs := by
  simp [writeWithin, Nat.not_lt.2 h]

theorem writeWithin_of_lt {room needed : Nat} (bs : Bytes) (h : room < needed) :
    writeWithin room needed bs = .error .invalidLength := by
  simp [writeWithin, h]

end TokenProvision
