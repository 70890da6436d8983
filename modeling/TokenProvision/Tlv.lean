import TokenProvision.Bytes

/-!
Tag-length-value entries. A length below `0x80` is one byte, a length below `0x100` is `81 LL`, and
a length below `0x10000` is `82 HH LL`; no longer form of a short length is read.
`scan` reads entries until the input ends or the first entry that cannot be read.
-/
namespace TokenProvision.Tlv

/-- One entry, with the place of its tag in the scanned bytes. -/
structure Entry where
  tag : UInt8
  value : Bytes
  offset : Nat
  deriving DecidableEq, Repr

namespace Entry

def asUInt8 (e : Entry) : Except CodecError UInt8 :=
  match Bytes.toUInt8? e.value with
  | some v => .ok v
  | none => .error .invalidLength

def asUInt16 (e : Entry) : Except CodecError UInt16 :=
  match Bytes.toUInt16? e.value with
  | some v => .ok v
  | none => .error .invalidLength

def asUInt32 (e : Entry) : Except CodecError UInt32 :=
  match Bytes.toUInt32? e.value with
  | some v => .ok v
  | none => .error .invalidLength

end Entry

/-- The largest value that the length form can announce. -/
def maxValueLength : Nat := 0xffff

/-- The shortest form of a length up to `maxValueLength`. -/
def lengthForm (n : Nat) : Bytes :=
  if n < 0x80 then [UInt8.ofNat n]
  else if n < 0x100 then 0x81 :: Bytes.ofNat 1 n
  else 0x82 :: Bytes.ofNat 2 n

/-- The size of an entry whose value has `n` bytes. -/
def encodedLength (n : Nat) : Nat :=
  if n < 0x80 then 2 + n else if n < 0x100 then 3 + n else 4 + n

def encode (tag : UInt8) (value : Bytes) : Bytes :=
  tag :: lengthForm value.length ++ value

@[simp] theorem length_encode (tag : UInt8) (value : Bytes) :
    (encode tag value).length = encodedLength value.length := by
  unfold encode lengthForm encodedLength
  split
  · simp; omega
  · split <;> simp <;> omega

def write (tag : UInt8) (value : Bytes) (room : Nat) : Except CodecError Bytes :=
  if maxValueLength < value.length then .error .invalidLength
  else writeWithin room (encodedLength value.length) (encode tag value)

/-- Reads a length in its shortest form, and counts the bytes of the form. -/
def decodeLength : Bytes → Except CodecError (Nat × Nat)
  | [] => .error .invalidLength
  | l :: rest =>
    if l < 0x80 then .ok (l.toNat, 1)
    else match l, rest with
      | 0x81, n :: _ => if n < 0x80 then .error .invalidEncoding else .ok (n.toNat, 2)
      | 0x82, h :: n :: _ =>
        if h = 0 then .error .invalidEncoding else .ok (h.toNat * 256 + n.toNat, 3)
      | _, _ => .error .invalidEncoding

/-- Reads the entry at the front of `bs`, which lies at `offset`, and counts its bytes. -/
def readEntry (offset : Nat) : Bytes → Except CodecError (Entry × Nat)
  | tag :: l :: rest =>
    match decodeLength (l :: rest) with
    | .error e => .error e
    | .ok (len, form) =>
      let body := (l :: rest).drop form
      if body.length < len then .error .invalidLength
      else .ok (⟨tag, body.take len, offset⟩, 1 + form + len)
  | _ => .error .invalidLength

theorem readEntry_pos {offset : Nat} {bs : Bytes} {e : Entry} {n : Nat}
    (h : readEntry offset bs = .ok (e, n)) : 0 < n := by
  unfold readEntry at h
  split at h
  · split at h
    · cases h
    · dsimp only at h
      split at h
      · cases h
      · cases h
        omega
  · cases h

/-- The entries of `bs`, which lies at `offset`, up to and with the first that cannot be read. -/
def scanFrom (offset : Nat) (bs : Bytes) : List (Except CodecError Entry) :=
  if bs.isEmpty then []
  else
    match _h : readEntry offset bs with
    | .error e => [.error e]
    | .ok (e, n) => .ok e :: scanFrom (offset + n) (bs.drop n)
termination_by bs.length
decreasing_by
  have := readEntry_pos _h
  cases bs with
  | nil => contradiction
  | cons b bs => simp; omega

def scan (bs : Bytes) : List (Except CodecError Entry) := scanFrom 0 bs

end TokenProvision.Tlv
