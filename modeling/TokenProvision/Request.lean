import TokenProvision.Token.Signing

/-!
Requests: what a host asks of the device, and the command that carries each request.

Each instruction of the protocol is named by a class byte and an instruction byte. A command frame
holds these two, two parameters, and a payload behind its length byte; so it shows its own end, and
a payload has at most 255 bytes.
-/
namespace TokenProvision

inductive Instruction where
  | loadCertificate | provideToken
  deriving DecidableEq, Repr

namespace Instruction

/-- The class shared by every application of the operating system. -/
def certificateClass : UInt8 := 0xb0

/-- The class of the application that shows the tokens. -/
def tokenClass : UInt8 := 0xe0

def all : List Instruction := [loadCertificate, provideToken]

def cla : Instruction → UInt8
  | loadCertificate => certificateClass
  | provideToken => tokenClass

def ins : Instruction → UInt8
  | loadCertificate => 0x06
  | provideToken => 0x0a

def name : Instruction → String
  | loadCertificate => "LoadCertificate"
  | provideToken => "ProvideErc20TokenInfo"

def ofHeader? (cla ins : UInt8) : Option Instruction :=
  all.find? fun i => i.cla = cla ∧ i.ins = ins

@[simp] theorem ofHeader?_header (i : Instruction) : ofHeader? i.cla i.ins = some i := by
  cases i <;> rfl

/-- Whether a class byte belongs to the protocol. -/
def isKnownClass (cla : UInt8) : Bool := cla = tokenClass || cla = certificateClass

end Instruction

structure Command where
  cla : UInt8
  ins : UInt8
  p1 : UInt8
  p2 : UInt8
  data : Bytes
  deriving DecidableEq, Repr

namespace Command

/-- Class, instruction, two parameters and the length byte. -/
def headerLength : Nat := 5

/-- The longest payload that one length byte can announce. -/
def maxData : Nat := 255

def encodedLength (c : Command) : Nat := headerLength + c.data.length

/-- The frame of a command with at most `maxData` bytes of payload. -/
def encode (c : Command) : Bytes :=
  [c.cla, c.ins, c.p1, c.p2, UInt8.ofNat c.data.length] ++ c.data

@[simp] theorem length_encode (c : Command) : c.encode.length = c.encodedLength := by
  simp [encode, encodedLength, headerLength]
  omega

/-- Writes the frame of a command where there is room for `room` bytes. -/
def write (c : Command) (room : Nat) : Except CodecError Bytes :=
  if maxData < c.data.length then .error .invalidLength
  else writeWithin room c.encodedLength c.encode

/-- Reads the frame at the front of a byte string, and counts its bytes. -/
def decode : Bytes → Except CodecError (Command × Nat)
  | cla :: ins :: p1 :: p2 :: lc :: rest =>
    if rest.length < lc.toNat then .error .invalidLength
    else .ok (⟨cla, ins, p1, p2, rest.take lc.toNat⟩, headerLength + lc.toNat)
  | _ => .error .invalidLength

/-- Reads a byte string that is one frame and nothing else. -/
def parse (raw : Bytes) : Except CodecError Command :=
  match decode raw with
  | .error e => .error e
  | .ok (c, n) => if n ≠ raw.length then .error .invalidLength else .ok c

end Command

inductive Request where
  | loadCertificate (usage : UInt8) (certificate : Bytes)
  | provideToken (payload : Token.Payload)
  deriving DecidableEq, Repr

namespace Request

def instruction : Request → Instruction
  | loadCertificate _ _ => .loadCertificate
  | provideToken _ => .provideToken

/-- The first parameter: the usage that a certificate is expected to grant, and zero otherwise. -/
def p1 : Request → UInt8
  | loadCertificate usage _ => usage
  | provideToken _ => 0

def p2 (_ : Request) : UInt8 := 0

def encodedLength : Request → Nat
  | loadCertificate _ certificate => certificate.length
  | provideToken payload => payload.encodedLength

def encode : Request → Bytes
  | loadCertificate _ certificate => certificate
  | provideToken payload => payload.encode

@[simp] theorem length_encode (r : Request) : r.encode.length = r.encodedLength := by
  cases r <;> simp [encode, encodedLength]

def write (r : Request) (room : Nat) : Except CodecError Bytes :=
  match r with
  | loadCertificate _ certificate => writeWithin room certificate.length certificate
  | provideToken payload => payload.write room

def command (r : Request) : Command :=
  ⟨r.instruction.cla, r.instruction.ins, r.p1, r.p2, r.encode⟩

end Request

end TokenProvision
