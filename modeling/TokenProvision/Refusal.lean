import TokenProvision.Bytes

/-!
Status words, the two bytes that end every response and tell the host how its command went; and
why the device refuses a command. Every cause has a number, a sentence and a status word; the
status is all that the host is told, and several causes share one.
-/
namespace TokenProvision

inductive Status where
  | ok | wrongLength | notAuthorized | invalidData | unsupported | invalidParameters
  | unknownInstruction | unknownClass | internal
  deriving DecidableEq, Repr

namespace Status

def all : List Status :=
  [ok, wrongLength, notAuthorized, invalidData, unsupported, invalidParameters,
    unknownInstruction, unknownClass, internal]

def code : Status → UInt16
  | ok => 0x9000
  | wrongLength => 0x6700
  | notAuthorized => 0x6982
  | invalidData => 0x6a80
  | unsupported => 0x6a81
  | invalidParameters => 0x6b00
  | unknownInstruction => 0x6d00
  | unknownClass => 0x6e00
  | internal => 0x6f00

def name : Status → String
  | ok => "Ok"
  | wrongLength => "WrongLength"
  | notAuthorized => "NotAuthorized"
  | invalidData => "InvalidData"
  | unsupported => "Unsupported"
  | invalidParameters => "InvalidP1P2"
  | unknownInstruction => "InsNotSupported"
  | unknownClass => "ClaNotSupported"
  | internal => "Internal"

def ofCode? (w : UInt16) : Option Status := all.find? fun s => s.code = w

@[simp] theorem ofCode?_code (s : Status) : ofCode? s.code = some s := by
  cases s <;> rfl

def toBytes (s : Status) : Bytes := Bytes.ofUInt16 s.code

@[simp] theorem length_toBytes (s : Status) : s.toBytes.length = 2 := Bytes.length_ofUInt16 _

/-- The status in the last two bytes of a response. -/
def ofResponse? (response : Bytes) : Option Status :=
  (Bytes.toUInt16? (response.drop (response.length - 2))).bind ofCode?

end Status

inductive Refusal where
  | malformedFrame | unsupportedClass | unsupportedInstruction | invalidParameters
  | malformedCertificate | unsupportedVersion | invalidSignature | noCertificateLoaded
  | malformedDescriptor | notAuthorized | encodingFailed
  deriving DecidableEq, Repr

namespace Refusal

def all : List Refusal :=
  [malformedFrame, unsupportedClass, unsupportedInstruction, invalidParameters,
    malformedCertificate, unsupportedVersion, invalidSignature, noCertificateLoaded,
    malformedDescriptor, notAuthorized, encodingFailed]

def code : Refusal → UInt8
  | malformedFrame => 0x00
  | unsupportedClass => 0x01
  | unsupportedInstruction => 0x02
  | invalidParameters => 0x03
  | malformedCertificate => 0x04
  | unsupportedVersion => 0x05
  | invalidSignature => 0x06
  | noCertificateLoaded => 0x07
  | malformedDescriptor => 0x08
  | notAuthorized => 0x09
  | encodingFailed => 0x0a

def name : Refusal → String
  | malformedFrame => "MalformedFrame"
  | unsupportedClass => "UnsupportedClass"
  | unsupportedInstruction => "UnsupportedInstruction"
  | invalidParameters => "InvalidParameters"
  | malformedCertificate => "MalformedCertificate"
  | unsupportedVersion => "UnsupportedVersion"
  | invalidSignature => "InvalidSignature"
  | noCertificateLoaded => "NoCertificateLoaded"
  | malformedDescriptor => "MalformedDescriptor"
  | notAuthorized => "NotAuthorized"
  | encodingFailed => "EncodingFailed"

def message : Refusal → String
  | malformedFrame => "Malformed APDU frame"
  | unsupportedClass => "Unsupported class"
  | unsupportedInstruction => "Unsupported instruction"
  | invalidParameters => "Invalid P1 / P2"
  | malformedCertificate => "malformed certificate"
  | unsupportedVersion => "unsupported certificate version"
  | invalidSignature => "invalid signature"
  | noCertificateLoaded => "no certificate loaded"
  | malformedDescriptor => "malformed token descriptor"
  | notAuthorized => "not authorized"
  | encodingFailed => "message encoding failed"

/-- What the host is told. -/
def status : Refusal → Status
  | malformedFrame => .wrongLength
  | unsupportedClass => .unknownClass
  | unsupportedInstruction => .unknownInstruction
  | invalidParameters => .invalidParameters
  | malformedCertificate | invalidSignature | noCertificateLoaded | malformedDescriptor =>
    .invalidData
  | unsupportedVersion => .unsupported
  | notAuthorized => .notAuthorized
  | encodingFailed => .internal

theorem status_ne_ok (r : Refusal) : r.status ≠ .ok := by
  cases r <;> decide

end Refusal

end TokenProvision
