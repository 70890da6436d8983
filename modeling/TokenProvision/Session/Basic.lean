import TokenProvision.Certificate.Trust
import TokenProvision.Registry
import TokenProvision.Request

/-!
Sessions: a device with the key that it trusts and the tokens that it has verified. A certificate
may be loaded at any time, and one that is rejected takes the trusted key away. A token is
registered only under a trusted key for coin metadata. A command whose answer would not fit is not
carried out.

An event, which is what a session is asked to do, is taken from a command without a look into its
payload, so that a session can check its own state first. While it works a session notes down in a
log what it does.
-/
namespace TokenProvision

inductive Event where
  /-- Trust the key in a certificate, if it may be used as expected. -/
  | loadCertificate (usage : UInt8) (certificate : Bytes)
  /-- Register the token in a signed payload. -/
  | provideToken (payload : Bytes)
  deriving DecidableEq, Repr

namespace Event

def ofCommand (c : Command) : Except Refusal Event :=
  match Instruction.ofHeader? c.cla c.ins with
  | none =>
    .error (if Instruction.isKnownClass c.cla then .unsupportedInstruction else .unsupportedClass)
  | some .loadCertificate =>
    if c.p2 ≠ 0 then .error .invalidParameters else .ok (.loadCertificate c.p1 c.data)
  | some .provideToken =>
    if c.p1 ≠ 0 ∨ c.p2 ≠ 0 then .error .invalidParameters else .ok (.provideToken c.data)

def ofFrame (raw : Bytes) : Except Refusal Event :=
  match Command.parse raw with
  | .error _ => .error .malformedFrame
  | .ok c => ofCommand c

/-- The size of the answer to an event that succeeds, without its status. -/
def responseLength : Event → Nat
  | loadCertificate _ _ => 0
  | provideToken _ => 1

end Event

inductive Output where
  | none
  /-- The slot that holds the token. -/
  | slot (index : UInt8)
  deriving DecidableEq, Repr

namespace Output

def write : Output → (room : Nat) → Except CodecError Bytes
  | none, _ => .ok []
  | slot index, room => Token.Slot.write ⟨index⟩ room

end Output

inductive Notice where
  | event (e : Event)
  | reason (text : String)
  | certificateRejected (r : Refusal)
  | keyTrusted (name : Label Certificate.maxName) (usage : Certificate.Usage)
  | noCertificate
  | tokenAccepted (d : Token.Descriptor)
  | tokenRejected (r : Refusal)
  | reset
  deriving DecidableEq, Repr

namespace Notice

def text : Notice → String
  | event (.loadCertificate usage certificate) =>
    "event: LoadCertificate \x7b key_usage: " ++ Text.Hex.encode [usage] ++ ", certificate: " ++
      Text.Hex.listing certificate ++ " \x7d"
  | event (.provideToken payload) =>
    "event: ProvideTokenInfo \x7b payload: " ++ Text.Hex.listing payload ++ " \x7d"
  | reason text => text
  | certificateRejected r => "certificate rejected: " ++ r.name
  | keyTrusted name usage => "trusted key '" ++ name.text ++ "' (" ++ usage.name ++ ")"
  | noCertificate => "token metadata without certificate"
  | tokenAccepted d =>
    "token '" ++ d.ticker.text ++ "' chain " ++ toString d.chainId.toNat ++ " decimals " ++
      toString d.decimals.toNat
  | tokenRejected r => "token metadata rejected: " ++ r.name
  | reset => "engine reset"

end Notice

inductive Phase where
  | noCertificate | certificateLoaded
  deriving DecidableEq, Repr

namespace Phase

def all : List Phase := [noCertificate, certificateLoaded]

def name : Phase → String
  | noCertificate => "NoCertificate"
  | certificateLoaded => "CertificateLoaded"

def ofName? (s : String) : Option Phase := all.find? fun p => p.name = s

@[simp] theorem ofName?_name (p : Phase) : ofName? p.name = some p := by
  cases p <;> rfl

end Phase

structure Session where
  phase : Phase
  trusted : Option TrustedKey
  registry : Registry
  platform : Platform

namespace Session

/-- A session without a trusted key and without tokens. -/
def start (platform : Platform) : Session := ⟨.noCertificate, none, .empty, platform⟩

def untrusting (s : Session) : Session := { s with phase := .noCertificate, trusted := none }

def trusting (s : Session) (key : TrustedKey) : Session :=
  { s with phase := .certificateLoaded, trusted := some key }

structure Outcome where
  result : Except Refusal Output
  session : Session
  log : List Notice

/-- The descriptor in a payload that is signed with the trusted key. -/
def verifiedToken (trusted : Option TrustedKey) (payload : Bytes) :
    Except Refusal Token.Descriptor :=
  match trusted with
  | none => .error .noCertificateLoaded
  | some key =>
    match Token.Payload.decode payload with
    | .error _ => .error .malformedDescriptor
    | .ok (p, _) =>
      if key.usage ≠ .coinMeta then .error .notAuthorized
      else if key.verify (payload.take (payload.length - p.signature.length)) p.signature then
        .ok p.descriptor
      else .error .invalidSignature

def update (s : Session) (e : Event) : Outcome :=
  let seen := Notice.event e
  match s.phase, e with
  -- a certificate that is rejected takes the old key away, so the key goes first
  | _, .loadCertificate usage certificate =>
    match Certificate.load certificate usage s.platform with
    | .error r =>
      ⟨.error r.refusal, s.untrusting,
        seen :: r.reason?.toList.map .reason ++ [.certificateRejected r.refusal]⟩
    | .ok key => ⟨.ok .none, s.untrusting.trusting key, [seen, .keyTrusted key.name key.usage]⟩
  | .noCertificate, .provideToken _ =>
    ⟨.error .noCertificateLoaded, s, [seen, .noCertificate]⟩
  | .certificateLoaded, .provideToken payload =>
    match verifiedToken s.trusted payload with
    | .error r => ⟨.error r, s, [seen, .tokenRejected r]⟩
    | .ok d =>
      let (registry, slot) := s.registry.insert d
      ⟨.ok (.slot (UInt8.ofNat slot)), { s with registry }, [seen, .tokenAccepted d]⟩

def handle (s : Session) (raw : Bytes) : Outcome :=
  match Event.ofFrame raw with
  | .error r => ⟨.error r, s, []⟩
  | .ok e => s.update e

/-- The response to a frame: data and status as bytes, the session after it and the notes made. -/
structure Reply where
  status : Status
  response : Bytes
  session : Session
  log : List Notice

/-- Carries out a frame where there is room for a response of `room` bytes. -/
def exchange (s : Session) (raw : Bytes) (room : Nat) : Reply :=
  if room < 2 then ⟨Refusal.encodingFailed.status, [], s, []⟩
  else
    match Event.ofFrame raw with
    | .error r => ⟨r.status, r.status.toBytes, s, []⟩
    | .ok e =>
      if room - 2 < e.responseLength then
        let status := Refusal.encodingFailed.status
        ⟨status, status.toBytes, s, []⟩
      else
        let o := s.update e
        match o.result with
        | .error r => ⟨r.status, r.status.toBytes, o.session, o.log⟩
        | .ok output =>
          match output.write (room - 2) with
          | .ok data => ⟨.ok, data ++ Status.ok.toBytes, o.session, o.log⟩
          | .error _ =>
            let status := Refusal.encodingFailed.status
            ⟨status, status.toBytes, o.session, o.log⟩

/-- Takes the trusted key and the tokens away. -/
def reset (s : Session) : Session := { s.untrusting with registry := s.registry.clear }

def resetLog : List Notice := [.reset]

def onPlatform (s : Session) (platform : Platform) : Session := { s with platform }

end Session

end TokenProvision
