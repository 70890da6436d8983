import TokenProvision.Host.Fixture
import TokenProvision.Host.Transport

/-!
Scenarios: talks between a host and a device that must go as expected. A scenario stops at the
first answer that is not the expected one.
-/
namespace TokenProvision.Host.Scenario

open Certificate (Usage)
open Fixture (TokenVector CertificateVector)
open Secp256k1 (SecretKey)
open Token (Descriptor)

inductive Stop where
  | unexpected
  | failure (f : Failure)
  deriving DecidableEq, Repr

/-- A talk over a transport with a state of its own. -/
abbrev Talk (σ : Type) := ExceptT Stop (StateM σ)

variable {σ α : Type}

/-- Stops unless a condition holds. -/
def expect (p : Prop) [Decidable p] : Talk σ Unit :=
  if p then pure () else throw .unexpected

def expectSome : Option α → Talk σ α
  | some a => pure a
  | none => throw .unexpected

def use (f : σ → Except Failure α × σ) : Talk σ α := do
  match ← modifyGet f with
  | .ok a => pure a
  | .error e => throw (.failure e)

def descriptor (v : TokenVector) : Talk σ Descriptor :=
  match v.descriptor with
  | .ok d => pure d
  | .error _ => throw .unexpected

/-- The payload that provides a token, signed with a key. -/
def signed (v : TokenVector) (key : SecretKey) : Talk σ Bytes := do
  let d ← descriptor v
  let payload ← expectSome (d.sign key .sha256)
  return payload.encode

/-- The payload that provides a token, with a signature that is none. -/
def badlySigned (v : TokenVector) : Talk σ Bytes := do
  let d ← descriptor v
  return Token.Payload.encode ⟨d, [0xde, 0xad, 0xbe, 0xef]⟩

def loadCoinMeta (t : Transport σ) : Talk σ Unit := do
  let certificate ← expectSome (Fixture.baseDraft.sign Fixture.anchorKey)
  let status ← use (loadCertificate t Usage.coinMeta.code certificate)
  expect (status = .ok)

/-- Every token is accepted under a good certificate, and gets a slot. -/
def provision (t : Transport σ) (tokens : List TokenVector) : Talk σ Unit := do
  loadCoinMeta t
  for v in tokens do
    let payload ← signed v Fixture.coinMetaKey
    let (status, slot) ← use (provideToken t payload)
    expect (status = .ok)
    let slot ← expectSome slot
    expect (slot.toNat < Registry.capacity)

/-- A badly signed token is rejected before any certificate has been loaded. -/
def badSignatureWithoutCertificate (t : Transport σ) : Talk σ Unit := do
  let payload ← badlySigned Fixture.zrx
  let (status, slot) ← use (provideToken t payload)
  expect (status = .invalidData)
  expect (slot = none)

/-- A token is rejected under a good certificate if it is badly signed or signed by the issuer. -/
def badSignatureWithCertificate (t : Transport σ) : Talk σ Unit := do
  loadCoinMeta t
  let payload ← badlySigned Fixture.zrx
  let (status, slot) ← use (provideToken t payload)
  expect (status = .invalidData)
  expect (slot = none)
  let payload ← signed Fixture.zrx Fixture.anchorKey
  let (status, _) ← use (provideToken t payload)
  expect (status = .invalidData)

/-- Slots are given in turn, a token that is still there keeps its own, and a reset takes the trust
away. -/
def eviction (t : Transport σ) (reset : σ → σ) : Talk σ Unit := do
  modify reset
  loadCoinMeta t
  let mut next : Nat := 0
  for v in Fixture.tokens do
    let payload ← signed v Fixture.coinMetaKey
    let (status, slot) ← use (provideToken t payload)
    expect (status = .ok)
    expect (slot = some (UInt8.ofNat next))
    next := (next + 1) % Registry.capacity
  let last ← expectSome Fixture.tokens.getLast?
  let payload ← signed last Fixture.coinMetaKey
  let (status, slot) ← use (provideToken t payload)
  expect (status = .ok)
  expect (slot = some (UInt8.ofNat ((Fixture.tokens.length - 1) % Registry.capacity)))
  modify reset
  let (status, _) ← use (provideToken t payload)
  expect (status = .invalidData)

/-- Each certificate gets its status, and a token is accepted after it exactly if it was. -/
def certificates (t : Transport σ) (vectors : List CertificateVector) : Talk σ Unit := do
  let token ← signed Fixture.zrx Fixture.coinMetaKey
  for v in vectors do
    loadCoinMeta t
    let certificate ← expectSome v.certificate
    let status ← use (loadCertificate t v.usage.code certificate)
    expect (status = v.status)
    let (status, _) ← use (provideToken t token)
    expect (status = if v.status = .ok then .ok else .invalidData)

/-- Commands that the device does not know, or not with these parameters, or not without data. -/
def commands : List (Command × Status) :=
  [(⟨0x80, 0x0a, 0x00, 0x00, []⟩, .unknownClass),
   (⟨0xe0, 0x04, 0x00, 0x00, []⟩, .unknownInstruction),
   (⟨0xb0, 0x0a, 0x00, 0x00, []⟩, .unknownInstruction),
   (⟨0xe0, 0x0a, 0x01, 0x00, []⟩, .invalidParameters),
   (⟨0xb0, 0x06, 0x08, 0x01, []⟩, .invalidParameters),
   (⟨0xb0, 0x06, 0x08, 0x00, []⟩, .invalidData)]

/-- Each of `commands` gets its status, and no data. -/
def frames (t : Transport σ) : Talk σ Unit := do
  for (c, status) in commands do
    let r ← use (send t c)
    expect (r.status = status)
    expect (r.data = [])

/-- Talks to a device: whether all went as expected, and the state of the transport after it. -/
def Talk.run (talk : Talk σ Unit) (s : σ) : Except Stop Unit × σ := talk s

end TokenProvision.Host.Scenario
