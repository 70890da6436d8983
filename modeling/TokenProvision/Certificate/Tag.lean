import TokenProvision.Ecdsa

/-!
The entries of a certificate: which tags there are, where they may stand, and which values they
may have. The kind of structure and its version come first and second and nowhere else.
-/
namespace TokenProvision.Certificate

inductive Usage where
  | genuineCheck | exchangePayload | nftMetadata | trustedName | backupProvider
  | recoverOrchestrator | pluginMetadata | coinMeta | seedIdAuth
  deriving DecidableEq, Repr

namespace Usage

def all : List Usage :=
  [genuineCheck, exchangePayload, nftMetadata, trustedName, backupProvider,
    recoverOrchestrator, pluginMetadata, coinMeta, seedIdAuth]

def code : Usage → UInt8
  | genuineCheck => 1
  | exchangePayload => 2
  | nftMetadata => 3
  | trustedName => 4
  | backupProvider => 5
  | recoverOrchestrator => 6
  | pluginMetadata => 7
  | coinMeta => 8
  | seedIdAuth => 9

def name : Usage → String
  | genuineCheck => "GenuineCheck"
  | exchangePayload => "ExchangePayload"
  | nftMetadata => "NftMetadata"
  | trustedName => "TrustedName"
  | backupProvider => "BackupProvider"
  | recoverOrchestrator => "RecoverOrchestrator"
  | pluginMetadata => "PluginMetadata"
  | coinMeta => "CoinMeta"
  | seedIdAuth => "SeedIdAuth"

def ofCode? (n : UInt8) : Option Usage := all.find? fun u => u.code = n

@[simp] theorem ofCode?_code (u : Usage) : ofCode? u.code = some u := by
  cases u <;> rfl

end Usage

inductive Curve where
  | secp256k1
  deriving DecidableEq, Repr

namespace Curve

def all : List Curve := [secp256k1]

def code : Curve → UInt8
  | secp256k1 => 0x21

def name : Curve → String
  | secp256k1 => "Secp256k1"

def ofCode? (n : UInt8) : Option Curve := all.find? fun c => c.code = n

@[simp] theorem ofCode?_code (c : Curve) : ofCode? c.code = some c := by
  cases c
  rfl

end Curve

inductive Tag where
  | structureType | version | validity | validityIndex | challenge | signerKeyId | signerAlgorithm
  | signature | timeValidity | trustedName | publicKeyId | publicKeyUsage | publicKeyCurve
  | publicKey | publicKeyAlgorithm | targetDevice | depth
  deriving DecidableEq, Repr

/-- The only kind of structure. -/
def structureKind : UInt8 := 0x01

def currentVersion : UInt8 := 0x02

def maxName : Nat := 32

def maxChallenge : Nat := 32

namespace Tag

def all : List Tag :=
  [structureType, version, validity, validityIndex, challenge, signerKeyId, signerAlgorithm,
    signature, timeValidity, trustedName, publicKeyId, publicKeyUsage, publicKeyCurve,
    publicKey, publicKeyAlgorithm, targetDevice, depth]

/-- The tags that no certificate goes without. -/
def mandatory : List Tag :=
  [structureType, version, signerKeyId, signerAlgorithm, signature, trustedName, publicKeyUsage,
    publicKeyCurve, publicKey, publicKeyAlgorithm]

def code : Tag → UInt8
  | structureType => 0x01
  | version => 0x02
  | validity => 0x10
  | validityIndex => 0x11
  | challenge => 0x12
  | signerKeyId => 0x13
  | signerAlgorithm => 0x14
  | signature => 0x15
  | timeValidity => 0x16
  | trustedName => 0x20
  | publicKeyId => 0x30
  | publicKeyUsage => 0x31
  | publicKeyCurve => 0x32
  | publicKey => 0x33
  | publicKeyAlgorithm => 0x34
  | targetDevice => 0x35
  | depth => 0x36

def name : Tag → String
  | structureType => "StructureType"
  | version => "Version"
  | validity => "Validity"
  | validityIndex => "ValidityIndex"
  | challenge => "Challenge"
  | signerKeyId => "SignerKeyId"
  | signerAlgorithm => "SignerAlgo"
  | signature => "Signature"
  | timeValidity => "TimeValidity"
  | trustedName => "TrustedName"
  | publicKeyId => "PublicKeyId"
  | publicKeyUsage => "PublicKeyUsage"
  | publicKeyCurve => "PublicKeyCurve"
  | publicKey => "PublicKey"
  | publicKeyAlgorithm => "PublicKeySignAlgo"
  | targetDevice => "TargetDevice"
  | depth => "Depth"

/-- The place of a tag among all tags. -/
def bit (t : Tag) : Nat := all.idxOf t

/-- The set of bits that holds a tag and no other. -/
def mask (t : Tag) : UInt32 := 1 <<< UInt32.ofNat t.bit

def ofCode? (n : UInt8) : Option Tag := all.find? fun t => t.code = n

@[simp] theorem ofCode?_code (t : Tag) : ofCode? t.code = some t := by
  cases t <;> rfl

/-- Whether a tag may stand at a place: the kind of structure stands first, the version second, and
neither stands anywhere else. -/
def FitsAt (t : Tag) (place : Nat) : Prop :=
  (t = structureType ↔ place = 0) ∧ (t = version ↔ place = 1)

instance (t : Tag) (place : Nat) : Decidable (FitsAt t place) := inferInstanceAs (Decidable (_ ∧ _))

/-- Whether an entry with a given tag may have a value. -/
def admits : Tag → Bytes → Bool
  | structureType, v => v = [structureKind]
  | version, v => v = [currentVersion]
  | validity, v | validityIndex, v | timeValidity, v => v.length = 4
  | challenge, v => v.length ≤ maxChallenge
  | signerKeyId, v | publicKeyId, v => v.length = 2
  | signerAlgorithm, v | publicKeyAlgorithm, v =>
    ((Bytes.toUInt8? v).bind Ecdsa.Algorithm.ofCode?).isSome
  | signature, _ => true
  | trustedName, v => (Label.ofBytes? maxName v).isSome
  | publicKeyUsage, v => ((Bytes.toUInt8? v).bind Usage.ofCode?).isSome
  | publicKeyCurve, v => ((Bytes.toUInt8? v).bind Curve.ofCode?).isSome
  | publicKey, v => v.length = Secp256k1.compressedLength
  | targetDevice, v | depth, v => v.length = 1

end Tag

end TokenProvision.Certificate
