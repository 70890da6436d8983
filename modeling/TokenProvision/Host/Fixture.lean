import TokenProvision.Host.KeyText
import TokenProvision.Token.Signing

/-!
Documents for trying out a device: a certificate for the fixed key for coin metadata, certificates
that are wrong in one way each, and tokens.
-/
namespace TokenProvision.Host.Fixture

open Secp256k1 (SecretKey)
open Certificate (Draft Tag Usage)
open Token (Descriptor)

def coinMetaName : Bytes := [0x43, 0x6f, 0x69, 0x6e, 0x5f, 0x6d, 0x65, 0x74, 0x61]

def coinMetaDraft (key : SecretKey) : Draft :=
  Draft.empty
    |>.push Tag.structureType.code [Certificate.structureKind]
    |>.push Tag.version.code [Certificate.currentVersion]
    |>.push Tag.validity.code [0x01, 0x02, 0x00, 0x00]
    |>.push Tag.validityIndex.code (Bytes.ofUInt32 2)
    |>.push Tag.challenge.code [0x00]
    |>.push Tag.signerKeyId.code (Bytes.ofUInt16 anchorId)
    |>.push Tag.signerAlgorithm.code [Ecdsa.Algorithm.sha256.code]
    |>.push Tag.timeValidity.code (Bytes.ofUInt32 0)
    |>.push Tag.trustedName.code coinMetaName
    |>.push Tag.publicKeyId.code (Bytes.ofUInt16 6)
    |>.push Tag.publicKeyUsage.code [Usage.coinMeta.code]
    |>.push Tag.publicKeyCurve.code [Certificate.Curve.secp256k1.code]
    |>.push Tag.publicKey.code key.publicKey.compressed.bytes
    |>.push Tag.publicKeyAlgorithm.code [Ecdsa.Algorithm.sha256.code]
    |>.push Tag.targetDevice.code [targetDevice]

/-- A token as it is written down, before its ticker is checked. -/
structure TokenVector where
  ticker : String
  address : Token.Address
  decimals : UInt8
  chainId : UInt32
  deriving DecidableEq, Repr

def TokenVector.descriptor (v : TokenVector) : Except CodecError Descriptor :=
  Descriptor.new v.ticker v.address v.decimals v.chainId

def zrx : TokenVector where
  ticker := "ZRX"
  address := .ofNat _ 0xe41d2489571d322189246dafa5ebde1f4699f498
  decimals := 18
  chainId := 1

/-- More tokens than a device keeps. -/
def tokens : List TokenVector :=
  [zrx,
   ⟨"USDC", .ofNat _ 0xa0b86991c6218b36c1d19d4a2e9eb0ce3606eb48, 6, 1⟩,
   ⟨"DAI", .ofNat _ 0x6b175474e89094c44da98b954eedeac495271d0f, 18, 1⟩,
   ⟨"WETH", .ofNat _ 0x7ceb23fd6bc0add59e62ac25578270cff1b9f619, 18, 137⟩]

structure CertificateVector where
  name : String
  usage : Usage
  draft : Draft
  issuer : SecretKey
  status : Status

namespace CertificateVector

def certificate (v : CertificateVector) : Option Bytes := v.draft.sign v.issuer

end CertificateVector

def baseDraft : Draft := coinMetaDraft coinMetaKey

/-- A good certificate, and certificates that are wrong in one way each. -/
def certificates : List CertificateVector :=
  [⟨"valid", .coinMeta, baseDraft, anchorKey, .ok⟩,
   ⟨"usage mismatch", .trustedName, baseDraft, anchorKey, .notAuthorized⟩,
   ⟨"unsupported version", .coinMeta, baseDraft.set .version [0x01], anchorKey, .unsupported⟩,
   ⟨"unknown tag", .coinMeta, baseDraft.push 0x7e [0x00], anchorKey, .invalidData⟩,
   ⟨"duplicate tag", .coinMeta,
     baseDraft.push Tag.trustedName.code coinMetaName, anchorKey, .invalidData⟩,
   ⟨"missing public key", .coinMeta, baseDraft.remove .publicKey, anchorKey, .invalidData⟩,
   ⟨"self signed", .coinMeta, baseDraft, coinMetaKey, .invalidData⟩,
   ⟨"unknown issuer", .coinMeta, baseDraft.set .signerKeyId (Bytes.ofUInt16 0x00ff), anchorKey,
     .invalidData⟩,
   ⟨"wrong target device", .coinMeta, baseDraft.set .targetDevice [0x7f], anchorKey,
     .notAuthorized⟩]

end TokenProvision.Host.Fixture
