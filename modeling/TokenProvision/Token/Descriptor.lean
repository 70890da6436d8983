import TokenProvision.Bytes

/-!
Token descriptors: what a wallet shows of a token contract.
On the wire a descriptor is the length of its ticker, the ticker, the contract address, and the
decimals and the chain as numbers of four bytes. It shows its own end.
-/
namespace TokenProvision.Token

def maxTicker : Nat := 11

def addressLength : Nat := 20

abbrev Address := FixedBytes addressLength

structure Descriptor where
  ticker : Label maxTicker
  address : Address
  decimals : UInt8
  chainId : UInt32
  deriving DecidableEq, Repr

namespace Descriptor

/-- What follows the ticker: the address, the decimals and the chain. -/
def fixedLength : Nat := addressLength + 4 + 4

/-- A descriptor with the ticker given as text. -/
def new (ticker : String) (address : Address) (decimals : UInt8) (chainId : UInt32) :
    Except CodecError Descriptor :=
  if ticker.isEmpty then .error .invalidLength
  else
    match Bytes.ofPrintable? ticker with
    | none => .error .invalidEncoding
    | some bs =>
      match Label.ofBytes? maxTicker bs with
      | none => .error .invalidLength
      | some label => .ok ⟨label, address, decimals, chainId⟩

def encodedLength (d : Descriptor) : Nat := 1 + d.ticker.bytes.length + fixedLength

def encode (d : Descriptor) : Bytes :=
  UInt8.ofNat d.ticker.bytes.length :: d.ticker.bytes ++ d.address.bytes ++
    Bytes.ofUInt32 d.decimals.toUInt32 ++ Bytes.ofUInt32 d.chainId

@[simp] theorem length_encode (d : Descriptor) : d.encode.length = d.encodedLength := by
  have := d.address.length_eq
  simp [encode, encodedLength, fixedLength, this]
  omega

def write (d : Descriptor) (room : Nat) : Except CodecError Bytes :=
  writeWithin room d.encodedLength d.encode

/-- Reads the descriptor at the front of a byte string, and counts its bytes. -/
def decode : Bytes → Except CodecError (Descriptor × Nat)
  | [] => .error .invalidLength
  | n :: rest =>
    if n = 0 ∨ maxTicker < n.toNat then .error .invalidLength
    else if h : rest.length < n.toNat + fixedLength then .error .invalidLength
    else
      match Label.ofBytes? maxTicker (rest.take n.toNat) with
      | none => .error .invalidEncoding
      | some ticker =>
        have fits : addressLength ≤ (rest.drop n.toNat).length := by
          simp [fixedLength] at h ⊢
          omega
        let address := FixedBytes.take addressLength (rest.drop n.toNat) fits
        let numbers := rest.drop (n.toNat + addressLength)
        let decimals := Bytes.toNat (numbers.take 4)
        if 0xff < decimals then .error .invalidEncoding
        else
          let chainId := UInt32.ofNat (Bytes.toNat ((numbers.drop 4).take 4))
          .ok (⟨ticker, address, UInt8.ofNat decimals, chainId⟩, 1 + n.toNat + fixedLength)

/-- Whether two descriptors name the same contract on the same chain. -/
def SameToken (a b : Descriptor) : Prop := a.address = b.address ∧ a.chainId = b.chainId

instance (a b : Descriptor) : Decidable (SameToken a b) := inferInstanceAs (Decidable (_ ∧ _))

end Descriptor

end TokenProvision.Token
