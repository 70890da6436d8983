import TokenProvision.Token.Descriptor

/-!
The registry of verified tokens. It has `capacity` slots, filled in turn and then reused in turn,
oldest first. A token that is already there keeps its slot and only gets the new descriptor.
-/
namespace TokenProvision

open Token (Descriptor Address)

/-- The filled slots, and the slot that the next new token takes. -/
structure Registry where
  tokens : List Descriptor
  next : Nat
  deriving DecidableEq, Repr

namespace Registry

def capacity : Nat := 2

def empty : Registry := ⟨[], 0⟩

instance : Inhabited Registry := ⟨empty⟩

def size (r : Registry) : Nat := r.tokens.length

def isEmpty (r : Registry) : Bool := r.tokens.isEmpty

def slot? (r : Registry) (address : Address) (chainId : UInt32) : Option Nat :=
  r.tokens.findIdx? fun t => t.address = address ∧ t.chainId = chainId

def get? (r : Registry) (slot : Nat) : Option Descriptor := r.tokens[slot]?

def find? (r : Registry) (address : Address) (chainId : UInt32) : Option (Nat × Descriptor) :=
  (r.slot? address chainId).bind fun slot => (r.get? slot).map fun t => (slot, t)

/-- Puts a descriptor into a slot: a filled slot gets it instead of its own, and otherwise it
fills the first empty one. -/
def put (tokens : List Descriptor) (slot : Nat) (t : Descriptor) : List Descriptor :=
  if slot < tokens.length then tokens.set slot t else tokens ++ [t]

/-- Stores a descriptor and names its slot. -/
def insert (r : Registry) (t : Descriptor) : Registry × Nat :=
  match r.slot? t.address t.chainId with
  | some slot => ({ r with tokens := r.tokens.set slot t }, slot)
  | none => (⟨put r.tokens r.next t, (r.next + 1) % capacity⟩, r.next)

def clear (_ : Registry) : Registry := empty

end Registry

end TokenProvision
