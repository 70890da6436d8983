import TokenProvision.Proofs.Guarded.Basic
import TokenProvision.Proofs.Session.Frame

/-!
Guarded writing of wire forms into buffers. An encoder checks the size of the buffer once and then
stores piece by piece, and the encoders of the pieces check what is left of the buffer again. The
stores fill the front of the buffer without a gap, up to the size that was checked, so none of them
lies outside and no later check fails; and every encoder writes the wire form that the plain one
writes, behind which the buffer stays as it was.
-/
namespace TokenProvision

namespace Guarded

variable {buffer form : Bytes}

/-- What writes a wire form to the front of a buffer, and counts its bytes. -/
abbrev Encoder := (buffer : Bytes) → Guarded (Except CodecError (Bytes × Nat))

def copy (bs : Bytes) : Encoder := fun buffer => do
  if buffer.length < bs.length then return .error .invalidLength
  else return .ok (← overwrite buffer 0 bs, bs.length)

def within (place : Nat) (w : Encoder) : Encoder := fun buffer => do
  match ← w (← behind buffer place) with
  | .error e => return .error e
  | .ok (tail, n) => return .ok (buffer.take place ++ tail, n)

/-- A buffer to the front of which some bytes are written. -/
def filled (buffer front : Bytes) : Bytes := front ++ buffer.drop front.length

/-- Whether an encoder writes a wire form into every buffer that has room for it, and refuses every
other buffer. -/
def Writes (w : Encoder) (form : Bytes) : Prop :=
  ∀ buffer : Bytes, w buffer =
    .ok (if form.length ≤ buffer.length then .ok (filled buffer form, form.length)
      else .error .invalidLength)

theorem length_filled {front : Bytes} (h : front.length ≤ buffer.length) :
    (filled buffer front).length = buffer.length := by
  rw [filled, List.length_append, List.length_drop]
  omega

theorem drop_filled (buffer front : Bytes) :
    (filled buffer front).drop front.length = buffer.drop front.length := List.drop_left

theorem assign_filled (buffer front : Bytes) (place : Nat) (hplace : front.length = place)
    (h : place < buffer.length) (b : UInt8) :
    assign (filled buffer front) place b = .ok (filled buffer (front ++ [b])) := by
  subst hplace
  have hsplit : filled buffer front =
      front ++ buffer[front.length] :: buffer.drop (front.length + 1) := by
    rw [filled, List.drop_eq_getElem_cons h]
  rw [assign_of_lt (by rw [length_filled (Nat.le_of_lt h)]; exact h), hsplit,
    List.set_append_right _ _ (Nat.le_refl _), Nat.sub_self, List.set_cons_zero, filled,
    List.append_assoc, List.length_append]
  rfl

theorem overwrite_filled (buffer front : Bytes) (place : Nat) (hplace : front.length = place)
    {bs : Bytes} (h : place + bs.length ≤ buffer.length) :
    overwrite (filled buffer front) place bs = .ok (filled buffer (front ++ bs)) := by
  subst hplace
  rw [overwrite_of_le (by rw [length_filled (by omega)]; exact h), ← List.drop_drop, drop_filled,
    List.drop_drop]
  simp [filled]

theorem within_filled {w : Encoder} (hw : Writes w form) (buffer front : Bytes) (place : Nat)
    (hplace : front.length = place) (h : place + form.length ≤ buffer.length) :
    within place w (filled buffer front) =
      .ok (.ok (filled buffer (front ++ form), form.length)) := by
  subst hplace
  have hbehind : behind (filled buffer front) front.length = .ok (buffer.drop front.length) := by
    rw [behind_of_le (by rw [length_filled (by omega)]; omega), drop_filled]
  rw [within, hbehind, ok_bind, hw, ok_bind, if_pos (by rw [List.length_drop]; omega)]
  dsimp only
  rw [filled, filled, filled, List.take_left, List.drop_drop, List.length_append,
    List.append_assoc]
  rfl

theorem writes_copy (bs : Bytes) : Writes (copy bs) bs := by
  intro buffer
  rw [copy]
  by_cases hroom : bs.length ≤ buffer.length
  · have hstore : overwrite buffer 0 bs = .ok (filled buffer bs) :=
      overwrite_filled buffer [] 0 rfl (by rwa [Nat.zero_add])
    rw [if_neg (Nat.not_lt.mpr hroom), if_pos hroom, hstore]
    rfl
  · rw [if_pos (Nat.not_le.mp hroom), if_neg hroom]
    rfl

end Guarded

open Guarded

def Command.guardedWrite (c : Command) : Encoder := fun buffer => do
  if maxData < c.data.length then return .error .invalidLength
  else if buffer.length < headerLength + c.data.length then return .error .invalidLength
  else
    let buffer ← assign buffer 0 c.cla
    let buffer ← assign buffer 1 c.ins
    let buffer ← assign buffer 2 c.p1
    let buffer ← assign buffer 3 c.p2
    let buffer ← assign buffer 4 (UInt8.ofNat c.data.length)
    let buffer ← overwrite buffer headerLength c.data
    return .ok (buffer, headerLength + c.data.length)

/-- Writes a length behind the tag of an entry, and gives the place of the value. -/
def Tlv.guardedLength (n : Nat) (buffer : Bytes) : Guarded (Bytes × Nat) := do
  if n < 0x80 then return (← assign buffer 1 (UInt8.ofNat n), 2)
  else if n < 0x100 then
    let buffer ← assign buffer 1 0x81
    return (← assign buffer 2 (UInt8.ofNat n), 3)
  else
    let buffer ← assign buffer 1 0x82
    return (← overwrite buffer 2 (Bytes.ofUInt16 (UInt16.ofNat n)), 4)

def Tlv.guardedWrite (tag : UInt8) (value : Bytes) : Encoder := fun buffer => do
  if maxValueLength < value.length then return .error .invalidLength
  else if buffer.length < encodedLength value.length then return .error .invalidLength
  else
    let buffer ← assign buffer 0 tag
    let (buffer, place) ← guardedLength value.length buffer
    let buffer ← overwrite buffer place value
    return .ok (buffer, place + value.length)

namespace Token

/-- Writes what stands behind the ticker of a descriptor, which ends at `place`. -/
def Descriptor.guardedRest (d : Descriptor) (place : Nat) : Encoder := fun buffer => do
  match ← within place (copy d.address.bytes) buffer with
  | .error e => return .error e
  | .ok (buffer, n) =>
    let place := place + n
    match ← within place (copy (Bytes.ofUInt32 d.decimals.toUInt32)) buffer with
    | .error e => return .error e
    | .ok (buffer, n) =>
      let place := place + n
      match ← within place (copy (Bytes.ofUInt32 d.chainId)) buffer with
      | .error e => return .error e
      | .ok (buffer, n) => return .ok (buffer, place + n)

def Descriptor.guardedWrite (d : Descriptor) : Encoder := fun buffer => do
  let ticker := d.ticker.bytes
  if buffer.length < d.encodedLength then return .error .invalidLength
  else
    let buffer ← assign buffer 0 (UInt8.ofNat ticker.length)
    let buffer ← overwrite buffer 1 ticker
    d.guardedRest (1 + ticker.length) buffer

def Payload.guardedWrite (p : Payload) : Encoder := fun buffer => do
  match ← p.descriptor.guardedWrite buffer with
  | .error e => return .error e
  | .ok (buffer, n) =>
    if buffer.length < n + p.signature.length then return .error .invalidLength
    else return .ok (← overwrite buffer n p.signature, n + p.signature.length)

def Slot.guardedWrite (s : Slot) : Encoder := copy [s.index]

end Token

def Request.guardedWrite : Request → Encoder
  | loadCertificate _ certificate => copy certificate
  | provideToken payload => payload.guardedWrite

theorem Command.writes_encode {c : Command} (h : c.data.length ≤ maxData) :
    Writes c.guardedWrite c.encode := by
  intro buffer
  rw [guardedWrite, if_neg (Nat.not_lt.mpr h), length_encode, encodedLength]
  by_cases hroom : headerLength + c.data.length ≤ buffer.length
  · have hheader : 5 + c.data.length ≤ buffer.length := hroom
    have h₀ : assign buffer 0 c.cla = .ok (filled buffer [c.cla]) :=
      assign_filled buffer [] 0 rfl (by omega) c.cla
    have h₁ : assign (filled buffer [c.cla]) 1 c.ins = .ok (filled buffer [c.cla, c.ins]) :=
      assign_filled buffer [c.cla] 1 rfl (by omega) c.ins
    have h₂ : assign (filled buffer [c.cla, c.ins]) 2 c.p1 =
        .ok (filled buffer [c.cla, c.ins, c.p1]) :=
      assign_filled buffer [c.cla, c.ins] 2 rfl (by omega) c.p1
    have h₃ : assign (filled buffer [c.cla, c.ins, c.p1]) 3 c.p2 =
        .ok (filled buffer [c.cla, c.ins, c.p1, c.p2]) :=
      assign_filled buffer [c.cla, c.ins, c.p1] 3 rfl (by omega) c.p2
    have h₄ (lc : UInt8) : assign (filled buffer [c.cla, c.ins, c.p1, c.p2]) 4 lc =
        .ok (filled buffer [c.cla, c.ins, c.p1, c.p2, lc]) :=
      assign_filled buffer [c.cla, c.ins, c.p1, c.p2] 4 rfl (by omega) lc
    have h₅ (lc : UInt8) := overwrite_filled buffer [c.cla, c.ins, c.p1, c.p2, lc] headerLength rfl
      hroom
    rw [if_neg (Nat.not_lt.mpr hroom), if_pos hroom, h₀, ok_bind, h₁, ok_bind, h₂, ok_bind, h₃,
      ok_bind, h₄, ok_bind, h₅]
    rfl
  · rw [if_pos (Nat.not_le.mp hroom), if_neg hroom]
    rfl

/-- A length is written in its shortest form behind the tag. -/
theorem Tlv.guardedLength_filled {n : Nat} {buffer : Bytes} (h : n ≤ maxValueLength) (tag : UInt8)
    (hroom : encodedLength n ≤ buffer.length) :
    guardedLength n (filled buffer [tag]) =
      .ok (filled buffer (tag :: lengthForm n), 1 + (lengthForm n).length) := by
  rw [encodedLength_eq, length_lengthForm] at hroom
  rw [guardedLength, length_lengthForm]
  unfold lengthForm
  by_cases h₁ : n < 0x80
  · rw [if_pos h₁] at hroom
    have hfirst := assign_filled buffer [tag] 1 rfl (by omega) (UInt8.ofNat n)
    rw [if_pos h₁, if_pos h₁, if_pos h₁, hfirst]
    rfl
  · by_cases h₂ : n < 0x100
    · rw [if_neg h₁, if_pos h₂] at hroom
      have hfirst := assign_filled buffer [tag] 1 rfl (by omega) 0x81
      have hsecond := assign_filled buffer [tag, 0x81] 2 rfl (by omega) (UInt8.ofNat n)
      have hbyte : Bytes.ofNat 1 n = [UInt8.ofNat n] := by
        rw [Bytes.ofNat, Nat.mod_eq_of_lt h₂]
        rfl
      rw [if_neg h₁, if_pos h₂, if_neg h₁, if_pos h₂, if_neg h₁, if_pos h₂, hfirst, ok_bind,
        List.singleton_append, hsecond, hbyte]
      rfl
    · rw [if_neg h₁, if_neg h₂] at hroom
      have hfirst := assign_filled buffer [tag] 1 rfl (by omega) 0x82
      have hnumber : Bytes.ofUInt16 (UInt16.ofNat n) = Bytes.ofNat 2 n := by
        rw [Bytes.ofUInt16, UInt16.toNat_ofNat_of_lt' (Nat.lt_succ_of_le h)]
      have hsize : 2 + (Bytes.ofNat 2 n).length ≤ buffer.length := by
        rw [Bytes.length_ofNat]
        omega
      have hsecond := overwrite_filled buffer [tag, 0x82] 2 rfl hsize
      rw [if_neg h₁, if_neg h₂, if_neg h₁, if_neg h₂, if_neg h₁, if_neg h₂, hfirst, ok_bind,
        List.singleton_append, hnumber, hsecond]
      rfl

theorem Tlv.writes_encode (tag : UInt8) {value : Bytes} (h : value.length ≤ maxValueLength) :
    Writes (guardedWrite tag value) (encode tag value) := by
  intro buffer
  rw [guardedWrite, if_neg (Nat.not_lt.mpr h), length_encode]
  by_cases hroom : encodedLength value.length ≤ buffer.length
  · have hsize := hroom
    rw [encodedLength_eq] at hsize
    have htag : assign buffer 0 tag = .ok (filled buffer [tag]) :=
      assign_filled buffer [] 0 rfl (by omega) tag
    have hvalue := overwrite_filled buffer (tag :: lengthForm value.length) _
      (by rw [List.length_cons, Nat.add_comm]) hsize
    rw [if_neg (Nat.not_lt.mpr hroom), if_pos hroom, htag, ok_bind,
      guardedLength_filled h tag hroom, ok_bind]
    dsimp only
    rw [hvalue, encodedLength_eq]
    rfl
  · rw [if_pos (Nat.not_le.mp hroom), if_neg hroom]
    rfl

namespace Token

/-- Behind the ticker the address, the decimals and the chain are written. -/
theorem Descriptor.guardedRest_filled (d : Descriptor) {buffer : Bytes} (front : Bytes)
    {place : Nat} (hplace : front.length = place) (h : place + fixedLength ≤ buffer.length) :
    d.guardedRest place (filled buffer front) =
      .ok (.ok (filled buffer (front ++ d.address.bytes ++ Bytes.ofUInt32 d.decimals.toUInt32 ++
        Bytes.ofUInt32 d.chainId), place + fixedLength)) := by
  have haddress : d.address.bytes.length = 20 := d.address.length_eq
  have hsize : place + 20 + 4 + 4 ≤ buffer.length := h
  rw [guardedRest, within_filled (writes_copy _) buffer front place hplace (by omega), ok_bind]
  dsimp only
  rw [within_filled (writes_copy _) buffer (front ++ d.address.bytes) _
    (by rw [List.length_append, hplace]) (by rw [haddress, Bytes.length_ofUInt32]; omega), ok_bind]
  dsimp only
  rw [within_filled (writes_copy _) buffer (front ++ d.address.bytes ++ _) _
    (by rw [List.length_append, List.length_append, hplace])
    (by rw [haddress, Bytes.length_ofUInt32, Bytes.length_ofUInt32]; omega), ok_bind]
  dsimp only
  rw [haddress, Bytes.length_ofUInt32, Bytes.length_ofUInt32]
  rfl

theorem Descriptor.writes_encode (d : Descriptor) : Writes d.guardedWrite d.encode := by
  intro buffer
  rw [guardedWrite, length_encode]
  by_cases hroom : d.encodedLength ≤ buffer.length
  · have hsize : 1 + d.ticker.bytes.length + fixedLength ≤ buffer.length := hroom
    have hcount : assign buffer 0 (UInt8.ofNat d.ticker.bytes.length) =
        .ok (filled buffer [UInt8.ofNat d.ticker.bytes.length]) :=
      assign_filled buffer [] 0 rfl (by omega) _
    have hticker := overwrite_filled buffer [UInt8.ofNat d.ticker.bytes.length] 1 rfl
      (by omega : 1 + d.ticker.bytes.length ≤ buffer.length)
    have hrest := d.guardedRest_filled
      ([UInt8.ofNat d.ticker.bytes.length] ++ d.ticker.bytes) (List.length_append) hsize
    rw [if_neg (Nat.not_lt.mpr hroom), if_pos hroom, hcount, ok_bind, hticker, ok_bind]
    exact hrest
  · rw [if_pos (Nat.not_le.mp hroom), if_neg hroom]
    rfl

theorem Payload.writes_encode (p : Payload) : Writes p.guardedWrite p.encode := by
  intro buffer
  have hdescriptor := p.descriptor.writes_encode buffer
  rw [Descriptor.length_encode] at hdescriptor
  rw [guardedWrite, hdescriptor, ok_bind, length_encode, encodedLength]
  by_cases hfirst : p.descriptor.encodedLength ≤ buffer.length
  · have hlength : (filled buffer p.descriptor.encode).length = buffer.length :=
      length_filled (by rw [Descriptor.length_encode]; exact hfirst)
    rw [if_pos hfirst]
    dsimp only
    rw [hlength]
    by_cases hroom : p.descriptor.encodedLength + p.signature.length ≤ buffer.length
    · have hstore :=
        overwrite_filled buffer p.descriptor.encode _ (Descriptor.length_encode _) hroom
      rw [if_neg (Nat.not_lt.mpr hroom), if_pos hroom, hstore]
      rfl
    · rw [if_pos (Nat.not_le.mp hroom), if_neg hroom]
      rfl
  · rw [if_neg hfirst, if_neg (by omega)]
    rfl

end Token

theorem Request.writes_encode (r : Request) : Writes r.guardedWrite r.encode := by
  cases r with
  | loadCertificate usage certificate => exact writes_copy certificate
  | provideToken payload => exact payload.writes_encode

namespace Guarded

/-- Whether an encoder keeps to the size that is announced. There is a wire form of that size; it is
written wherever there is room for it, and a buffer that has room for it is changed in its front and
nowhere else; anywhere else there is the one refusal. -/
def KeepsTo (size : Nat) (write : Nat → Except CodecError Bytes) (w : Encoder) : Prop :=
  ∃ form : Bytes, form.length = size ∧
    (∀ room, write room = if size ≤ room then .ok form else .error .invalidLength) ∧
    ∀ buffer, w buffer = .ok (if size ≤ buffer.length then .ok (form ++ buffer.drop size, size)
      else .error .invalidLength)

/-- What is written within its room, and in the same form into buffers, keeps to its size. -/
theorem Writes.keepsTo {w : Encoder} {form : Bytes} (h : Writes w form) {size : Nat}
    (hsize : form.length = size) {write : Nat → Except CodecError Bytes}
    (hwrite : ∀ room, write room = writeWithin room size form) : KeepsTo size write w := by
  subst hsize
  refine ⟨form, rfl, ?_, h⟩
  intro room
  rw [hwrite, writeWithin]
  split <;> split <;> first | rfl | omega

/-- Encoders keep to the sizes that they announce, whatever the size of the buffer is. They write
that many bytes, always the same, to the front of a buffer with room for them, refuse every other
buffer with the same error, and never trap. A payload that is too long for the length byte of a
frame, or a value that is too long for the length of an entry, is refused for every buffer. -/
theorem encoders_keep_to_their_sizes :
    (∀ c : Command, c.data.length ≤ 255 → KeepsTo c.encodedLength c.write c.guardedWrite) ∧
    (∀ r : Request, KeepsTo r.encodedLength r.write r.guardedWrite) ∧
    (∀ d : Token.Descriptor, KeepsTo d.encodedLength d.write d.guardedWrite) ∧
    (∀ s : Token.Slot, KeepsTo s.encodedLength s.write s.guardedWrite) ∧
    (∀ (tag : UInt8) (value : Bytes), value.length ≤ 65535 →
      KeepsTo (Tlv.encodedLength value.length) (Tlv.write tag value) (Tlv.guardedWrite tag value)) ∧
    (∀ c : Command, 255 < c.data.length →
      (∀ room, c.write room = .error .invalidLength) ∧
      ∀ buffer, c.guardedWrite buffer = .ok (.error .invalidLength)) ∧
    ∀ (tag : UInt8) (value : Bytes), 65535 < value.length →
      (∀ room, Tlv.write tag value room = .error .invalidLength) ∧
      ∀ buffer, Tlv.guardedWrite tag value buffer = .ok (.error .invalidLength) := by
  refine ⟨?_, ?_, ?_, ?_, ?_, ?_, ?_⟩
  · intro c hdata
    exact (Command.writes_encode hdata).keepsTo c.length_encode
      fun room => if_neg (Nat.not_lt.mpr hdata)
  · intro r
    exact r.writes_encode.keepsTo r.length_encode r.write_eq
  · intro d
    exact d.writes_encode.keepsTo d.length_encode fun room => rfl
  · intro s
    exact (writes_copy [s.index]).keepsTo s.length_encode fun room => rfl
  · intro tag value hvalue
    exact (Tlv.writes_encode tag hvalue).keepsTo (Tlv.length_encode tag value)
      fun room => if_neg (Nat.not_lt.mpr hvalue)
  · intro c hlong
    exact ⟨fun room => if_pos hlong, fun buffer => if_pos hlong⟩
  · intro tag value hlong
    exact ⟨fun room => if_pos hlong, fun buffer => if_pos hlong⟩

end Guarded

end TokenProvision
