import TokenProvision.Proofs.Guarded.Basic
import TokenProvision.Proofs.Session.Frame

/-!
Guarded reading of frames, descriptors and payloads. Of a frame a byte is looked at and the payload
is cut out only after a check of the length, and the assertions about the instruction byte follow
from the look-up of the instruction. Of a descriptor every piece is cut out after one check of the
length, and of its ticker nothing but the characters is left to check. So on no byte string does the
reading trap, and it reads what the plain one reads.
-/
namespace TokenProvision

open Guarded

namespace Command

/-- Reads the frame at the front of a byte string, byte by byte. -/
def guardedDecode (bs : Bytes) : Guarded (Except CodecError (Command × Nat)) := do
  if bs.length < headerLength then return .error .invalidLength
  else
    let lc ← item bs 4
    if bs.length < headerLength + lc.toNat then return .error .invalidLength
    else
      let cla ← item bs 0
      let ins ← item bs 1
      let p1 ← item bs 2
      let p2 ← item bs 3
      let rest ← behind bs headerLength
      let data ← upTo rest lc.toNat
      return .ok (⟨cla, ins, p1, p2, data⟩, headerLength + lc.toNat)

def guardedParse (raw : Bytes) : Guarded (Except CodecError Command) := do
  match ← guardedDecode raw with
  | .error e => return .error e
  | .ok (c, n) => if n ≠ raw.length then return .error .invalidLength else return .ok c

theorem guardedDecode_eq (bs : Bytes) : guardedDecode bs = .ok (decode bs) := by
  match bs with
  | [] | [_] | [_, _] | [_, _, _] | [_, _, _, _] => rfl
  | cla :: ins :: p1 :: p2 :: lc :: rest =>
    have hlength : (cla :: ins :: p1 :: p2 :: lc :: rest).length = headerLength + rest.length := by
      simp [headerLength]
      omega
    have hitem (i : Nat) (b : UInt8) (h : (cla :: ins :: p1 :: p2 :: lc :: rest)[i]? = some b) :=
      item_of_getElem? h
    rw [guardedDecode, decode, hlength, if_neg (by omega), hitem 4 lc rfl, ok_bind]
    by_cases hlong : rest.length < lc.toNat
    · rw [if_pos hlong, if_pos (by omega)]
      rfl
    · have hbehind : behind (cla :: ins :: p1 :: p2 :: lc :: rest) headerLength = .ok rest :=
        behind_of_le (by omega)
      rw [if_neg hlong, if_neg (by omega), hitem 0 cla rfl, hitem 1 ins rfl, hitem 2 p1 rfl,
        hitem 3 p2 rfl, hbehind]
      simp only [ok_bind, upTo_of_le (Nat.not_lt.mp hlong)]
      rfl

theorem guardedParse_eq (raw : Bytes) : guardedParse raw = .ok (parse raw) := by
  rw [guardedParse, guardedDecode_eq, ok_bind, parse]
  cases decode raw with
  | error e => rfl
  | ok r =>
    dsimp only
    split <;> rfl

end Command

namespace Event

/-- The event that a command asks for, with the assertions about its instruction byte. -/
def guardedOfCommand (c : Command) : Guarded (Except Refusal Event) := do
  match Instruction.ofHeader? c.cla c.ins with
  | none =>
    return .error
      (if Instruction.isKnownClass c.cla then .unsupportedInstruction else .unsupportedClass)
  | some .loadCertificate =>
    insist (c.ins = Instruction.loadCertificate.ins)
    if c.p2 ≠ 0 then return .error .invalidParameters
    else return .ok (.loadCertificate c.p1 c.data)
  | some .provideToken =>
    insist (c.ins = Instruction.provideToken.ins)
    if c.p1 ≠ 0 ∨ c.p2 ≠ 0 then return .error .invalidParameters
    else return .ok (.provideToken c.data)

def guardedOfFrame (raw : Bytes) : Guarded (Except Refusal Event) := do
  match ← Command.guardedParse raw with
  | .error _ => return .error .malformedFrame
  | .ok c => guardedOfCommand c

theorem guardedOfCommand_eq (c : Command) : guardedOfCommand c = .ok (ofCommand c) := by
  unfold guardedOfCommand ofCommand
  cases hheader : Instruction.ofHeader? c.cla c.ins with
  | none => rfl
  | some i =>
    have hins := (Instruction.ofHeader?_eq_some_iff.mp hheader).2
    cases i with
    | loadCertificate =>
      dsimp only
      rw [insist_of hins, ok_bind]
      split <;> rfl
    | provideToken =>
      dsimp only
      rw [insist_of hins, ok_bind]
      split <;> rfl

theorem guardedOfFrame_eq (raw : Bytes) : guardedOfFrame raw = .ok (ofFrame raw) := by
  rw [guardedOfFrame, Command.guardedParse_eq, ok_bind, ofFrame]
  cases Command.parse raw with
  | error e => rfl
  | ok c => exact guardedOfCommand_eq c

end Event

namespace FixedBytes

def guardedDecode (n : Nat) (bs : Bytes) : Guarded (Except CodecError (FixedBytes n)) := do
  if bs.length < n then return .error .invalidLength
  else
    let front ← upTo bs n
    let f ← fixed n front
    return .ok f

theorem guardedDecode_of_le {n : Nat} {bs : Bytes} (h : n ≤ bs.length) :
    guardedDecode n bs = .ok (.ok (take n bs h)) := by
  rw [guardedDecode, if_neg (Nat.not_lt.mpr h), upTo_of_le h, ok_bind,
    fixed_of_length (List.length_take_of_le h)]
  rfl

end FixedBytes

namespace Bytes

def guardedUInt32 (bs : Bytes) : Guarded (Except CodecError UInt32) := do
  if bs.length < 4 then return .error .invalidLength
  else
    let front ← upTo bs 4
    let n ← number 4 front
    return .ok (UInt32.ofNat n)

theorem guardedUInt32_of_le {bs : Bytes} (h : 4 ≤ bs.length) :
    guardedUInt32 bs = .ok (.ok (UInt32.ofNat (toNat (bs.take 4)))) := by
  have hfront : 4 ≤ (bs.take 4).length := Nat.le_of_eq (List.length_take_of_le h).symm
  rw [guardedUInt32, if_neg (Nat.not_lt.mpr h), upTo_of_le h, ok_bind, number_of_le hfront,
    ok_bind, List.take_take]
  rfl

theorem toNat_ofNat_take_four (bs : Bytes) :
    (UInt32.ofNat (toNat (bs.take 4))).toNat = toNat (bs.take 4) := by
  have hlt := toNat_lt (bs.take 4)
  have hpow : 256 ^ (bs.take 4).length ≤ 256 ^ 4 :=
    Nat.pow_le_pow_right (by decide) (List.length_take_le 4 bs)
  exact UInt32.toNat_ofNat_of_lt' (Nat.lt_of_lt_of_le hlt hpow)

end Bytes

theorem Label.ofBytes?_eq_none_iff {max : Nat} {bs : Bytes} :
    Label.ofBytes? max bs = none ↔
      ¬ (bs ≠ [] ∧ bs.length ≤ max ∧ Bytes.ArePrintable bs) := by
  unfold Label.ofBytes?
  split <;> simp_all

namespace Token

/-- Reads what stands behind the ticker of a descriptor, which ends at `place`. -/
def Descriptor.guardedFields (ticker : Label maxTicker) (bs : Bytes) (place : Nat) :
    Guarded (Except CodecError (Descriptor × Nat)) := do
  match ← FixedBytes.guardedDecode addressLength (← behind bs place) with
  | .error e => return .error e
  | .ok address =>
    match ← Bytes.guardedUInt32 (← behind bs (place + addressLength)) with
    | .error e => return .error e
    | .ok decimals =>
      if 0xff < decimals.toNat then return .error .invalidEncoding
      else
        match ← Bytes.guardedUInt32 (← behind bs (place + addressLength + 4)) with
        | .error e => return .error e
        | .ok chainId =>
          return .ok (⟨ticker, address, UInt8.ofNat decimals.toNat, chainId⟩, place + fixedLength)

def Descriptor.guardedDecode (bs : Bytes) :
    Guarded (Except CodecError (Descriptor × Nat)) := do
  if bs.isEmpty then return .error .invalidLength
  else
    let n ← item bs 0
    if n = 0 ∨ maxTicker < n.toNat then return .error .invalidLength
    else if bs.length < 1 + n.toNat + fixedLength then return .error .invalidLength
    else
      let text ← upTo (← behind bs 1) n.toNat
      if ¬ Bytes.ArePrintable text then return .error .invalidEncoding
      else guardedFields (← label maxTicker text) bs (1 + n.toNat)

def Payload.guardedDecode (bs : Bytes) : Guarded (Except CodecError (Payload × Nat)) := do
  match ← Descriptor.guardedDecode bs with
  | .error e => return .error e
  | .ok (d, n) =>
    let signature ← behind bs n
    return .ok (⟨d, signature⟩, bs.length)

theorem Descriptor.guardedFields_of_le {ticker : Label maxTicker} {bs : Bytes} {place : Nat}
    (h : place + fixedLength ≤ bs.length) (fits : addressLength ≤ (bs.drop place).length) :
    guardedFields ticker bs place =
      let numbers := bs.drop (place + addressLength)
      let decimals := Bytes.toNat (numbers.take 4)
      if 0xff < decimals then .ok (.error .invalidEncoding)
      else .ok (.ok (⟨ticker, FixedBytes.take addressLength (bs.drop place) fits,
        UInt8.ofNat decimals, UInt32.ofNat (Bytes.toNat ((numbers.drop 4).take 4))⟩,
        place + fixedLength)) := by
  have hlong : place + 28 ≤ bs.length := h
  have hfirst : 4 ≤ (bs.drop (place + addressLength)).length := by
    simp [addressLength]
    omega
  have hsecond : 4 ≤ (bs.drop (place + addressLength + 4)).length := by
    simp [addressLength]
    omega
  rw [guardedFields, behind_of_le (by omega), ok_bind, FixedBytes.guardedDecode_of_le fits, ok_bind]
  dsimp only
  rw [behind_of_le (by simp [addressLength]; omega), ok_bind, Bytes.guardedUInt32_of_le hfirst,
    ok_bind]
  dsimp only
  rw [Bytes.toNat_ofNat_take_four]
  split
  · rfl
  · rw [behind_of_le (by simp [addressLength]; omega), ok_bind, Bytes.guardedUInt32_of_le hsecond,
      List.drop_drop]
    rfl

theorem Descriptor.guardedDecode_eq (bs : Bytes) : guardedDecode bs = .ok (decode bs) := by
  cases bs with
  | nil => rfl
  | cons n rest =>
    have hitem : item (n :: rest) 0 = .ok n := rfl
    have hbehind : behind (n :: rest) 1 = .ok rest := behind_of_le (Nat.le_add_left 1 _)
    have hempty : ¬ (n :: rest).isEmpty = true := Bool.false_ne_true
    rw [guardedDecode, decode, if_neg hempty, hitem, ok_bind]
    by_cases hn : n = 0 ∨ maxTicker < n.toNat
    · rw [if_pos hn, if_pos hn]
      rfl
    · rw [if_neg hn, if_neg hn, List.length_cons]
      by_cases hshort : rest.length < n.toNat + fixedLength
      · rw [dif_pos hshort, if_pos (by omega)]
        rfl
      · have hlong : n.toNat + 28 ≤ rest.length := Nat.not_lt.mp hshort
        rw [dif_neg hshort, if_neg (by omega), hbehind, ok_bind, upTo_of_le (by omega), ok_bind]
        cases hlabel : Label.ofBytes? maxTicker (rest.take n.toNat) with
        | none =>
          -- of the conditions on a label only the last is left to fail
          have hprintable : ¬ Bytes.ArePrintable (rest.take n.toNat) := by
            intro hprintable
            have hlength : (rest.take n.toNat).length = n.toNat :=
              List.length_take_of_le (by omega)
            have hpos : n.toNat ≠ 0 := fun hzero => hn (.inl (UInt8.toNat_inj.mp hzero))
            have hmax : ¬ maxTicker < n.toNat := fun hlt => hn (.inr hlt)
            refine Label.ofBytes?_eq_none_iff.mp hlabel ⟨?_, by omega, hprintable⟩
            rw [← List.length_pos_iff]
            omega
          rw [if_pos hprintable]
          rfl
        | some ticker =>
          have hprintable := ticker.printable
          rw [Label.bytes_of_ofBytes? hlabel] at hprintable
          have hdrop (k : Nat) : (n :: rest).drop (1 + k) = rest.drop k := by
            rw [Nat.add_comm, List.drop_succ_cons]
          rw [if_neg (not_not_intro hprintable), label_of_ofBytes? hlabel, ok_bind,
            guardedFields_of_le (by rw [List.length_cons]; omega)
              (by rw [hdrop, List.length_drop, addressLength]; omega)]
          simp only [Nat.add_assoc, hdrop]
          split <;> rfl

theorem Payload.guardedDecode_eq (bs : Bytes) : guardedDecode bs = .ok (decode bs) := by
  rw [guardedDecode, Descriptor.guardedDecode_eq, ok_bind, decode]
  cases hd : Descriptor.decode bs with
  | error e => rfl
  | ok r =>
    obtain ⟨d, n⟩ := r
    obtain ⟨rfl, hprefix⟩ := Descriptor.decode_eq_ok_iff.mp hd
    have hn : d.encodedLength ≤ bs.length := by
      rw [← Descriptor.length_encode]
      exact hprefix.length_le
    dsimp only
    rw [behind_of_le hn]
    rfl

end Token

end TokenProvision
