import TokenProvision.Proofs.Command
import TokenProvision.Proofs.Token.Codec
import TokenProvision.Session.Basic

/-!
Frames and events. Every event is asked for by one command, so a byte string asks for an event
exactly if it is the frame of that command. Two kinds of frame ask for an event, each for one event
and no two for the same; a host that frames a request asks for the event of that request. Every
other byte string has faults, and is refused for the one that is looked for first.
-/
namespace TokenProvision

theorem Instruction.ofHeader?_eq_some_iff {cla ins : UInt8} {i : Instruction} :
    ofHeader? cla ins = some i ↔ cla = i.cla ∧ ins = i.ins := by
  constructor
  · intro h
    have hfound := List.find?_some h
    obtain ⟨hcla, hins⟩ := of_decide_eq_true hfound
    exact ⟨hcla.symm, hins.symm⟩
  · rintro ⟨rfl, rfl⟩
    exact ofHeader?_header i

namespace Event

variable {c : Command} {e : Event} {raw : Bytes}

def command : Event → Command
  | loadCertificate usage certificate =>
    ⟨Instruction.loadCertificate.cla, Instruction.loadCertificate.ins, usage, 0, certificate⟩
  | provideToken payload =>
    ⟨Instruction.provideToken.cla, Instruction.provideToken.ins, 0, 0, payload⟩

/-- Whether a byte string is a frame that provides a token. -/
def IsProvideFrame (raw : Bytes) : Prop :=
  ∃ payload : Bytes, payload.length ≤ Command.maxData ∧
    raw = (Command.mk 0xe0 0x0a 0 0 payload).encode

/-- Exactly the command of an event asks for it. -/
theorem ofCommand_eq_ok_iff : ofCommand c = .ok e ↔ c = e.command := by
  constructor
  · intro h
    unfold ofCommand at h
    split at h
    · cases h
    · rename_i hheader
      obtain ⟨hcla, hins⟩ := Instruction.ofHeader?_eq_some_iff.mp hheader
      split at h
      · cases h
      · rename_i hp2
        cases h
        calc c = ⟨c.cla, c.ins, c.p1, c.p2, c.data⟩ := rfl
          _ = (loadCertificate c.p1 c.data).command := by
            rw [hcla, hins, Decidable.of_not_not hp2]
            rfl
    · rename_i hheader
      obtain ⟨hcla, hins⟩ := Instruction.ofHeader?_eq_some_iff.mp hheader
      split at h
      · cases h
      · rename_i hp
        obtain ⟨hp1, hp2⟩ := not_or.mp hp
        cases h
        calc c = ⟨c.cla, c.ins, c.p1, c.p2, c.data⟩ := rfl
          _ = (provideToken c.data).command := by
            rw [hcla, hins, Decidable.of_not_not hp1, Decidable.of_not_not hp2]
            rfl
  · rintro rfl
    cases e with
    | loadCertificate usage certificate => simp [ofCommand, command]
    | provideToken payload => simp [ofCommand, command]

/-- Exactly the frame of the command of an event asks for it. -/
theorem ofFrame_eq_ok_iff :
    ofFrame raw = .ok e ↔
      e.command.data.length ≤ Command.maxData ∧ raw = e.command.encode := by
  rw [← Command.parse_eq_ok_iff]
  unfold ofFrame
  cases hparse : Command.parse raw with
  | error r => simp
  | ok c => simp [ofCommand_eq_ok_iff]

theorem isProvideFrame_iff :
    IsProvideFrame raw ↔ ∃ payload, ofFrame raw = .ok (.provideToken payload) := by
  simp only [ofFrame_eq_ok_iff]
  exact Iff.rfl

end Event

namespace Instruction

theorem ofHeader?_eq_none_iff {cla ins : UInt8} :
    ofHeader? cla ins = none ↔ (cla, ins) ∉ [(0xb0, 0x06), (0xe0, 0x0a)] := by
  rw [Option.eq_none_iff_forall_ne_some]
  constructor
  · intro h hmem
    simp only [List.mem_cons, List.not_mem_nil, or_false, Prod.mk.injEq] at hmem
    rcases hmem with ⟨rfl, rfl⟩ | ⟨rfl, rfl⟩
    · exact h _ (ofHeader?_header .loadCertificate)
    · exact h _ (ofHeader?_header .provideToken)
  · intro h i hi
    obtain ⟨rfl, rfl⟩ := ofHeader?_eq_some_iff.mp hi
    cases i <;> exact h (by decide)

theorem isKnownClass_iff {cla : UInt8} : isKnownClass cla = true ↔ cla ∈ [0xb0, 0xe0] := by
  rw [isKnownClass, Bool.or_eq_true, decide_eq_true_eq, decide_eq_true_eq, tokenClass,
    certificateClass, or_comm]
  simp

end Instruction

namespace Request

def event : Request → Event
  | loadCertificate usage certificate => .loadCertificate usage certificate
  | provideToken payload => .provideToken payload.encode

/-- A request is carried by the command of its event. -/
theorem command_eq (r : Request) : r.command = r.event.command := by
  cases r with
  | loadCertificate usage certificate => rfl
  | provideToken payload => rfl

/-- The payload of a request is written as a whole, where there is room for it, or not at all. -/
theorem write_eq (r : Request) (room : Nat) :
    r.write room = writeWithin room r.encodedLength r.encode := by
  cases r with
  | loadCertificate usage certificate => rfl
  | provideToken payload => exact payload.write_eq room

/-- The command that carries a request has as many bytes of payload as the request. -/
theorem length_data_command (r : Request) : r.command.data.length = r.encodedLength :=
  r.length_encode

end Request

namespace Event

variable {c : Command} {e : Event} {raw raw' : Bytes} {r : Refusal}

/-- The faults for which a byte string is refused, in the order in which they are looked for. -/
def faults : List Refusal :=
  [.malformedFrame, .unsupportedClass, .unsupportedInstruction, .invalidParameters]

/-- Whether a byte string has a fault, whatever other faults it has: of its length, its class, its
instruction or its parameters. -/
def hasFault (raw : Bytes) : Refusal → Bool
  | .malformedFrame => raw.length < 5 || raw.length ≠ 5 + (raw.getD 4 0).toNat
  | .unsupportedClass => raw.getD 0 0 ∉ [0xb0, 0xe0]
  | .unsupportedInstruction => (raw.getD 0 0, raw.getD 1 0) ∉ [(0xb0, 0x06), (0xe0, 0x0a)]
  | .invalidParameters => raw.getD 3 0 ≠ 0 || (raw.getD 0 0 = 0xe0 && raw.getD 2 0 ≠ 0)
  | _ => false

theorem hasFault_malformedFrame_iff :
    hasFault raw .malformedFrame = true ↔ ¬ Command.IsFrame raw := by
  simp only [hasFault, Command.IsFrame, Command.headerLength, Bool.or_eq_true, decide_eq_true_eq]
  omega

theorem ofCommand_eq_error_iff (h : c.data.length ≤ Command.maxData) :
    ofCommand c = .error r ↔ faults.find? (hasFault c.encode) = some r := by
  have hframe : hasFault c.encode .malformedFrame = false := by
    rw [Bool.eq_false_iff, ne_eq, hasFault_malformedFrame_iff, Decidable.not_not]
    exact Command.exists_parse_iff.mp ⟨c, Command.parse_eq_ok_iff.mpr ⟨h, rfl⟩⟩
  -- the other faults are to be seen from the fields of the command
  have hclass : hasFault c.encode .unsupportedClass = decide (c.cla ∉ [0xb0, 0xe0]) := rfl
  have hinstruction : hasFault c.encode .unsupportedInstruction =
      decide ((c.cla, c.ins) ∉ [(0xb0, 0x06), (0xe0, 0x0a)]) := rfl
  have hparameters : hasFault c.encode .invalidParameters =
      (decide (c.p2 ≠ 0) || (decide (c.cla = 0xe0) && decide (c.p1 ≠ 0))) := rfl
  unfold ofCommand faults
  simp only [List.find?_cons, hframe, hclass, hinstruction, hparameters, List.find?_nil]
  split
  · rename_i hheader
    rw [decide_eq_true (Instruction.ofHeader?_eq_none_iff.mp hheader)]
    by_cases hknown : c.cla ∈ [0xb0, 0xe0]
    · simp [Instruction.isKnownClass_iff.mpr hknown, hknown]
    · simp [Instruction.isKnownClass_iff, hknown]
  · rename_i hheader
    obtain ⟨hcla, hins⟩ := Instruction.ofHeader?_eq_some_iff.mp hheader
    rw [Instruction.cla, Instruction.certificateClass] at hcla
    rw [Instruction.ins] at hins
    by_cases hp2 : c.p2 = 0 <;> simp [hcla, hins, hp2]
  · rename_i hheader
    obtain ⟨hcla, hins⟩ := Instruction.ofHeader?_eq_some_iff.mp hheader
    rw [Instruction.cla, Instruction.tokenClass] at hcla
    rw [Instruction.ins] at hins
    by_cases hp2 : c.p2 = 0 <;> by_cases hp1 : c.p1 = 0 <;> simp [hcla, hins, hp1, hp2]

/-- A byte string is refused for the first fault that it has. -/
theorem ofFrame_eq_error_iff :
    ofFrame raw = .error r ↔ faults.find? (hasFault raw) = some r := by
  cases hparse : Command.parse raw with
  | error cause =>
    have hmalformed : hasFault raw .malformedFrame = true := by
      rw [hasFault_malformedFrame_iff, ← Command.exists_parse_iff, hparse]
      simp
    simp [ofFrame, hparse, faults, hmalformed]
  | ok c =>
    obtain ⟨hdata, rfl⟩ := Command.parse_eq_ok_iff.mp hparse
    rw [← ofCommand_eq_error_iff hdata]
    simp [ofFrame, hparse]

-- too short for what it announces, of no known class, and with a parameter that is not zero
example : ofFrame [0x17, 0x42, 0x00, 0x01, 0x01] = .error .malformedFrame := rfl

/-- No two frames ask for the same event. -/
theorem ofFrame_injective (h : ofFrame raw = .ok e) (h' : ofFrame raw' = .ok e) : raw = raw' :=
  (ofFrame_eq_ok_iff.mp h).2.trans (ofFrame_eq_ok_iff.mp h').2.symm

/-- The frame of a request whose payload is short enough asks for the event of the request. -/
theorem ofFrame_request (r : Request) (h : r.encodedLength ≤ Command.maxData) :
    ofFrame r.command.encode = .ok r.event := by
  rw [ofFrame_eq_ok_iff, ← r.command_eq, r.length_data_command]
  exact ⟨h, rfl⟩

/-- The instructions are exactly the two kinds of frame. A byte string asks to load a certificate,
or to provide a token, exactly if it is the frame for that with at most 255 bytes of payload, and no
two byte strings ask for the same. A request whose payload has at most 255 bytes can be written and
framed, and the frame asks for the event of the request. Every other byte string is refused for the
first fault that it has: of its length, its class, its instruction or its parameters. -/
theorem events_are_two_frames :
    (∀ raw usage certificate, ofFrame raw = .ok (.loadCertificate usage certificate) ↔
      certificate.length ≤ 255 ∧
      raw = [0xb0, 0x06, usage, 0x00, UInt8.ofNat certificate.length] ++ certificate) ∧
    (∀ raw payload, ofFrame raw = .ok (.provideToken payload) ↔
      payload.length ≤ 255 ∧
      raw = [0xe0, 0x0a, 0x00, 0x00, UInt8.ofNat payload.length] ++ payload) ∧
    (∀ raw raw' e, ofFrame raw = .ok e → ofFrame raw' = .ok e → raw = raw') ∧
    (∀ (r : Request) (room : Nat), r.encodedLength ≤ 255 → 5 + r.encodedLength ≤ room →
      r.write room = .ok r.encode ∧
      (Command.mk r.instruction.cla r.instruction.ins r.p1 r.p2 r.encode).write room =
        .ok r.command.encode ∧
      ofFrame r.command.encode = .ok r.event) ∧
    ∀ raw r, ofFrame raw = .error r ↔ faults.find? (hasFault raw) = some r := by
  refine ⟨?_, ?_, ?_, ?_, ?_⟩
  · intro raw usage certificate
    exact ofFrame_eq_ok_iff
  · intro raw payload
    exact ofFrame_eq_ok_iff
  · intro raw raw' e
    exact ofFrame_injective
  · intro r room hshort hroom
    have hwrite : r.write room = .ok r.encode := by
      rw [r.write_eq]
      exact writeWithin_of_le r.encode (by omega)
    have hframe : r.command.write room = .ok r.command.encode := by
      apply Command.write_of_le
      · rw [r.length_data_command]
        exact hshort
      · rw [Command.encodedLength, r.length_data_command]
        exact hroom
    exact ⟨hwrite, hframe, ofFrame_request r hshort⟩
  · intro raw r
    exact ofFrame_eq_error_iff

end Event

end TokenProvision
