import TokenProvision.Session.Basic

/-!
Transports: how a host sends commands to a device and reads the answers. A transport may be a
session in the same process, or a script of responses that were written beforehand.
-/
namespace TokenProvision.Host

inductive Failure where
  | encoding (e : CodecError)
  | responseTooShort
  | unexpectedStatus (word : UInt16)
  | unexpectedData (data : Bytes)
  | malformedStep (line : Nat) (e : CodecError)
  deriving DecidableEq, Repr

namespace Failure

def message : Failure → String
  | encoding e => "APDU encoding failed: " ++ e.name
  | responseTooShort => "response too short"
  | unexpectedStatus word => "unexpected status word: " ++ Text.Hex.word word
  | unexpectedData data => "unexpected response data: " ++ Text.Hex.listing data
  | malformedStep line e => "line " ++ toString line ++ ": " ++ e.name

end Failure

structure Answer where
  data : Bytes
  word : UInt16
  deriving DecidableEq, Repr

namespace Answer

/-- Splits the status word from the end of a response. -/
def ofResponse (response : Bytes) : Except Failure Answer :=
  let split := response.length - 2
  match Bytes.toUInt16? (response.drop split) with
  | none => .error .responseTooShort
  | some word => .ok ⟨response.take split, word⟩

end Answer

/-- A way to send a command, over a state of its own. -/
abbrev Transport (σ : Type) := Command → σ → Except Failure Answer × σ

def maxFrame : Nat := Command.headerLength + Command.maxData

/-- The room for a response. -/
def maxResponse : Nat := Command.maxData + 2

/-- Something that carries out frames: the response to a frame, and the state after it. -/
abbrev Device (σ : Type) := Bytes → σ → Bytes × σ

def sessionDevice : Device Session := fun frame s =>
  let reply := s.exchange frame maxResponse
  (reply.response, reply.session)

/-- Sends a command to a device as a frame. -/
def framed {σ : Type} (d : Device σ) : Transport σ := fun c s =>
  match c.write maxFrame with
  | .error e => (.error (.encoding e), s)
  | .ok frame =>
    let (response, s) := d frame s
    (Answer.ofResponse response, s)

def inProcess : Transport Session := framed sessionDevice

/-- Answers every command with the next of the responses, the last of them again and again. -/
def scripted : Transport (List Bytes) := fun _ responses =>
  match responses with
  | [] => (.error .responseTooShort, [])
  | [response] => (Answer.ofResponse response, [response])
  | response :: rest => (Answer.ofResponse response, rest)

structure Response where
  data : Bytes
  status : Status
  deriving DecidableEq, Repr

variable {σ : Type}

def send (t : Transport σ) (c : Command) (s : σ) : Except Failure Response × σ :=
  match t c s with
  | (.error f, s) => (.error f, s)
  | (.ok answer, s) =>
    match Status.ofCode? answer.word with
    | none => (.error (.unexpectedStatus answer.word), s)
    | some status => (.ok ⟨answer.data, status⟩, s)

def loadCertificate (t : Transport σ) (usage : UInt8) (certificate : Bytes) (s : σ) :
    Except Failure Status × σ :=
  match (Request.loadCertificate usage certificate).write Command.maxData with
  | .error e => (.error (.encoding e), s)
  | .ok data =>
    let i := Instruction.loadCertificate
    match send t ⟨i.cla, i.ins, usage, 0, data⟩ s with
    | (.error f, s) => (.error f, s)
    | (.ok r, s) => (.ok r.status, s)

/-- Provides a token, and learns its slot on success. -/
def provideToken (t : Transport σ) (payload : Bytes) (s : σ) :
    Except Failure (Status × Option UInt8) × σ :=
  let i := Instruction.provideToken
  match send t ⟨i.cla, i.ins, 0, 0, payload⟩ s with
  | (.error f, s) => (.error f, s)
  | (.ok r, s) =>
    match r.status, r.data with
    | .ok, [slot] => (.ok (.ok, some slot), s)
    | .ok, data => (.error (.unexpectedData data), s)
    | status, _ => (.ok (status, none), s)

end TokenProvision.Host
