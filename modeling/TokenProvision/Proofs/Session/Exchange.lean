import TokenProvision.Proofs.Session.Frame
import TokenProvision.Proofs.Session.Update

/-!
Exchanging a frame against handling it. Where there is room for the answer, an exchange does what
handling the frame does and reports it in bytes: the data of the answer, if there is one, and the
status. Where there is none, it does nothing.
-/
namespace TokenProvision

theorem Status.toUInt16?_toBytes (status : Status) :
    Bytes.toUInt16? status.toBytes = some status.code :=
  Bytes.toUInt16?_eq_some_iff.mpr rfl

theorem Status.ofResponse?_append (data : Bytes) (status : Status) :
    ofResponse? (data ++ status.toBytes) = some status := by
  have hend : (data ++ status.toBytes).drop ((data ++ status.toBytes).length - 2) =
      status.toBytes := by
    rw [List.length_append, length_toBytes, Nat.add_sub_cancel, List.drop_left]
  rw [ofResponse?, hend, toUInt16?_toBytes]
  exact ofCode?_code status

namespace Output

def encode : Output → Bytes
  | none => []
  | slot index => Token.Slot.encode ⟨index⟩

theorem write_eq (output : Output) (room : Nat) :
    output.write room = writeWithin room output.encode.length output.encode := by
  cases output with
  | none => rfl
  | slot index => rfl

end Output

namespace Session

variable {s : Session} {e : Event} {output : Output} {raw : Bytes} {room : Nat}

/-- Whether a frame asks for an event whose answer does not fit. -/
def LacksRoom (raw : Bytes) (room : Nat) : Prop :=
  ∃ e, Event.ofFrame raw = .ok e ∧ room < e.responseLength + 2

/-- The reply that reports an outcome. -/
def Outcome.reply (o : Outcome) : Reply :=
  match o.result with
  | .ok output => ⟨.ok, output.encode ++ Status.ok.toBytes, o.session, o.log⟩
  | .error r => ⟨r.status, r.status.toBytes, o.session, o.log⟩

/-- The answer to an event has the size that was foreseen before the event was carried out. -/
theorem length_encode_of_update (h : (s.update e).result = .ok output) :
    output.encode.length = e.responseLength := by
  cases e with
  | loadCertificate usage certificate =>
    cases hload : Certificate.load certificate usage s.platform with
    | error r =>
      rw [update_load_of_error hload] at h
      cases h
    | ok key =>
      rw [update_load_of_ok hload] at h
      cases h
      rfl
  | provideToken payload =>
    cases hjudge : s.judge payload with
    | error r =>
      rw [update_provide_of_error hjudge] at h
      cases h
    | ok d =>
      rw [update_provide_of_ok hjudge] at h
      cases h
      rfl

/-- The answer to an event can be written where there was foreseen to be room. -/
theorem write_of_update (h : (s.update e).result = .ok output) (hroom : e.responseLength ≤ room) :
    output.write room = .ok output.encode := by
  rw [Output.write_eq]
  apply writeWithin_of_le
  rw [length_encode_of_update h]
  exact hroom

theorem exchange_of_lt_two (s : Session) (raw : Bytes) (h : room < 2) :
    s.exchange raw room = ⟨.internal, [], s, []⟩ := by
  rw [exchange, if_pos h]
  rfl

/-- A frame for whose answer there is no room is not carried out. -/
theorem exchange_of_lacksRoom (s : Session) (hroom : 2 ≤ room) (h : LacksRoom raw room) :
    s.exchange raw room = ⟨.internal, Status.internal.toBytes, s, []⟩ := by
  obtain ⟨e, hframe, hlt⟩ := h
  have hfull : room - 2 < e.responseLength := by omega
  simp only [exchange, if_neg (Nat.not_lt.mpr hroom), hframe, if_pos hfull]
  rfl

theorem responseLength_le_of_not_lacksRoom (h : ¬ LacksRoom raw room)
    (hframe : Event.ofFrame raw = .ok e) : e.responseLength + 2 ≤ room :=
  Nat.not_lt.mp fun hlt => h ⟨e, hframe, hlt⟩

/-- Where there is room for the answer, a frame is handled and the outcome is reported. -/
theorem exchange_of_not_lacksRoom (s : Session) (hroom : 2 ≤ room) (h : ¬ LacksRoom raw room) :
    s.exchange raw room = (s.handle raw).reply := by
  cases hframe : Event.ofFrame raw with
  | error r =>
    simp only [exchange, if_neg (Nat.not_lt.mpr hroom), handle, hframe]
    rfl
  | ok e =>
    have hfits : e.responseLength ≤ room - 2 := by
      have := responseLength_le_of_not_lacksRoom h hframe
      omega
    simp only [exchange, if_neg (Nat.not_lt.mpr hroom), handle, hframe,
      if_neg (Nat.not_lt.mpr hfits), Outcome.reply]
    cases hresult : (s.update e).result with
    | error r => rfl
    | ok output => simp only [write_of_update hresult hfits]

/-- Where a status fits, only a frame that provides a token can lack room, and only one byte. -/
theorem lacksRoom_iff (hroom : 2 ≤ room) :
    LacksRoom raw room ↔ room = 2 ∧ Event.IsProvideFrame raw := by
  rw [Event.isProvideFrame_iff]
  constructor
  · rintro ⟨e, hframe, hlt⟩
    cases e with
    | loadCertificate usage certificate =>
      rw [Event.responseLength] at hlt
      omega
    | provideToken payload =>
      rw [Event.responseLength] at hlt
      exact ⟨by omega, payload, hframe⟩
  · rintro ⟨rfl, payload, hframe⟩
    exact ⟨.provideToken payload, hframe, by simp [Event.responseLength]⟩

/-- How an exchange responds where a status fits: with data that is empty unless the status tells
success, and with that status. -/
theorem response_exchange (s : Session) (raw : Bytes) (hroom : 2 ≤ room) :
    ∃ data, (s.exchange raw room).response = data ++ (s.exchange raw room).status.toBytes ∧
      data.length + 2 ≤ room ∧ ((s.exchange raw room).status ≠ .ok → data = []) := by
  by_cases hlacks : LacksRoom raw room
  · rw [exchange_of_lacksRoom s hroom hlacks]
    exact ⟨[], rfl, by simpa using hroom, fun _ => rfl⟩
  · rw [exchange_of_not_lacksRoom s hroom hlacks]
    unfold Outcome.reply
    cases hresult : (s.handle raw).result with
    | error r => exact ⟨[], rfl, by simpa using hroom, fun _ => rfl⟩
    | ok output =>
      refine ⟨output.encode, rfl, ?_, fun hstatus => absurd rfl hstatus⟩
      cases hframe : Event.ofFrame raw with
      | error r => simp [handle, hframe] at hresult
      | ok e =>
        simp only [handle, hframe] at hresult
        rw [length_encode_of_update hresult]
        exact responseLength_le_of_not_lacksRoom hlacks hframe

/-- An exchange agrees with handling the frame, and carries out no frame whose answer it cannot
give. With no room for a status it does nothing and responds nothing; with room for no more than a
status it refuses to provide a token; and otherwise it does and reports what handling the frame
does. With room for a status the response fits, ends with the status and has data only on success;
and the answer to an event that succeeds can always be written in the size foreseen for it. -/
theorem exchange_agrees_with_handle (s : Session) (raw : Bytes) (room : Nat) :
    (room < 2 → s.exchange raw room = ⟨.internal, [], s, []⟩) ∧
    (room = 2 ∧ Event.IsProvideFrame raw →
      s.exchange raw room = ⟨.internal, [0x6f, 0x00], s, []⟩) ∧
    (2 ≤ room ∧ ¬ (room = 2 ∧ Event.IsProvideFrame raw) →
      s.exchange raw room = (s.handle raw).reply) ∧
    (2 ≤ room →
      let r := s.exchange raw room
      2 ≤ r.response.length ∧ r.response.length ≤ room ∧
      Status.ofResponse? r.response = some r.status ∧
      (2 < r.response.length → r.status = .ok)) ∧
    ∀ e output, (s.update e).result = .ok output →
      output.encode.length = e.responseLength ∧
      ∀ room, e.responseLength ≤ room → output.write room = .ok output.encode := by
  refine ⟨exchange_of_lt_two s raw, ?_, ?_, ?_, ?_⟩
  · intro h
    have hroom : 2 ≤ room := Nat.le_of_eq h.1.symm
    exact exchange_of_lacksRoom s hroom ((lacksRoom_iff hroom).mpr h)
  · rintro ⟨hroom, hother⟩
    rw [← lacksRoom_iff hroom] at hother
    exact exchange_of_not_lacksRoom s hroom hother
  · intro hroom r
    obtain ⟨data, hresponse, hlength, hdata⟩ := response_exchange s raw hroom
    change r.response = data ++ r.status.toBytes at hresponse
    change r.status ≠ .ok → data = [] at hdata
    rw [hresponse, List.length_append, Status.length_toBytes]
    refine ⟨Nat.le_add_left 2 _, hlength, Status.ofResponse?_append data r.status, ?_⟩
    intro hlong
    by_contra hstatus
    simp [hdata hstatus] at hlong
  · intro e output hresult
    exact ⟨length_encode_of_update hresult, fun room hroom => write_of_update hresult hroom⟩

end Session

end TokenProvision
