import TokenProvision.Proofs.Guarded.Certificate
import TokenProvision.Proofs.Guarded.Frame
import TokenProvision.Proofs.Session.Step

/-!
Guarded sessions: a session that works on the bytes it is given, on a store of a fixed size and on
the buffer for its response. Whether its registry traps depends on the run before, and in no run
does it: a new token always takes a filled slot or the first empty one. So a session that was
started never traps, whatever it is asked and however large the buffer is, and it does what the
plain session does.
-/
namespace TokenProvision

open Guarded
open Token (Descriptor)

namespace Registry

variable {r : Registry}

/-- Stores a descriptor in a store of `capacity` slots and names its slot. -/
def guardedInsert (r : Registry) (t : Descriptor) : Guarded (Registry × Nat) := do
  match r.slot? t.address t.chainId with
  | some slot =>
    let tokens ← assign r.tokens slot t
    return ({ r with tokens }, slot)
  | none =>
    let next := (r.next + 1) % capacity
    if r.next < r.tokens.length then return (⟨r.tokens.set r.next t, next⟩, r.next)
    else
      -- the slots are filled in order, so an empty one is the first of them
      insist (r.next = r.tokens.length)
      let tokens ← push capacity r.tokens t
      return (⟨tokens, next⟩, r.next)

def guardedFind? (r : Registry) (address : Token.Address) (chainId : UInt32) :
    Guarded (Option (Nat × Descriptor)) := do
  match r.slot? address chainId with
  | none => return none
  | some slot => return some (slot, ← item r.tokens slot)

/-- Where the next slot is a filled one or the first empty one, and one of the slots of the store,
every descriptor finds its place. -/
theorem guardedInsert_eq (hr : r.WellFormed) (hb : r.Bounded) (t : Descriptor) :
    r.guardedInsert t = .ok (r.insert t) := by
  unfold guardedInsert insert put
  cases hslot : r.slot? t.address t.chainId with
  | some slot =>
    obtain ⟨a, ha, -⟩ := sameToken_of_slot? hslot
    dsimp only
    rw [assign_of_lt (List.getElem?_eq_some_iff.mp ha).1]
    rfl
  | none =>
    have hnext := hr.next_le
    have hlt := hb.next_lt
    dsimp only
    split
    · rfl
    · have hend : r.next = r.tokens.length := by omega
      rw [insist_of hend, ok_bind, push_of_lt (by omega)]
      rfl

/-- With the next slot behind the first empty one an assertion fails. -/
example (t : Descriptor) : (⟨[], 1⟩ : Registry).guardedInsert t = .error .assertion := rfl

theorem guardedFind?_eq (r : Registry) (address : Token.Address) (chainId : UInt32) :
    r.guardedFind? address chainId = .ok (r.find? address chainId) := by
  unfold guardedFind? find?
  cases hslot : r.slot? address chainId with
  | none => rfl
  | some slot =>
    obtain ⟨hlt, -⟩ := List.findIdx?_eq_some_iff_getElem.mp hslot
    have hget := List.getElem?_eq_getElem hlt
    dsimp only
    rw [item_of_getElem? hget, Option.bind_some, get?, hget]
    rfl

end Registry

namespace Output

def guardedWrite (o : Output) (buffer : Bytes) : Guarded (Except CodecError (Bytes × Nat)) := do
  match o with
  | none => return .ok (buffer, 0)
  | slot index =>
    if buffer.isEmpty then return .error .invalidLength
    else return .ok (← overwrite buffer 0 [index], 1)

/-- The data of an answer that is written fit. -/
theorem length_le_of_write {o : Output} {room : Nat} {data : Bytes}
    (h : o.write room = .ok data) : data.length ≤ room := by
  rw [write_eq, writeWithin] at h
  split at h
  · cases h
  · rename_i hroom
    cases h
    exact Nat.not_lt.mp hroom

theorem guardedWrite_eq (o : Output) (buffer : Bytes) :
    o.guardedWrite buffer = .ok (match o.write buffer.length with
      | .error e => .error e
      | .ok data => .ok (data ++ buffer.drop data.length, data.length)) := by
  cases o with
  | none => rfl
  | slot index =>
    cases buffer with
    | nil => rfl
    | cons b rest =>
      have hroom : 1 ≤ (b :: rest).length := Nat.le_add_left 1 rest.length
      have hwrite : (slot index).write (b :: rest).length = .ok [index] :=
        writeWithin_of_le [index] hroom
      have hover : overwrite (b :: rest) 0 [index] = .ok (index :: rest) :=
        overwrite_of_le hroom
      rw [hwrite, guardedWrite]
      dsimp only
      rw [if_neg (by simp), hover]
      rfl

end Output

namespace Session

/-- What an exchange leaves: a status, a buffer with so many bytes of response in front, a session
and the notes made. -/
structure Written where
  status : Status
  length : Nat
  buffer : Bytes
  session : Session
  log : List Notice

/-- A reply in a buffer, whose bytes behind the response stay as they were. -/
def Reply.writtenTo (r : Reply) (buffer : Bytes) : Written :=
  ⟨r.status, r.response.length, r.response ++ buffer.drop r.response.length, r.session, r.log⟩

/-- The descriptor in a payload that is signed with the trusted key. -/
def guardedToken (trusted : Option TrustedKey) (payload : Bytes) :
    Guarded (Except Refusal Descriptor) := do
  match trusted with
  | none => return .error .noCertificateLoaded
  | some key =>
    match ← Token.Payload.guardedDecode payload with
    | .error _ => return .error .malformedDescriptor
    | .ok (p, _) =>
      if key.usage ≠ .coinMeta then return .error .notAuthorized
      else
        let size ← minus payload.length p.signature.length
        let signed ← upTo payload size
        if key.verify signed p.signature then return .ok p.descriptor
        else return .error .invalidSignature

def guardedUpdate (s : Session) (e : Event) : Guarded Outcome := do
  let seen := Notice.event e
  match s.phase, e with
  | _, .loadCertificate usage certificate =>
    match ← Certificate.guardedLoad certificate usage s.platform with
    | .error r =>
      return ⟨.error r.refusal, s.untrusting,
        seen :: r.reason?.toList.map .reason ++ [.certificateRejected r.refusal]⟩
    | .ok key =>
      return ⟨.ok .none, s.untrusting.trusting key, [seen, .keyTrusted key.name key.usage]⟩
  | .noCertificate, .provideToken _ =>
    return ⟨.error .noCertificateLoaded, s, [seen, .noCertificate]⟩
  | .certificateLoaded, .provideToken payload =>
    match ← guardedToken s.trusted payload with
    | .error r => return ⟨.error r, s, [seen, .tokenRejected r]⟩
    | .ok d =>
      let (registry, slot) ← s.registry.guardedInsert d
      return ⟨.ok (.slot (UInt8.ofNat slot)), { s with registry }, [seen, .tokenAccepted d]⟩

def guardedHandle (s : Session) (raw : Bytes) : Guarded Outcome := do
  match ← Event.guardedOfFrame raw with
  | .error r => return ⟨.error r, s, []⟩
  | .ok e => s.guardedUpdate e

/-- Ends an exchange: the status goes behind the data in the buffer. -/
def conclude (status : Status) (size : Nat) (buffer : Bytes) (s : Session) (log : List Notice) :
    Guarded Written := do
  return ⟨status, size + 2, ← overwrite buffer size status.toBytes, s, log⟩

/-- Carries out a frame and puts the response into a buffer. -/
def guardedExchange (s : Session) (raw buffer : Bytes) : Guarded Written := do
  if buffer.length < 2 then return ⟨Refusal.encodingFailed.status, 0, buffer, s, []⟩
  else
    let room ← minus buffer.length 2
    match ← Event.guardedOfFrame raw with
    | .error r => conclude r.status 0 buffer s []
    | .ok e =>
      if room < e.responseLength then conclude Refusal.encodingFailed.status 0 buffer s []
      else
        let o ← s.guardedUpdate e
        match o.result with
        | .error r => conclude r.status 0 buffer o.session o.log
        | .ok output =>
          match ← output.guardedWrite (← upTo buffer room) with
          | .ok (data, size) => conclude .ok size (data ++ buffer.drop room) o.session o.log
          | .error _ => conclude Refusal.encodingFailed.status 0 buffer o.session o.log

variable {s : Session}

theorem guardedToken_eq (trusted : Option TrustedKey) (payload : Bytes) :
    guardedToken trusted payload = .ok (verifiedToken trusted payload) := by
  unfold guardedToken verifiedToken
  cases trusted with
  | none => rfl
  | some key =>
    dsimp only
    rw [Token.Payload.guardedDecode_eq, ok_bind]
    cases hdecode : Token.Payload.decode payload with
    | error e => rfl
    | ok r =>
      obtain ⟨p, n⟩ := r
      -- the signature is a part of the payload, since the payload is its wire form
      have hsize : p.signature.length ≤ payload.length := by
        rw [Token.Payload.eq_encode_of_decode hdecode, Token.Payload.length_encode,
          Token.Payload.encodedLength]
        omega
      dsimp only
      rw [minus_of_le hsize, ok_bind, upTo_of_le (Nat.sub_le _ _), ok_bind]
      split
      · rfl
      · split <;> rfl

/-- With a registry in which every descriptor finds its place, an event is carried out. -/
theorem guardedUpdate_eq (hr : s.registry.WellFormed) (hb : s.registry.Bounded) (e : Event) :
    s.guardedUpdate e = .ok (s.update e) := by
  unfold guardedUpdate update
  cases e with
  | loadCertificate usage certificate =>
    dsimp only
    rw [Certificate.guardedLoad_eq, ok_bind]
    cases Certificate.load certificate usage s.platform <;> rfl
  | provideToken payload =>
    cases s.phase with
    | noCertificate => rfl
    | certificateLoaded =>
      dsimp only
      rw [guardedToken_eq, ok_bind]
      cases verifiedToken s.trusted payload with
      | error r => rfl
      | ok d =>
        dsimp only
        rw [Registry.guardedInsert_eq hr hb]
        rfl

theorem guardedHandle_eq (hr : s.registry.WellFormed) (hb : s.registry.Bounded) (raw : Bytes) :
    s.guardedHandle raw = .ok (s.handle raw) := by
  rw [guardedHandle, Event.guardedOfFrame_eq, ok_bind, handle]
  cases Event.ofFrame raw with
  | error r => rfl
  | ok e => exact guardedUpdate_eq hr hb e

/-- What a list holds behind a place is cut in two at a later place. -/
theorem drop_take_append_drop_of_le {α : Type} {xs : List α} {k n : Nat} (h : k ≤ n) :
    (xs.take n).drop k ++ xs.drop n = xs.drop k := by
  have hcut := List.drop_take_append_drop xs k (n - k)
  rwa [Nat.add_sub_cancel' h, ← List.drop_take] at hcut

/-- Behind data that leave room for it in the buffer a status is delivered. -/
theorem conclude_of_le {data buffer : Bytes} (h : data.length + 2 ≤ buffer.length)
    (status : Status) (s : Session) (log : List Notice) :
    conclude status data.length (data ++ buffer.drop data.length) s log =
      .ok ((⟨status, data ++ status.toBytes, s, log⟩ : Reply).writtenTo buffer) := by
  have hfits : data.length + status.toBytes.length ≤
      (data ++ buffer.drop data.length).length := by
    rw [Status.length_toBytes, List.length_append, List.length_drop]
    omega
  have hrest : (data ++ buffer.drop data.length).drop (data.length + status.toBytes.length) =
      buffer.drop (data ++ status.toBytes).length := by
    rw [← List.drop_drop, List.drop_left, List.drop_drop, List.length_append]
  rw [conclude, overwrite_of_le hfits, ok_bind, List.take_left, hrest, Reply.writtenTo]
  dsimp only
  rw [List.length_append, Status.length_toBytes]
  rfl

theorem guardedExchange_eq (hr : s.registry.WellFormed) (hb : s.registry.Bounded)
    (raw buffer : Bytes) :
    s.guardedExchange raw buffer = .ok ((s.exchange raw buffer.length).writtenTo buffer) := by
  unfold guardedExchange exchange
  split
  · rfl
  · rename_i hroom
    have hempty : ([] : Bytes).length + 2 ≤ buffer.length := Nat.not_lt.mp hroom
    have hrefuse := conclude_of_le hempty
    rw [minus_of_le (Nat.not_lt.mp hroom), ok_bind, Event.guardedOfFrame_eq, ok_bind]
    cases Event.ofFrame raw with
    | error r => exact hrefuse r.status s []
    | ok e =>
      dsimp only
      split
      · exact hrefuse _ s []
      · rw [guardedUpdate_eq hr hb, ok_bind]
        cases hresult : (s.update e).result with
        | error r => exact hrefuse r.status _ _
        | ok output =>
          dsimp only
          rw [upTo_of_le (Nat.sub_le _ 2), ok_bind, Output.guardedWrite_eq, ok_bind,
            List.length_take_of_le (Nat.sub_le _ 2)]
          cases hwrite : output.write (buffer.length - 2) with
          | error r => exact hrefuse _ _ _
          | ok data =>
            have hdata := Output.length_le_of_write hwrite
            dsimp only
            rw [List.append_assoc, drop_take_append_drop_of_le hdata]
            exact conclude_of_le (by omega) .ok _ _

/-- Nothing that a device is asked makes it trap. A session that was started, after any steps,
exchanges any frame with a buffer of any size, handles any frame, carries out any event and finds
any token, as the plain session does; of a buffer it changes no byte behind the response. And
whatever the bytes are, a cursor that is asked any number of times answers with the entries of the
scan and with nothing after them, and certificates, certified keys, frames, descriptors and payloads
are read as the plain readers read them. So no index, slice, difference, shift, store or assertion
fails on the way, and no certificate that misses no mandatory tag misses a field. -/
theorem never_traps (platform : Platform) (steps : List Step) :
    let s := (start platform).after steps
    (∀ raw buffer,
      s.guardedExchange raw buffer = .ok ((s.exchange raw buffer.length).writtenTo buffer)) ∧
    (∀ raw, s.guardedHandle raw = .ok (s.handle raw)) ∧
    (∀ e, s.guardedUpdate e = .ok (s.update e)) ∧
    (∀ address chainId,
      s.registry.guardedFind? address chainId = .ok (s.registry.find? address chainId)) ∧
    ∀ bs : Bytes,
      (∀ n, (Tlv.Cursor.start bs).answers n =
        .ok ((List.range n).map fun i => (Tlv.scan bs)[i]?)) ∧
      Certificate.guardedParse bs = .ok (Certificate.parse bs) ∧
      (∀ c, Certificate.guardedTrustedKey c = .ok c.trustedKey) ∧
      Command.guardedDecode bs = .ok (Command.decode bs) ∧
      Command.guardedParse bs = .ok (Command.parse bs) ∧
      Token.Descriptor.guardedDecode bs = .ok (Token.Descriptor.decode bs) ∧
      Token.Payload.guardedDecode bs = .ok (Token.Payload.decode bs) := by
  intro s
  have hs : s.Reachable := ⟨platform, steps, rfl⟩
  refine ⟨?_, ?_, ?_, ?_, ?_⟩
  · exact guardedExchange_eq hs.wellFormed hs.bounded
  · exact guardedHandle_eq hs.wellFormed hs.bounded
  · exact guardedUpdate_eq hs.wellFormed hs.bounded
  · exact Registry.guardedFind?_eq s.registry
  · intro bs
    exact ⟨Tlv.Cursor.answers_eq (.start bs), Certificate.guardedParse_eq bs,
      Certificate.guardedTrustedKey_eq, Command.guardedDecode_eq bs, Command.guardedParse_eq bs,
      Token.Descriptor.guardedDecode_eq bs, Token.Payload.guardedDecode_eq bs⟩

end Session

end TokenProvision
