import TokenProvision.Proofs.Host.Delivery

/-!
A session in the same process is a device like any other, and the host sees through the transport to
it. What is short enough for a frame is carried out by the session, and the answer comes back as the
session gave it: no way of a host to give up is ever taken. What is too long is refused before the
session is touched.
-/
namespace TokenProvision.Host

open Token (Descriptor Payload)

variable {σ : Type} {c : Command} {e : Event} {usage : UInt8} {certificate payload : Bytes}

/-- A command whose payload is too long for a frame does not reach the device. -/
theorem send_framed_of_lt (d : Device σ) (s : σ) (h : Command.maxData < c.data.length) :
    send (framed d) c s = (.error (.encoding .invalidLength), s) := by
  have hwrite : c.write maxFrame = .error .invalidLength := by rw [Command.write, if_pos h]
  simp only [send, framed, hwrite]

/-- A command that fits a frame is exchanged with the session, and comes back with the status and
the data of the response. -/
theorem send_inProcess_of_le (s : Session) (h : c.data.length ≤ Command.maxData) :
    ∃ data, (s.exchange c.encode maxResponse).response =
        data ++ (s.exchange c.encode maxResponse).status.toBytes ∧
      send inProcess c s =
        (.ok ⟨data, (s.exchange c.encode maxResponse).status⟩,
          (s.exchange c.encode maxResponse).session) := by
  have hroom : 2 ≤ maxResponse := by decide
  obtain ⟨data, hresponse, -⟩ := s.response_exchange c.encode hroom
  refine ⟨data, hresponse, ?_⟩
  have hframe := framed_of_parse (d := sessionDevice) (Command.parse_eq_ok_iff.mpr ⟨h, rfl⟩) s
  simp only [send, inProcess, hframe, sessionDevice, hresponse, Answer.ofResponse_append,
    Status.ofCode?_code]

/-- The response that reports a result. -/
def Response.ofResult : Except Refusal Output → Response
  | .ok output => ⟨output.encode, .ok⟩
  | .error r => ⟨[], r.status⟩

/-- The command of an event that fits a frame carries the event out, and reports its result. -/
theorem send_inProcess_event (s : Session) (h : e.command.data.length ≤ Command.maxData) :
    send inProcess e.command s =
      (.ok (.ofResult (s.update e).result), (s.update e).session) := by
  have hroom : e.responseLength + 2 ≤ maxResponse := by
    cases e with
    | loadCertificate => exact (by decide : 0 + 2 ≤ maxResponse)
    | provideToken => exact (by decide : 1 + 2 ≤ maxResponse)
  have heffect : (Session.Step.exchange e.command.encode maxResponse).effect = .event e :=
    Session.Step.effect_exchange_eq_event_iff.mpr ⟨Event.ofFrame_eq_ok_iff.mpr ⟨h, rfl⟩, hroom⟩
  have hreply := s.exchange_of_event heffect
  have hframe := framed_of_parse (d := sessionDevice) (Command.parse_eq_ok_iff.mpr ⟨h, rfl⟩) s
  have hrefused (status : Status) :
      Answer.ofResponse status.toBytes = .ok ⟨[], status.code⟩ := Answer.ofResponse_append [] status
  cases hresult : (s.update e).result with
  | error r =>
    simp only [send, inProcess, hframe, sessionDevice, hreply, Session.Outcome.reply, hresult,
      hrefused, Status.ofCode?_code, Response.ofResult]
  | ok output =>
    simp only [send, inProcess, hframe, sessionDevice, hreply, Session.Outcome.reply, hresult,
      Answer.ofResponse_append, Status.ofCode?_code, Response.ofResult]

theorem status_ofResult (o : Session.Outcome) :
    (Response.ofResult o.result).status = o.reply.status := by
  unfold Response.ofResult Session.Outcome.reply
  cases o.result <;> rfl

theorem loadCertificate_inProcess (s : Session) (h : certificate.length ≤ Command.maxData) :
    loadCertificate inProcess usage certificate s =
      (.ok (s.update (.loadCertificate usage certificate)).reply.status,
        (s.update (.loadCertificate usage certificate)).session) := by
  have hsend := send_inProcess_event (e := .loadCertificate usage certificate) s h
  rw [loadCertificate_of_le _ _ h, hsend, ← status_ofResult]
  rfl

/-- A certificate that fits no frame does not reach the device. -/
theorem loadCertificate_of_lt (t : Transport σ) (s : σ)
    (h : Command.maxData < certificate.length) :
    loadCertificate t usage certificate s = (.error (.encoding .invalidLength), s) := by
  have hwrite : (Request.loadCertificate usage certificate).write Command.maxData =
      .error .invalidLength := writeWithin_of_lt certificate h
  simp only [loadCertificate, hwrite]

theorem provideToken_inProcess_of_error {s : Session} {r : Refusal}
    (h : payload.length ≤ Command.maxData) (hjudge : s.judge payload = .error r) :
    provideToken inProcess payload s = (.ok (r.status, none), s) := by
  have hsend := send_inProcess_event (e := .provideToken payload) s h
  rw [Session.update_provide_of_error hjudge] at hsend
  rw [Event.command] at hsend
  rw [provideToken, hsend]
  have hstatus := r.status_ne_ok
  dsimp only [Response.ofResult]
  split
  · rename_i hok _
    exact absurd hok hstatus
  · rename_i hok _
    exact absurd hok hstatus
  · rfl

/-- A payload whose token is registered is answered with the slot of the token. -/
theorem provideToken_inProcess_of_ok {s : Session} {d : Descriptor}
    (h : payload.length ≤ Command.maxData) (hjudge : s.judge payload = .ok d) :
    provideToken inProcess payload s =
      (.ok (.ok, some (UInt8.ofNat (s.registry.insert d).2)),
        { s with registry := (s.registry.insert d).1 }) := by
  have hsend := send_inProcess_event (e := .provideToken payload) s h
  rw [Session.update_provide_of_ok hjudge, Event.command] at hsend
  rw [provideToken, hsend]
  rfl

/-- What it means for a host to be told of a slot: it is told of one on success and only then, and
this is the one slot in which the descriptor of the payload then is. -/
structure TellsSlot (payload : Bytes) (o : Session.Outcome) (slot : Option UInt8) : Prop where
  isSome_iff : slot.isSome = true ↔ o.reply.status = .ok
  eq_some_iff : ∀ i, slot = some i ↔ o.reply.status = .ok ∧ i.toNat < Registry.capacity ∧
    ∃ p n, Payload.decode payload = .ok (p, n) ∧
      o.session.registry.get? i.toNat = some p.descriptor

theorem tellsSlot_of_error {s : Session} {r : Refusal} (hjudge : s.judge payload = .error r) :
    TellsSlot payload (s.update (.provideToken payload)) none := by
  rw [Session.update_provide_of_error hjudge]
  have hstatus : r.status ≠ .ok := r.status_ne_ok
  constructor
  · simp [Session.Outcome.reply, hstatus]
  · simp [Session.Outcome.reply, hstatus]

theorem tellsSlot_of_ok {s : Session} {d : Descriptor} (hs : s.Reachable)
    (hjudge : s.judge payload = .ok d) :
    TellsSlot payload (s.update (.provideToken payload))
      (some (UInt8.ofNat (s.registry.insert d).2)) := by
  obtain ⟨key, signature, hpayload, -⟩ := Session.exists_signed_of_judge hjudge
  have hdecode := Payload.decode_encode ⟨d, signature⟩
  rw [← hpayload] at hdecode
  rw [Session.update_provide_of_ok hjudge]
  have hslot := hs.bounded.slot_lt d
  have hholds := hs.wellFormed.getElem?_insert d
  have hdistinct := (hs.wellFormed.insert d).distinct
  generalize s.registry.insert d = inserted at hslot hholds hdistinct ⊢
  obtain ⟨registry, slot⟩ := inserted
  dsimp only at hslot hholds hdistinct ⊢
  have hcapacity : Registry.capacity ≤ 256 := by decide
  have hbyte : (UInt8.ofNat slot).toNat = slot :=
    UInt8.toNat_ofNat_of_lt' (Nat.lt_of_lt_of_le hslot hcapacity)
  refine ⟨iff_of_true rfl rfl, fun i => ⟨?_, ?_⟩⟩
  · intro hi
    rw [← Option.some.inj hi, hbyte]
    exact ⟨rfl, hslot, _, _, hdecode, hholds⟩
  · rintro ⟨-, -, p', n', hdecode', hheld⟩
    cases hdecode.symm.trans hdecode'
    have hi : i.toNat = slot := hdistinct _ _ _ _ hheld hholds (.refl d)
    rw [← hi, UInt8.ofNat_toNat]

/-- A payload that fits a frame is answered with its status, and with its slot on success. -/
theorem exists_provideToken_inProcess {s : Session} (hs : s.Reachable)
    (h : payload.length ≤ Command.maxData) :
    ∃ slot, TellsSlot payload (s.update (.provideToken payload)) slot ∧
      provideToken inProcess payload s =
        (.ok ((s.update (.provideToken payload)).reply.status, slot),
          (s.update (.provideToken payload)).session) := by
  cases hjudge : s.judge payload with
  | error r =>
    refine ⟨none, tellsSlot_of_error hjudge, ?_⟩
    rw [provideToken_inProcess_of_error h hjudge, Session.update_provide_of_error hjudge]
    rfl
  | ok d =>
    refine ⟨_, tellsSlot_of_ok hs hjudge, ?_⟩
    rw [provideToken_inProcess_of_ok h hjudge, Session.update_provide_of_ok hjudge]
    rfl

/-- The transport to a session in the same process is transparent and total. A command whose payload
has at most 255 bytes is exchanged as its frame with room for 257 bytes: the host gets the status
and the data of the response, and the session is as the exchange leaves it. To load a certificate is
then to carry out the event that loads it. To provide a token is to carry out the event that
provides it, and tells the host of the slot on success. Whatever is longer is refused, and the
session is not touched. -/
theorem in_process_transport_is_transparent (platform : Platform) (steps : List Session.Step) :
    let s := (Session.start platform).after steps
    (∀ cla ins p1 p2 data, if data.length ≤ 255 then
      let reply := s.exchange ([cla, ins, p1, p2, UInt8.ofNat data.length] ++ data) 257
      ∃ answer, reply.response = answer ++ reply.status.toBytes ∧
        send inProcess ⟨cla, ins, p1, p2, data⟩ s = (.ok ⟨answer, reply.status⟩, reply.session)
      else send inProcess ⟨cla, ins, p1, p2, data⟩ s = (.error (.encoding .invalidLength), s)) ∧
    (∀ usage certificate, if certificate.length ≤ 255 then
      let o := s.update (.loadCertificate usage certificate)
      loadCertificate inProcess usage certificate s = (.ok o.reply.status, o.session)
      else loadCertificate inProcess usage certificate s =
        (.error (.encoding .invalidLength), s)) ∧
    ∀ payload, if payload.length ≤ 255 then
      let o := s.update (.provideToken payload)
      ∃ slot, TellsSlot payload o slot ∧
        provideToken inProcess payload s = (.ok (o.reply.status, slot), o.session)
      else provideToken inProcess payload s = (.error (.encoding .invalidLength), s) := by
  intro s
  have hs : s.Reachable := ⟨platform, steps, rfl⟩
  refine ⟨fun cla ins p1 p2 data => ?_, fun usage certificate => ?_, fun payload => ?_⟩
  · split
    · rename_i h
      exact send_inProcess_of_le (c := ⟨cla, ins, p1, p2, data⟩) s h
    · rename_i h
      exact send_framed_of_lt _ s (Nat.not_le.mp h)
  · split
    · rename_i h
      exact loadCertificate_inProcess s h
    · rename_i h
      exact loadCertificate_of_lt _ s (Nat.not_le.mp h)
  · split
    · rename_i h
      exact exists_provideToken_inProcess hs h
    · rename_i h
      have hsend := send_framed_of_lt (c := (Event.provideToken payload).command) sessionDevice s
        (Nat.not_le.mp h)
      rw [Event.command] at hsend
      rw [provideToken, inProcess, hsend]

end TokenProvision.Host
