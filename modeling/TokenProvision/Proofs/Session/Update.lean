import TokenProvision.Session.Basic

/-!
What an event does to a session. A load decides anew which key is trusted and touches no token; a
payload that is accepted puts its token into the registry, and no payload touches the trusted key.
-/
namespace TokenProvision.Session

open Token (Descriptor)

variable {s : Session} {usage : UInt8} {raw payload : Bytes} {key : TrustedKey}

def PhaseTells (s : Session) : Prop := s.phase = .certificateLoaded ↔ s.trusted.isSome = true

/-- The token that a payload puts into the registry. -/
def accepted? (s : Session) (payload : Bytes) : Option Descriptor :=
  match s.phase with
  | .noCertificate => none
  | .certificateLoaded => (verifiedToken s.trusted payload).toOption

/-- What the session makes of a payload: its token, or why it is refused. -/
def judge (s : Session) (payload : Bytes) : Except Refusal Descriptor :=
  match s.phase with
  | .noCertificate => .error .noCertificateLoaded
  | .certificateLoaded => verifiedToken s.trusted payload

theorem accepted?_eq_toOption (s : Session) (payload : Bytes) :
    s.accepted? payload = (s.judge payload).toOption := by
  unfold accepted? judge
  cases s.phase with
  | noCertificate => rfl
  | certificateLoaded => rfl

theorem phaseTells_untrusting (s : Session) : s.untrusting.PhaseTells := by
  simp [PhaseTells, untrusting]

theorem phaseTells_trusting (s : Session) (key : TrustedKey) : (s.trusting key).PhaseTells := by
  simp [PhaseTells, trusting]

theorem update_load_of_error {r : Certificate.Rejection}
    (h : Certificate.load raw usage s.platform = .error r) :
    s.update (.loadCertificate usage raw) =
      ⟨.error r.refusal, s.untrusting, .event (.loadCertificate usage raw) ::
        r.reason?.toList.map .reason ++ [.certificateRejected r.refusal]⟩ := by
  unfold update
  dsimp only
  rw [h]

theorem update_load_of_ok (h : Certificate.load raw usage s.platform = .ok key) :
    s.update (.loadCertificate usage raw) = ⟨.ok .none, s.untrusting.trusting key,
      [.event (.loadCertificate usage raw), .keyTrusted key.name key.usage]⟩ := by
  unfold update
  dsimp only
  rw [h]

/-- A load leaves the session trusting the loaded key, or no key if the certificate is rejected. -/
theorem session_update_load (s : Session) (usage : UInt8) (raw : Bytes) :
    (s.update (.loadCertificate usage raw)).session =
      match Certificate.load raw usage s.platform with
      | .error _ => s.untrusting
      | .ok key => s.untrusting.trusting key := by
  cases h : Certificate.load raw usage s.platform with
  | error r => rw [update_load_of_error h]
  | ok key => rw [update_load_of_ok h]

theorem trusted_update_load (s : Session) (usage : UInt8) (raw : Bytes) :
    (s.update (.loadCertificate usage raw)).session.trusted =
      (Certificate.load raw usage s.platform).toOption := by
  rw [session_update_load]
  cases Certificate.load raw usage s.platform <;> rfl

theorem phaseTells_update_load (s : Session) (usage : UInt8) (raw : Bytes) :
    (s.update (.loadCertificate usage raw)).session.PhaseTells := by
  rw [session_update_load]
  cases Certificate.load raw usage s.platform with
  | error r => exact s.phaseTells_untrusting
  | ok key => exact s.untrusting.phaseTells_trusting key

@[simp] theorem registry_update_load (s : Session) (usage : UInt8) (raw : Bytes) :
    (s.update (.loadCertificate usage raw)).session.registry = s.registry := by
  rw [session_update_load]
  cases Certificate.load raw usage s.platform <;> rfl

/-- Which key is trusted before a load does not matter to it, and neither do the phase and the
tokens. -/
theorem update_load_congr {s' : Session} (h : s'.platform = s.platform) (usage : UInt8)
    (raw : Bytes) :
    (s'.update (.loadCertificate usage raw)).result =
        (s.update (.loadCertificate usage raw)).result ∧
      (s'.update (.loadCertificate usage raw)).log =
        (s.update (.loadCertificate usage raw)).log ∧
      (s'.update (.loadCertificate usage raw)).session.phase =
        (s.update (.loadCertificate usage raw)).session.phase := by
  cases hload : Certificate.load raw usage s.platform with
  | error r =>
    rw [update_load_of_error hload, update_load_of_error (h ▸ hload)]
    exact ⟨rfl, rfl, rfl⟩
  | ok key =>
    rw [update_load_of_ok hload, update_load_of_ok (h ▸ hload)]
    exact ⟨rfl, rfl, rfl⟩

theorem update_provide_of_error {r : Refusal} (h : s.judge payload = .error r) :
    s.update (.provideToken payload) = ⟨.error r, s, [.event (.provideToken payload),
      if s.phase = .noCertificate then .noCertificate else .tokenRejected r]⟩ := by
  unfold judge at h
  unfold update
  cases hphase : s.phase with
  | noCertificate =>
    rw [hphase] at h
    cases h
    rfl
  | certificateLoaded =>
    rw [hphase] at h
    dsimp only at h ⊢
    rw [h]
    rfl

/-- A payload that is accepted puts its token into the registry. -/
theorem update_provide_of_ok {d : Descriptor} (h : s.judge payload = .ok d) :
    s.update (.provideToken payload) =
      ⟨.ok (.slot (UInt8.ofNat (s.registry.insert d).2)),
        { s with registry := (s.registry.insert d).1 },
        [.event (.provideToken payload), .tokenAccepted d]⟩ := by
  unfold judge at h
  unfold update
  cases hphase : s.phase with
  | noCertificate =>
    rw [hphase] at h
    cases h
  | certificateLoaded =>
    rw [hphase] at h
    dsimp only at h ⊢
    rw [h]

/-- A payload leaves the session with its token in the registry, or unchanged if it is refused. -/
theorem session_update_provide (s : Session) (payload : Bytes) :
    (s.update (.provideToken payload)).session =
      match s.accepted? payload with
      | none => s
      | some d => { s with registry := (s.registry.insert d).1 } := by
  rw [accepted?_eq_toOption]
  cases h : s.judge payload with
  | error r => rw [update_provide_of_error h]; rfl
  | ok d => rw [update_provide_of_ok h]; rfl

/-- An event leaves the session on its device. -/
theorem platform_update (s : Session) (e : Event) :
    (s.update e).session.platform = s.platform := by
  cases e with
  | loadCertificate usage raw =>
    rw [session_update_load]
    cases Certificate.load raw usage s.platform <;> rfl
  | provideToken payload =>
    rw [session_update_provide]
    cases s.accepted? payload <;> rfl

/-- A payload is accepted exactly if the session notes down its token. -/
theorem accepted?_eq_some_iff_mem_log {d : Descriptor} :
    s.accepted? payload = some d ↔ .tokenAccepted d ∈ (s.update (.provideToken payload)).log := by
  rw [accepted?_eq_toOption]
  cases h : s.judge payload with
  | error r =>
    rw [update_provide_of_error h]
    dsimp only [Except.toOption]
    split <;> simp
  | ok t =>
    rw [update_provide_of_ok h]
    simp [Except.toOption, eq_comm]

theorem trusted_update_provide (s : Session) (payload : Bytes) :
    (s.update (.provideToken payload)).session.trusted = s.trusted ∧
      (s.update (.provideToken payload)).session.phase = s.phase := by
  rw [session_update_provide]
  cases s.accepted? payload with
  | none => exact ⟨rfl, rfl⟩
  | some d => exact ⟨rfl, rfl⟩

end TokenProvision.Session
