import TokenProvision.Proofs.Session.Step

/-!
Which key a session trusts. Steps renew the trust, when they reset the session or load a
certificate, or leave it as it is; so after a run the trust is what the last renewal made of it,
and nothing that was trusted before plays a part.
-/
namespace TokenProvision.Session

variable {s : Session} {st : Step} {steps : List Step} {usage : UInt8} {raw : Bytes}

/-- Whether a step loads a certificate for a usage. -/
def Step.Loads (st : Step) (usage : UInt8) (raw : Bytes) : Prop :=
  st.effect = .event (.loadCertificate usage raw)

/-- Whether a step decides anew which key is trusted. -/
def Step.RenewsTrust (st : Step) : Prop := st = .reset ∨ ∃ usage raw, st.Loads usage raw

theorem session_step_of_load (s : Session) (h : st.Loads usage raw) :
    (s.step st).session = (s.update (.loadCertificate usage raw)).session := by
  rw [step_of_event s h]

theorem trusted_step_of_load (s : Session) (h : st.Loads usage raw) :
    (s.step st).session.trusted = (Certificate.load raw usage s.platform).toOption := by
  rw [session_step_of_load s h, trusted_update_load]

theorem trusted_step_reset (s : Session) : (s.step .reset).session.trusted = none := rfl

/-- A step that does not renew the trust leaves it as it is. -/
theorem trusted_step_of_not_renews (s : Session) (h : ¬ st.RenewsTrust) :
    (s.step st).session.trusted = s.trusted ∧ (s.step st).session.phase = s.phase := by
  rw [session_step]
  cases heffect : st.effect with
  | event e =>
    cases e with
    | loadCertificate usage raw => exact absurd (.inr ⟨usage, raw, heffect⟩) h
    | provideToken payload => exact trusted_update_provide s payload
  | reset => exact absurd (.inl (Step.effect_eq_reset_iff.mp heffect)) h
  | move platform => exact ⟨rfl, rfl⟩
  | none => exact ⟨rfl, rfl⟩

theorem PhaseTells.step (h : s.PhaseTells) (st : Step) : (s.step st).session.PhaseTells := by
  by_cases hrenews : st.RenewsTrust
  · rcases hrenews with rfl | ⟨usage, raw, hload⟩
    · exact s.phaseTells_untrusting
    · rw [session_step_of_load s hload]
      exact phaseTells_update_load s usage raw
  · obtain ⟨htrusted, hphase⟩ := trusted_step_of_not_renews s hrenews
    rw [PhaseTells, htrusted, hphase]
    exact h

/-- A run keeps the phase true. -/
theorem PhaseTells.after (h : s.PhaseTells) (steps : List Step) : (s.after steps).PhaseTells := by
  induction steps generalizing s with
  | nil => exact h
  | cons st steps ih => exact ih (h.step st)

theorem phaseTells_start (platform : Platform) : (start platform).PhaseTells := by
  simp [PhaseTells, start]

/-- Steps that do not renew the trust leave it as it is. -/
theorem trusted_after_of_not_renews (s : Session) (h : ∀ st ∈ steps, ¬ st.RenewsTrust) :
    (s.after steps).trusted = s.trusted := by
  induction steps generalizing s with
  | nil => rfl
  | cons st steps ih =>
    rw [List.forall_mem_cons] at h
    rw [after_cons, ih _ h.2, (trusted_step_of_not_renews s h.1).1]

/-- In every run there is no step of some kind, or there is a last one. -/
theorem exists_last (p : Step → Prop) (steps : List Step) :
    (∀ st ∈ steps, ¬ p st) ∨
      ∃ before st later, steps = before ++ st :: later ∧ p st ∧ ∀ st ∈ later, ¬ p st := by
  induction steps with
  | nil => exact .inl (by simp)
  | cons st steps ih =>
    rcases ih with hnone | ⟨before, last, later, rfl, hlast, hlater⟩
    · by_cases hst : p st
      · exact .inr ⟨[], st, steps, rfl, hst, hnone⟩
      · exact .inl (List.forall_mem_cons.mpr ⟨hst, hnone⟩)
    · exact .inr ⟨st :: before, last, later, rfl, hlast, hlater⟩

/-- After a run the session trusts the key that the last renewal led to, if that was a load. -/
theorem trusted_after_eq_some_iff {platform : Platform} {key : TrustedKey} :
    ((start platform).after steps).trusted = some key ↔
      ∃ before load later usage raw, steps = before ++ load :: later ∧ load.Loads usage raw ∧
        (∀ st ∈ later, ¬ st.RenewsTrust) ∧
        Certificate.load raw usage ((start platform).after before).platform = .ok key := by
  constructor
  · intro h
    rcases exists_last Step.RenewsTrust steps with hnone | ⟨before, st, later, rfl, hst, hlater⟩
    · rw [trusted_after_of_not_renews _ hnone] at h
      cases h
    · rw [after_append, after_cons, trusted_after_of_not_renews _ hlater] at h
      rcases hst with rfl | ⟨usage, raw, hst⟩
      · rw [trusted_step_reset] at h
        cases h
      · rw [trusted_step_of_load _ hst] at h
        exact ⟨before, st, later, usage, raw, rfl, hst, hlater, toOption_eq_some_iff.mp h⟩
  · rintro ⟨before, st, later, usage, raw, rfl, hst, hlater, h⟩
    rw [after_append, after_cons, trusted_after_of_not_renews _ hlater,
      trusted_step_of_load _ hst, toOption_eq_some_iff.mpr h]

/-- A trusted key has the usage that the load which led to it expected. -/
theorem usage_of_trusted {before later : List Step} {load : Step} {key : TrustedKey}
    (hload : load.Loads usage raw) (hlater : ∀ st ∈ later, ¬ st.RenewsTrust)
    (h : (s.after (before ++ load :: later)).trusted = some key) : key.usage.code = usage := by
  rw [after_append, after_cons, trusted_after_of_not_renews _ hlater,
    trusted_step_of_load _ hload] at h
  exact Certificate.usage_of_load (toOption_eq_some_iff.mp h)

/-- Steps without effect, moves and payloads do not renew the trust. -/
theorem Step.not_renewsTrust (h : st.effect = .none ∨ (∃ p, st = .move p) ∨
    ∃ payload, st.effect = .event (.provideToken payload)) : ¬ st.RenewsTrust := by
  rintro (rfl | ⟨usage, raw, hload⟩)
  · rcases h with h | ⟨p, h⟩ | ⟨payload, h⟩ <;> cases h
  · rw [Step.Loads] at hload
    rcases h with h | ⟨p, rfl⟩ | ⟨payload, h⟩
    · rw [h] at hload; cases hload
    · cases hload
    · rw [h] at hload; cases hload

/-- A load answers, notes and leaves trusted the same in every session on the same device. -/
theorem step_load_congr {s' : Session} (hs : s'.platform = s.platform) (h : st.Loads usage raw) :
    (s'.step st).answer = (s.step st).answer ∧ (s'.step st).log = (s.step st).log ∧
      (s'.step st).session.trusted = (s.step st).session.trusted ∧
      (s'.step st).session.phase = (s.step st).session.phase := by
  obtain ⟨hresult, hlog, hphase⟩ := update_load_congr hs usage raw
  rw [trusted_step_of_load s' h, trusted_step_of_load s h, hs, step_of_event s' h,
    step_of_event s h]
  exact ⟨congrArg st.render hresult, hlog, rfl, hphase⟩

/-- Trust follows the last load. The phase always tells whether a key is trusted; a key is trusted
exactly if the last step that reset the session or loaded a certificate was a load that led to that
key, on the device of that moment; that key has the usage that the load expected; a step that
neither resets nor loads changes nothing in it; and a step that loads, which the log shows, answers,
notes and leaves trusted the same in every session on the same device. -/
theorem trust_follows_last_load (platform : Platform) (steps : List Step) :
    let s := (start platform).after steps
    (s.phase = .certificateLoaded ↔ s.trusted.isSome = true) ∧
    (∀ key, s.trusted = some key ↔
      ∃ before load later usage raw, steps = before ++ load :: later ∧ load.Loads usage raw ∧
        (∀ st ∈ later, ¬ st.RenewsTrust) ∧
        Certificate.load raw usage ((start platform).after before).platform = .ok key) ∧
    (∀ before load later usage raw, steps = before ++ load :: later → load.Loads usage raw →
      (∀ st ∈ later, ¬ st.RenewsTrust) → ∀ key, s.trusted = some key → key.usage.code = usage) ∧
    (∀ st, (st.effect = .none ∨ (∃ p, st = .move p) ∨
        ∃ payload, st.effect = .event (.provideToken payload)) →
      (s.step st).session.trusted = s.trusted ∧ (s.step st).session.phase = s.phase) ∧
    ∀ st usage raw,
      (st.Loads usage raw ↔
        (s.step st).log.head? = some (.event (.loadCertificate usage raw))) ∧
      (st.Loads usage raw →
        (s.step st).session.trusted = (Certificate.load raw usage s.platform).toOption ∧
        ∀ s' : Session, s'.platform = s.platform →
          (s'.step st).answer = (s.step st).answer ∧ (s'.step st).log = (s.step st).log ∧
          (s'.step st).session.trusted = (s.step st).session.trusted ∧
          (s'.step st).session.phase = (s.step st).session.phase) := by
  intro s
  refine ⟨(phaseTells_start platform).after steps, fun key => trusted_after_eq_some_iff,
    ?_, ?_, ?_⟩
  · rintro before load later usage raw rfl hload hlater key hkey
    exact usage_of_trusted hload hlater hkey
  · intro st hst
    exact trusted_step_of_not_renews s (Step.not_renewsTrust hst)
  · intro st usage raw
    refine ⟨(head_log_step s st _).symm, ?_⟩
    intro hload
    exact ⟨trusted_step_of_load s hload, fun s' hs' => step_load_congr hs' hload⟩

end TokenProvision.Session
