import TokenProvision.Proofs.Session.Step

/-!
Failure is atomic. A command that fails leaves the session as it was, unless it loaded a
certificate, which takes the trusted key away and nothing else; a command that succeeds changes
either the trust or the registry. So the failed commands that loaded no certificate can be left out
of a run, and nobody can tell.
-/
namespace TokenProvision

theorem Certificate.Rejection.status_refusal_ne_internal (r : Certificate.Rejection) :
    r.refusal.status ≠ .internal := by
  cases r <;> simp [Certificate.Rejection.refusal, Refusal.status]

namespace Session

open Token (Descriptor)

variable {s : Session} {st : Step} {e : Event}

/-- Whether a step is a command: a frame that is exchanged or handled, or an event. -/
def Step.IsCommand : Step → Prop
  | .exchange _ _ | .handle _ | .update _ => True
  | _ => False

def Step.isLoad (st : Step) : Bool :=
  match st.effect with
  | .event (.loadCertificate _ _) => true
  | _ => false

def Answer.status? : Answer → Option Status
  | .response status _ => some status
  | .result (.ok _) => some .ok
  | .result (.error r) => some r.status
  | _ => none

def Answer.fails (a : Answer) : Bool := a.status?.any fun status => status ≠ .ok

/-- The steps of a run, each with its turn. -/
def trace (s : Session) (steps : List Step) : List (Step × Turn) := steps.zip (s.turns steps)

@[simp] theorem trace_nil (s : Session) : s.trace [] = [] := rfl
@[simp] theorem trace_cons (s : Session) (st : Step) (steps : List Step) :
    s.trace (st :: steps) = (st, s.step st) :: (s.step st).session.trace steps := rfl

/-- Whether a step of a run failed and loaded no certificate. -/
def isIdle (x : Step × Turn) : Bool := x.2.answer.fails && !x.1.isLoad

theorem Step.isLoad_iff :
    st.isLoad = true ↔ ∃ usage raw, st.effect = .event (.loadCertificate usage raw) := by
  unfold Step.isLoad
  split
  · rename_i usage raw heffect
    simp [heffect]
  · rename_i hother
    simp only [Bool.false_eq_true, false_iff, not_exists]
    exact hother

/-- A payload is never refused for want of room. -/
theorem status_ne_internal_of_judge {payload : Bytes} {r : Refusal}
    (h : s.judge payload = .error r) : r.status ≠ .internal := by
  unfold judge verifiedToken at h
  repeat' split at h
  all_goals cases h
  all_goals decide

/-- No event that is carried out is answered that something went wrong inside. -/
theorem status_update_ne_internal (s : Session) (e : Event) :
    (s.update e).reply.status ≠ .internal := by
  cases e with
  | loadCertificate usage certificate =>
    cases hload : Certificate.load certificate usage s.platform with
    | error r =>
      rw [update_load_of_error hload]
      exact r.status_refusal_ne_internal
    | ok key =>
      rw [update_load_of_ok hload]
      simp [Outcome.reply]
  | provideToken payload =>
    cases hjudge : s.judge payload with
    | error r =>
      rw [update_provide_of_error hjudge]
      exact status_ne_internal_of_judge hjudge
    | ok d =>
      rw [update_provide_of_ok hjudge]
      simp [Outcome.reply]

theorem status?_step_of_event (s : Session) (h : st.effect = .event e) :
    (s.step st).answer.status? = some (s.update e).reply.status := by
  cases st with
  | exchange raw room =>
    rw [step, exchange_of_event s h]
    rfl
  | _ =>
    rw [step_of_event s h]
    unfold Outcome.reply
    cases hresult : (s.update e).result <;> rfl

theorem status?_step_of_none (s : Session) (hcommand : st.IsCommand) (h : st.effect = .none) :
    ∃ r : Refusal, (s.step st).answer.status? = some r.status := by
  cases st with
  | exchange raw room =>
    obtain ⟨r, response, hr⟩ := exchange_of_none s h
    exact ⟨r, by simp only [step, hr, Answer.status?]⟩
  | handle raw =>
    obtain ⟨r, hr⟩ := handle_of_none s h
    exact ⟨r, by simp only [step, hr, Outcome.turn, Answer.status?]⟩
  | update e => cases h
  | _ => cases hcommand

/-- What the status of a command tells about the session after it. -/
structure Atomic (s : Session) (st : Step) (status : Status) : Prop where
  /-- The log tells which commands load a certificate. -/
  load_iff : st.isLoad = true ↔
    ∃ usage raw, (s.step st).log.head? = some (.event (.loadCertificate usage raw))
  /-- A failure touches neither the registry nor the device. -/
  kept : status ≠ .ok →
    (s.step st).session.registry = s.registry ∧ (s.step st).session.platform = s.platform
  /-- A failure that loaded no certificate touches nothing. -/
  unchanged : status ≠ .ok → st.isLoad = false → (s.step st).session = s
  /-- A failure that loaded a certificate takes the trusted key away and nothing else. -/
  dropped : status ≠ .ok → st.isLoad = true →
    (s.step st).session = { s with phase := .noCertificate, trusted := none }
  /-- A certificate that is accepted changes the trust and nothing else. -/
  loaded : status = .ok → st.isLoad = true →
    ∃ key, (s.step st).session = { s with phase := .certificateLoaded, trusted := some key }
  /-- Any other success is a payload that is accepted, and changes the registry and nothing else. -/
  registered : status = .ok → st.isLoad = false → ∃ payload d,
    st.effect = .event (.provideToken payload) ∧
    (s.step st).session = { s with registry := (s.registry.insert d).1 }
  /-- If something went wrong inside, nothing was touched. -/
  internal : status = .internal → (s.step st).session = s

theorem isLoad_iff_head_log (s : Session) (st : Step) :
    st.isLoad = true ↔
      ∃ usage raw, (s.step st).log.head? = some (.event (.loadCertificate usage raw)) := by
  simp only [Step.isLoad_iff, head_log_step]

/-- A step that loads no certificate, fails and leaves the session as it is. -/
theorem Atomic.of_unchanged {status : Status} (hload : st.isLoad = false) (hstatus : status ≠ .ok)
    (hsession : (s.step st).session = s) : Atomic s st status where
  load_iff := isLoad_iff_head_log s st
  kept _ := by
    rw [hsession]
    exact ⟨rfl, rfl⟩
  unchanged _ _ := hsession
  dropped _ h := by simp [hload] at h
  loaded h := absurd h hstatus
  registered h := absurd h hstatus
  internal _ := hsession

theorem atomic_of_load (s : Session) {usage : UInt8} {raw : Bytes}
    (h : st.effect = .event (.loadCertificate usage raw)) :
    Atomic s st (s.update (.loadCertificate usage raw)).reply.status := by
  have hload : st.isLoad = true := Step.isLoad_iff.mpr ⟨usage, raw, h⟩
  have hsession : (s.step st).session = (s.update (.loadCertificate usage raw)).session := by
    rw [step_of_event s h]
  have hinternal := status_update_ne_internal s (.loadCertificate usage raw)
  cases hresult : Certificate.load raw usage s.platform with
  | error r =>
    rw [update_load_of_error hresult] at hsession hinternal ⊢
    have hstatus : r.refusal.status ≠ .ok := r.refusal.status_ne_ok
    exact {
      load_iff := isLoad_iff_head_log s st
      kept := fun _ => by
        rw [hsession]
        exact ⟨rfl, rfl⟩
      unchanged := fun _ hother => by simp [hload] at hother
      dropped := fun _ _ => hsession
      loaded := fun hok => absurd hok hstatus
      registered := fun hok => absurd hok hstatus
      internal := fun hi => absurd hi hinternal }
  | ok key =>
    rw [update_load_of_ok hresult] at hsession hinternal ⊢
    exact {
      load_iff := isLoad_iff_head_log s st
      kept := fun hfails => absurd rfl hfails
      unchanged := fun hfails => absurd rfl hfails
      dropped := fun hfails => absurd rfl hfails
      loaded := fun _ _ => ⟨key, hsession⟩
      registered := fun _ hother => by simp [hload] at hother
      internal := fun hi => absurd hi hinternal }

theorem atomic_of_provide (s : Session) {payload : Bytes}
    (h : st.effect = .event (.provideToken payload)) :
    Atomic s st (s.update (.provideToken payload)).reply.status := by
  have hload : st.isLoad = false := by rw [Step.isLoad, h]
  have hsession : (s.step st).session = (s.update (.provideToken payload)).session := by
    rw [step_of_event s h]
  have hinternal := status_update_ne_internal s (.provideToken payload)
  cases hjudge : s.judge payload with
  | error r =>
    rw [update_provide_of_error hjudge] at hsession ⊢
    exact .of_unchanged hload r.status_ne_ok hsession
  | ok d =>
    rw [update_provide_of_ok hjudge] at hsession hinternal ⊢
    exact {
      load_iff := isLoad_iff_head_log s st
      kept := fun hfails => absurd rfl hfails
      unchanged := fun hfails => absurd rfl hfails
      dropped := fun hfails => absurd rfl hfails
      loaded := fun _ hother => by simp [hload] at hother
      registered := fun _ _ => ⟨payload, d, h, hsession⟩
      internal := fun hi => absurd hi hinternal }

theorem atomic_of_event (s : Session) (h : st.effect = .event e) :
    Atomic s st (s.update e).reply.status := by
  cases e with
  | loadCertificate usage raw => exact atomic_of_load s h
  | provideToken payload => exact atomic_of_provide s h

/-- A command carries out an event or does nothing. -/
theorem Step.IsCommand.effect (h : st.IsCommand) :
    st.effect = .none ∨ ∃ e, st.effect = .event e := by
  cases st with
  | exchange raw room => exact Step.effect_exchange raw room
  | handle raw => exact Step.effect_handle raw
  | update e => exact .inr ⟨e, rfl⟩
  | _ => cases h

/-- A step that failed and loaded no certificate leaves the session as it is. -/
theorem session_of_isIdle (h : isIdle (st, s.step st) = true) : (s.step st).session = s := by
  obtain ⟨hfails, hother⟩ := Bool.and_eq_true_iff.mp h
  have hload : st.isLoad = false := by simpa using hother
  cases heffect : st.effect with
  | event e =>
    rw [Answer.fails, status?_step_of_event s heffect] at hfails
    exact (atomic_of_event s heffect).unchanged (of_decide_eq_true hfails) hload
  | none => exact (step_of_none s heffect).1
  | reset =>
    rw [Step.effect_eq_reset_iff.mp heffect] at hfails
    cases hfails
  | move platform =>
    rw [Step.effect_eq_move_iff.mp heffect] at hfails
    cases hfails

/-- Steps that leave the session as it is can be left out of a run: the other steps take the turns
that they took, and the run leads to the same session. -/
theorem trace_filter {keep : Step × Turn → Bool}
    (h : ∀ (s : Session) (st : Step), keep (st, s.step st) = false → (s.step st).session = s)
    (s : Session) (steps : List Step) :
    s.after (((s.trace steps).filter keep).map Prod.fst) = s.after steps ∧
      s.trace (((s.trace steps).filter keep).map Prod.fst) = (s.trace steps).filter keep := by
  induction steps generalizing s with
  | nil => exact ⟨rfl, rfl⟩
  | cons st steps ih =>
    obtain ⟨hafter, htrace⟩ := ih (s.step st).session
    rw [trace_cons, List.filter_cons, after_cons]
    cases hkeep : keep (st, s.step st) with
    | false =>
      rw [h s st hkeep] at hafter htrace ⊢
      exact ⟨hafter, htrace⟩
    | true => exact ⟨hafter, congrArg ((st, s.step st) :: ·) htrace⟩

/-- Failure is atomic. Every command tells a status, and by that status it changed what it says and
nothing else; so from every run the commands that failed and loaded no certificate can be left out,
and the run leads to the same session by the same turns of the other steps. -/
theorem failure_is_atomic (s : Session) :
    (∀ st : Step, st.IsCommand →
      ∃ status, (s.step st).answer.status? = some status ∧ Atomic s st status) ∧
    ∀ steps : List Step,
      let kept := (s.trace steps).filter fun x => !isIdle x
      s.after (kept.map Prod.fst) = s.after steps ∧ s.trace (kept.map Prod.fst) = kept := by
  constructor
  · intro st hcommand
    rcases hcommand.effect with heffect | ⟨e, heffect⟩
    · obtain ⟨r, hr⟩ := status?_step_of_none s hcommand heffect
      have hload : st.isLoad = false := by rw [Step.isLoad, heffect]
      exact ⟨r.status, hr, .of_unchanged hload r.status_ne_ok (step_of_none s heffect).1⟩
    · exact ⟨_, status?_step_of_event s heffect, atomic_of_event s heffect⟩
  · intro steps
    apply trace_filter
    intro s st hidle
    exact session_of_isIdle (by simpa using hidle)

end Session

end TokenProvision
