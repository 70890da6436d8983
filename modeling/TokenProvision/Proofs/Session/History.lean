import TokenProvision.Proofs.Session.Step

/-!
How much of its history a session shows. A step that is taken again at once gives the same answer,
leaves the same notes and changes nothing more: a load depends on nothing that a load changes, a
token that was registered is found in the slot where it was put, and what was refused is refused for
the same cause.

A reset erases all history. Of everything that happened before it only the device is left, and that
is the one that the session was moved to last; the session is then the one that would have been
started on that device, with the place of the next token and everything else that no question shows.
So no later step can tell what came before a reset.
-/
namespace TokenProvision.Session

variable {s : Session} {st : Step} {e : Event}

@[simp] theorem session_reply (o : Outcome) : o.reply.session = o.session := by
  unfold Outcome.reply
  split <;> rfl

theorem update_update (h : s.registry.WellFormed) (e : Event) :
    (s.update e).session.update e = s.update e := by
  cases e with
  | loadCertificate usage raw =>
    cases hload : Certificate.load raw usage s.platform with
    | error r =>
      rw [update_load_of_error hload]
      exact update_load_of_error (s := s.untrusting) hload
    | ok key =>
      rw [update_load_of_ok hload]
      exact update_load_of_ok (s := s.untrusting.trusting key) hload
  | provideToken payload =>
    cases hjudge : s.judge payload with
    | error r =>
      rw [update_provide_of_error hjudge]
      exact update_provide_of_error hjudge
    | ok d =>
      -- the registry plays no part in what is made of the payload
      have hagain : ({ s with registry := (s.registry.insert d).1 } : Session).judge payload =
          .ok d := hjudge
      rw [update_provide_of_ok hjudge, update_provide_of_ok hagain, h.insert_insert d]

/-- A frame that is handled again has the same outcome. -/
theorem handle_handle (h : s.registry.WellFormed) (raw : Bytes) :
    (s.handle raw).session.handle raw = s.handle raw := by
  cases hframe : Event.ofFrame raw with
  | error r => simp only [handle, hframe]
  | ok e =>
    simp only [handle, hframe]
    exact update_update h e

theorem exchange_exchange (h : s.registry.WellFormed) (raw : Bytes) (room : Nat) :
    (s.exchange raw room).session.exchange raw room = s.exchange raw room := by
  by_cases hroom : room < 2
  · rw [exchange_of_lt_two s raw hroom, exchange_of_lt_two s raw hroom]
  · have htwo : 2 ≤ room := Nat.not_lt.mp hroom
    by_cases hlacks : LacksRoom raw room
    · rw [exchange_of_lacksRoom s htwo hlacks, exchange_of_lacksRoom s htwo hlacks]
    · rw [exchange_of_not_lacksRoom s htwo hlacks, session_reply,
        exchange_of_not_lacksRoom (s.handle raw).session htwo hlacks, handle_handle h raw]

/-- A step that is taken again takes the same turn. -/
theorem step_step (h : s.registry.WellFormed) (st : Step) :
    (s.step st).session.step st = s.step st := by
  cases heffect : st.effect with
  | event e => rw [step_of_event s heffect, step_of_event _ heffect, update_update h e]
  | none => rw [(step_of_none s heffect).1]
  | reset =>
    rw [Step.effect_eq_reset_iff.mp heffect]
    rfl
  | move platform =>
    rw [Step.effect_eq_move_iff.mp heffect]
    rfl

/-- A step that takes the same turn again does so however often it is taken. -/
theorem turns_replicate (h : (s.step st).session.step st = s.step st) (n : Nat) :
    s.turns (List.replicate n st) = List.replicate n (s.step st) := by
  induction n generalizing s with
  | zero => rfl
  | succ n ih =>
    have hagain : ((s.step st).session.step st).session.step st = (s.step st).session.step st := by
      rw [h, h]
    rw [List.replicate_succ, List.replicate_succ, turns_cons, ih hagain, h]

/-- Retransmission is harmless. In a session that was started and is on the device that it is on, a
frame that is exchanged again with the same room has the same reply and leaves the same session,
and so has a frame that is handled again and an event that is carried out again; and a step that is
taken any number of times in a row takes the same turn each time. -/
theorem retransmission_is_harmless (platform : Platform) (steps : List Step) :
    let s := (start platform).after steps
    (∀ raw room, (s.exchange raw room).session.exchange raw room = s.exchange raw room) ∧
    (∀ raw, (s.handle raw).session.handle raw = s.handle raw) ∧
    (∀ e, (s.update e).session.update e = s.update e) ∧
    ∀ st n, s.turns (List.replicate n st) = List.replicate n (s.step st) := by
  intro s
  have h : s.registry.WellFormed := wellFormed_registry platform steps
  exact ⟨exchange_exchange h, handle_handle h, update_update h,
    fun st => turns_replicate (step_step h st)⟩

/-- The device to which a step moves a session. -/
def Step.device? : Step → Option Platform
  | .move platform => some platform
  | _ => none

/-- The device on which steps end that begin on `platform`. -/
def deviceAfter (platform : Platform) (steps : List Step) : Platform :=
  steps.foldl (fun current st => st.device?.getD current) platform

@[simp] theorem deviceAfter_nil (platform : Platform) : deviceAfter platform [] = platform := rfl
@[simp] theorem deviceAfter_cons (platform : Platform) (st : Step) (steps : List Step) :
    deviceAfter platform (st :: steps) = deviceAfter (st.device?.getD platform) steps := rfl

/-- What is not a move leaves a session on its device. -/
theorem platform_step_of_effect (h : st.effect = .none ∨ ∃ e, st.effect = .event e) :
    (s.step st).session.platform = s.platform := by
  rw [session_step]
  rcases h with h | ⟨e, h⟩
  · rw [h]
    rfl
  · rw [h]
    exact platform_update s e

theorem platform_step (s : Session) (st : Step) :
    (s.step st).session.platform = st.device?.getD s.platform := by
  cases st with
  | exchange raw room => exact platform_step_of_effect (Step.effect_exchange raw room)
  | handle raw => exact platform_step_of_effect (Step.effect_handle raw)
  | update e => exact platform_update s e
  | verify msg signature => exact platform_step_of_effect (.inl rfl)
  | find address chainId => rfl
  | get slot => rfl
  | reset => rfl
  | move platform => rfl

/-- After a run a session is on the device that it was moved to last. -/
theorem platform_after (s : Session) (steps : List Step) :
    (s.after steps).platform = deviceAfter s.platform steps := by
  induction steps generalizing s with
  | nil => rfl
  | cons st steps ih => rw [after_cons, ih, platform_step, deviceAfter_cons]

/-- Nothing but the device is left of a session that is reset. -/
theorem reset_eq_start (s : Session) : s.reset = start s.platform := rfl

theorem step_reset (s : Session) : s.step .reset = ⟨.done, start s.platform, resetLog⟩ := rfl

/-- A reset in the middle of a run leads to a session that has just been started. -/
theorem after_append_reset (s : Session) (before later : List Step) :
    s.after (before ++ .reset :: later) =
      (start (deviceAfter s.platform before)).after later := by
  rw [after_append, after_cons, step_reset, platform_after]

/-- The steps after a reset take the turns that they take in a session that has just been
started. -/
theorem turns_append_reset (s : Session) (before later : List Step) :
    s.turns (before ++ .reset :: later) = s.turns before ++
      ⟨.done, start (deviceAfter s.platform before), resetLog⟩ ::
        (start (deviceAfter s.platform before)).turns later := by
  rw [turns_append, turns_cons, step_reset, platform_after]

/-- A reset erases all history. In every run the steps after a reset take the turns, and lead to the
session, that they take and lead to from the start on the device current at the reset, which is the
one of the last move before it; and of two runs that are on one device when they are reset, no later
steps can tell the one from the other. -/
theorem reset_erases_history (platform : Platform) (before later : List Step) :
    let s := (start platform).after before
    let fresh := start s.platform
    s.platform = deviceAfter platform before ∧
    (start platform).turns (before ++ .reset :: later) =
      (start platform).turns before ++ ⟨.done, fresh, resetLog⟩ :: fresh.turns later ∧
    (start platform).after (before ++ .reset :: later) = fresh.after later ∧
    ∀ platform' before',
      let s' := (start platform').after before'
      s'.platform = s.platform →
        (s'.after [.reset]).turns later = (s.after [.reset]).turns later ∧
        s'.after (.reset :: later) = s.after (.reset :: later) := by
  intro s fresh
  have hdevice : s.platform = deviceAfter platform before := platform_after (start platform) before
  refine ⟨hdevice, ?_, ?_, ?_⟩
  · dsimp only [fresh]
    rw [hdevice]
    exact turns_append_reset (start platform) before later
  · dsimp only [fresh]
    rw [hdevice]
    exact after_append_reset (start platform) before later
  · intro platform' before' s' hsame
    have hreset : s'.reset = s.reset := by rw [reset_eq_start, reset_eq_start, hsame]
    exact ⟨congrArg (turns · later) hreset, congrArg (after · later) hreset⟩

end TokenProvision.Session
