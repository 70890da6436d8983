import TokenProvision.Proofs.Registry.Rotation
import TokenProvision.Proofs.Session.Exchange
import TokenProvision.Session.Run

/-!
What a step does. However a step reaches the session, it carries out an event, resets the session,
moves it to another device, or leaves it alone; an event either loads a certificate or puts at most
one token into the registry.

So the registry after a run is what insertions and clears, one after the other, make of the one
before, and in a session that was started it is well formed and within its capacity.
-/
namespace TokenProvision.Session

open Token (Descriptor)

variable {s : Session} {st : Step} {e : Event} {raw : Bytes} {room : Nat}

inductive Effect where
  | event (e : Event)
  | reset
  | move (platform : Platform)
  | none

/-- What a step does. A frame that asks for no event does nothing, and neither does a frame for
whose answer there is no room. -/
def Step.effect : Step → Effect
  | .exchange raw room =>
    match Event.ofFrame raw with
    | .error _ => .none
    | .ok e => if room < e.responseLength + 2 then .none else .event e
  | .handle raw =>
    match Event.ofFrame raw with
    | .error _ => .none
    | .ok e => .event e
  | .update e => .event e
  | .verify _ _ | .find _ _ | .get _ => .none
  | .reset => .reset
  | .move platform => .move platform

/-- The answer in which a step shows the result of its event. -/
def Step.render : Step → Except Refusal Output → Answer
  | .exchange _ _, .error r => .response r.status r.status.toBytes
  | .exchange _ room, .ok output =>
    match output.write (room - 2) with
    | .ok data => .response .ok (data ++ Status.ok.toBytes)
    | .error _ => .response Refusal.encodingFailed.status Refusal.encodingFailed.status.toBytes
  | _, r => .result r

def perform (s : Session) : Effect → Session
  | .event e => (s.update e).session
  | .reset => s.reset
  | .move platform => s.onPlatform platform
  | .none => s

/-- A frame that is exchanged carries out the event that it asks for, if the answer fits. -/
theorem Step.effect_exchange_eq_event_iff :
    (Step.exchange raw room).effect = .event e ↔
      Event.ofFrame raw = .ok e ∧ e.responseLength + 2 ≤ room := by
  unfold Step.effect
  dsimp only
  cases hframe : Event.ofFrame raw with
  | error r => simp
  | ok e' =>
    dsimp only
    split
    · rename_i hfull
      simp only [reduceCtorEq, Except.ok.injEq, false_iff, not_and]
      rintro rfl
      exact Nat.not_le.mpr hfull
    · rename_i hfits
      simp only [Effect.event.injEq, Except.ok.injEq, iff_self_and]
      rintro rfl
      exact Nat.not_lt.mp hfits

/-- A frame that is handled carries out the event that it asks for. -/
theorem Step.effect_handle_eq_event_iff :
    (Step.handle raw).effect = .event e ↔ Event.ofFrame raw = .ok e := by
  unfold Step.effect
  dsimp only
  cases hframe : Event.ofFrame raw <;> simp

/-- A frame that is exchanged carries out an event or does nothing. -/
theorem Step.effect_exchange (raw : Bytes) (room : Nat) :
    (Step.exchange raw room).effect = .none ∨
      ∃ e, (Step.exchange raw room).effect = .event e := by
  unfold Step.effect
  dsimp only
  split
  · exact .inl rfl
  · rename_i e hframe
    split
    · exact .inl rfl
    · exact .inr ⟨e, rfl⟩

theorem Step.effect_handle (raw : Bytes) :
    (Step.handle raw).effect = .none ∨ ∃ e, (Step.handle raw).effect = .event e := by
  unfold Step.effect
  dsimp only
  split
  · exact .inl rfl
  · rename_i e hframe
    exact .inr ⟨e, rfl⟩

theorem Step.effect_eq_reset_iff : st.effect = .reset ↔ st = .reset := by
  cases st with
  | exchange raw room => rcases Step.effect_exchange raw room with h | ⟨e, h⟩ <;> simp [h]
  | handle raw => rcases Step.effect_handle raw with h | ⟨e, h⟩ <;> simp [h]
  | _ => simp [Step.effect]

theorem Step.effect_eq_move_iff {platform : Platform} :
    st.effect = .move platform ↔ st = .move platform := by
  cases st with
  | exchange raw room => rcases Step.effect_exchange raw room with h | ⟨e, h⟩ <;> simp [h]
  | handle raw => rcases Step.effect_handle raw with h | ⟨e, h⟩ <;> simp [h]
  | _ => simp [Step.effect]

/-- A frame that is exchanged with effect has the reply that reports the outcome of its event. -/
theorem exchange_of_event (s : Session) (h : (Step.exchange raw room).effect = .event e) :
    s.exchange raw room = (s.update e).reply := by
  obtain ⟨hframe, hroom⟩ := Step.effect_exchange_eq_event_iff.mp h
  have hfits : ¬ LacksRoom raw room := by
    rintro ⟨e', hframe', hlt⟩
    cases hframe.symm.trans hframe'
    omega
  rw [exchange_of_not_lacksRoom s (by omega) hfits]
  simp only [handle, hframe]

theorem exchange_of_none (s : Session) (h : (Step.exchange raw room).effect = .none) :
    ∃ (r : Refusal) (response : Bytes), s.exchange raw room = ⟨r.status, response, s, []⟩ := by
  by_cases hroom : room < 2
  · exact ⟨.encodingFailed, [], exchange_of_lt_two s raw hroom⟩
  · have htwo : 2 ≤ room := Nat.not_lt.mp hroom
    cases hframe : Event.ofFrame raw with
    | error r =>
      refine ⟨r, r.status.toBytes, ?_⟩
      simp only [exchange, if_neg hroom, hframe]
    | ok e =>
      have hfull : room < e.responseLength + 2 := by
        by_contra hfits
        rw [Step.effect_exchange_eq_event_iff.mpr ⟨hframe, Nat.not_lt.mp hfits⟩] at h
        cases h
      exact ⟨.encodingFailed, _, exchange_of_lacksRoom s htwo ⟨e, hframe, hfull⟩⟩

theorem handle_of_none (s : Session) (h : (Step.handle raw).effect = .none) :
    ∃ r : Refusal, s.handle raw = ⟨.error r, s, []⟩ := by
  cases hframe : Event.ofFrame raw with
  | error r =>
    refine ⟨r, ?_⟩
    simp only [handle, hframe]
  | ok e =>
    rw [Step.effect_handle_eq_event_iff.mpr hframe] at h
    cases h

/-- A step that carries out an event shows its result, and leaves the session and the notes that
the event leaves. -/
theorem step_of_event (s : Session) (h : st.effect = .event e) :
    s.step st = ⟨st.render (s.update e).result, (s.update e).session, (s.update e).log⟩ := by
  cases st with
  | exchange raw room =>
    obtain ⟨-, hroom⟩ := Step.effect_exchange_eq_event_iff.mp h
    have hfits : e.responseLength ≤ room - 2 := by omega
    rw [step, exchange_of_event s h]
    unfold Outcome.reply
    cases hresult : (s.update e).result with
    | error r => rfl
    | ok output => simp only [Step.render, write_of_update hresult hfits]
  | handle raw =>
    simp only [step, handle, Step.effect_handle_eq_event_iff.mp h]
    rfl
  | update e' =>
    cases h
    rfl
  | _ => cases h

/-- A step that does nothing leaves no note either. -/
theorem step_of_none (s : Session) (h : st.effect = .none) :
    (s.step st).session = s ∧ (s.step st).log = [] := by
  cases st with
  | exchange raw room =>
    obtain ⟨r, response, hr⟩ := exchange_of_none s h
    simp only [step, hr, and_self]
  | handle raw =>
    obtain ⟨r, hr⟩ := handle_of_none s h
    rw [step, hr]
    exact ⟨rfl, rfl⟩
  | verify msg signature => cases htrusted : s.trusted <;> simp only [step, htrusted, and_self]
  | find address chainId => exact ⟨rfl, rfl⟩
  | get slot => exact ⟨rfl, rfl⟩
  | _ => cases h

/-- A step leads to the session that its effect leads to. -/
theorem session_step (s : Session) (st : Step) : (s.step st).session = s.perform st.effect := by
  cases h : st.effect with
  | event e => rw [step_of_event s h]; rfl
  | none => rw [(step_of_none s h).1]; rfl
  | reset => rw [Step.effect_eq_reset_iff.mp h]; rfl
  | move platform => rw [Step.effect_eq_move_iff.mp h]; rfl

/-- The first note of a step tells which event it carries out, if any. -/
theorem head_log_step (s : Session) (st : Step) (e : Event) :
    (s.step st).log.head? = some (.event e) ↔ st.effect = .event e := by
  have hupdate (e : Event) : (s.update e).log.head? = some (.event e) := by
    unfold update
    split
    · split <;> rfl
    · rfl
    · split <;> rfl
  cases h : st.effect with
  | event e' => rw [step_of_event s h, hupdate]; simp
  | none => rw [(step_of_none s h).2]; simp
  | reset => simp [Step.effect_eq_reset_iff.mp h, step, resetLog]
  | move platform => simp [Step.effect_eq_move_iff.mp h, step]

/-- What a step does to the registry, if anything. -/
def operation? (s : Session) (st : Step) : Option Registry.Op :=
  match st.effect with
  | .event (.provideToken payload) => (s.accepted? payload).map .insert
  | .reset => some .clear
  | _ => none

/-- What the steps of a run do to the registry, one after the other. -/
def operations (s : Session) : List Step → List Registry.Op
  | [] => []
  | st :: rest => (s.operation? st).toList ++ (s.step st).session.operations rest

theorem registry_step_eq_after (s : Session) (st : Step) :
    (s.step st).session.registry = s.registry.after (s.operation? st).toList := by
  rw [session_step]
  unfold operation?
  cases heffect : st.effect with
  | event e =>
    cases e with
    | loadCertificate usage raw => exact registry_update_load s usage raw
    | provideToken payload =>
      dsimp only [perform]
      rw [session_update_provide]
      cases s.accepted? payload with
      | none => rfl
      | some d => rfl
  | reset => rfl
  | move platform => rfl
  | none => rfl

theorem registry_after (s : Session) (steps : List Step) :
    (s.after steps).registry = s.registry.after (s.operations steps) := by
  induction steps generalizing s with
  | nil => rfl
  | cons st steps ih =>
    rw [after_cons, ih, registry_step_eq_after, ← Registry.after_append]
    rfl

theorem wellFormed_registry (platform : Platform) (steps : List Step) :
    ((start platform).after steps).registry.WellFormed := by
  rw [registry_after]
  exact Registry.wellFormed_empty.after _

theorem Reachable.exists_registry_eq {s : Session} (h : s.Reachable) :
    ∃ ops, s.registry = Registry.empty.after ops := by
  obtain ⟨platform, steps, rfl⟩ := h
  exact ⟨_, registry_after _ _⟩

theorem Reachable.wellFormed {s : Session} (h : s.Reachable) : s.registry.WellFormed := by
  obtain ⟨ops, hops⟩ := h.exists_registry_eq
  rw [hops]
  exact Registry.wellFormed_empty.after ops

theorem Reachable.bounded {s : Session} (h : s.Reachable) : s.registry.Bounded := by
  obtain ⟨ops, hops⟩ := h.exists_registry_eq
  rw [hops]
  exact Registry.bounded_after ops

end TokenProvision.Session
