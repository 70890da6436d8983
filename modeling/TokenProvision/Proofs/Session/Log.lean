import TokenProvision.Proofs.Session.Atomicity
import TokenProvision.Proofs.Session.Judgement
import TokenProvision.Proofs.Session.Lines
import TokenProvision.Proofs.Session.Noting
import TokenProvision.Proofs.Session.Provenance

/-!
The log as an account. A command that carries out no event is silent. An event is noted first, and
its last line tells how it ended: whoever reads the line knows the result, and which key is then
trusted or which token is then registered. So the notes of a run tell which key is trusted and which
tokens are registered after it, and its lines for keys and tokens are those of the keys and tokens
that were taken on, in their order.
-/
namespace TokenProvision.Session

open Token (Descriptor)
open Notice (Opens)

variable {s : Session} {st : Step} {e : Event} {usage : UInt8} {raw payload : Bytes}
variable {r : Refusal} {o : Outcome} {n : Notice} {d : Descriptor} {key : TrustedKey}

def lastLine? (log : List Notice) : Option String := log.getLast?.map Notice.text

theorem lastLine?_concat (log : List Notice) (n : Notice) :
    lastLine? (log ++ [n]) = some n.text := by
  simp [lastLine?]

structure LoadTold (usage : UInt8) (raw : Bytes) (o : Outcome) : Prop where
  /-- A load that succeeds notes the event and the key, and nothing between. A load that fails notes
  the event, the reason if the rejection has one, and the refusal, which is the one it answers. -/
  notes :
    (∃ key, o.result = .ok .none ∧ o.session.trusted = some key ∧
      o.log = [.event (.loadCertificate usage raw), .keyTrusted key.name key.usage]) ∨
    ∃ q : Certificate.Rejection, o.result = .error q.refusal ∧ o.session.trusted = none ∧
      o.log = .event (.loadCertificate usage raw) :: q.reason?.toList.map .reason ++
        [.certificateRejected q.refusal]
  /-- The last line is one for a trusted key exactly if the load succeeds. -/
  accepted : (∃ name usage, lastLine? o.log = some (Notice.keyTrusted name usage).text) ↔
    o.result = .ok .none
  /-- The last line shows the name and the usage of the key that is then trusted. -/
  trusted : ∀ name usage, lastLine? o.log = some (Notice.keyTrusted name usage).text ↔
    ∃ key, o.session.trusted = some key ∧ key.name = name ∧ key.usage = usage
  /-- The last line is the one for a refusal exactly if the load is refused with it. -/
  rejected : ∀ r, lastLine? o.log = some (Notice.certificateRejected r).text ↔ o.result = .error r

structure TokenTold (s : Session) (payload : Bytes) (o : Outcome) : Prop where
  /-- The event and one line are noted. -/
  notes :
    (∃ d, s.Registered d o ∧ o.log = [.event (.provideToken payload), .tokenAccepted d]) ∨
    ∃ r, o.result = .error r ∧ o.session = s ∧ o.log = [.event (.provideToken payload),
      if r = .noCertificateLoaded then .noCertificate else .tokenRejected r]
  /-- The last line is one for a token exactly if a token with the ticker, the chain and the
  decimals that it shows is registered. -/
  accepted : ∀ d, lastLine? o.log = some (Notice.tokenAccepted d).text ↔
    ∃ t, t.ticker = d.ticker ∧ t.chainId = d.chainId ∧ t.decimals = d.decimals ∧ s.Registered t o
  /-- The last line says that there is no certificate exactly if this is answered. -/
  unloaded : lastLine? o.log = some Notice.noCertificate.text ↔
    o.result = .error .noCertificateLoaded
  /-- The last line is the one for another refusal exactly if this refusal is answered. -/
  rejected : ∀ r, lastLine? o.log = some (Notice.tokenRejected r).text ↔
    o.result = .error r ∧ r ≠ .noCertificateLoaded

def Told (s : Session) (e : Event) (o : Outcome) : Prop :=
  match e with
  | .loadCertificate usage raw => LoadTold usage raw o
  | .provideToken payload => TokenTold s payload o

/-- The last line of a load that succeeds is about the key. -/
theorem loadTold_of_ok (hresult : o.result = .ok .none) (htrusted : o.session.trusted = some key)
    (hlog : o.log = [.event (.loadCertificate usage raw), .keyTrusted key.name key.usage]) :
    LoadTold usage raw o := by
  have hlast : lastLine? o.log = some (Notice.keyTrusted key.name key.usage).text := by
    rw [hlog]
    rfl
  constructor
  · exact .inl ⟨key, hresult, htrusted, hlog⟩
  · exact iff_of_true ⟨_, _, hlast⟩ hresult
  · intro name usage
    rw [hlast, Option.some.injEq, htrusted]
    constructor
    · intro h
      obtain ⟨hname, husage⟩ := Notice.text_keyTrusted_inj h
      exact ⟨key, rfl, hname, husage⟩
    · rintro ⟨key', hkey, rfl, rfl⟩
      rw [Option.some.inj hkey]
  · intro r
    rw [hlast, Option.some.injEq, hresult]
    exact iff_of_false (Notice.text_ne rfl rfl (by decide)) (by simp)

theorem loadTold_of_error {q : Certificate.Rejection} (hresult : o.result = .error q.refusal)
    (htrusted : o.session.trusted = none)
    (hlog : o.log = .event (.loadCertificate usage raw) :: q.reason?.toList.map .reason ++
      [.certificateRejected q.refusal]) : LoadTold usage raw o := by
  have hlast : lastLine? o.log = some (Notice.certificateRejected q.refusal).text := by
    rw [hlog, lastLine?_concat]
  have hother (name : Label Certificate.maxName) (usage : Certificate.Usage) :
      lastLine? o.log ≠ some (Notice.keyTrusted name usage).text := by
    rw [hlast]
    exact fun h => Notice.text_ne rfl rfl (by decide) (Option.some.inj h)
  constructor
  · exact .inr ⟨q, hresult, htrusted, hlog⟩
  · rw [hresult]
    exact iff_of_false (fun ⟨name, usage, h⟩ => hother name usage h) (by simp)
  · intro name usage
    rw [htrusted]
    exact iff_of_false (hother name usage) (by simp)
  · intro r'
    rw [hlast, hresult, Option.some.injEq, Except.error.injEq]
    exact ⟨Notice.text_certificateRejected_inj, fun h => h ▸ rfl⟩

theorem loadTold_update (s : Session) (usage : UInt8) (raw : Bytes) :
    LoadTold usage raw (s.update (.loadCertificate usage raw)) := by
  cases hload : Certificate.load raw usage s.platform with
  | error r =>
    rw [update_load_of_error hload]
    exact loadTold_of_error rfl rfl rfl
  | ok key =>
    rw [update_load_of_ok hload]
    exact loadTold_of_ok rfl rfl rfl

/-- The slot that is answered is the one that holds the token. -/
theorem Registered.get?_toNat (h : s.Registered d o) :
    ∃ slot, o.result = .ok (.slot slot) ∧ o.session.registry.get? slot.toNat = some d := by
  have hlt : (s.registry.insert d).2 < 2 := h.slot_lt
  have hslot : (UInt8.ofNat (s.registry.insert d).2).toNat = (s.registry.insert d).2 := by
    rw [UInt8.toNat_ofNat']
    omega
  refine ⟨_, h.result, ?_⟩
  rw [hslot]
  exact h.get?_slot

/-- An outcome registers one token only. -/
theorem Registered.eq {t : Descriptor} (ht : s.Registered t o) (hd : s.Registered d o) : t = d := by
  obtain ⟨slot, hresult, hget⟩ := ht.get?_toNat
  obtain ⟨slot', hresult', hget'⟩ := hd.get?_toNat
  cases hresult.symm.trans hresult'
  exact Option.some.inj (hget.symm.trans hget')

/-- A payload is refused for want of a certificate exactly in the phase without one. -/
theorem Judged.phase_iff (h : s.Judged payload (.error r)) :
    s.phase = .noCertificate ↔ r = .noCertificateLoaded := by
  cases h with
  | untrusting hphase => simp [hphase]
  | unreadable hphase => simp [hphase]
  | forbidden hkey => simp [hkey.phase]
  | unsigned hkey => simp [hkey.phase]

/-- The last line of a payload that is accepted is about its token. -/
theorem tokenTold_of_registered (h : s.Registered d o)
    (hlog : o.log = [.event (.provideToken payload), .tokenAccepted d]) :
    TokenTold s payload o := by
  have hlast : lastLine? o.log = some (Notice.tokenAccepted d).text := by
    rw [hlog]
    rfl
  constructor
  · exact .inl ⟨d, h, hlog⟩
  · intro t
    rw [hlast, Option.some.injEq, Notice.text_tokenAccepted_inj]
    constructor
    · rintro ⟨hticker, hchain, hdecimals⟩
      exact ⟨d, hticker, hchain, hdecimals, h⟩
    · rintro ⟨t', hticker, hchain, hdecimals, ht'⟩
      rw [← ht'.eq h]
      exact ⟨hticker, hchain, hdecimals⟩
  · rw [hlast, Option.some.injEq, h.result]
    exact iff_of_false (Notice.text_ne rfl rfl (by decide)) (by simp)
  · intro r
    rw [hlast, Option.some.injEq, h.result]
    exact iff_of_false (Notice.text_ne rfl rfl (by decide)) (by simp)

theorem tokenTold_of_error (hresult : o.result = .error r) (hsession : o.session = s)
    (hlog : o.log = [.event (.provideToken payload),
      if r = .noCertificateLoaded then .noCertificate else .tokenRejected r]) :
    TokenTold s payload o := by
  have hlast : lastLine? o.log = some
      (if r = .noCertificateLoaded then .noCertificate else .tokenRejected r : Notice).text := by
    rw [hlog]
    rfl
  have hnone (t : Descriptor) : ¬ s.Registered t o := by
    intro ht
    cases hresult.symm.trans ht.result
  constructor
  · exact .inr ⟨r, hresult, hsession, hlog⟩
  · intro d
    refine iff_of_false ?_ fun ⟨t, _, _, _, ht⟩ => hnone t ht
    rw [hlast, Option.some.injEq]
    split
    · exact Notice.text_ne rfl rfl (by decide)
    · exact Notice.text_ne rfl rfl (by decide)
  · rw [hlast, hresult, Option.some.injEq, Except.error.injEq]
    split
    · rename_i hr
      exact iff_of_true rfl hr
    · rename_i hr
      exact iff_of_false (Notice.text_ne rfl rfl (by decide)) hr
  · intro r'
    rw [hlast, hresult, Option.some.injEq, Except.error.injEq]
    split
    · rename_i hr
      refine iff_of_false (Notice.text_ne rfl rfl (by decide)) ?_
      rintro ⟨hsame, hother⟩
      exact hother (hsame.symm.trans hr)
    · rename_i hr
      constructor
      · intro heq
        have hsame := Notice.text_tokenRejected_inj heq
        exact ⟨hsame, fun hr' => hr (hsame.trans hr')⟩
      · rintro ⟨rfl, -⟩
        rfl

/-- What is told of a payload in a session whose phase tells whether a key is trusted. -/
theorem tokenTold_update (hs : s.PhaseTells) (hw : s.registry.WellFormed) (hb : s.registry.Bounded)
    (payload : Bytes) : TokenTold s payload (s.update (.provideToken payload)) := by
  obtain ⟨judgement, hjudged⟩ := hs.exists_judged payload
  cases judgement with
  | ok d =>
    refine tokenTold_of_registered (hjudged.registered hs hw hb) ?_
    rw [update_provide_of_ok (hjudged.judge_eq hs)]
  | error r =>
    rw [update_provide_of_error (hjudged.judge_eq hs)]
    refine tokenTold_of_error rfl rfl ?_
    simp only [hjudged.phase_iff]

/-- In a session that was started every event is told as it ended. -/
theorem Reachable.told (h : s.Reachable) (e : Event) : s.Told e (s.update e) := by
  cases e with
  | loadCertificate usage raw => exact loadTold_update s usage raw
  | provideToken payload =>
    have hphase : s.PhaseTells := by
      obtain ⟨platform, steps, rfl⟩ := h
      exact (phaseTells_start platform).after steps
    exact tokenTold_update hphase h.wellFormed h.bounded payload

/-- The refusals of what asks for no event, or for one whose answer does not fit. -/
def earlyRefusals : List Refusal :=
  [.malformedFrame, .unsupportedClass, .unsupportedInstruction, .invalidParameters, .encodingFailed]

/-- Whether a command is refused early, changes nothing and is not noted. -/
structure Silent (s : Session) (st : Step) : Prop where
  refused : ∃ r ∈ earlyRefusals, (s.step st).answer.status? = some r.status
  unchanged : (s.step st).session = s
  unnoted : (s.step st).log = []

theorem mem_earlyRefusals_of_ofFrame (h : Event.ofFrame raw = .error r) : r ∈ earlyRefusals := by
  unfold Event.ofFrame Event.ofCommand at h
  repeat' split at h
  all_goals cases h
  all_goals decide

/-- A command that carries out no event is refused early. -/
theorem exists_early_of_none (s : Session) (hcommand : st.IsCommand) (h : st.effect = .none) :
    ∃ r ∈ earlyRefusals, (s.step st).answer.status? = some r.status := by
  cases st with
  | exchange raw room =>
    by_cases hroom : room < 2
    · refine ⟨.encodingFailed, by decide, ?_⟩
      rw [step, exchange_of_lt_two s raw hroom]
      rfl
    · cases hframe : Event.ofFrame raw with
      | error r =>
        refine ⟨r, mem_earlyRefusals_of_ofFrame hframe, ?_⟩
        simp only [step, exchange, if_neg hroom, hframe, Answer.status?]
      | ok e =>
        have hfull : room < e.responseLength + 2 := by
          by_contra hfits
          rw [Step.effect_exchange_eq_event_iff.mpr ⟨hframe, Nat.not_lt.mp hfits⟩] at h
          cases h
        refine ⟨.encodingFailed, by decide, ?_⟩
        rw [step, exchange_of_lacksRoom s (Nat.not_lt.mp hroom) ⟨e, hframe, hfull⟩]
        rfl
  | handle raw =>
    cases hframe : Event.ofFrame raw with
    | error r =>
      refine ⟨r, mem_earlyRefusals_of_ofFrame hframe, ?_⟩
      simp only [step, handle, hframe, Outcome.turn, Answer.status?]
    | ok e =>
      rw [Step.effect_handle_eq_event_iff.mpr hframe] at h
      cases h
  | update e => cases h
  | _ => cases hcommand

/-- A command that carries out no event is silent. -/
theorem silent_of_none (s : Session) (hcommand : st.IsCommand) (h : st.effect = .none) :
    s.Silent st where
  refused := exists_early_of_none s hcommand h
  unchanged := (step_of_none s h).1
  unnoted := (step_of_none s h).2

/-- What a command tells that carries out an event: it answers the result of the event, and leaves
the session and the notes that the event leaves. The notes are made one by one while the event is
carried out, and they tell how it ended. -/
structure Reported (s : Session) (st : Step) (e : Event) : Prop where
  turn : s.step st = ⟨st.render (s.update e).result, (s.update e).session, (s.update e).log⟩
  answered : (s.step st).answer.status? = some (s.update e).reply.status
  noting : ∀ log, (notingUpdate e).run ⟨s, log⟩ = (s.update e).behind log
  told : s.Told e (s.update e)

theorem Reachable.reported (hs : s.Reachable) (h : st.effect = .event e) : s.Reported st e where
  turn := step_of_event s h
  answered := status?_step_of_event s h
  noting := run_notingUpdate s e
  told := hs.told e

def notes (s : Session) (steps : List Step) : List Notice := (s.turns steps).flatMap Turn.log

@[simp] theorem notes_cons (s : Session) (st : Step) (steps : List Step) :
    s.notes (st :: steps) = (s.step st).log ++ (s.step st).session.notes steps := rfl

/-- What a log tells of a session: the name and the usage of the trusted key, and the registry. -/
structure Tale where
  trust : Option (Label Certificate.maxName × Certificate.Usage)
  registry : Registry

def tale (s : Session) : Tale := ⟨s.trusted.map fun key => (key.name, key.usage), s.registry⟩

/-- How a tale goes on with a note. A certificate that is only tried takes the trusted key away. -/
def Tale.tell (t : Tale) : Notice → Tale
  | .event (.loadCertificate _ _) => { t with trust := none }
  | .keyTrusted name usage => { t with trust := some (name, usage) }
  | .tokenAccepted d => { t with registry := (t.registry.insert d).1 }
  | .reset => ⟨none, .empty⟩
  | _ => t

/-- The notes of an event tell what is true after it. -/
theorem tale_update (s : Session) (e : Event) :
    (s.update e).session.tale = (s.update e).log.foldl Tale.tell s.tale := by
  cases e with
  | loadCertificate usage raw =>
    cases hload : Certificate.load raw usage s.platform with
    | error r =>
      rw [update_load_of_error hload]
      cases r.reason? <;> rfl
    | ok key =>
      rw [update_load_of_ok hload]
      rfl
  | provideToken payload =>
    cases hjudge : s.judge payload with
    | error r =>
      rw [update_provide_of_error hjudge]
      dsimp only
      split <;> rfl
    | ok d =>
      rw [update_provide_of_ok hjudge]
      rfl

theorem tale_step (s : Session) (st : Step) :
    (s.step st).session.tale = (s.step st).log.foldl Tale.tell s.tale := by
  cases h : st.effect with
  | event e =>
    rw [step_of_event s h]
    exact tale_update s e
  | none =>
    rw [(step_of_none s h).1, (step_of_none s h).2]
    rfl
  | reset =>
    rw [Step.effect_eq_reset_iff.mp h]
    rfl
  | move platform =>
    rw [Step.effect_eq_move_iff.mp h]
    rfl

/-- The notes of a run tell what is true after it. -/
theorem tale_after (s : Session) (steps : List Step) :
    (s.after steps).tale = (s.notes steps).foldl Tale.tell s.tale := by
  induction steps generalizing s with
  | nil => rfl
  | cons st steps ih => rw [after_cons, ih, tale_step, notes_cons, List.foldl_append]

inductive Taken where
  | key (key : TrustedKey)
  | token (d : Descriptor)

def Taken.note : Taken → Notice
  | .key key => .keyTrusted key.name key.usage
  | .token d => .tokenAccepted d

/-- What an outcome makes a session take on: the key that is then trusted, or the token that is then
in the slot that is answered. -/
def Outcome.taken? (o : Outcome) : Option Taken :=
  match o.result with
  | .error _ => none
  | .ok .none => o.session.trusted.map .key
  | .ok (.slot slot) => (o.session.registry.get? slot.toNat).map .token

def taken? (s : Session) (st : Step) : Option Taken :=
  match st.effect with
  | .event e => (s.update e).taken?
  | _ => none

def takings (s : Session) : List Step → List Taken
  | [] => []
  | st :: rest => (s.taken? st).toList ++ (s.step st).session.takings rest

def TellsTaken (line : String) : Prop := Opens "trusted key '" line ∨ Opens "token '" line

instance (line : String) : Decidable (TellsTaken line) := inferInstanceAs (Decidable (_ ∨ _))

def takenLines (log : List Notice) : List String :=
  (log.map Notice.text).filter fun line => TellsTaken line

theorem tellsTaken_text_iff {heading : String} (h : n.heading? = some heading) :
    TellsTaken n.text ↔ heading = "trusted key '" ∨ heading = "token '" := by
  rw [TellsTaken, Notice.opens_text_iff h (by decide), Notice.opens_text_iff h (by decide),
    eq_comm, @eq_comm _ "token '"]

theorem takenLines_append (xs ys : List Notice) :
    takenLines (xs ++ ys) = takenLines xs ++ takenLines ys := by
  simp [takenLines]

theorem takenLines_cons {heading : String} (h : n.heading? = some heading) (rest : List Notice) :
    takenLines (n :: rest) = if heading = "trusted key '" ∨ heading = "token '" then
      n.text :: takenLines rest else takenLines rest := by
  simp only [takenLines, List.map_cons, List.filter_cons, decide_eq_true_eq,
    tellsTaken_text_iff h]

theorem takenLines_reasons (q : Certificate.Rejection) :
    takenLines (q.reason?.toList.map .reason) = [] := by
  cases h : q.reason? with
  | none => rfl
  | some line =>
    have hline : ¬ TellsTaken (Notice.reason line).text :=
      not_or.mpr ⟨Notice.not_opens_reason h (by decide), Notice.not_opens_reason h (by decide)⟩
    simp [takenLines, hline]

/-- An event is followed by a line for what is taken on, if anything is, and by no other such
line. -/
theorem Reachable.takenLines_update (hs : s.Reachable) (e : Event) :
    takenLines (s.update e).log = (s.update e).taken?.toList.map fun t => t.note.text := by
  have htold := hs.told e
  rw [Outcome.taken?]
  cases e with
  | loadCertificate usage raw =>
    rcases LoadTold.notes htold with ⟨key, hresult, htrusted, hlog⟩ | ⟨q, hresult, -, hlog⟩
    · rw [hlog, hresult, htrusted, takenLines_cons rfl, takenLines_cons rfl]
      rfl
    · rw [hlog, hresult, List.cons_append, takenLines_cons rfl, takenLines_append,
        takenLines_reasons, takenLines_cons rfl]
      rfl
  | provideToken payload =>
    rcases TokenTold.notes htold with ⟨d, hregistered, hlog⟩ | ⟨r, hresult, -, hlog⟩
    · obtain ⟨slot, hresult, hget⟩ := hregistered.get?_toNat
      rw [hlog, hresult, takenLines_cons rfl, takenLines_cons rfl]
      dsimp only
      rw [hget]
      rfl
    · rw [hlog, hresult, takenLines_cons rfl]
      by_cases hr : r = .noCertificateLoaded
      · rw [if_pos hr, takenLines_cons rfl]
        rfl
      · rw [if_neg hr, takenLines_cons rfl]
        rfl

theorem Reachable.takenLines_step (hs : s.Reachable) (st : Step) :
    takenLines (s.step st).log = (s.taken? st).toList.map fun t => t.note.text := by
  rw [taken?]
  cases h : st.effect with
  | event e =>
    rw [step_of_event s h]
    exact hs.takenLines_update e
  | none =>
    rw [(step_of_none s h).2]
    rfl
  | reset =>
    rw [Step.effect_eq_reset_iff.mp h]
    exact takenLines_cons (n := .reset) rfl []
  | move platform =>
    rw [Step.effect_eq_move_iff.mp h]
    rfl

/-- The lines of a run that tell that a key or a token is taken on are those for the keys and tokens
that are taken on, in their order. -/
theorem Reachable.takenLines_notes (hs : s.Reachable) (steps : List Step) :
    takenLines (s.notes steps) = (s.takings steps).map fun t => t.note.text := by
  induction steps generalizing s with
  | nil => rfl
  | cons st steps ih =>
    have hrest := ih (hs.after [st])
    rw [after_cons, after_nil] at hrest
    rw [notes_cons, takenLines_append, hs.takenLines_step, hrest, takings, List.map_append]

/-- The log is a faithful account. In a session that was started a command that carries out no event
is refused early, changes nothing and is not noted; any other answers what its event leads to, and
its notes, made one by one while the event is carried out, begin with the event and tell how it
ended. So the notes of the run tell which key is trusted and which tokens are registered after it,
and the lines of the run that tell that a key or a token is taken on are those for the keys and the
tokens that are taken on, in their order. -/
theorem log_is_faithful (platform : Platform) (steps : List Step) :
    let s := (start platform).after steps
    (∀ st : Step, st.IsCommand →
      st.effect = .none ∧ s.Silent st ∨ ∃ e, st.effect = .event e ∧ s.Reported st e) ∧
    s.tale = ((start platform).notes steps).foldl Tale.tell ⟨none, .empty⟩ ∧
    takenLines ((start platform).notes steps) =
      ((start platform).takings steps).map fun t => t.note.text := by
  intro s
  refine ⟨?_, tale_after _ steps, (reachable_start platform).takenLines_notes steps⟩
  intro st hcommand
  have hs : s.Reachable := ⟨platform, steps, rfl⟩
  rcases hcommand.effect with heffect | ⟨e, heffect⟩
  · exact .inl ⟨heffect, silent_of_none s hcommand heffect⟩
  · exact .inr ⟨e, heffect, hs.reported heffect⟩

end TokenProvision.Session
