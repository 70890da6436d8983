import TokenProvision.Proofs.Certificate.Version
import TokenProvision.Proofs.Session.Update

/-!
Events carried out note by note. Every step of the work changes the session in place and notes down
what it has to say when it has it to say, before what comes next is even tried; a step that fails
gives the work up, and what was noted and changed until then stays. In the end there stand the
session and the notes of the outcome.
-/
namespace TokenProvision

structure Journal where
  session : Session
  log : List Notice

/-- Work on a session that may be given up. -/
abbrev Noting := EStateM Refusal Journal

namespace Noting

variable {α β : Type}

def note (n : Notice) : Noting Unit := modify fun j => { j with log := j.log ++ [n] }

def change (f : Session → Session) : Noting Unit :=
  modify fun j => { j with session := f j.session }

/-- Gives the work up for a reason that is worth a line. -/
def giveUp (reason : String) (r : Refusal) : Noting α := do
  note (.reason reason)
  throw r

/-- Work that notes how it ends if it is given up. -/
def closing (last : Refusal → Notice) (work : Noting α) : Noting α := fun j =>
  match work.run j with
  | .ok a j => .ok a j
  | .error r j => .error r { j with log := j.log ++ [last r] }

/-- A check of a certificate that makes no note. -/
def silently (x : Except Certificate.Rejection α) : Noting α :=
  match x with
  | .ok a => pure a
  | .error r => throw r.refusal

/-- A check of a certificate that notes the reason for which it fails, if there is one. -/
def telling (x : Except Certificate.Rejection α) : Noting α :=
  match x with
  | .ok a => pure a
  | .error r =>
    match r.reason? with
    | none => throw r.refusal
    | some reason => giveUp reason r.refusal

section Runs

variable {s : Session} {log : List Notice}

@[simp] theorem run_note (n : Notice) : (note n).run ⟨s, log⟩ = .ok () ⟨s, log ++ [n]⟩ := rfl
@[simp] theorem run_change (f : Session → Session) :
    (change f).run ⟨s, log⟩ = .ok () ⟨f s, log⟩ := rfl
@[simp] theorem run_throw (r : Refusal) (j : Journal) :
    (throw r : Noting α).run j = .error r j := rfl

theorem run_closing_of_ok (last : Refusal → Notice) {work : Noting α} {a : α} {j j' : Journal}
    (h : work.run j = .ok a j') : (closing last work).run j = .ok a j' := by
  simp only [closing, EStateM.run] at h ⊢
  rw [h]

theorem run_closing_of_error (last : Refusal → Notice) {work : Noting α} {r : Refusal}
    {j j' : Journal} (h : work.run j = .error r j') :
    (closing last work).run j = .error r { j' with log := j'.log ++ [last r] } := by
  simp only [closing, EStateM.run] at h ⊢
  rw [h]

theorem run_telling_error (r : Certificate.Rejection) :
    (telling (.error r) : Noting α).run ⟨s, log⟩ =
      .error r.refusal ⟨s, log ++ r.reason?.toList.map .reason⟩ := by
  simp only [telling]
  cases r.reason? with
  | none => simp
  | some reason => rfl

end Runs

/-- Two checks, one after the other, note what they note as one. -/
theorem telling_bind (x : Except Certificate.Rejection α)
    (f : α → Except Certificate.Rejection β) :
    telling (x >>= f) = telling x >>= fun a => telling (f a) := by
  cases x with
  | ok a => rfl
  | error r =>
    simp only [telling, Bind.bind, Except.bind]
    cases r.reason? with
    | none => rfl
    | some reason => rfl

end Noting

namespace Certificate

open Noting

variable {c : Certificate} {raw : Bytes} {usage : UInt8} {p : Platform}

/-- Reads a certificate. Of all that can be wrong with it only a missing tag is worth a line. -/
def notingParse (raw : Bytes) : Noting Certificate := do
  match collect .start (Tlv.scan raw) with
  | .error r => throw r.refusal
  | .ok p =>
    match missing? p with
    | some tag => giveUp ("certificate missing tag: " ++ tag.name) .malformedCertificate
    | none =>
      match ofFields? raw p.fields with
      | none => throw .malformedCertificate
      | some c => return c

def notingUsage (c : Certificate) (usage : UInt8) : Noting Unit := do
  if c.usage.code ≠ usage then
    giveUp ("certificate usage " ++ c.usage.name ++ " does not match expected 0x" ++
      Text.Hex.encode [usage]) .notAuthorized

def notingDevice (c : Certificate) (p : Platform) : Noting Unit := do
  if let some d := c.targetDevice then
    if d ≠ p.device then
      giveUp ("certificate target device 0x" ++ Text.Hex.encode [d] ++ " mismatch") .notAuthorized

def notingTime (c : Certificate) (p : Platform) : Noting Unit := do
  if let (some last, some now) := (c.timeValidity, p.clock) then
    if last ≠ 0 ∧ last < now then
      giveUp ("certificate expired at " ++ toString last.toNat) .notAuthorized

def notingIndex (c : Certificate) (p : Platform) : Noting Unit := do
  if let some i := c.validityIndex then
    if i < p.minValidityIndex then
      giveUp ("certificate validity index " ++ toString i.toNat ++ " revoked") .notAuthorized

def notingAuthorize (c : Certificate) (usage : UInt8) (p : Platform) : Noting Unit := do
  c.notingUsage usage
  c.notingDevice p
  c.notingTime p
  c.notingIndex p

def notingLoad (raw : Bytes) (usage : UInt8) (p : Platform) : Noting TrustedKey := do
  let c ← notingParse raw
  match p.anchor? c.signerKeyId with
  | none =>
    giveUp ("no trust anchor for issuer 0x" ++ Text.Hex.word c.signerKeyId) .invalidSignature
  | some anchor =>
    silently (c.verify anchor)
    c.notingAuthorize usage p
    silently c.trustedKey

/-- What is wrong with an entry is not worth a line. -/
theorem reason?_of_accept {s : Progress} {e : Tlv.Entry} {r : Rejection}
    (h : accept s e = .error r) : r.reason? = none := by
  have hcheck {t : Tag} {v : Bytes} (h : check t v = .error r) : r.reason? = none := by
    unfold check at h
    repeat' split at h
    all_goals cases h
    all_goals rfl
  unfold accept at h
  repeat' split at h
  all_goals cases h
  all_goals first | rfl | exact hcheck (by assumption)

theorem reason?_of_collect {s : Progress} {items : List (Except CodecError Tlv.Entry)}
    {r : Rejection} (h : collect s items = .error r) : r.reason? = none := by
  obtain ⟨before, item, later, q, -, -, hitem⟩ := collect_eq_error_iff.mp h
  cases item with
  | error e =>
    cases hitem
    rfl
  | ok e =>
    simp only [collect] at hitem
    split at hitem
    · rename_i haccept
      cases hitem
      exact reason?_of_accept haccept
    · cases hitem

theorem notingParse_eq (raw : Bytes) : notingParse raw = telling (parse raw) := by
  unfold notingParse parse
  cases hcollect : collect .start (Tlv.scan raw) with
  | error r =>
    simp only [telling, reason?_of_collect hcollect]
  | ok q =>
    dsimp only
    cases missing? q with
    | some tag => rfl
    | none =>
      dsimp only
      cases ofFields? raw q.fields with
      | none => rfl
      | some c => rfl

theorem elim_or_bind (o o' : Option Rejection) :
    ((o.or o').elim (.ok ()) .error : Except Rejection Unit) =
      o.elim (.ok ()) .error >>= fun _ => o'.elim (.ok ()) .error := by
  cases o <;> rfl

theorem notingUsage_eq (c : Certificate) (usage : UInt8) :
    c.notingUsage usage = telling ((c.usageObjection? usage).elim (.ok ()) .error) := by
  unfold notingUsage usageObjection?
  by_cases h : c.usage.code = usage
  · rw [if_pos h, if_neg (not_not.mpr h)]
    rfl
  · rw [if_neg h, if_pos h]
    rfl

theorem notingDevice_eq (c : Certificate) (p : Platform) :
    c.notingDevice p = telling ((c.deviceObjection? p).elim (.ok ()) .error) := by
  unfold notingDevice deviceObjection?
  cases c.targetDevice with
  | none => rfl
  | some d =>
    by_cases h : d = p.device
    · simp only [h, ne_eq, not_true_eq_false, if_true, if_false]
      rfl
    · simp only [h, ne_eq, not_false_eq_true, if_true, if_false]
      rfl

theorem notingTime_eq (c : Certificate) (p : Platform) :
    c.notingTime p = telling ((c.timeObjection? p).elim (.ok ()) .error) := by
  unfold notingTime timeObjection?
  cases c.timeValidity with
  | none => rfl
  | some last =>
    cases p.clock with
    | none => rfl
    | some now =>
      by_cases h : last ≠ 0 ∧ last < now
      · simp only [if_pos h]
        rfl
      · simp only [if_neg h]
        rfl

theorem notingIndex_eq (c : Certificate) (p : Platform) :
    c.notingIndex p = telling ((c.indexObjection? p).elim (.ok ()) .error) := by
  unfold notingIndex indexObjection?
  cases c.validityIndex with
  | none => rfl
  | some i =>
    by_cases h : i < p.minValidityIndex
    · simp only [if_pos h]
      rfl
    · simp only [if_neg h]
      rfl

theorem notingAuthorize_eq (c : Certificate) (usage : UInt8) (p : Platform) :
    c.notingAuthorize usage p = telling (c.authorize usage p) := by
  rw [authorize_eq, objection?, elim_or_bind, elim_or_bind, elim_or_bind, telling_bind,
    telling_bind, telling_bind, ← notingUsage_eq, ← notingDevice_eq, ← notingTime_eq,
    ← notingIndex_eq]
  rfl

theorem silently_eq {α : Type} {x : Except Rejection α}
    (h : ∀ r, x = .error r → r.reason? = none) : silently x = telling x := by
  cases x with
  | ok a => rfl
  | error r => simp only [silently, telling, h r rfl]

theorem reason?_of_verify {anchor : TrustAnchor} {r : Rejection} (h : c.verify anchor = .error r) :
    r.reason? = none := by
  rw [verify_of_ne_ok (by simp [h])] at h
  cases h
  rfl

theorem reason?_of_trustedKey {r : Rejection} (h : c.trustedKey = .error r) : r.reason? = none := by
  unfold trustedKey at h
  split at h <;> cases h
  rfl

theorem notingLoad_eq (raw : Bytes) (usage : UInt8) (p : Platform) :
    notingLoad raw usage p = telling (load raw usage p) := by
  unfold notingLoad load
  rw [telling_bind, notingParse_eq]
  congr 1
  funext c
  cases p.anchor? c.signerKeyId with
  | none => rfl
  | some anchor =>
    calc silently (c.verify anchor) >>= (fun _ => c.notingAuthorize usage p >>=
          fun _ => silently c.trustedKey)
      _ = telling (c.verify anchor) >>= (fun _ => telling (c.authorize usage p) >>=
          fun _ => telling c.trustedKey) := by
        rw [silently_eq fun _ => reason?_of_verify, notingAuthorize_eq,
          silently_eq fun _ => reason?_of_trustedKey]
      _ = telling (c.verify anchor >>= fun _ => c.authorize usage p >>=
          fun _ => c.trustedKey) := by
        rw [telling_bind]
        congr 1
        funext u
        rw [telling_bind]

end Certificate

namespace Session

open Noting

/-- Verifies the payload with the trusted key and registers its token. The line for the token is
noted before the registry is touched. -/
def notingToken (payload : Bytes) : Noting UInt8 := do
  match verifiedToken (← get).session.trusted payload with
  | .error r => throw r
  | .ok d =>
    note (.tokenAccepted d)
    let (registry, slot) := (← get).session.registry.insert d
    change fun s => { s with registry }
    return UInt8.ofNat slot

def notingUpdate (e : Event) : Noting Output := do
  note (.event e)
  match (← get).session.phase, e with
  | _, .loadCertificate usage certificate =>
    -- the old key is gone before anything is known of the new one
    change untrusting
    let key ← closing .certificateRejected
      (Certificate.notingLoad certificate usage (← get).session.platform)
    note (.keyTrusted key.name key.usage)
    change fun s => s.trusting key
    return .none
  | .noCertificate, .provideToken _ =>
    note .noCertificate
    throw .noCertificateLoaded
  | .certificateLoaded, .provideToken payload =>
    let slot ← closing .tokenRejected (notingToken payload)
    return .slot slot

/-- An outcome as what work leads to that began with some notes made. -/
def Outcome.behind (o : Outcome) (log : List Notice) : EStateM.Result Refusal Journal Output :=
  match o.result with
  | .ok output => .ok output ⟨o.session, log ++ o.log⟩
  | .error r => .error r ⟨o.session, log ++ o.log⟩

theorem run_notingToken_of_error {s : Session} {payload : Bytes} {r : Refusal}
    (log : List Notice) (h : verifiedToken s.trusted payload = .error r) :
    (notingToken payload).run ⟨s, log⟩ = .error r ⟨s, log⟩ := by
  simp only [notingToken, EStateM.run_bind, EStateM.run_get, h, run_throw]

theorem run_notingToken_of_ok {s : Session} {payload : Bytes} {d : Token.Descriptor}
    (log : List Notice) (h : verifiedToken s.trusted payload = .ok d) :
    (notingToken payload).run ⟨s, log⟩ = .ok (UInt8.ofNat (s.registry.insert d).2)
      ⟨{ s with registry := (s.registry.insert d).1 }, log ++ [.tokenAccepted d]⟩ := by
  simp only [notingToken, EStateM.run_bind, EStateM.run_get, h, run_note, run_change,
    EStateM.run_pure]

theorem run_notingUpdate_load (s : Session) (usage : UInt8) (raw : Bytes) (log : List Notice) :
    (notingUpdate (.loadCertificate usage raw)).run ⟨s, log⟩ =
      (s.update (.loadCertificate usage raw)).behind log := by
  have hdevice : s.untrusting.platform = s.platform := rfl
  simp only [notingUpdate, EStateM.run_bind, run_note, EStateM.run_get, run_change,
    Certificate.notingLoad_eq, hdevice]
  cases hload : Certificate.load raw usage s.platform with
  | error r =>
    rw [update_load_of_error hload, run_closing_of_error _ (run_telling_error r)]
    simp [Outcome.behind]
  | ok key =>
    rw [update_load_of_ok hload, run_closing_of_ok _ (by rfl)]
    simp [Outcome.behind]

theorem run_notingUpdate_provide (s : Session) (payload : Bytes) (log : List Notice) :
    (notingUpdate (.provideToken payload)).run ⟨s, log⟩ =
      (s.update (.provideToken payload)).behind log := by
  simp only [notingUpdate, EStateM.run_bind, run_note, EStateM.run_get]
  cases hphase : s.phase with
  | noCertificate =>
    have hjudge : s.judge payload = .error .noCertificateLoaded := by rw [judge, hphase]
    rw [update_provide_of_error hjudge, if_pos hphase]
    simp [Outcome.behind]
  | certificateLoaded =>
    have hjudge : s.judge payload = verifiedToken s.trusted payload := by rw [judge, hphase]
    cases hverify : verifiedToken s.trusted payload with
    | error r =>
      have hlast := run_closing_of_error .tokenRejected
        (run_notingToken_of_error (log ++ [.event (.provideToken payload)]) hverify)
      rw [update_provide_of_error (hjudge.trans hverify), if_neg (by simp [hphase])]
      simp only [EStateM.run_bind, hlast]
      simp [Outcome.behind]
    | ok d =>
      have hlast := run_closing_of_ok .tokenRejected
        (run_notingToken_of_ok (log ++ [.event (.provideToken payload)]) hverify)
      rw [update_provide_of_ok (hjudge.trans hverify)]
      simp only [EStateM.run_bind, hlast]
      simp [Outcome.behind]

/-- Note by note, an event leads to the session, the answer and the notes of its outcome, whatever
was noted before. -/
theorem run_notingUpdate (s : Session) (e : Event) (log : List Notice) :
    (notingUpdate e).run ⟨s, log⟩ = (s.update e).behind log := by
  cases e with
  | loadCertificate usage raw => exact run_notingUpdate_load s usage raw log
  | provideToken payload => exact run_notingUpdate_provide s payload log

end Session

end TokenProvision
