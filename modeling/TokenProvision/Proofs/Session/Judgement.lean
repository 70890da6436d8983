import TokenProvision.Proofs.Session.Trust

/-!
How a payload that provides a token is judged. The questions are asked in a fixed order: whether a
key is trusted at all, whether a descriptor stands in front, whether the key is for coin metadata,
and whether what follows the descriptor is a signature with that key over just the wire form of the
descriptor. The first that is answered no names the refusal, and the device has no say in it.
-/
namespace TokenProvision.Session

open Token (Descriptor Payload)

variable {s : Session} {key : TrustedKey} {payload signature : Bytes} {d : Descriptor}
variable {r : Except Refusal Descriptor}

structure Trusts (s : Session) (key : TrustedKey) : Prop where
  phase : s.phase = .certificateLoaded
  trusted : s.trusted = some key

inductive Judged (s : Session) (payload : Bytes) : Except Refusal Descriptor → Prop where
  | untrusting : s.phase = .noCertificate → Judged s payload (.error .noCertificateLoaded)
  | unreadable : s.phase = .certificateLoaded → (∀ d : Descriptor, ¬ d.encode <+: payload) →
    Judged s payload (.error .malformedDescriptor)
  | forbidden {key : TrustedKey} {d : Descriptor} {signature : Bytes} : s.Trusts key →
    payload = d.encode ++ signature → key.usage ≠ .coinMeta →
    Judged s payload (.error .notAuthorized)
  | unsigned {key : TrustedKey} {d : Descriptor} {signature : Bytes} : s.Trusts key →
    payload = d.encode ++ signature → key.usage = .coinMeta →
    Ecdsa.verify key.publicKey key.algorithm d.encode signature = false →
    Judged s payload (.error .invalidSignature)
  | accepted {key : TrustedKey} {d : Descriptor} {signature : Bytes} : s.Trusts key →
    payload = d.encode ++ signature → key.usage = .coinMeta →
    Ecdsa.verify key.publicKey key.algorithm d.encode signature = true →
    Judged s payload (.ok d)

/-- A session whose phase tells so trusts a key once a certificate is loaded. -/
theorem PhaseTells.exists_trusts (h : s.PhaseTells) (hphase : s.phase = .certificateLoaded) :
    ∃ key, s.Trusts key := by
  obtain ⟨key, hkey⟩ := Option.isSome_iff_exists.mp (h.mp hphase)
  exact ⟨key, hphase, hkey⟩

theorem Trusts.judge_eq (h : s.Trusts key) (payload : Bytes) :
    s.judge payload = verifiedToken (some key) payload := by
  rw [judge, h.phase, h.trusted]

theorem verifiedToken_of_not_prefix (h : ∀ d : Descriptor, ¬ d.encode <+: payload) :
    verifiedToken (some key) payload = .error .malformedDescriptor := by
  unfold verifiedToken
  dsimp only
  cases hdecode : Payload.decode payload with
  | error e => rfl
  | ok read =>
    have hpayload := Payload.eq_encode_of_decode (p := read.1) (n := read.2) hdecode
    exact absurd ⟨read.1.signature, hpayload.symm⟩ (h read.1.descriptor)

/-- What is verified of a payload is that the rest behind the descriptor signs the descriptor. -/
theorem verifiedToken_encode_append (key : TrustedKey) (d : Descriptor) (signature : Bytes) :
    verifiedToken (some key) (d.encode ++ signature) =
      if key.usage ≠ .coinMeta then .error .notAuthorized
      else if Ecdsa.verify key.publicKey key.algorithm d.encode signature then .ok d
      else .error .invalidSignature := by
  have hdecode : Payload.decode (d.encode ++ signature) = .ok (⟨d, signature⟩, _) :=
    Payload.decode_encode ⟨d, signature⟩
  have hsigned : (d.encode ++ signature).take ((d.encode ++ signature).length - signature.length) =
      d.encode := by
    rw [List.length_append, Nat.add_sub_cancel, List.take_left]
  unfold verifiedToken
  simp only [hdecode, hsigned]
  rfl

/-- A payload is judged as it ought to be. -/
theorem Judged.judge_eq (h : s.Judged payload r) (hs : s.PhaseTells) : s.judge payload = r := by
  cases h with
  | untrusting hphase => rw [judge, hphase]
  | unreadable hphase hnone =>
    obtain ⟨key, hkey⟩ := hs.exists_trusts hphase
    rw [hkey.judge_eq, verifiedToken_of_not_prefix hnone]
  | forbidden hkey hpayload husage =>
    rw [hkey.judge_eq, hpayload, verifiedToken_encode_append, if_pos husage]
  | unsigned hkey hpayload husage hverify =>
    rw [hkey.judge_eq, hpayload, verifiedToken_encode_append, if_neg (not_not.mpr husage), hverify,
      if_neg Bool.false_ne_true]
  | accepted hkey hpayload husage hverify =>
    rw [hkey.judge_eq, hpayload, verifiedToken_encode_append, if_neg (not_not.mpr husage), hverify,
      if_pos rfl]

/-- Every payload meets a judgement. -/
theorem PhaseTells.exists_judged (hs : s.PhaseTells) (payload : Bytes) :
    ∃ r, s.Judged payload r := by
  cases hphase : s.phase with
  | noCertificate => exact ⟨_, .untrusting hphase⟩
  | certificateLoaded =>
    obtain ⟨key, hkey⟩ := hs.exists_trusts hphase
    by_cases hfront : ∃ d : Descriptor, d.encode <+: payload
    · obtain ⟨d, signature, hpayload⟩ := hfront
      by_cases husage : key.usage = .coinMeta
      · cases hverify : Ecdsa.verify key.publicKey key.algorithm d.encode signature with
        | false => exact ⟨_, .unsigned hkey hpayload.symm husage hverify⟩
        | true => exact ⟨_, .accepted hkey hpayload.symm husage hverify⟩
      · exact ⟨_, .forbidden hkey hpayload.symm husage⟩
    · exact ⟨_, .unreadable hphase (not_exists.mp hfront)⟩

/-- The device does not matter to a payload. -/
theorem update_provide_onPlatform (s : Session) (platform : Platform) (payload : Bytes) :
    (s.onPlatform platform).update (.provideToken payload) =
      { s.update (.provideToken payload) with
        session := (s.update (.provideToken payload)).session.onPlatform platform } := by
  have hsame : (s.onPlatform platform).judge payload = s.judge payload := rfl
  cases hjudge : s.judge payload with
  | error f =>
    rw [update_provide_of_error hjudge, update_provide_of_error (hsame.trans hjudge)]
    rfl
  | ok d =>
    rw [update_provide_of_ok hjudge, update_provide_of_ok (hsame.trans hjudge)]
    rfl

/-- A refusal is answered exactly if it is the judgement. -/
theorem PhaseTells.judged_error_iff (hs : s.PhaseTells) {f : Refusal} :
    s.Judged payload (.error f) ↔ (s.update (.provideToken payload)).result = .error f := by
  constructor
  · intro h
    rw [update_provide_of_error (h.judge_eq hs)]
  · intro h
    obtain ⟨r, hr⟩ := hs.exists_judged payload
    cases r with
    | error g =>
      rw [update_provide_of_error (hr.judge_eq hs)] at h
      cases h
      exact hr
    | ok d =>
      rw [update_provide_of_ok (hr.judge_eq hs)] at h
      cases h

/-- What it means for a token to be registered: it is inserted into the registry, nothing else
changes, and it is then in the slot that is answered. -/
structure Registered (s : Session) (d : Descriptor) (o : Outcome) : Prop where
  session : o.session = { s with registry := (s.registry.insert d).1 }
  slot_lt : (s.registry.insert d).2 < Registry.capacity
  result : o.result = .ok (.slot (UInt8.ofNat (s.registry.insert d).2))
  get?_slot : o.session.registry.get? (s.registry.insert d).2 = some d
  find?_token : o.session.registry.find? d.address d.chainId = some ((s.registry.insert d).2, d)

/-- A token that is judged good is registered. -/
theorem Judged.registered (h : s.Judged payload (.ok d)) (hs : s.PhaseTells)
    (hw : s.registry.WellFormed) (hb : s.registry.Bounded) :
    s.Registered d (s.update (.provideToken payload)) := by
  rw [update_provide_of_ok (h.judge_eq hs)]
  exact ⟨rfl, hb.slot_lt d, rfl, hw.getElem?_insert d, hw.find?_insert d⟩

/-- Payloads are judged by four questions in a fixed order, each of them meets a judgement, and a
refusal is answered exactly if it is the judgement; the session is then as it was. A token that is
judged good is registered. A payload can be split into a descriptor and the rest in one way only, so
what is judged is what it says; and the device has no say in the judgement. -/
theorem payloads_are_judged_in_order (platform : Platform) (steps : List Step) (payload : Bytes) :
    let s := (start platform).after steps
    let o := s.update (.provideToken payload)
    (∃ r, s.Judged payload r) ∧
    (∀ f, s.Judged payload (.error f) ↔ o.result = .error f) ∧
    (∀ f, o.result = .error f → o.session = s) ∧
    (∀ d, s.Judged payload (.ok d) → s.Registered d o) ∧
    (∀ (d d' : Descriptor) (signature signature' : Bytes),
      payload = d.encode ++ signature → payload = d'.encode ++ signature' →
        d = d' ∧ signature = signature') ∧
    ∀ other, (s.onPlatform other).update (.provideToken payload) =
      { o with session := o.session.onPlatform other } := by
  intro s o
  have hphase : s.PhaseTells := (phaseTells_start platform).after steps
  have hreachable : s.Reachable := ⟨platform, steps, rfl⟩
  refine ⟨hphase.exists_judged payload, fun f => hphase.judged_error_iff, ?_, ?_, ?_,
    fun other => update_provide_onPlatform s other payload⟩
  · intro f hf
    have hjudge := (hphase.judged_error_iff.mpr hf).judge_eq hphase
    exact congrArg Outcome.session (update_provide_of_error hjudge)
  · intro d hd
    exact hd.registered hphase hreachable.wellFormed hreachable.bounded
  · rintro d d' signature signature' rfl hsplit
    have hread := Descriptor.decode_encode_append d signature
    rw [hsplit, Descriptor.decode_encode_append] at hread
    cases hread
    exact ⟨rfl, List.append_cancel_left hsplit⟩

end TokenProvision.Session
