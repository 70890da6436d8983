import TokenProvision.Proofs.Certificate.SignedPart
import TokenProvision.Proofs.Session.Trust

/-!
Where the tokens in the registry come from. Every one of them was provided in a payload that is
signed with the key that was trusted then, and that key was certified for coin metadata by the last
certificate loaded before.
-/
namespace TokenProvision.Session

open Token (Descriptor)

variable {s : Session} {st : Step} {platform : Platform} {steps : List Step} {t d : Descriptor}

/-- A verified token is the one in the payload, and the rest of the payload is a signature of its
wire form with the trusted key. -/
theorem signed_of_verifiedToken {trusted : Option TrustedKey} {payload : Bytes}
    (h : verifiedToken trusted payload = .ok d) :
    ∃ key signature, trusted = some key ∧ key.usage = .coinMeta ∧
      payload = d.encode ++ signature ∧ key.verify d.encode signature = true := by
  unfold verifiedToken at h
  split at h
  · cases h
  · rename_i key
    split at h
    · cases h
    · rename_i p n hp
      split at h
      · cases h
      · rename_i husage
        split at h
        · rename_i hverify
          cases h
          have hpayload : payload = p.descriptor.encode ++ p.signature :=
            Token.Payload.eq_encode_of_decode hp
          have hsigned : payload.take (payload.length - p.signature.length) =
              p.descriptor.encode := by
            rw [hpayload, List.length_append, Nat.add_sub_cancel, List.take_left]
          rw [hsigned] at hverify
          exact ⟨key, p.signature, rfl, not_not.mp husage, hpayload, hverify⟩
        · cases h

/-- The token that a step puts into the registry. -/
def accepts? (s : Session) (st : Step) : Option Descriptor :=
  match st.effect with
  | .event (.provideToken payload) => s.accepted? payload
  | _ => none

/-- A step puts a token into the registry exactly if it notes it down as accepted. -/
theorem accepts?_eq_some_iff_mem_log :
    s.accepts? st = some d ↔ .tokenAccepted d ∈ (s.step st).log := by
  unfold accepts?
  cases heffect : st.effect with
  | event e =>
    rw [step_of_event s heffect]
    cases e with
    | loadCertificate usage raw =>
      cases hload : Certificate.load raw usage s.platform with
      | error r => simp [update_load_of_error hload]
      | ok key => simp [update_load_of_ok hload]
    | provideToken payload => exact accepted?_eq_some_iff_mem_log
  | reset => simp [Step.effect_eq_reset_iff.mp heffect, step, resetLog]
  | move platform => simp [Step.effect_eq_move_iff.mp heffect, step]
  | none => simp [(step_of_none s heffect).2]

def acceptances (s : Session) : List Step → List Descriptor
  | [] => []
  | st :: rest => (s.accepts? st).toList ++ (s.step st).session.acceptances rest

@[simp] theorem acceptances_nil (s : Session) : s.acceptances [] = [] := rfl
@[simp] theorem acceptances_cons (s : Session) (st : Step) (rest : List Step) :
    s.acceptances (st :: rest) =
      (s.accepts? st).toList ++ (s.step st).session.acceptances rest := rfl

theorem acceptances_append (s : Session) (xs ys : List Step) :
    s.acceptances (xs ++ ys) = s.acceptances xs ++ (s.after xs).acceptances ys := by
  induction xs generalizing s with
  | nil => rfl
  | cons st xs ih => simp [ih]

/-- A step that puts a token into the registry carries out an event with a payload that is signed
with the trusted key. -/
theorem signed_of_accepts? (h : s.accepts? st = some d) :
    ∃ key signature, s.trusted = some key ∧ key.usage = .coinMeta ∧
      st.effect = .event (.provideToken (d.encode ++ signature)) ∧
      key.verify d.encode signature = true := by
  unfold accepts? at h
  split at h
  · rename_i payload heffect
    unfold accepted? at h
    split at h
    · cases h
    · obtain ⟨key, signature, htrusted, husage, hpayload, hverify⟩ :=
        signed_of_verifiedToken (toOption_eq_some_iff.mp h)
      rw [hpayload] at heffect
      exact ⟨key, signature, htrusted, husage, heffect, hverify⟩
  · cases h

/-- A step that does not reset the session puts at most the accepted token into the registry. -/
theorem registry_step (s : Session) (h : st ≠ .reset) :
    (s.step st).session.registry =
      match s.accepts? st with
      | none => s.registry
      | some d => (s.registry.insert d).1 := by
  rw [registry_step_eq_after]
  unfold operation? accepts?
  cases heffect : st.effect with
  | event e =>
    cases e with
    | loadCertificate usage raw => rfl
    | provideToken payload =>
      dsimp only
      cases s.accepted? payload with
      | none => rfl
      | some d => rfl
  | reset => exact absurd (Step.effect_eq_reset_iff.mp heffect) h
  | move platform => rfl
  | none => rfl

/-- What is in the registry after a step was put in by the step, or it was there before and the step
put in no descriptor of the same token. -/
theorem mem_registry_step (hs : s.registry.Distinct) (h : t ∈ (s.step st).session.registry.tokens) :
    st ≠ .reset ∧ (s.accepts? st = some t ∨
      (t ∈ s.registry.tokens ∧ ∀ d, s.accepts? st = some d → ¬ d.SameToken t)) := by
  by_cases hreset : st = .reset
  · rw [hreset] at h
    cases h
  · rw [registry_step s hreset] at h
    refine ⟨hreset, ?_⟩
    cases haccepts : s.accepts? st with
    | none =>
      rw [haccepts] at h
      exact .inr ⟨h, by simp⟩
    | some d =>
      rw [haccepts] at h
      rcases Registry.mem_insert hs h with rfl | ⟨hmem, hother⟩
      · exact .inl rfl
      · refine .inr ⟨hmem, ?_⟩
        rintro d' hd' hsame
        rw [Option.some.inj hd'] at hother
        exact hother hsame.symm

/-- Every token in the registry was put in by a step after the last reset, and no later step put in
another descriptor of it. -/
theorem exists_accepts_of_mem (h : t ∈ ((start platform).after steps).registry.tokens) :
    ∃ before provide later, steps = before ++ provide :: later ∧
      ((start platform).after before).accepts? provide = some t ∧
      (∀ st ∈ later, st ≠ .reset) ∧
      ∀ d ∈ ((start platform).after (before ++ [provide])).acceptances later,
        ¬ d.SameToken t := by
  induction steps using List.reverseRecOn with
  | nil => cases h
  | append_singleton steps st ih =>
    rw [after_append] at h
    have hdistinct := (wellFormed_registry platform steps).distinct
    obtain ⟨hreset, haccepts | ⟨hmem, hother⟩⟩ := mem_registry_step hdistinct h
    · exact ⟨steps, st, [], rfl, haccepts, by simp, by simp⟩
    · obtain ⟨before, provide, later, rfl, haccepts, hlater, hlast⟩ := ih hmem
      refine ⟨before, provide, later ++ [st], by simp, haccepts, ?_, ?_⟩
      · intro st' hst'
        rcases List.mem_append.mp hst' with hst' | hst'
        · exact hlater st' hst'
        · rw [List.mem_singleton.mp hst']
          exact hreset
      · intro d hd
        rw [acceptances_append, ← after_append, List.append_assoc, List.singleton_append] at hd
        rcases List.mem_append.mp hd with hd | hd
        · exact hlast d hd
        · simp only [acceptances_cons, acceptances_nil, List.append_nil, Option.mem_toList] at hd
          exact hother d hd

/-- How a token in the registry is accounted for by two steps of a run, a load and a later
provision, which the other steps go before, between and after. -/
structure Account (platform : Platform) (t : Descriptor) (before : List Step) (load : Step)
    (between : List Step) (provide : Step) (later : List Step) : Prop where
  /-- The load was of a certificate for coin metadata, good on the device of that moment; the
  provision brought the wire form of the token and a signature of it that is good under the
  certified key. -/
  signed : ∃ certificate c publicKey signature, load.Loads 0x08 certificate ∧
    Certificate.Certified certificate 0x08 ((start platform).after before).platform c publicKey ∧
    provide.effect = .event (.provideToken (t.encode ++ signature)) ∧
    Ecdsa.verify publicKey c.publicKeyAlgorithm t.encode signature = true
  /-- No certificate was loaded between the two, and the session was not reset. -/
  trusting : ∀ st ∈ between, st ≠ .reset ∧ ∀ usage raw, ¬ st.Loads usage raw
  /-- The provision was accepted. -/
  accepted : .tokenAccepted t ∈
    (((start platform).after (before ++ load :: between)).step provide).log
  /-- The session was not reset after it. -/
  kept : ∀ st ∈ later, st ≠ .reset
  /-- No descriptor of the same token was accepted after it. -/
  last : ∀ d ∈ ((start platform).after
    (before ++ load :: (between ++ [provide]))).acceptances later, ¬ d.SameToken t
  /-- The token can be made from text. -/
  made : Descriptor.new t.ticker.text t.address t.decimals t.chainId = .ok t

/-- Every token in the registry after a run is accounted for by two of its steps. -/
theorem token_provenance (h : t ∈ ((start platform).after steps).registry.tokens) :
    ∃ before load between provide later, steps = before ++ load :: (between ++ provide :: later) ∧
      Account platform t before load between provide later := by
  obtain ⟨front, provide, later, rfl, haccepts, hlater, hlast⟩ := exists_accepts_of_mem h
  obtain ⟨key, signature, htrusted, husage, heffect, hverify⟩ := signed_of_accepts? haccepts
  obtain ⟨before, load, between, usage, certificate, rfl, hload, hbetween, hkey⟩ :=
    trusted_after_eq_some_iff.mp htrusted
  have hcode : usage = 0x08 := by
    rw [← Certificate.usage_of_load hkey, husage]
    rfl
  subst hcode
  obtain ⟨c, hcertified, hfields⟩ := Certificate.exists_certified_of_load hkey
  have halgorithm : key.algorithm = c.publicKeyAlgorithm := by rw [hfields]
  refine ⟨before, load, between, provide, later, by simp, ?_, ?_, ?_, hlater, ?_, ?_⟩
  · rw [TrustedKey.verify, halgorithm] at hverify
    exact ⟨certificate, c, key.publicKey, signature, hload, hcertified, heffect, hverify⟩
  · intro st hst
    exact ⟨fun hreset => hbetween st hst (.inl hreset),
      fun usage raw hloads => hbetween st hst (.inr ⟨usage, raw, hloads⟩)⟩
  · exact accepts?_eq_some_iff_mem_log.mp haccepts
  · simpa using hlast
  · exact Descriptor.new_text t

/-- A device with the anchor of the issuer of `coinMetaCertificate`. -/
def device : Platform :=
  .ofAnchors
    [⟨2, ⟨[0x02, 0xfc, 0x55, 0x25, 0x2d, 0x90, 0xf7, 0x11, 0x7b, 0x37, 0xdb, 0xcb, 0x9a, 0x10,
      0x6d, 0xf0, 0x9a, 0x9c, 0x81, 0x27, 0xdc, 0x0e, 0x36, 0xfc, 0x87, 0x78, 0xdb, 0xc0, 0x48,
      0x69, 0x63, 0xda, 0x00], rfl⟩⟩]
    3 none 0

def zrx : Descriptor where
  ticker := ⟨[0x5a, 0x52, 0x58], by simp, by simp [Token.maxTicker], by decide⟩
  address := .ofNat _ 0xe41d2489571d322189246dafa5ebde1f4699f498
  decimals := 18
  chainId := 1

def zrxSignature : Bytes :=
  [0x30, 0x44, 0x02, 0x20, 0x6f, 0x91, 0x22, 0x63, 0x28, 0xdd, 0x0f, 0x91, 0x2f, 0x97, 0xbe,
    0x16, 0x8c, 0xfd, 0xc0, 0x6d, 0xf7, 0x6c, 0x94, 0xbd, 0xd5, 0x22, 0x85, 0xfd, 0x15, 0x0e,
    0xb8, 0x07, 0x69, 0x15, 0xad, 0xb2, 0x02, 0x20, 0x40, 0xb2, 0x93, 0x4a, 0xdd, 0xc7, 0xce,
    0xb6, 0xf6, 0xc1, 0x47, 0x08, 0x08, 0xaf, 0xa3, 0x4a, 0xde, 0x85, 0x97, 0x2f, 0xd4, 0x53,
    0x4f, 0x4b, 0xda, 0x4e, 0x4c, 0x3c, 0x32, 0xca, 0x95, 0x77]

/-- A run in which the token contract is registered: the certificate and the payload come in frames,
among a frame that is no command, a question, and a move to a device without anchors. -/
def zrxSteps : List Step :=
  [.handle [0xb0],
    .exchange (Request.loadCertificate 0x08 Certificate.coinMetaCertificate).command.encode 2,
    .get 0,
    .exchange (Request.provideToken ⟨zrx, zrxSignature⟩).command.encode 3,
    .move (.ofAnchors [] 3 none 0)]

/-- The registered token contract is accounted for. -/
theorem token_provenance_zrx :
    zrx ∈ ((start device).after zrxSteps).registry.tokens ∧
      ∃ before load between provide later,
        zrxSteps = before ++ load :: (between ++ provide :: later) ∧
        Account device zrx before load between provide later := by
  have hmem : zrx ∈ ((start device).after zrxSteps).registry.tokens := by decide +kernel
  exact ⟨hmem, token_provenance hmem⟩

end TokenProvision.Session
