import Mathlib.Algebra.Order.BigOperators.Group.List
import Mathlib.Algebra.Order.Ring.Nat
import TokenProvision.Proofs.Ecdsa
import TokenProvision.Proofs.Host.Transcript
import TokenProvision.Proofs.Session.Provenance

/-!
What a device accepts, a host can deliver. A certificate that leads to a trusted key and a payload
whose token is registered are so short that each fits one frame, which is read as the event that it
was made for, and which is all that the host has the device carry out.

No certificate that leads to a trusted key is longer than 227 bytes. Nothing in the reader bounds a
certificate as a whole; but each tag stands for one entry at most, every tag except that of the
signature bounds its value, and the signature has to verify. So the longest certificate has the
longest entry of every tag.
-/
namespace TokenProvision

namespace Certificate

/-- The size of the longest value of a tag, where the signature is one that verifies. -/
def Tag.maxLength : Tag → Nat
  | structureType | version | signerAlgorithm | publicKeyUsage | publicKeyCurve
  | publicKeyAlgorithm | targetDevice | depth => 1
  | signerKeyId | publicKeyId => 2
  | validity | validityIndex | timeValidity => 4
  | challenge | trustedName => 32
  | publicKey => 33
  | signature => 72

/-- The size of the longest certificate that leads to a trusted key. -/
def maxLength : Nat := (Tag.all.map fun t => Tlv.encodedLength t.maxLength).sum

theorem maxLength_eq : maxLength = 227 := by decide

theorem Tag.mem_all (t : Tag) : t ∈ Tag.all := by
  cases t <;> decide

theorem Legal.length_le {t : Tag} {v : Bytes} (h : Legal t v) (ht : t ≠ .signature) :
    v.length ≤ t.maxLength := by
  cases t with
  | signature => exact absurd rfl ht
  | structureType | version | publicKeyCurve => rw [show v = _ from h]; exact Nat.le_refl _
  | signerAlgorithm | publicKeyAlgorithm | publicKeyUsage =>
    obtain ⟨b, rfl, -⟩ := h
    exact Nat.le_refl _
  | challenge => exact h
  | trustedName => exact h.2.1
  | _ => exact Nat.le_of_eq h

/-- Entries are together as long as the sizes of their values tell. -/
theorem length_wire (es : List (Tag × Bytes)) :
    (wire es).length = (es.map fun e => Tlv.encodedLength e.2.length).sum := by
  induction es with
  | nil => rfl
  | cons e es ih =>
    rw [List.map_cons, List.sum_cons, ← ih, ← List.singleton_append, wire_append, wire_singleton,
      List.length_append, Tlv.length_encode]

/-- Distinct tags have no larger sum than all tags have. -/
theorem sum_map_le_of_nodup {tags : List Tag} (h : tags.Nodup) (size : Tag → Nat) :
    (tags.map size).sum ≤ (Tag.all.map size).sum := by
  obtain ⟨tags', hperm, hsub⟩ := List.subperm_of_subset h fun t _ => t.mem_all
  rw [← (hperm.map size).sum_eq]
  exact (hsub.map size).sum_le_sum fun _ _ => Nat.zero_le _

/-- Entries under distinct tags, each with a value within the bound of its tag, are together no
longer than the longest certificate. -/
theorem length_wire_le {es : List (Tag × Bytes)} (hdistinct : (es.map Prod.fst).Nodup)
    (h : ∀ e ∈ es, e.2.length ≤ e.1.maxLength) : (wire es).length ≤ maxLength := by
  calc (wire es).length
      = (es.map fun e => Tlv.encodedLength e.2.length).sum := length_wire es
    _ ≤ (es.map fun e => Tlv.encodedLength e.1.maxLength).sum :=
      List.sum_le_sum fun e he => Tlv.encodedLength_mono (h e he)
    _ = ((es.map Prod.fst).map fun t => Tlv.encodedLength t.maxLength).sum := by
      rw [List.map_map]
      rfl
    _ ≤ maxLength := sum_map_le_of_nodup hdistinct _

/-- A certificate whose signature is no longer than one that verifies is no longer than the longest
certificate. -/
theorem length_le_of_parse {raw : Bytes} {c : Certificate} (h : parse raw = .ok c)
    (hsignature : c.signature.length ≤ Tag.signature.maxLength) : raw.length ≤ maxLength := by
  obtain ⟨es, hes, rfl, hread⟩ := parse_eq_ok_iff.mp h
  refine length_wire_le hes.distinct fun ⟨t, v⟩ he => ?_
  by_cases ht : t = .signature
  · subst ht
    have hshown := (hread.shown_iff .signature v).mpr he
    rw [← Option.some.inj hshown]
    exact hsignature
  · exact (hes.legal _ he).length_le ht

/-- A certificate that leads to a trusted key has at most 227 bytes. -/
theorem length_le_of_load {raw : Bytes} {usage : UInt8} {p : Platform} {key : TrustedKey}
    (h : load raw usage p = .ok key) : raw.length ≤ 227 := by
  obtain ⟨c, hc, -⟩ := exists_certified_of_load h
  obtain ⟨anchor, issuer, -, -, hverify⟩ := hc.verified
  rw [← maxLength_eq]
  exact length_le_of_parse hc.parsed (Ecdsa.length_le_of_verify hverify)

end Certificate

open Certificate (coinMetaCertificate)
open Token (Descriptor Payload)

/-- A payload that a session judges good is a token and a signature that verifies. -/
theorem Session.exists_signed_of_judge {s : Session} {payload : Bytes} {d : Descriptor}
    (h : s.judge payload = .ok d) :
    ∃ key signature, payload = (Payload.mk d signature).encode ∧
      TrustedKey.verify key d.encode signature = true := by
  unfold judge at h
  split at h
  · cases h
  · obtain ⟨key, signature, -, -, hpayload, hverify⟩ := signed_of_verifiedToken h
    exact ⟨key, signature, hpayload, hverify⟩

/-- A payload that a session judges good has at most 112 bytes. -/
theorem Session.length_le_of_judge {s : Session} {payload : Bytes} {d : Descriptor}
    (h : s.judge payload = .ok d) : payload.length ≤ 112 := by
  obtain ⟨key, signature, rfl, hverify⟩ := exists_signed_of_judge h
  rw [Payload.length_encode]
  exact Payload.encodedLength_le (Ecdsa.length_le_of_verify hverify)

namespace Host

variable {σ : Type} {t : Transport σ} {frame : Bytes} {e : Event} {usage : UInt8}
  {certificate payload : Bytes}

/-- What it means for a frame to carry an event: the command of the event is written as that frame,
and the frame is read as that command and that event. -/
structure Carries (frame : Bytes) (e : Event) : Prop where
  written : e.command.write maxFrame = .ok frame
  parsed : Command.parse frame = .ok e.command
  event : Event.ofCommand e.command = .ok e

theorem carries_of_le (h : e.command.data.length ≤ Command.maxData) :
    Carries e.command.encode e where
  written := Command.write_of_le h (Nat.add_le_add_left h _)
  parsed := Command.parse_eq_ok_iff.mpr ⟨h, rfl⟩
  event := Event.ofCommand_eq_ok_iff.mpr rfl

theorem state_send (t : Transport σ) (c : Command) (s : σ) : (send t c s).2 = (t c s).2 := by
  unfold send
  split
  · rename_i h
    rw [h]
  · rename_i h
    rw [h]
    split <;> rfl

/-- A certificate is loaded with the command of its event, if it is short enough. -/
theorem loadCertificate_of_le (t : Transport σ) (s : σ)
    (h : certificate.length ≤ Command.maxData) :
    loadCertificate t usage certificate s =
      ((send t (Event.loadCertificate usage certificate).command s).1.map Response.status,
        (send t (Event.loadCertificate usage certificate).command s).2) := by
  have hwrite : (Request.loadCertificate usage certificate).write Command.maxData =
      .ok certificate := writeWithin_of_le certificate h
  rw [loadCertificate, hwrite, Event.command]
  dsimp only
  split
  · rename_i hsend
    rw [hsend]
    rfl
  · rename_i hsend
    rw [hsend]
    rfl

/-- A token is provided with the command of its event. -/
theorem state_provideToken (t : Transport σ) (payload : Bytes) (s : σ) :
    (provideToken t payload s).2 = (send t (Event.provideToken payload).command s).2 := by
  rw [provideToken, Event.command]
  split
  · rename_i hsend
    rw [hsend]
  · rename_i hsend
    rw [hsend]
    split <;> rfl

/-- A device that writes its frames down has carried out one frame more. -/
theorem Carries.state_framed_recording (h : Carries frame e) (d : Device σ) (s : σ) :
    (framed d.recording e.command (s, [])).2 = ((d frame s).2, [frame]) := by
  rw [framed, h.written]
  rfl

/-- Whether all that a host has a device carry out is one frame. -/
def Delivers (frame : Bytes) (act : {σ : Type} → Transport σ → σ → σ) : Prop :=
  ∀ {σ : Type} (d : Device σ) (s : σ), act (framed d.recording) (s, []) = ((d frame s).2, [frame])

/-- A certificate that is short enough is delivered in one frame. -/
theorem Carries.delivers_certificate (h : Carries frame (.loadCertificate usage certificate))
    (hlength : certificate.length ≤ Command.maxData) :
    Delivers frame fun t s => (loadCertificate t usage certificate s).2 := by
  intro σ d s
  dsimp only
  rw [loadCertificate_of_le _ _ hlength, state_send, h.state_framed_recording]

theorem Carries.delivers_payload (h : Carries frame (.provideToken payload)) :
    Delivers frame fun t s => (provideToken t payload s).2 := by
  intro σ d s
  dsimp only
  rw [state_provideToken, state_send, h.state_framed_recording]

/-- All that is accepted fits one frame. A certificate that leads to a trusted key has at most 227
bytes, and a payload whose token a session registers has at most 112: so there is a frame that
carries the one or the other, and to deliver it a host has the device carry out that frame and
nothing else. -/
theorem accepted_bytes_fit_one_frame :
    (∀ (certificate : Bytes) (usage : UInt8) (platform : Platform) (key : TrustedKey),
      Certificate.load certificate usage platform = .ok key →
        certificate.length ≤ 227 ∧ ∃ frame, Carries frame (.loadCertificate usage certificate) ∧
          Delivers frame fun t s => (loadCertificate t usage certificate s).2) ∧
    ∀ (s : Session) (payload : Bytes) (output : Output),
      (s.update (.provideToken payload)).result = .ok output →
        payload.length ≤ 112 ∧ ∃ frame, Carries frame (.provideToken payload) ∧
          Delivers frame fun t s => (provideToken t payload s).2 := by
  constructor
  · intro certificate usage platform key hload
    have hlength := Certificate.length_le_of_load hload
    have hshort : certificate.length ≤ Command.maxData := Nat.le_trans hlength (by decide)
    have hcarries := carries_of_le (e := .loadCertificate usage certificate) hshort
    exact ⟨hlength, _, hcarries, hcarries.delivers_certificate hshort⟩
  · intro s payload output hresult
    cases hjudge : s.judge payload with
    | error r =>
      rw [Session.update_provide_of_error hjudge] at hresult
      cases hresult
    | ok d =>
      have hlength := Session.length_le_of_judge hjudge
      have hshort : payload.length ≤ Command.maxData := Nat.le_trans hlength (by decide)
      have hcarries := carries_of_le (e := .provideToken payload) hshort
      exact ⟨hlength, _, hcarries, hcarries.delivers_payload⟩

/-- The certificate for coin metadata and the payload of a token that is signed under it are
accepted, and fit one frame each. -/
theorem accepted_bytes_fit_one_frame_zrx :
    (∃ key, Certificate.load coinMetaCertificate 0x08 Session.device = .ok key) ∧
      (∃ frame, Carries frame (.loadCertificate 0x08 coinMetaCertificate)) ∧
      (∃ output, (((Session.start Session.device).after (Session.zrxSteps.take 2)).update
        (.provideToken (Session.zrx.encode ++ Session.zrxSignature))).result = .ok output) ∧
      ∃ frame, Carries frame (.provideToken (Session.zrx.encode ++ Session.zrxSignature)) := by
  have hloaded : (Certificate.load coinMetaCertificate 0x08 Session.device).isOk = true := by
    decide +kernel
  have hprovided : (((Session.start Session.device).after (Session.zrxSteps.take 2)).update
      (.provideToken (Session.zrx.encode ++ Session.zrxSignature))).result.isOk = true := by
    decide +kernel
  obtain ⟨key, hkey⟩ := exists_ok_of_isOk hloaded
  obtain ⟨output, houtput⟩ := exists_ok_of_isOk hprovided
  obtain ⟨hcertificates, hpayloads⟩ := accepted_bytes_fit_one_frame
  obtain ⟨-, frame, hcertificate, -⟩ := hcertificates _ _ _ _ hkey
  obtain ⟨-, frame', hpayload, -⟩ := hpayloads _ _ _ houtput
  exact ⟨⟨key, hkey⟩, ⟨frame, hcertificate⟩, ⟨output, houtput⟩, ⟨frame', hpayload⟩⟩

end Host

end TokenProvision
