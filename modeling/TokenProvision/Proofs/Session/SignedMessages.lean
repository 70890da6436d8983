import TokenProvision.Proofs.Certificate.Authorization
import TokenProvision.Proofs.Ecdsa
import TokenProvision.Proofs.Session.Judgement
import TokenProvision.Proofs.Session.Provenance

/-!
Signed messages: the two forms of a signature, and the two kinds of messages that are signed.

A signature and its opposite are good for the same messages under the same keys, though only one of
them is low and their encodings may differ in length. Nothing that is read of a certificate or of a
payload depends on the signature in it, so wherever a signature is accepted its opposite is, with
the same effect.

Neither kind of message carries a mark of its kind, yet they never collide: a certificate begins
with the entry for the kind of structure, `01 01 01`, and where a descriptor begins with `01` a
single printable character follows. So no message of one kind begins one of the other, and what is
signed as the one cannot be passed off as the other, under any key.
-/
namespace TokenProvision

open Token (Descriptor Payload)
open Ecdsa (Signature)

namespace Session

variable {s : Session} {payload payload' signature signature' : Bytes} {d : Descriptor}

/-- Two signatures of a descriptor that are good under the same keys make the same of it. -/
theorem verifiedToken_congr (trusted : Option TrustedKey)
    (h : ∀ key algorithm, Ecdsa.verify key algorithm d.encode signature =
      Ecdsa.verify key algorithm d.encode signature') :
    verifiedToken trusted (d.encode ++ signature) =
      verifiedToken trusted (d.encode ++ signature') := by
  cases trusted with
  | none => rfl
  | some key => rw [verifiedToken_encode_append, verifiedToken_encode_append, h]

/-- Two signatures of a descriptor that are good under the same keys are judged alike. -/
theorem judge_congr (s : Session)
    (h : ∀ key algorithm, Ecdsa.verify key algorithm d.encode signature =
      Ecdsa.verify key algorithm d.encode signature') :
    s.judge (d.encode ++ signature) = s.judge (d.encode ++ signature') := by
  unfold judge
  rw [verifiedToken_congr s.trusted h]

theorem update_provide_of_judge_eq (h : s.judge payload = s.judge payload') :
    (s.update (.provideToken payload)).result = (s.update (.provideToken payload')).result ∧
      (s.update (.provideToken payload)).session =
        (s.update (.provideToken payload')).session := by
  cases hjudge : s.judge payload with
  | error r =>
    rw [update_provide_of_error hjudge, update_provide_of_error (h.symm.trans hjudge)]
    exact ⟨rfl, rfl⟩
  | ok d =>
    rw [update_provide_of_ok hjudge, update_provide_of_ok (h.symm.trans hjudge)]
    exact ⟨rfl, rfl⟩

/-- A signature and its opposite are interchangeable: they are good for the same messages under the
same keys; a certificate that is signed with one leads to the same key, or meets the same refusal,
when it is signed with the other; and a token that is provided with one has the same result and the
same effect when it is provided with the other. -/
theorem opposite_signatures_are_interchangeable (sig : Signature) :
    (∀ key algorithm msg, Ecdsa.verify key algorithm msg sig.flip.encode =
      Ecdsa.verify key algorithm msg sig.encode) ∧
    (∀ raw c, Certificate.parse raw = .ok c → c.signature = sig.encode → ∀ usage p,
      Certificate.load
          (c.signed ++ Tlv.encode Certificate.Tag.signature.code sig.flip.encode) usage p =
        Certificate.load raw usage p) ∧
    ∀ (s : Session) (d : Descriptor),
      let flipped := s.update (.provideToken (d.encode ++ sig.flip.encode))
      let o := s.update (.provideToken (d.encode ++ sig.encode))
      flipped.result = o.result ∧ flipped.session = o.session := by
  have hverify (key : Secp256k1.PublicKey) (algorithm : Ecdsa.Algorithm) (msg : Bytes) :=
    Ecdsa.verify_encode_flip key algorithm msg sig
  refine ⟨hverify, ?_, ?_⟩
  · intro raw c hparse hsignature usage p
    refine Certificate.load_withSignature hparse ?_ ?_ usage p
    · exact Nat.le_trans sig.flip.length_encode_le (by decide)
    · intro key
      rw [hsignature, hverify]
  · intro s d
    exact update_provide_of_judge_eq (judge_congr s fun key algorithm => hverify key algorithm _)

def coinMetaSignature : Signature where
  r := 0x584ffb602c630bf38454c641e92e8ec643b01c6c682f4c5050929a43f5ad70c7
  s := 0xc98baaf5247cac54f8862aa32809fe0772525ad03b6dba9026994f22cdccb9e3
  r_pos := by decide
  r_lt := by decide
  s_pos := by decide
  s_lt := by decide

/-- The certificate for coin metadata is signed with the high form. With the low one, which is
shorter, it leads to the same key on every device that it leads to a key on. -/
theorem opposite_signatures_are_interchangeable_coinMeta :
    ¬ coinMetaSignature.IsLow ∧
      coinMetaSignature.flip.encode.length < coinMetaSignature.encode.length ∧
      ∃ c, Certificate.parse Certificate.coinMetaCertificate = .ok c ∧
        c.signature = coinMetaSignature.encode ∧ ∀ usage p,
          Certificate.load
            (c.signed ++ Tlv.encode Certificate.Tag.signature.code
              coinMetaSignature.flip.encode) usage p =
          Certificate.load Certificate.coinMetaCertificate usage p := by
  have hread : ((Certificate.parse Certificate.coinMetaCertificate).toOption.map
      Certificate.signature) = some coinMetaSignature.encode := by
    decide +kernel
  refine ⟨by decide, by decide +kernel, ?_⟩
  cases hc : Certificate.parse Certificate.coinMetaCertificate with
  | error r =>
    rw [hc] at hread
    cases hread
  | ok c =>
    rw [hc] at hread
    have hsignature : c.signature = coinMetaSignature.encode := Option.some.inj hread
    obtain ⟨-, hload, -⟩ := opposite_signatures_are_interchangeable coinMetaSignature
    exact ⟨c, rfl, hsignature, hload _ c hc hsignature⟩

end Session

variable {raw payload : Bytes} {c : Certificate} {p : Payload} {n : Nat}

/-- What is signed of a certificate begins with the kind of structure. -/
theorem Certificate.exists_signed_eq (h : parse raw = .ok c) :
    ∃ rest, c.signed = 0x01 :: 0x01 :: 0x01 :: rest := by
  obtain ⟨es, hes, -, hread⟩ := parse_eq_ok_iff.mp h
  rw [hread.signed_eq]
  match es, hes.first, hes.second with
  | first :: second :: rest, hfirst, _ =>
    cases Option.some.inj hfirst
    exact ⟨wire (second :: rest).dropLast, rfl⟩

/-- No descriptor begins as a certificate does: behind a count of one stands the ticker. -/
theorem Token.Descriptor.encode_append_ne (d : Descriptor) (x y : Bytes) :
    d.encode ++ x ≠ 0x01 :: 0x01 :: y := by
  intro h
  rw [encode_append] at h
  obtain ⟨hcount, hrest⟩ := List.cons.inj h
  have hlength : d.ticker.bytes.length = 1 := by
    rw [← d.toNat_tickerLength, hcount]
    rfl
  obtain ⟨b, hb⟩ := List.length_eq_one_iff.mp hlength
  rw [hb] at hrest
  have hprintable := d.ticker.printable b (by rw [hb]; exact List.mem_singleton_self b)
  rw [(List.cons.inj hrest).1] at hprintable
  exact absurd hprintable (by decide)

/-- What is signed of a certificate never goes on to be what a descriptor goes on to be. -/
theorem Certificate.signed_append_ne (h : parse raw = .ok c) (d : Descriptor) (x y : Bytes) :
    c.signed ++ x ≠ d.encode ++ y := by
  obtain ⟨rest, hsigned⟩ := exists_signed_eq h
  rw [hsigned]
  exact (d.encode_append_ne y _).symm

/-- No descriptor stands in front of anything that begins with what is signed of a certificate. -/
theorem Certificate.not_encode_prefix (h : parse raw = .ok c) (x : Bytes) (d : Descriptor) :
    ¬ d.encode <+: c.signed ++ x := by
  rintro ⟨y, hy⟩
  exact signed_append_ne h d x y hy.symm

theorem Certificate.exists_decode_error (h : parse raw = .ok c) (x : Bytes) :
    ∃ e, Payload.decode (c.signed ++ x) = .error e := by
  cases hdecode : Payload.decode (c.signed ++ x) with
  | error e => exact ⟨e, rfl⟩
  | ok read =>
    have hx := Payload.eq_encode_of_decode (p := read.1) (n := read.2) hdecode
    exact absurd hx (signed_append_ne h read.1.descriptor x read.1.signature)

theorem Certificate.exists_parse_error (d : Descriptor) (x : Bytes) :
    ∃ r, parse (d.encode ++ x) = .error r := by
  apply exists_error_of_parse_ne
  intro e he
  obtain ⟨-, hraw⟩ := eq_signed_append_of_parse he
  exact signed_append_ne he d _ x hraw.symm

structure Apart (x y : Bytes) : Prop where
  ne : x ≠ y
  not_prefix : ¬ x <+: y
  not_prefix' : ¬ y <+: x

theorem Certificate.apart (h : parse raw = .ok c) (d : Descriptor) : Apart c.signed d.encode where
  ne heq := signed_append_ne h d [] [] (by rw [heq])
  not_prefix := by
    rintro ⟨x, hx⟩
    refine signed_append_ne h d x [] ?_
    rw [hx, List.append_nil]
  not_prefix' := by
    have hnone := not_encode_prefix h [] d
    rwa [List.append_nil] at hnone

namespace Session

/-- Signed messages of the two kinds never collide. What is signed of a certificate and what is
signed of a payload, which is the wire form of its descriptor, differ, and neither begins the other.
So with a signature over the one, or whatever else, put behind it, it is no message of the other
kind, and is refused as such under every key; and no byte string is both a certificate and a
payload. -/
theorem signed_messages_never_collide (hc : Certificate.parse raw = .ok c)
    (hp : Payload.decode payload = .ok (p, n)) :
    payload.take (payload.length - p.signature.length) = p.descriptor.encode ∧
    Apart c.signed p.descriptor.encode ∧
    (∀ signature, (∃ e, Payload.decode (c.signed ++ signature) = .error e) ∧
      ∀ key, verifiedToken (some key) (c.signed ++ signature) = .error .malformedDescriptor) ∧
    (∀ signature, ∃ r, Certificate.parse (p.descriptor.encode ++ signature) = .error r ∧
      ∀ usage platform,
        Certificate.load (p.descriptor.encode ++ signature) usage platform = .error r) ∧
    (∃ e, Payload.decode raw = .error e) ∧
    ∃ r, Certificate.parse payload = .error r := by
  have hpayload := Payload.eq_encode_of_decode hp
  refine ⟨?_, Certificate.apart hc p.descriptor, ?_, ?_, ?_, ?_⟩
  · rw [hpayload, Payload.encode, List.length_append, Nat.add_sub_cancel, List.take_left]
  · intro signature
    refine ⟨Certificate.exists_decode_error hc signature, ?_⟩
    intro key
    exact verifiedToken_of_not_prefix (Certificate.not_encode_prefix hc signature)
  · intro signature
    obtain ⟨r, hr⟩ := Certificate.exists_parse_error p.descriptor signature
    exact ⟨r, hr, fun usage platform => Certificate.load_of_parse_error hr⟩
  · rw [(Certificate.eq_signed_append_of_parse hc).2]
    exact Certificate.exists_decode_error hc _
  · rw [hpayload]
    exact Certificate.exists_parse_error p.descriptor p.signature

/-- The certificate for coin metadata, and the payload of a token that is signed under it. -/
theorem signed_messages_never_collide_coinMeta :
    ∃ c, Certificate.parse Certificate.coinMetaCertificate = .ok c ∧
      Payload.decode (zrx.encode ++ zrxSignature) = .ok (⟨zrx, zrxSignature⟩, 102) ∧
      Apart c.signed zrx.encode ∧
      ∀ key, verifiedToken (some key) (c.signed ++ c.signature) = .error .malformedDescriptor := by
  have hread : (Certificate.parse Certificate.coinMetaCertificate).isOk = true := by
    decide +kernel
  have hpayload : Payload.decode (zrx.encode ++ zrxSignature) = .ok (⟨zrx, zrxSignature⟩, 102) :=
    Payload.decode_encode ⟨zrx, zrxSignature⟩
  obtain ⟨c, hc⟩ := exists_ok_of_isOk hread
  obtain ⟨-, hapart, hkeys, -⟩ := signed_messages_never_collide hc hpayload
  exact ⟨c, hc, hpayload, hapart, (hkeys c.signature).2⟩

end Session

end TokenProvision
