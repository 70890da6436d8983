import TokenProvision.Host.Transport
import TokenProvision.Proofs.Certificate.CoinMeta
import TokenProvision.Proofs.Session.Provenance

/-!
Provisioning from end to end. A host that frames a certificate for a key and then tokens signed with
that key gets them all accepted, however many there are, by any device that has the anchor of the
issuer and that the certificate is for; and the registry is then what insertions of the tokens, one
after the other, make of it.
-/
namespace TokenProvision.Session

open Certificate (coinMetaTrust Readable)
open Ecdsa (Attests)
open Host (Fixture.anchor Fixture.anchorKey Fixture.coinMetaDraft Fixture.coinMetaKey maxFrame)
open Secp256k1 (SecretKey PublicKey)
open Token (Descriptor Payload)

variable {s t : Session} {issuer key : SecretKey} {publicKey : PublicKey}

/-- The frame with which a host loads the certificate of an issuer for a key. -/
def loadFrame (issuer key : SecretKey) : Option Bytes :=
  ((Fixture.coinMetaDraft key).sign issuer).bind fun certificate =>
    ((Request.loadCertificate 0x08 certificate).command.write maxFrame).toOption

/-- The frame with which a host provides a token that it has signed. -/
def tokenFrame (key : SecretKey) (d : Descriptor) : Option Bytes :=
  (d.sign key .sha256).bind fun payload =>
    ((Request.provideToken payload).command.write maxFrame).toOption

theorem write_command_request (r : Request) (h : r.encodedLength ≤ 255) :
    (r.command.write maxFrame).toOption = some r.command.encode := by
  have hdata : r.command.data.length ≤ Command.maxData := by
    rw [r.length_data_command]
    exact h
  have hwrite : r.command.write maxFrame = .ok r.command.encode :=
    Command.write_of_le hdata (Nat.add_le_add_left hdata _)
  rw [hwrite]
  rfl

structure TrustsCoinMeta (s : Session) (publicKey : PublicKey) : Prop where
  phase : s.phase = .certificateLoaded
  trusted : s.trusted = some (coinMetaTrust publicKey)

/-- A payload that is signed with the trusted key is accepted. -/
theorem TrustsCoinMeta.judge_encode (h : s.TrustsCoinMeta publicKey) {p : Payload}
    (hverify : Ecdsa.verify publicKey .sha256 p.descriptor.encode p.signature = true) :
    s.judge p.encode = .ok p.descriptor := by
  have hsigned : p.encode.take (p.encode.length - p.signature.length) = p.descriptor.encode := by
    rw [Payload.encode, List.length_append, Nat.add_sub_cancel, List.take_left]
  have hgood : (coinMetaTrust publicKey).verify p.descriptor.encode p.signature = true := hverify
  simp only [judge, h.phase, verifiedToken, h.trusted, Payload.decode_encode, hsigned, hgood]
  rfl

/-- A frame that carries out an event with success, where there is room for the answer. -/
theorem step_request {r : Request} {room : Nat} {output : Output} {log : List Notice}
    (hshort : r.encodedLength ≤ 255) (hroom : r.event.responseLength + 2 ≤ room)
    (h : s.update r.event = ⟨.ok output, t, log⟩) :
    s.step (.exchange r.command.encode room) =
      ⟨.response .ok (output.encode ++ [0x90, 0x00]), t, log⟩ := by
  have heffect : (Step.exchange r.command.encode room).effect = .event r.event :=
    Step.effect_exchange_eq_event_iff.mpr ⟨Event.ofFrame_request r hshort, hroom⟩
  rw [step, exchange_of_event s heffect, h]
  rfl

/-- Whether a step gets a token registered by every session that trusts a key, with its slot for an
answer. -/
def Registers (publicKey : PublicKey) (st : Step) (d : Descriptor) : Prop :=
  ∀ s : Session, s.TrustsCoinMeta publicKey →
    (s.step st).answer = .response .ok [UInt8.ofNat (s.registry.insert d).2, 0x90, 0x00] ∧
    (s.step st).session = { s with registry := (s.registry.insert d).1 }

/-- The frame of a token that is signed with a key gets it registered by a session that trusts the
key. -/
theorem exists_tokenFrame {d : Descriptor} (h : Attests key .sha256 d.encode) :
    ∃ frame, tokenFrame key d = some frame ∧
      ∀ room, 3 ≤ room → Registers key.publicKey (.exchange frame room) d := by
  obtain ⟨signature, hsign, hlength, hverify⟩ := Ecdsa.exists_sign_of_attests h
  let p : Payload := ⟨d, signature⟩
  have hpayload : d.sign key .sha256 = some p :=
    Option.map_eq_some_iff.mpr ⟨signature, hsign, rfl⟩
  have hshort : (Request.provideToken p).encodedLength ≤ 255 :=
    Nat.le_trans (Payload.encodedLength_le (p := p) hlength) (by decide)
  refine ⟨(Request.provideToken p).command.encode, ?_, ?_⟩
  · rw [tokenFrame, Option.bind_eq_some_iff]
    exact ⟨p, hpayload, write_command_request _ hshort⟩
  · intro room hroom s hs
    have hjudge : s.judge p.encode = .ok d := hs.judge_encode (p := p) hverify
    rw [step_request hshort hroom (update_provide_of_ok hjudge)]
    exact ⟨rfl, rfl⟩

/-- The frame of the certificate for a key, by the issuer for which a device has the anchor, gets
the key trusted. -/
theorem exists_loadFrame (hissuer : Readable issuer) (hkey : Readable key)
    (hattests : ∀ signed, (Fixture.coinMetaDraft key).encode = some signed →
      Attests issuer .sha256 signed) :
    ∃ frame, loadFrame issuer key = some frame ∧
      ∀ (s : Session) (anchor : TrustAnchor) (room : Nat),
        s.platform.anchor? 2 = some anchor → anchor.publicKey = issuer.publicKey.compressed →
        s.platform.device = 3 → s.platform.minValidityIndex ≤ 2 → 2 ≤ room →
        (s.step (.exchange frame room)).answer = .response .ok [0x90, 0x00] ∧
        (s.step (.exchange frame room)).session =
          s.untrusting.trusting (coinMetaTrust key.publicKey) := by
  obtain ⟨certificate, hsign, hlength, hload⟩ :=
    Certificate.exists_coinMeta hissuer hkey hattests
  have hshort : (Request.loadCertificate 0x08 certificate).encodedLength ≤ 255 :=
    Nat.le_trans hlength (by decide)
  refine ⟨(Request.loadCertificate 0x08 certificate).command.encode, ?_, ?_⟩
  · rw [loadFrame, Option.bind_eq_some_iff]
    exact ⟨certificate, hsign, write_command_request _ hshort⟩
  · intro s anchor room hanchor hpublic hdevice hindex hroom
    have hloaded := hload s.platform anchor hanchor hpublic hdevice hindex
    rw [step_request hshort hroom (update_load_of_ok hloaded)]
    exact ⟨rfl, rfl⟩

structure Delivery where
  token : Descriptor
  room : Nat

/-- Tokens that are all registered leave a session that trusts the key with all of them inserted. -/
theorem after_registers {provide : Delivery → Step} {deliveries : List Delivery}
    (hs : s.TrustsCoinMeta publicKey)
    (h : ∀ x ∈ deliveries, Registers publicKey (provide x) x.token) :
    s.after (deliveries.map provide) =
      { s with registry := s.registry.after (deliveries.map fun x => .insert x.token) } := by
  induction deliveries generalizing s with
  | nil => rfl
  | cons x deliveries ih =>
    obtain ⟨hx, hrest⟩ := List.forall_mem_cons.mp h
    obtain ⟨-, hsession⟩ := hx s hs
    rw [List.map_cons, after_cons, hsession]
    exact ih ⟨hs.phase, hs.trusted⟩ hrest

/-- A session that trusts the key answers each delivery with the slot in which the token then is. -/
theorem exists_slot {provide : Delivery → Step} {before : List Delivery} {x : Delivery}
    (hs : Reachable s) (htrusts : s.TrustsCoinMeta publicKey)
    (hbefore : ∀ y ∈ before, Registers publicKey (provide y) y.token)
    (hx : Registers publicKey (provide x) x.token) :
    ∃ slot, slot < Registry.capacity ∧
      ((s.after (before.map provide)).step (provide x)).answer =
        .response .ok [UInt8.ofNat slot, 0x90, 0x00] ∧
      (s.after ((before ++ [x]).map provide)).registry.find? x.token.address x.token.chainId =
        some (slot, x.token) := by
  have hthen : (s.after (before.map provide)).TrustsCoinMeta publicKey := by
    rw [after_registers htrusts hbefore]
    exact ⟨htrusts.phase, htrusts.trusted⟩
  obtain ⟨hanswer, hsession⟩ := hx _ hthen
  have hreachable := hs.after (before.map provide)
  refine ⟨_, hreachable.bounded.slot_lt x.token, hanswer, ?_⟩
  rw [List.map_append, after_append, List.map_singleton, after_cons, after_nil, hsession]
  exact hreachable.wellFormed.find?_insert x.token

/-- What it means for a session to complete a provisioning: a load and then deliveries. -/
structure Completed (s : Session) (load : Step) (provide : Delivery → Step)
    (deliveries : List Delivery) : Prop where
  /-- The load is answered with success. -/
  loaded : (s.step load).answer = .response .ok [0x90, 0x00]
  /-- So is every delivery, with the slot in which the token then is. -/
  provided : ∀ before x later, deliveries = before ++ x :: later →
    ∃ slot, slot < Registry.capacity ∧
      ((s.after (load :: before.map provide)).step (provide x)).answer =
        .response .ok [UInt8.ofNat slot, 0x90, 0x00] ∧
      (s.after (load :: (before ++ [x]).map provide)).registry.find? x.token.address
        x.token.chainId = some (slot, x.token)
  /-- In the end every token has been inserted, one after the other. -/
  registry : (s.after (load :: deliveries.map provide)).registry =
    s.registry.after (deliveries.map fun x => .insert x.token)

/-- Provisioning is complete: the frames that a host makes of a certificate for a key and of tokens
signed with that key are all answered with success, and every token with the slot in which it then
is. -/
theorem provisioning_completes {anchor : TrustAnchor} {room : Nat} {deliveries : List Delivery}
    (hs : Reachable s) (hanchor : s.platform.anchor? 2 = some anchor)
    (hpublic : anchor.publicKey = issuer.publicKey.compressed) (hdevice : s.platform.device = 3)
    (hindex : s.platform.minValidityIndex ≤ 2) (hissuer : Readable issuer) (hkey : Readable key)
    (hcertifies : ∀ signed, (Fixture.coinMetaDraft key).encode = some signed →
      Attests issuer .sha256 signed)
    (hsigns : ∀ x ∈ deliveries, Attests key .sha256 x.token.encode) (hroom : 3 ≤ room)
    (hrooms : ∀ x ∈ deliveries, 3 ≤ x.room) :
    ∃ (load : Bytes) (frame : Descriptor → Bytes), loadFrame issuer key = some load ∧
      (∀ x ∈ deliveries, tokenFrame key x.token = some (frame x.token)) ∧
      Completed s (.exchange load room) (fun x => .exchange (frame x.token) x.room) deliveries := by
  obtain ⟨load, hload, hloads⟩ := exists_loadFrame hissuer hkey hcertifies
  obtain ⟨hloaded, hsession⟩ :=
    hloads s anchor room hanchor hpublic hdevice hindex (by omega)
  let frame (d : Descriptor) : Bytes := (tokenFrame key d).getD []
  let provide (x : Delivery) : Step := .exchange (frame x.token) x.room
  have hframe (x : Delivery) (hx : x ∈ deliveries) :
      tokenFrame key x.token = some (frame x.token) ∧
        Registers key.publicKey (provide x) x.token := by
    obtain ⟨f, hf, hregisters⟩ := exists_tokenFrame (hsigns x hx)
    have heq : frame x.token = f := by simp only [frame, hf, Option.getD_some]
    refine ⟨hf.trans (by rw [heq]), ?_⟩
    simp only [provide, heq]
    exact hregisters x.room (hrooms x hx)
  have htrusts : (s.step (.exchange load room)).session.TrustsCoinMeta key.publicKey := by
    rw [hsession]
    exact ⟨rfl, rfl⟩
  refine ⟨load, frame, hload, fun x hx => (hframe x hx).1, hloaded, ?_, ?_⟩
  · rintro before x later rfl
    exact exists_slot (hs.after [.exchange load room]) htrusts
      (fun y hy => (hframe y (List.mem_append_left _ hy)).2) (hframe x (by simp)).2
  · rw [after_cons, after_registers htrusts fun x hx => (hframe x hx).2, hsession]
    rfl

def anchoredDevice : Platform := .ofAnchors [Fixture.anchor] 3 (some 1700000000) 2

def zrxDeliveries : List Delivery := [⟨zrx, 3⟩, ⟨zrx, 257⟩]

/-- The fixed issuer and the fixed key provision a device. -/
theorem provisioning_completes_zrx :
    ∃ (load : Bytes) (frame : Descriptor → Bytes),
      loadFrame Fixture.anchorKey Fixture.coinMetaKey = some load ∧
      (∀ x ∈ zrxDeliveries, tokenFrame Fixture.coinMetaKey x.token = some (frame x.token)) ∧
      Completed (start anchoredDevice) (.exchange load 3)
        (fun x => .exchange (frame x.token) x.room) zrxDeliveries := by
  have hissuer : Readable Fixture.anchorKey := by
    unfold Readable
    decide +kernel
  have hkey : Readable Fixture.coinMetaKey := by
    unfold Readable
    decide +kernel
  have hcertifies : ((Fixture.coinMetaDraft Fixture.coinMetaKey).encode.all fun signed =>
      (Ecdsa.signDigest Fixture.anchorKey (Ecdsa.Algorithm.sha256.digest signed)).any
        (Ecdsa.verifyDigest Fixture.anchorKey.publicKey
          (Ecdsa.Algorithm.sha256.digest signed))) = true := by
    decide +kernel
  have hsigns : Attests Fixture.coinMetaKey .sha256 zrx.encode := by
    rw [Ecdsa.attests_iff_any]
    decide +kernel
  refine provisioning_completes (reachable_start anchoredDevice) rfl rfl rfl (Nat.le_refl 2)
    hissuer hkey ?_ ?_ (by decide) (by decide)
  · intro signed hsigned
    rw [hsigned, Option.all_some, ← Ecdsa.attests_iff_any] at hcertifies
    exact hcertifies
  · intro x hx
    have htoken : x.token = zrx := by
      simp only [zrxDeliveries, List.mem_cons, List.not_mem_nil, or_false] at hx
      rcases hx with rfl | rfl <;> rfl
    rw [htoken]
    exact hsigns

end TokenProvision.Session
