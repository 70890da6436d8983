import TokenProvision.Proofs.Bytes
import TokenProvision.Token.Signing

/-!
The wire form of token descriptors. A descriptor is read from its own wire form, whatever follows
it, and from nothing else; so it has one wire form, and none begins another. Making a descriptor
from text and reading one admit the same tickers.
-/
namespace TokenProvision

namespace Bytes

theorem ofPrintable?_toText {bs : Bytes} (h : ArePrintable bs) :
    ofPrintable? (toText bs) = some bs := by
  have hcode {b : UInt8} : (Char.ofNat b.toNat).toNat = b.toNat := by
    have hb := b.toNat_lt
    have hvalid : b.toNat.isValidChar := .inl (by omega)
    rw [Char.ofNat, dif_pos hvalid]
    rfl
  unfold ofPrintable? toText
  rw [String.toList_ofList]
  have hall : ((bs.map fun b => Char.ofNat b.toNat).all
      fun c => 0x20 ≤ c.toNat ∧ c.toNat ≤ 0x7e) = true := by
    rw [List.all_eq_true]
    intro c hc
    obtain ⟨b, hb, rfl⟩ := List.mem_map.mp hc
    rw [hcode]
    exact decide_eq_true (h b hb)
  rw [if_pos hall, List.map_map]
  congr 1
  conv_rhs => rw [← List.map_id bs]
  apply List.map_congr_left
  intro b hb
  simp [hcode]

/-- Only printable bytes are the code points of a text, and it is their text. -/
theorem ofPrintable?_eq_some_iff {s : String} {bs : Bytes} :
    ofPrintable? s = some bs ↔ ArePrintable bs ∧ toText bs = s := by
  constructor
  · intro h
    unfold ofPrintable? at h
    split at h
    · rename_i hall
      cases h
      have hrange : ∀ c ∈ s.toList, 0x20 ≤ c.toNat ∧ c.toNat ≤ 0x7e := by simpa using hall
      have hcode : ∀ c ∈ s.toList, (UInt8.ofNat c.toNat).toNat = c.toNat := by
        intro c hc
        have hc := hrange c hc
        exact UInt8.toNat_ofNat_of_lt' (by change c.toNat < 256; omega)
      constructor
      · intro b hb
        obtain ⟨c, hc, rfl⟩ := List.mem_map.mp hb
        rw [IsPrintable, UInt8.le_iff_toNat_le, UInt8.le_iff_toNat_le, hcode c hc]
        exact hrange c hc
      · have hchars : (s.toList.map fun c => UInt8.ofNat c.toNat).map
            (fun b => Char.ofNat b.toNat) = s.toList := by
          rw [List.map_map]
          conv_rhs => rw [← List.map_id s.toList]
          apply List.map_congr_left
          intro c hc
          simp only [Function.comp_apply, hcode c hc, Char.ofNat_toNat, id_eq]
        rw [toText, hchars, String.ofList_toList]
    · cases h
  · rintro ⟨h, rfl⟩
    exact ofPrintable?_toText h

/-- A text has code points in printable ASCII if all its characters are. -/
theorem exists_ofPrintable?_iff {s : String} :
    (∃ bs, ofPrintable? s = some bs) ↔ ∀ c ∈ s.toList, 0x20 ≤ c.toNat ∧ c.toNat ≤ 0x7e := by
  unfold ofPrintable?
  split
  · rename_i hall
    simpa using hall
  · rename_i hall
    simpa using hall

theorem ofUInt32_ofNat_toNat {bs : Bytes} (h : bs.length = 4) :
    ofUInt32 (UInt32.ofNat (toNat bs)) = bs :=
  (toUInt32?_eq_some_iff.mp (if_pos h)).symm

end Bytes

namespace Token.Descriptor

variable {bs : Bytes} {d d' : Descriptor} {n : Nat}
variable {ticker : String} {address : Address} {decimals : UInt8} {chainId : UInt32}

/-- Whether a text may be a ticker: it has at least one character, at most `maxTicker` of them, and
only such as printable ASCII has. -/
def IsTicker (s : String) : Prop :=
  s ≠ "" ∧ s.length ≤ maxTicker ∧ ∀ c ∈ s.toList, 0x20 ≤ c.toNat ∧ c.toNat ≤ 0x7e

/-- Every descriptor is made from the text of its ticker. -/
theorem new_text (d : Descriptor) :
    Descriptor.new d.ticker.text d.address d.decimals d.chainId = .ok d := by
  have hne : d.ticker.text.isEmpty = false := by
    have h := d.ticker.nonempty
    simp [Label.text, Bytes.toText, h]
  unfold Descriptor.new
  rw [hne, Label.text, Bytes.ofPrintable?_toText d.ticker.printable]
  simp

/-- A descriptor is made from the text of its ticker and from no other. -/
theorem new_eq_ok_iff :
    Descriptor.new ticker address decimals chainId = .ok d ↔
      d.ticker.text = ticker ∧ d.address = address ∧ d.decimals = decimals ∧
        d.chainId = chainId := by
  constructor
  · intro h
    unfold Descriptor.new at h
    split at h
    · cases h
    · split at h
      · cases h
      · rename_i bs hbs
        split at h
        · cases h
        · rename_i label hlabel
          cases h
          have htext : label.text = ticker := by
            rw [Label.text, Label.bytes_of_ofBytes? hlabel]
            exact (Bytes.ofPrintable?_eq_some_iff.mp hbs).2
          exact ⟨htext, rfl, rfl, rfl⟩
  · rintro ⟨rfl, rfl, rfl, rfl⟩
    exact new_text d

/-- The texts of labels that are short enough are the tickers. -/
theorem exists_text_iff : (∃ label : Label maxTicker, label.text = ticker) ↔ IsTicker ticker := by
  unfold IsTicker
  rw [← Bytes.exists_ofPrintable?_iff]
  constructor
  · rintro ⟨label, rfl⟩
    have hne := label.nonempty
    have hlength := label.length_le
    refine ⟨?_, ?_, label.bytes, Bytes.ofPrintable?_toText label.printable⟩
    · simpa [Label.text, Bytes.toText] using hne
    · simpa [Label.text, Bytes.toText] using hlength
  · rintro ⟨hne, hlength, bs, hbs⟩
    obtain ⟨hprintable, rfl⟩ := Bytes.ofPrintable?_eq_some_iff.mp hbs
    refine ⟨⟨bs, ?_, ?_, hprintable⟩, rfl⟩
    · simpa [Bytes.toText] using hne
    · simpa [Bytes.toText] using hlength

/-- Bytes that are long enough are a ticker of some length, an address, two numbers and a rest. -/
theorem eq_append_of_length_le {rest : Bytes} {k : Nat} (h : k + fixedLength ≤ rest.length) :
    rest = rest.take k ++ ((rest.drop k).take addressLength ++
      (Bytes.ofUInt32 (UInt32.ofNat (Bytes.toNat ((rest.drop (k + addressLength)).take 4))) ++
      (Bytes.ofUInt32
        (UInt32.ofNat (Bytes.toNat (((rest.drop (k + addressLength)).drop 4).take 4))) ++
      rest.drop (k + fixedLength)))) := by
  have hlong : k + 28 ≤ rest.length := h
  have hfirst : ((rest.drop (k + addressLength)).take 4).length = 4 := by
    simp [addressLength]
    omega
  have hsecond : (((rest.drop (k + addressLength)).drop 4).take 4).length = 4 := by
    simp [addressLength]
    omega
  have hend : rest.drop (k + fixedLength) = ((rest.drop (k + addressLength)).drop 4).drop 4 := by
    rw [List.drop_drop, List.drop_drop, fixedLength, Nat.add_assoc, Nat.add_assoc]
  have hnumbers : rest.drop (k + addressLength) = (rest.drop k).drop addressLength :=
    List.drop_drop.symm
  rw [Bytes.ofUInt32_ofNat_toNat hfirst, Bytes.ofUInt32_ofNat_toNat hsecond, hend,
    List.take_append_drop, List.take_append_drop, hnumbers, List.take_append_drop,
    List.take_append_drop]

/-- The parts of bytes that are a ticker, an address, two numbers and a rest. -/
theorem parts_of_append {t a x y : Bytes} (ha : a.length = addressLength) (hx : x.length = 4)
    (hy : y.length = 4) (rest : Bytes) :
    let body := t ++ (a ++ (x ++ (y ++ rest)))
    t.length + fixedLength ≤ body.length ∧ body.take t.length = t ∧
      (body.drop t.length).take addressLength = a ∧
      (body.drop (t.length + addressLength)).take 4 = x ∧
      ((body.drop (t.length + addressLength)).drop 4).take 4 = y := by
  intro body
  have hnumbers : body.drop (t.length + addressLength) = x ++ (y ++ rest) := by
    rw [← List.drop_drop, List.drop_left, List.drop_left' ha]
  refine ⟨?_, List.take_left, ?_, ?_, ?_⟩
  · simp [body, fixedLength, ha, hx, hy]
    omega
  · rw [List.drop_left, List.take_left' ha]
  · rw [hnumbers, List.take_left' hx]
  · rw [hnumbers, List.drop_left' hx, List.take_left' hy]

theorem toNat_tickerLength (d : Descriptor) :
    (UInt8.ofNat d.ticker.bytes.length).toNat = d.ticker.bytes.length :=
  UInt8.toNat_ofNat_of_lt' (Nat.lt_of_le_of_lt d.ticker.length_le (by decide))

theorem tickerLength_ne_zero (d : Descriptor) : UInt8.ofNat d.ticker.bytes.length ≠ 0 := by
  intro h
  have hzero := congrArg UInt8.toNat h
  rw [toNat_tickerLength] at hzero
  exact Nat.ne_of_gt d.ticker.length_pos hzero

/-- The wire form of a descriptor and what follows it, part by part. -/
theorem encode_append (d : Descriptor) (rest : Bytes) :
    d.encode ++ rest = UInt8.ofNat d.ticker.bytes.length ::
      (d.ticker.bytes ++ (d.address.bytes ++ (Bytes.ofUInt32 d.decimals.toUInt32 ++
        (Bytes.ofUInt32 d.chainId ++ rest)))) := by
  simp [encode]

/-- A descriptor reads back from its wire form, whatever follows it. -/
theorem decode_encode_append (d : Descriptor) (rest : Bytes) :
    decode (d.encode ++ rest) = .ok (d, d.encodedLength) := by
  have hmax : d.ticker.bytes.length ≤ maxTicker := d.ticker.length_le
  have hdecimals : ¬ 0xff < d.decimals.toNat := by
    have hlt := d.decimals.toNat_lt
    omega
  obtain ⟨hfull, hticker, haddress, hfirst, hsecond⟩ :=
    parts_of_append (t := d.ticker.bytes) d.address.length_eq
      (Bytes.length_ofUInt32 d.decimals.toUInt32) (Bytes.length_ofUInt32 d.chainId) rest
  have hwire := d.encode_append rest
  -- from here on only the parts of the body count
  generalize d.ticker.bytes ++ (d.address.bytes ++ (Bytes.ofUInt32 d.decimals.toUInt32 ++
    (Bytes.ofUInt32 d.chainId ++ rest))) = body at *
  rw [hwire, decode]
  simp only [d.toNat_tickerLength, d.tickerLength_ne_zero, Nat.not_lt.mpr hmax, or_self, if_false,
    Nat.not_lt.mpr hfull, dite_false, hticker, Label.ofBytes?_bytes, FixedBytes.take, haddress,
    hfirst, hsecond, Bytes.toNat_ofUInt32, UInt8.toNat_toUInt32, hdecimals, UInt8.ofNat_toNat,
    UInt32.ofNat_toNat]
  rfl

/-- What is read as a descriptor is its wire form, and the rest is left. -/
theorem eq_encode_of_decode {bs : Bytes} {d : Descriptor} {n : Nat} (h : decode bs = .ok (d, n)) :
    bs = d.encode ++ bs.drop n := by
  cases bs with
  | nil => cases h
  | cons len rest =>
    rw [decode] at h
    split at h
    · cases h
    · split at h
      · cases h
      · rename_i hlong
        dsimp only at h
        split at h
        · cases h
        · rename_i ticker hticker
          split at h
          · cases h
          · rename_i hdecimals
            cases h
            have hlong' : len.toNat + fixedLength ≤ rest.length := Nat.not_lt.mp hlong
            have hbytes : ticker.bytes = rest.take len.toNat := Label.bytes_of_ofBytes? hticker
            have hlen : UInt8.ofNat ticker.bytes.length = len := by
              rw [hbytes, List.length_take, Nat.min_eq_left (by omega), UInt8.ofNat_toNat]
            have hskip : 1 + len.toNat + fixedLength = (len.toNat + fixedLength) + 1 := by omega
            unfold encode
            dsimp only [FixedBytes.take]
            rw [hlen, hbytes, UInt8.toUInt32_ofNat' (Nat.lt_succ_of_le (Nat.not_lt.mp hdecimals)),
              hskip, List.drop_succ_cons]
            simp only [List.cons_append, List.append_assoc]
            exact congrArg (len :: ·) (eq_append_of_length_le hlong')

/-- A descriptor is read where its wire form stands in front, and nowhere else. -/
theorem decode_eq_ok_iff : decode bs = .ok (d, n) ↔ n = d.encodedLength ∧ d.encode <+: bs := by
  constructor
  · intro h
    have hbs := eq_encode_of_decode h
    rw [hbs, decode_encode_append] at h
    cases h
    exact ⟨rfl, _, hbs.symm⟩
  · rintro ⟨rfl, rest, rfl⟩
    exact decode_encode_append d rest

theorem eq_of_prefix_encode (h : d.encode <+: d'.encode) : d = d' := by
  obtain ⟨rest, hrest⟩ := h
  have hd := decode_encode_append d rest
  have hd' := decode_encode_append d' []
  rw [List.append_nil, ← hrest, hd] at hd'
  cases hd'
  rfl

end Token.Descriptor

/-- What is read as a payload is its wire form. -/
theorem Token.Payload.eq_encode_of_decode {bs : Bytes} {p : Payload} {n : Nat}
    (h : decode bs = .ok (p, n)) : bs = p.encode := by
  unfold decode at h
  split at h
  · cases h
  · rename_i d size hd
    cases h
    exact Descriptor.eq_encode_of_decode hd

/-- A payload reads back from its wire form. -/
theorem Token.Payload.decode_encode (p : Payload) :
    decode p.encode = .ok (p, p.encodedLength) := by
  have hd : Descriptor.decode p.encode = .ok (p.descriptor, p.descriptor.encodedLength) :=
    Descriptor.decode_encode_append p.descriptor p.signature
  have hsignature : p.encode.drop p.descriptor.encodedLength = p.signature := by
    rw [encode, List.drop_left' (Descriptor.length_encode p.descriptor)]
  unfold decode
  rw [hd]
  dsimp only
  rw [hsignature, length_encode]

/-- A payload is written as a whole, where there is room for it, or not at all. -/
theorem Token.Payload.write_eq (p : Payload) (room : Nat) :
    p.write room = writeWithin room p.encodedLength p.encode := by
  rw [write, Descriptor.write]
  by_cases hroom : room < p.descriptor.encodedLength
  · have hless : room < p.encodedLength := by
      rw [encodedLength]
      omega
    rw [writeWithin_of_lt _ hroom, writeWithin_of_lt _ hless]
  · rw [writeWithin_of_le _ (Nat.not_lt.mp hroom)]
    dsimp only
    rw [Descriptor.length_encode]
    rfl

/-- The longest payload whose signature has the size of an encoded one. -/
theorem Token.Payload.encodedLength_le {p : Payload} (h : p.signature.length ≤ 72) :
    p.encodedLength ≤ 112 := by
  have hticker := p.descriptor.ticker.length_le
  simp only [encodedLength, Descriptor.encodedLength, Descriptor.fixedLength, maxTicker,
    addressLength] at hticker ⊢
  omega

/-- The wire form of descriptors is canonical and shows its own end. A descriptor made from text has
the ticker, the address, the decimals and the chain that it is made from; it reads back from its
wire form, whatever follows, and as a payload what follows is the signature. What reads as a
descriptor is the wire form of one that can be made from its ticker. So no two descriptors share a
wire form, and none begins another; and the tickers with which a descriptor can be made and with
which one can be read are the same. -/
theorem Token.Descriptor.wire_form_is_canonical :
    (∀ ticker address decimals chainId d,
      Descriptor.new ticker address decimals chainId = .ok d →
        d.ticker.text = ticker ∧ d.address = address ∧ d.decimals = decimals ∧
        d.chainId = chainId ∧ d.write d.encodedLength = .ok d.encode ∧
        ∀ signature : Bytes,
          Descriptor.decode (d.encode ++ signature) = .ok (d, d.encodedLength) ∧
          Payload.decode (d.encode ++ signature) =
            .ok (⟨d, signature⟩, (d.encode ++ signature).length)) ∧
    (∀ bs d n, Descriptor.decode bs = .ok (d, n) →
      n ≤ bs.length ∧ d.encode = bs.take n ∧
      Descriptor.new d.ticker.text d.address d.decimals d.chainId = .ok d) ∧
    (∀ d d' : Descriptor, d ≠ d' →
      d.encode ≠ d'.encode ∧ ¬ d.encode <+: d'.encode ∧ ¬ d'.encode <+: d.encode) ∧
    ∀ ticker address decimals chainId,
      ((∃ d, Descriptor.new ticker address decimals chainId = .ok d) ↔ IsTicker ticker) ∧
      ((∃ bs d n, Descriptor.decode bs = .ok (d, n) ∧ d.ticker.text = ticker ∧
          d.address = address ∧ d.decimals = decimals ∧ d.chainId = chainId) ↔
        IsTicker ticker) := by
  refine ⟨?_, ?_, ?_, ?_⟩
  · intro ticker address decimals chainId d h
    obtain ⟨hticker, haddress, hdecimals, hchainId⟩ := new_eq_ok_iff.mp h
    have hwrite : d.write d.encodedLength = .ok d.encode := writeWithin_of_le _ (Nat.le_refl _)
    refine ⟨hticker, haddress, hdecimals, hchainId, hwrite, ?_⟩
    intro signature
    refine ⟨decode_encode_append d signature, ?_⟩
    have hpayload := Payload.decode_encode ⟨d, signature⟩
    rwa [← Payload.length_encode] at hpayload
  · intro bs d n h
    obtain ⟨rfl, hfront⟩ := decode_eq_ok_iff.mp h
    rw [← length_encode]
    exact ⟨hfront.length_le, List.prefix_iff_eq_take.mp hfront, new_text d⟩
  · intro d d' hne
    refine ⟨?_, fun h => hne (eq_of_prefix_encode h), fun h => hne (eq_of_prefix_encode h).symm⟩
    intro h
    exact hne (eq_of_prefix_encode (h ▸ List.prefix_rfl))
  · intro ticker address decimals chainId
    rw [← exists_text_iff]
    constructor
    · constructor
      · rintro ⟨d, h⟩
        exact ⟨d.ticker, (new_eq_ok_iff.mp h).1⟩
      · rintro ⟨label, rfl⟩
        exact ⟨_, new_text ⟨label, address, decimals, chainId⟩⟩
    · constructor
      · rintro ⟨bs, d, n, -, hticker, -⟩
        exact ⟨d.ticker, hticker⟩
      · rintro ⟨label, rfl⟩
        exact ⟨_, _, _, decode_encode_append ⟨label, address, decimals, chainId⟩ [],
          rfl, rfl, rfl, rfl⟩

end TokenProvision
