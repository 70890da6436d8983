import TokenProvision.Request

/-!
Command frames are self-delimiting: the frame of a command reads back as that command, whatever
follows it, and nothing but its frame reads as a command. A byte string is a command exactly if it
is the frame of one, and that is to be seen from its length and its length byte.

So frames need nothing between them: whoever reads one after the other gets back the commands that
were written, and no other bytes read as commands.
-/
namespace TokenProvision.Command

variable {c : Command} {bs raw : Bytes} {n : Nat}

/-- The frame of a command is written where there is room for it, if the payload is short enough. -/
theorem write_of_le {room : Nat} (h : c.data.length ≤ maxData) (hroom : c.encodedLength ≤ room) :
    c.write room = .ok c.encode := by
  rw [write, if_neg (Nat.not_lt.mpr h)]
  exact writeWithin_of_le c.encode hroom

theorem toNat_dataLength (h : c.data.length ≤ maxData) :
    (UInt8.ofNat c.data.length).toNat = c.data.length :=
  UInt8.toNat_ofNat_of_lt' (Nat.lt_succ_of_le h)

/-- A frame reads back as its command, whatever follows it. -/
theorem decode_encode_append (h : c.data.length ≤ maxData) (rest : Bytes) :
    decode (c.encode ++ rest) = .ok (c, c.encodedLength) := by
  have hlong : ¬ (c.data ++ rest).length < c.data.length := by simp
  change decode (c.cla :: c.ins :: c.p1 :: c.p2 :: UInt8.ofNat c.data.length :: (c.data ++ rest)) =
    _
  rw [decode, toNat_dataLength h, if_neg hlong, List.take_left]
  rfl

/-- What reads as a command is its frame, and the rest is left. -/
theorem eq_encode_append_of_decode (h : decode bs = .ok (c, n)) :
    c.data.length ≤ maxData ∧ n = c.encodedLength ∧ bs = c.encode ++ bs.drop n := by
  unfold decode at h
  split at h
  · rename_i cla ins p1 p2 lc rest
    split at h
    · cases h
    · rename_i hlong
      cases h
      have hdata : (rest.take lc.toNat).length = lc.toNat := by
        rw [List.length_take, Nat.min_eq_left (Nat.not_lt.mp hlong)]
      have hlc := lc.toNat_lt
      have hdrop : (cla :: ins :: p1 :: p2 :: lc :: rest).drop (headerLength + lc.toNat) =
          rest.drop lc.toNat := by
        rw [Nat.add_comm]
        rfl
      refine ⟨?_, ?_, ?_⟩
      · rw [hdata, maxData]
        omega
      · rw [encodedLength, hdata]
      · rw [hdrop, encode]
        dsimp only
        rw [hdata, UInt8.ofNat_toNat, List.append_assoc, List.take_append_drop]
        rfl
  · cases h

/-- Exactly the frame of a command is that command. -/
theorem parse_eq_ok_iff : parse raw = .ok c ↔ c.data.length ≤ maxData ∧ raw = c.encode := by
  constructor
  · intro h
    unfold parse at h
    split at h
    · cases h
    · rename_i c' n hdecode
      split at h
      · cases h
      · rename_i hall
        cases h
        obtain ⟨hdata, -, hraw⟩ := eq_encode_append_of_decode hdecode
        rw [Decidable.of_not_not hall, List.drop_length, List.append_nil] at hraw
        exact ⟨hdata, hraw⟩
  · rintro ⟨hdata, rfl⟩
    have hdecode := decode_encode_append hdata []
    rw [List.append_nil] at hdecode
    simp [parse, hdecode]

/-- Whether a byte string has a header, and behind it as many bytes as the header announces. -/
def IsFrame (raw : Bytes) : Prop :=
  headerLength ≤ raw.length ∧ raw.length = headerLength + (raw.getD 4 0).toNat

instance (raw : Bytes) : Decidable (IsFrame raw) := inferInstanceAs (Decidable (_ ∧ _))

/-- Exactly the byte strings of the announced length are commands. -/
theorem exists_parse_iff : (∃ c, parse raw = .ok c) ↔ IsFrame raw := by
  constructor
  · rintro ⟨c, h⟩
    obtain ⟨hdata, rfl⟩ := parse_eq_ok_iff.mp h
    have hgetD : c.encode.getD 4 0 = UInt8.ofNat c.data.length := rfl
    rw [IsFrame, length_encode, hgetD, toNat_dataLength hdata]
    exact ⟨Nat.le_add_right _ _, rfl⟩
  · rintro ⟨hheader, hlength⟩
    match raw, hheader with
    | cla :: ins :: p1 :: p2 :: lc :: rest, _ =>
      have hlc := lc.toNat_lt
      have hrest : rest.length = lc.toNat := by
        simp [headerLength] at hlength
        omega
      refine ⟨⟨cla, ins, p1, p2, rest⟩, parse_eq_ok_iff.mpr ⟨?_, ?_⟩⟩
      · simp [hrest, maxData]
        omega
      · simp [encode, hrest]

variable {cs : List Command}

/-- The frames of commands, one after the other. -/
def encodeAll (cs : List Command) : Bytes := cs.flatMap encode

/-- Whether the payload of every command is short enough for its length byte. -/
def Fit (cs : List Command) : Prop := ∀ c ∈ cs, c.data.length ≤ maxData

@[simp] theorem encodeAll_cons (c : Command) (cs : List Command) :
    encodeAll (c :: cs) = c.encode ++ encodeAll cs := rfl

theorem fit_cons : Fit (c :: cs) ↔ c.data.length ≤ maxData ∧ Fit cs := List.forall_mem_cons

theorem pos_of_decode (h : decode bs = .ok (c, n)) : 0 < n := by
  obtain ⟨-, rfl, -⟩ := eq_encode_append_of_decode h
  exact Nat.lt_of_lt_of_le (by decide : 0 < headerLength) (Nat.le_add_right _ _)

theorem le_length_of_decode (h : decode bs = .ok (c, n)) : n ≤ bs.length := by
  obtain ⟨-, rfl, hbs⟩ := eq_encode_append_of_decode h
  have hlength := congrArg List.length hbs
  rw [List.length_append, length_encode] at hlength
  omega

/-- Reads frames one after the other, up to the end of the bytes or the first that cannot be
read. -/
def decodeAll (bs : Bytes) : Except CodecError (List Command) :=
  if bs.isEmpty then .ok []
  else
    match _h : decode bs with
    | .error e => .error e
    | .ok (c, n) =>
      match decodeAll (bs.drop n) with
      | .error e => .error e
      | .ok cs => .ok (c :: cs)
termination_by bs.length
decreasing_by
  have := pos_of_decode _h
  have := le_length_of_decode _h
  rw [List.length_drop]
  omega

@[simp] theorem decodeAll_nil : decodeAll [] = .ok [] := by
  rw [decodeAll]
  rfl

/-- Behind a frame the frames are read in the same way. -/
theorem decodeAll_of_ok (h : decode bs = .ok (c, n)) :
    decodeAll bs = (decodeAll (bs.drop n)).map (c :: ·) := by
  have hne : bs.isEmpty = false := by
    cases bs with
    | nil => cases h
    | cons b bs => rfl
  rw [decodeAll, hne]
  simp only [Bool.false_eq_true, if_false]
  split
  · simp_all
  · rename_i c' n' hdecode
    rw [h, Except.ok.injEq, Prod.mk.injEq] at hdecode
    obtain ⟨rfl, rfl⟩ := hdecode
    cases decodeAll (bs.drop n) <;> rfl

theorem decodeAll_of_error {e : CodecError} (hne : bs ≠ []) (h : decode bs = .error e) :
    decodeAll bs = .error e := by
  rw [decodeAll, List.isEmpty_eq_false_iff.mpr hne]
  simp only [Bool.false_eq_true, if_false]
  split
  · simp_all
  · simp_all

/-- The frames of commands read back as the commands. -/
theorem decodeAll_encodeAll (h : Fit cs) : decodeAll (encodeAll cs) = .ok cs := by
  induction cs with
  | nil => exact decodeAll_nil
  | cons c cs ih =>
    obtain ⟨hc, hcs⟩ := fit_cons.mp h
    have hread : decode (encodeAll (c :: cs)) = .ok (c, c.encodedLength) :=
      decode_encode_append hc (encodeAll cs)
    have hdrop : (encodeAll (c :: cs)).drop c.encodedLength = encodeAll cs :=
      List.drop_left' (length_encode c)
    rw [decodeAll_of_ok hread, hdrop, ih hcs]
    rfl

/-- What reads as commands is their frames. -/
theorem eq_encodeAll_of_decodeAll (h : decodeAll bs = .ok cs) : Fit cs ∧ bs = encodeAll cs := by
  induction cs generalizing bs with
  | nil =>
    cases bs with
    | nil => exact ⟨by simp [Fit], rfl⟩
    | cons b bs =>
      cases hread : decode (b :: bs) with
      | error e =>
        rw [decodeAll_of_error (by simp) hread] at h
        cases h
      | ok r =>
        rw [decodeAll_of_ok hread] at h
        cases hrest : decodeAll ((b :: bs).drop r.2) <;> simp [hrest, Except.map] at h
  | cons c cs ih =>
    cases hread : decode bs with
    | error e =>
      have hne : bs ≠ [] := by
        rintro rfl
        simp at h
      rw [decodeAll_of_error hne hread] at h
      cases h
    | ok r =>
      obtain ⟨c', n⟩ := r
      rw [decodeAll_of_ok hread] at h
      cases hrest : decodeAll (bs.drop n) with
      | error e => simp [hrest, Except.map] at h
      | ok cs' =>
        rw [hrest] at h
        cases h
        obtain ⟨hdata, -, hbs⟩ := eq_encode_append_of_decode hread
        obtain ⟨hfit, hdrop⟩ := ih hrest
        exact ⟨fit_cons.mpr ⟨hdata, hfit⟩, by rw [encodeAll_cons, ← hdrop, ← hbs]⟩

/-- Exactly the frames of commands read as these commands. -/
theorem decodeAll_eq_ok_iff : decodeAll bs = .ok cs ↔ Fit cs ∧ bs = encodeAll cs := by
  constructor
  · exact eq_encodeAll_of_decodeAll
  · rintro ⟨hfit, rfl⟩
    exact decodeAll_encodeAll hfit

/-- A frame is a whole byte string exactly if nothing follows it. -/
theorem parse_encode_append (h : c.data.length ≤ maxData) (rest : Bytes) :
    parse (c.encode ++ rest) = if rest = [] then .ok c else .error .invalidLength := by
  unfold parse
  rw [decode_encode_append h]
  dsimp only
  by_cases hrest : rest = []
  · simp [hrest]
  · have hlength : c.encodedLength ≠ (c.encode ++ rest).length := by
      have := List.length_pos_iff.mpr hrest
      rw [List.length_append, length_encode]
      omega
    rw [if_pos hlength, if_neg hrest]

/-- What reads as a command is the frame that is written for it. -/
theorem write_of_decode (h : decode bs = .ok (c, n)) : c.write n = .ok (bs.take n) := by
  obtain ⟨hdata, rfl, hbs⟩ := eq_encode_append_of_decode h
  have htake : bs.take c.encodedLength = c.encode := by
    rw [hbs]
    exact List.take_left' (length_encode c)
  rw [htake]
  exact write_of_le hdata (Nat.le_refl _)

/-- Frames show their own end. A command with at most 255 bytes of payload is written wherever there
is room for its frame; the frame reads back as the command, whatever follows it, and is a whole byte
string only if nothing follows it. What reads as a command is the frame that is written for it. So
bytes read as commands, one after the other, exactly if they are the frames of these commands. A
command with a longer payload is not written, however much room there is. -/
theorem frames_show_their_own_end :
    (∀ c : Command, c.data.length ≤ 255 →
      (∀ room, 5 + c.data.length ≤ room → c.write room = .ok c.encode) ∧
      ∀ rest, decode (c.encode ++ rest) = .ok (c, 5 + c.data.length) ∧
        parse (c.encode ++ rest) = if rest = [] then .ok c else .error .invalidLength) ∧
    (∀ bs c n, decode bs = .ok (c, n) → n ≤ bs.length ∧ c.write n = .ok (bs.take n)) ∧
    (∀ bs cs, decodeAll bs = .ok cs ↔
      (∀ c ∈ cs, c.data.length ≤ 255) ∧ bs = cs.flatMap encode) ∧
    ∀ c : Command, 255 < c.data.length → ∀ room, c.write room = .error .invalidLength := by
  refine ⟨?_, ?_, ?_, ?_⟩
  · intro c hdata
    refine ⟨fun room hroom => write_of_le hdata hroom, fun rest => ?_⟩
    exact ⟨decode_encode_append hdata rest, parse_encode_append hdata rest⟩
  · intro bs c n hread
    exact ⟨le_length_of_decode hread, write_of_decode hread⟩
  · intro bs cs
    exact decodeAll_eq_ok_iff
  · intro c hlong room
    exact if_pos hlong

end TokenProvision.Command
