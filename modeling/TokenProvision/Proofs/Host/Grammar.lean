import TokenProvision.Host.Transcript
import TokenProvision.Proofs.Bytes
import TokenProvision.Proofs.Command
import TokenProvision.Proofs.Text.Blank
import TokenProvision.Proofs.Text.Digits

/-!
The grammar of transcripts. What a line says is told by its trimmed form: nothing if that is empty
or a remark, and otherwise a frame, with the status that is expected or without. A text is read as a
transcript exactly if each of its lines says something of that kind, and then shows the frames in
order with the numbers of their lines; and if not, the first line that is to blame is named.
-/
namespace TokenProvision.Host.Transcript

open Text (words rows lines trim FallsInto)
open Text.Hex (Spells digits)
open Text.Numeral (Denotes)

/-- What is to be learned from a line: nothing, or a frame with the status that it should get. -/
abbrev Reading := Option (Bytes × Option UInt16)

/-- What a line says, once it is trimmed: nothing if it is empty or starts with `#`, a frame if it
is a word that spells one, and a frame with its status if `expect` and a numeral follow. -/
inductive Says : List Char → Reading → Prop where
  | blank {line : List Char} (empty : trim line = []) : Says line none
  | remark {line : List Char} (sign : (trim line).head? = some '#') : Says line none
  | frame {line h : List Char} {frame : Bytes} (words : FallsInto (trim line) [h])
    (hex : Spells h frame) (isFrame : Command.IsFrame frame) : Says line (some (frame, none))
  | expecting {line h w : List Char} {frame : Bytes} {n : Nat}
    (words : FallsInto (trim line) [h, expectWord, w]) (hex : Spells h frame)
    (isFrame : Command.IsFrame frame) (status : Denotes 16 0xffff w n) :
    Says line (some (frame, some (UInt16.ofNat n)))

variable {line h w : List Char} {ls rest : List (List Char)} {frame : Bytes}
  {expected : Option UInt16} {reading : Reading} {readings : List Reading} {steps : List Step}
  {k n : Nat} {fault : Fault}

theorem readExpected_eq_ok_iff :
    readExpected rest = .ok expected ↔ (rest = [] ∧ expected = none) ∨
      ∃ w n, rest = [expectWord, w] ∧ Denotes 16 0xffff w n ∧
        expected = some (UInt16.ofNat n) := by
  have hread {w : List Char} {n : Nat} :
      Text.Numeral.read 16 0xffff w = .ok n ↔ Denotes 16 0xffff w n :=
    Text.Numeral.read_eq_ok_iff (by decide)
  constructor
  · intro h
    unfold readExpected at h
    split at h
    · cases h
      exact .inl ⟨rfl, rfl⟩
    · split at h
      · cases h
      · rename_i hword
        split at h
        · cases h
        · split at h
          · cases h
          · rename_i n hstatus
            split at h
            · cases h
              exact .inr ⟨_, n, by rw [not_not.mp hword], hread.mp hstatus, rfl⟩
            · cases h
  · rintro (⟨rfl, rfl⟩ | ⟨w, n, rfl, hstatus, rfl⟩)
    · rfl
    · simp only [readExpected, ne_eq, not_true_eq_false, if_false, hread.mpr hstatus]

/-- Words are read as a remark if the first of them has its sign, and otherwise as a frame that the
first of them spells, and what follows. -/
theorem readWords_cons_eq_ok_iff :
    readWords (h :: rest) = .ok reading ↔ (h.head? = some '#' ∧ reading = none) ∨
      ∃ frame expected, Spells h frame ∧ Command.IsFrame frame ∧
        readExpected rest = .ok expected ∧ reading = some (frame, expected) := by
  rw [readWords]
  constructor
  · intro hread
    split at hread
    · rename_i hsign
      cases hread
      exact .inl ⟨hsign, rfl⟩
    · split at hread
      · cases hread
      · rename_i frame hhex
        split at hread
        · cases hread
        · rename_i c hparse
          split at hread
          · cases hread
          · rename_i expected hrest
            cases hread
            exact .inr ⟨frame, expected, Text.Hex.decode_eq_ok_iff.mp hhex,
              Command.exists_parse_iff.mp ⟨c, hparse⟩, hrest, rfl⟩
  · rintro (⟨hsign, rfl⟩ | ⟨frame, expected, hhex, hframe, hrest, rfl⟩)
    · exact if_pos hsign
    · obtain ⟨c, hparse⟩ := Command.exists_parse_iff.mpr hframe
      have hsign : h.head? ≠ some '#' := fun hhead =>
        (hhex.isBlank_eq_false '#' (List.mem_of_mem_head? hhead)).2 rfl
      simp only [if_neg hsign, Text.Hex.decode_eq_ok_iff.mpr hhex, hparse, hrest]

/-- A line is read as what it says. -/
theorem readWords_eq_ok_iff : readWords (words line) = .ok reading ↔ Says line reading := by
  constructor
  · intro hread
    cases hwords : words line with
    | nil =>
      rw [hwords] at hread
      cases hread
      exact .blank (Text.trim_eq_nil_iff.mpr hwords)
    | cons h rest =>
      rw [hwords, readWords_cons_eq_ok_iff] at hread
      rcases hread with ⟨hsign, rfl⟩ | ⟨frame, expected, hhex, hframe, hrest, rfl⟩
      · refine .remark ?_
        rw [Text.head?_trim, hwords]
        exact hsign
      · have hfalls := Text.words_eq_iff.mp ((Text.words_trim line).trans hwords)
        rcases readExpected_eq_ok_iff.mp hrest with ⟨rfl, rfl⟩ | ⟨w, n, rfl, hstatus, rfl⟩
        · exact .frame hfalls hhex hframe
        · exact .expecting hfalls hhex hframe hstatus
  · intro hsays
    cases hsays with
    | blank empty =>
      rw [Text.trim_eq_nil_iff.mp empty]
      rfl
    | remark sign =>
      rw [Text.head?_trim] at sign
      obtain ⟨h, hhead, hsign⟩ := Option.bind_eq_some_iff.mp sign
      obtain ⟨rest, hwords⟩ := List.head?_eq_some_iff.mp hhead
      rw [hwords]
      exact readWords_cons_eq_ok_iff.mpr (.inl ⟨hsign, rfl⟩)
    | frame falls hex isFrame =>
      rw [← Text.words_trim, falls.words_eq]
      exact readWords_cons_eq_ok_iff.mpr (.inr ⟨_, _, hex, isFrame, rfl, rfl⟩)
    | expecting falls hex isFrame status =>
      rw [← Text.words_trim, falls.words_eq]
      have hrest := readExpected_eq_ok_iff.mpr (.inr ⟨_, _, rfl, status, rfl⟩)
      exact readWords_cons_eq_ok_iff.mpr (.inr ⟨_, _, hex, isFrame, hrest, rfl⟩)

/-- The steps of lines, the first of which has number `k`: one for each line that says a frame. -/
def numbered (k : Nat) (readings : List Reading) : List Step :=
  (readings.zipIdx k).filterMap fun r => r.1.map fun said => ⟨r.2, said.1, said.2⟩

theorem numbered_cons (k : Nat) (reading : Reading) (readings : List Reading) :
    numbered k (reading :: readings) =
      (reading.map fun said => ⟨k, said.1, said.2⟩).toList ++ numbered (k + 1) readings := by
  cases reading <;> rfl

theorem map_numbered (k : Nat) (readings : List Reading) :
    (numbered k readings).map (fun step => (step.frame, step.expected)) =
      readings.filterMap id := by
  induction readings generalizing k with
  | nil => rfl
  | cons reading readings ih =>
    rw [numbered_cons, List.map_append, ih]
    cases reading <;> rfl

/-- Lines are read exactly if each of them says something, and then as what they say. -/
theorem readLines_eq_ok_iff :
    readLines k ls = .ok steps ↔
      ∃ readings, List.Forall₂ Says ls readings ∧ steps = numbered k readings := by
  induction ls generalizing k steps with
  | nil =>
    constructor
    · rintro ⟨⟩
      exact ⟨[], .nil, rfl⟩
    · rintro ⟨_, ⟨⟩, rfl⟩
      rfl
  | cons line rest ih =>
    constructor
    · intro h
      unfold readLines at h
      split at h
      · cases h
      · rename_i reading hline
        split at h
        · cases h
        · rename_i more hrest
          obtain ⟨readings, hreadings, rfl⟩ := ih.mp hrest
          refine ⟨reading :: readings, .cons (readWords_eq_ok_iff.mp hline) hreadings, ?_⟩
          rw [numbered_cons]
          cases reading <;> cases h <;> rfl
    · rintro ⟨_, hreadings, rfl⟩
      cases hreadings with
      | @cons _ reading _ readings hline hrest =>
        rw [readLines, readWords_eq_ok_iff.mpr hline, numbered_cons]
        simp only [ih.mpr ⟨readings, hrest, rfl⟩]
        cases reading <;> rfl

theorem exists_readings_iff :
    (∃ readings, List.Forall₂ Says ls readings) ↔ ∀ line ∈ ls, ∃ reading, Says line reading := by
  induction ls with
  | nil => exact iff_of_true ⟨[], .nil⟩ (List.forall_mem_nil _)
  | cons line ls ih =>
    rw [List.forall_mem_cons, ← ih]
    constructor
    · rintro ⟨_, hsays⟩
      cases hsays with
      | cons hline hrest => exact ⟨⟨_, hline⟩, _, hrest⟩
    · rintro ⟨⟨reading, hline⟩, readings, hrest⟩
      exact ⟨reading :: readings, .cons hline hrest⟩

/-- A line says one thing at most. -/
theorem Says.unique {reading' : Reading} (h : Says line reading) (h' : Says line reading') :
    reading = reading' :=
  Except.ok.inj ((readWords_eq_ok_iff.mpr h).symm.trans (readWords_eq_ok_iff.mpr h'))

/-- Which line of some lines is the first that says nothing that can be read; the lines are counted
from `k`. -/
def FirstFault (k : Nat) (ls : List (List Char)) (n : Nat) : Prop :=
  ∃ before line after, ls = before ++ line :: after ∧ n = k + before.length ∧
    (∀ reading, ¬ Says line reading) ∧ ∀ l ∈ before, ∃ reading, Says l reading

theorem FirstFault.cons (hline : Says line reading) (h : FirstFault (k + 1) ls n) :
    FirstFault k (line :: ls) n := by
  obtain ⟨before, wrong, after, rfl, rfl, hwrong, hbefore⟩ := h
  refine ⟨line :: before, wrong, after, rfl, ?_, hwrong,
    List.forall_mem_cons.mpr ⟨⟨reading, hline⟩, hbefore⟩⟩
  rw [List.length_cons]
  omega

/-- A fault comes with the number of the first line that has one. -/
theorem firstFault_of_readLines (h : readLines k ls = .error (n, fault)) : FirstFault k ls n := by
  induction ls generalizing k with
  | nil => cases h
  | cons line ls ih =>
    unfold readLines at h
    split at h
    · rename_i f hline
      cases h
      refine ⟨[], line, ls, rfl, rfl, ?_, List.forall_mem_nil _⟩
      intro reading hsays
      rw [readWords_eq_ok_iff.mpr hsays] at hline
      cases hline
    · rename_i reading hline
      split at h
      · rename_i f hrest
        cases h
        exact (ih hrest).cons (readWords_eq_ok_iff.mp hline)
      · split at h <;> cases h

/-- Lines of which the words are the same are read as the same. -/
theorem readLines_congr {ls' : List (List Char)} (h : ls.map words = ls'.map words) :
    readLines k ls = readLines k ls' := by
  induction ls generalizing k ls' with
  | nil =>
    rw [List.map_nil, eq_comm, List.map_eq_nil_iff] at h
    rw [h]
  | cons line ls ih =>
    cases ls' with
    | nil => cases h
    | cons line' ls' =>
      obtain ⟨hline, hrest⟩ := List.cons.inj h
      rw [readLines, readLines, hline, ih hrest]

/-- A text is read line by line; it makes no difference how its lines are ended. -/
theorem parse_eq_readLines (text : String) : parse text = readLines 1 (rows text.toList) :=
  readLines_congr (Text.map_words_rows text.toList).symm

theorem exists_message_eq (n : Nat) (fault : Fault) :
    ∃ detail, fault.message n = "line " ++ toString n ++ ": " ++ detail :=
  ⟨_, rfl⟩

inductive Entry where
  | idle (line : List Char) (single : '\n' ∉ line)
    (empty : trim line = [] ∨ (trim line).head? = some '#')
  | step (frame : Bytes) (expected : Option UInt16) (isFrame : Command.IsFrame frame)

namespace Entry

/-- The line of an entry: a frame and a status are written in hexadecimal. -/
def toLine : Entry → List Char
  | idle line _ _ => line
  | step frame none _ => digits frame
  | step frame (some status) _ =>
    digits frame ++ ' ' :: (expectWord ++ ' ' :: digits (Bytes.ofUInt16 status))

def toReading : Entry → Reading
  | idle _ _ _ => none
  | step frame expected _ => some (frame, expected)

end Entry

def render (entries : List Entry) : String :=
  String.ofList (entries.flatMap fun e => e.toLine ++ ['\n'])

theorem ne_nil_of_isFrame (h : Command.IsFrame frame) : frame ≠ [] := by
  rintro rfl
  exact absurd h (by decide)

theorem isWord_digits {bs : Bytes} (hne : bs ≠ []) : Text.IsWord (digits bs) := by
  obtain ⟨b, rest, rfl⟩ := List.exists_cons_of_ne_nil hne
  exact ⟨List.cons_ne_nil _ _, fun c hc =>
    ((Text.Hex.spells_digits (b :: rest)).isBlank_eq_false c hc).1⟩

theorem isWord_expectWord : Text.IsWord expectWord := by
  have hall : expectWord.all (fun c => !Text.isBlank c) = true := by decide
  refine ⟨List.cons_ne_nil _ _, fun c hc => ?_⟩
  simpa using List.all_eq_true.mp hall c hc

theorem lineFeed_notMem_of_isWord (hw : Text.IsWord w) : '\n' ∉ w := by
  intro hmem
  have hblank : Text.isBlank '\n' = true := by decide
  rw [hw.2 _ hmem] at hblank
  cases hblank

theorem words_expecting (hne : frame ≠ []) (status : UInt16) :
    words (digits frame ++ ' ' :: (expectWord ++ ' ' :: digits (Bytes.ofUInt16 status))) =
      [digits frame, expectWord, digits (Bytes.ofUInt16 status)] := by
  have hstatus : Bytes.ofUInt16 status ≠ [] := List.cons_ne_nil _ _
  have hspace : ∀ {cs : List Char}, ∀ c ∈ (' ' :: cs).head?, Text.isBlank c = true := by
    rintro cs _ ⟨⟩
    decide
  rw [Text.words_word_append (isWord_digits hne) hspace, Text.words_cons_of_blank (by decide),
    Text.words_word_append isWord_expectWord hspace, Text.words_cons_of_blank (by decide),
    Text.words_word (isWord_digits hstatus)]

namespace Entry

theorem says_toLine (e : Entry) : Says e.toLine e.toReading := by
  cases e with
  | idle line single empty => exact empty.elim .blank .remark
  | step frame expected isFrame =>
    have hne := ne_nil_of_isFrame isFrame
    have hspells := Text.Hex.spells_digits frame
    cases expected with
    | none =>
      have hwords := Text.words_word (isWord_digits hne)
      exact .frame (Text.words_eq_iff.mp ((Text.words_trim _).trans hwords)) hspells isFrame
    | some status =>
      have hfalls := Text.words_eq_iff.mp ((Text.words_trim _).trans (words_expecting hne status))
      have hlimit : Bytes.toNat (Bytes.ofUInt16 status) ≤ 0xffff := by
        have := status.toNat_lt
        rw [Bytes.toNat_ofUInt16]
        omega
      have hsays := Says.expecting hfalls hspells isFrame
        (Text.Hex.denotes_digits (List.cons_ne_nil _ _) hlimit)
      rwa [Bytes.toNat_ofUInt16, UInt16.ofNat_toNat] at hsays

theorem lineFeed_notMem_toLine (e : Entry) : '\n' ∉ e.toLine := by
  cases e with
  | idle line single empty => exact single
  | step frame expected isFrame =>
    have hframe := lineFeed_notMem_of_isWord (isWord_digits (ne_nil_of_isFrame isFrame))
    cases expected with
    | none => exact hframe
    | some status =>
      have hstatus : Bytes.ofUInt16 status ≠ [] := List.cons_ne_nil _ _
      have hdigits := lineFeed_notMem_of_isWord (isWord_digits hstatus)
      have hexpect := lineFeed_notMem_of_isWord isWord_expectWord
      simp [toLine, hframe, hdigits, hexpect]

end Entry

/-- The text of entries is read as what they say. -/
theorem parse_render (entries : List Entry) :
    parse (render entries) = .ok (numbered 1 (entries.map Entry.toReading)) := by
  have hlines : lines ((entries.map Entry.toLine).flatMap fun l => l ++ ['\n']) =
      entries.map Entry.toLine :=
    Text.lines_flatMap (List.forall_mem_map.mpr fun e _ => e.lineFeed_notMem_toLine)
  rw [List.flatMap_map] at hlines
  rw [parse, render, String.toList_ofList, hlines]
  refine readLines_eq_ok_iff.mpr ⟨_, ?_, rfl⟩
  rw [List.forall₂_map_left_iff, List.forall₂_map_right_iff, List.forall₂_same]
  exact fun e _ => e.says_toLine

/-- Transcripts are read by their grammar, and nothing else is read as one. A text is read exactly
if each of its lines says something; its steps are then the frames that are said, in order, each
with the number of its line. Otherwise the first line that says nothing is named, in the message
too. A line says one thing at most. And frames that are written one on a line, among blank lines and
remarks, are read as they were. -/
theorem transcripts_are_read_by_their_grammar :
    (∀ text, ((∃ steps, parse text = .ok steps) ↔
        ∀ line ∈ rows text.toList, ∃ reading, Says line reading) ∧
      (∀ steps, parse text = .ok steps ↔ ∃ readings,
        List.Forall₂ Says (rows text.toList) readings ∧ steps = numbered 1 readings) ∧
      ∀ n fault, parse text = .error (n, fault) → FirstFault 1 (rows text.toList) n ∧
        ∃ detail, fault.message n = "line " ++ toString n ++ ": " ++ detail) ∧
    (∀ line reading reading', Says line reading → Says line reading' → reading = reading') ∧
    ∀ entries, ∃ steps, parse (render entries) = .ok steps ∧
      steps = numbered 1 (entries.map Entry.toReading) ∧
      steps.map (fun step => (step.frame, step.expected)) =
        entries.filterMap Entry.toReading := by
  refine ⟨fun text => ?_, fun line _ _ => Says.unique, fun entries => ?_⟩
  · rw [parse_eq_readLines]
    refine ⟨?_, fun steps => readLines_eq_ok_iff, fun n fault hfault =>
      ⟨firstFault_of_readLines hfault, exists_message_eq n fault⟩⟩
    rw [← exists_readings_iff]
    constructor
    · rintro ⟨steps, hsteps⟩
      obtain ⟨readings, hreadings, -⟩ := readLines_eq_ok_iff.mp hsteps
      exact ⟨readings, hreadings⟩
    · rintro ⟨readings, hreadings⟩
      exact ⟨_, readLines_eq_ok_iff.mpr ⟨readings, hreadings, rfl⟩⟩
  · refine ⟨_, parse_render entries, rfl, ?_⟩
    rw [map_numbered, List.filterMap_map]
    rfl

example : parse "e00a000000\r\n# two bytes\n\t\nb006080002aaBB expect +6A80 " =
    .ok [⟨1, [0xe0, 0x0a, 0x00, 0x00, 0x00], none⟩,
      ⟨4, [0xb0, 0x06, 0x08, 0x00, 0x02, 0xaa, 0xbb], some 0x6a80⟩] := by decide +kernel

example : parse "\ne00a000000 want 9000\nnone" =
    .error (2, .unexpectedWord ['w', 'a', 'n', 't']) := by decide +kernel

end TokenProvision.Host.Transcript
