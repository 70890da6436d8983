import Mathlib.Data.List.DropRight
import Mathlib.Data.List.Forall2
import TokenProvision.Text

/-!
What blanks mean in a text. The words of a line are found whatever blanks stand before, between and
behind them, so a line has the same words after it is trimmed; and it makes no difference to them
whether a line ends with a line feed alone or with a carriage return before it.
-/
namespace TokenProvision.Text

variable {c : Char} {cs l gap rest w : List Char} {ls ws : List (List Char)}

def AreBlank (cs : List Char) : Prop := ∀ c ∈ cs, isBlank c = true

/-- Whether some characters are a word: at least one, and none of them blank. -/
def IsWord (w : List Char) : Prop := w ≠ [] ∧ ∀ c ∈ w, isBlank c = false

/-- How a text falls into words: blanks may stand before, between and behind the words, and some
stand between any two of them. -/
inductive FallsInto : List Char → List (List Char) → Prop where
  | nil {gap : List Char} (blank : AreBlank gap) : FallsInto gap []
  | cons {gap w rest : List Char} {ws : List (List Char)} (blank : AreBlank gap) (word : IsWord w)
    (apart : ∀ c ∈ rest.head?, isBlank c = true) (tail : FallsInto rest ws) :
    FallsInto (gap ++ (w ++ rest)) (w :: ws)

theorem AreBlank.append (h : AreBlank cs) (hgap : AreBlank gap) : AreBlank (cs ++ gap) :=
  List.forall_mem_append.mpr ⟨h, hgap⟩

theorem words_cons_of_blank (hc : isBlank c = true) (cs : List Char) :
    words (c :: cs) = words cs := by
  conv_lhs => unfold words
  rw [if_pos hc]

/-- A character with a blank or nothing behind it is a word. -/
theorem words_cons_of_apart (hc : isBlank c = false)
    (hcs : ∀ d ∈ cs.head?, isBlank d = true) : words (c :: cs) = [c] :: words cs := by
  conv_lhs => unfold words
  rw [if_neg (by simp [hc])]
  cases cs with
  | nil => rfl
  | cons d cs =>
    have hd : isBlank d = true := hcs d rfl
    cases words (d :: cs) with
    | nil => rfl
    | cons w ws => simp only [hd, if_true]

/-- A character goes on with the word behind it. -/
theorem words_cons_of_word {d : Char} (hc : isBlank c = false) (hd : isBlank d = false)
    (h : words (d :: cs) = w :: ws) : words (c :: d :: cs) = (c :: w) :: ws := by
  conv_lhs => unfold words
  rw [if_neg (by simp [hc]), h]
  simp only [hd, Bool.false_eq_true, if_false]

theorem words_blank_append (hgap : AreBlank gap) (cs : List Char) :
    words (gap ++ cs) = words cs := by
  induction gap with
  | nil => rfl
  | cons c gap ih =>
    obtain ⟨hc, hgap⟩ := List.forall_mem_cons.mp hgap
    rw [List.cons_append, words_cons_of_blank hc, ih hgap]

/-- A word in front of a text is the first of its words, if the rest does not go on with it. -/
theorem words_word_append (hw : IsWord w) (hrest : ∀ c ∈ rest.head?, isBlank c = true) :
    words (w ++ rest) = w :: words rest := by
  obtain ⟨hne, hw⟩ := hw
  induction w with
  | nil => exact absurd rfl hne
  | cons c w ih =>
    obtain ⟨hc, hw⟩ := List.forall_mem_cons.mp hw
    cases w with
    | nil => exact words_cons_of_apart hc hrest
    | cons d w =>
      have hd := (List.forall_mem_cons.mp hw).1
      exact words_cons_of_word hc hd (ih (List.cons_ne_nil d w) hw)

theorem words_word (hw : IsWord w) : words w = [w] := by
  have hwords : words (w ++ []) = w :: words [] := words_word_append hw (by simp)
  rwa [List.append_nil] at hwords

/-- A text falls into nothing but its words. -/
theorem FallsInto.words_eq (h : FallsInto cs ws) : words cs = ws := by
  induction h with
  | nil blank =>
    have hwords := words_blank_append blank []
    rwa [List.append_nil] at hwords
  | cons blank word apart tail ih => rw [words_blank_append blank, words_word_append word apart, ih]

theorem FallsInto.blank_cons (hc : isBlank c = true) (h : FallsInto cs ws) :
    FallsInto (c :: cs) ws := by
  cases h with
  | nil blank => exact .nil (List.forall_mem_cons.mpr ⟨hc, blank⟩)
  | cons blank word apart tail =>
    rw [← List.cons_append]
    exact .cons (List.forall_mem_cons.mpr ⟨hc, blank⟩) word apart tail

/-- Every text falls into words. -/
theorem exists_fallsInto (cs : List Char) : ∃ ws, FallsInto cs ws := by
  induction cs with
  | nil => exact ⟨[], .nil (List.forall_mem_nil _)⟩
  | cons c cs ih =>
    obtain ⟨ws, h⟩ := ih
    by_cases hc : isBlank c = true
    · exact ⟨ws, h.blank_cons hc⟩
    · have hc : isBlank c = false := Bool.eq_false_iff.mpr hc
      have hword : IsWord [c] := ⟨List.cons_ne_nil c [], List.forall_mem_singleton.mpr hc⟩
      have hnone : AreBlank [] := List.forall_mem_nil _
      cases h with
      | nil blank =>
        have hapart : ∀ d ∈ cs.head?, isBlank d = true :=
          fun d hd => blank d (List.mem_of_mem_head? hd)
        exact ⟨_, .cons hnone hword hapart (.nil blank)⟩
      | @cons gap w rest ws blank word apart tail =>
        cases gap with
        -- the character goes on with the first word, or is a word of its own
        | nil =>
          have hlonger : IsWord (c :: w) :=
            ⟨List.cons_ne_nil c w, List.forall_mem_cons.mpr ⟨hc, word.2⟩⟩
          exact ⟨_, .cons hnone hlonger apart tail⟩
        | cons d gap =>
          refine ⟨_, .cons hnone hword ?_ (.cons blank word apart tail)⟩
          rintro _ ⟨⟩
          exact blank d List.mem_cons_self

/-- The words of a text are those into which it falls. -/
theorem words_eq_iff : words cs = ws ↔ FallsInto cs ws := by
  constructor
  · rintro rfl
    obtain ⟨ws, h⟩ := exists_fallsInto cs
    rwa [h.words_eq]
  · exact FallsInto.words_eq

theorem FallsInto.append_blank (h : FallsInto cs ws) (hgap : AreBlank gap) :
    FallsInto (cs ++ gap) ws := by
  induction h with
  | nil blank => exact .nil (blank.append hgap)
  | @cons gap' w rest ws blank word apart tail ih =>
    rw [List.append_assoc, List.append_assoc]
    refine .cons blank word ?_ ih
    cases rest with
    | nil => exact fun c hc => hgap c (List.mem_of_mem_head? hc)
    | cons c rest => exact apart

/-- Blanks behind a text are part of no word. -/
theorem words_append_blank (cs : List Char) (hgap : AreBlank gap) :
    words (cs ++ gap) = words cs :=
  ((words_eq_iff.mp rfl).append_blank hgap).words_eq

/-- A text without the blanks at both its ends. -/
def trim (cs : List Char) : List Char := (cs.dropWhile isBlank).rdropWhile isBlank

/-- Trimming takes blanks away at both ends, and nothing else. -/
theorem exists_eq_trim (cs : List Char) :
    ∃ gap gap', AreBlank gap ∧ AreBlank gap' ∧ cs = gap ++ (trim cs ++ gap') := by
  refine ⟨cs.takeWhile isBlank, (cs.dropWhile isBlank).rtakeWhile isBlank,
    fun _ => List.mem_takeWhile_imp, fun _ => List.mem_rtakeWhile_imp, ?_⟩
  rw [trim, List.rdropWhile_append_rtakeWhile, List.takeWhile_append_dropWhile]

/-- A text has the same words after it is trimmed. -/
@[simp] theorem words_trim (cs : List Char) : words (trim cs) = words cs := by
  obtain ⟨gap, gap', hgap, hgap', hcs⟩ := exists_eq_trim cs
  conv_rhs => rw [hcs]
  rw [words_blank_append hgap, words_append_blank _ hgap']

/-- A trimmed text does not begin with a blank. -/
theorem isBlank_of_mem_head?_trim (hc : c ∈ (trim cs).head?) : isBlank c = false := by
  have hhead := List.head?_dropWhile_not isBlank cs
  obtain ⟨rest, hrest⟩ := List.rdropWhile_prefix isBlank (cs.dropWhile isBlank)
  cases ht : trim cs with
  | nil =>
    rw [ht] at hc
    cases hc
  | cons d t =>
    rw [ht] at hc
    cases hc
    rw [trim] at ht
    rw [← hrest, ht, List.cons_append] at hhead
    simpa using hhead

/-- A trimmed text begins as its first word does. -/
theorem head?_trim (cs : List Char) : (trim cs).head? = (words cs).head?.bind List.head? := by
  have hhead : ∀ c ∈ (trim cs).head?, isBlank c = false := fun _ => isBlank_of_mem_head?_trim
  rw [← words_trim]
  generalize trim cs = text at hhead ⊢
  obtain ⟨ws, h⟩ := exists_fallsInto text
  rw [h.words_eq]
  cases h with
  | nil blank =>
    cases text with
    | nil => rfl
    | cons c text =>
      have hc : isBlank c = true := blank c List.mem_cons_self
      rw [hhead c rfl] at hc
      cases hc
  | @cons gap w rest ws blank word apart tail =>
    cases gap with
    | nil =>
      obtain ⟨c, w, rfl⟩ := List.exists_cons_of_ne_nil word.1
      rfl
    | cons c gap =>
      have hc : isBlank c = true := blank c List.mem_cons_self
      rw [hhead c rfl] at hc
      cases hc

theorem trim_eq_nil_iff : trim cs = [] ↔ words cs = [] := by
  constructor
  · intro h
    rw [← words_trim, h]
    rfl
  · intro h
    rw [← List.head?_eq_none_iff, head?_trim, h]
    rfl

/-- The lines of a text. A line feed ends a line, and so does a carriage return with a line feed; a
last line may go without. -/
def rows : List Char → List (List Char)
  | [] => []
  | '\n' :: cs => [] :: rows cs
  | '\r' :: '\n' :: cs => [] :: rows cs
  | c :: cs =>
    match rows cs with
    | [] => [[c]]
    | l :: ls => (c :: l) :: ls

theorem lines_append (hl : '\n' ∉ l) (rest : List Char) :
    lines (l ++ '\n' :: rest) = l :: lines rest := by
  induction l with
  | nil => rfl
  | cons c l ih =>
    obtain ⟨hc, hl⟩ := List.ne_and_not_mem_of_not_mem_cons hl
    rw [List.cons_append, lines, if_neg hc.symm, ih hl]

/-- The lines that end with a line feed each are the lines of their text. -/
theorem lines_flatMap (h : ∀ l ∈ ls, '\n' ∉ l) :
    lines (ls.flatMap fun l => l ++ ['\n']) = ls := by
  induction ls with
  | nil => rfl
  | cons l ls ih =>
    obtain ⟨hl, hls⟩ := List.forall_mem_cons.mp h
    rw [List.flatMap_cons, List.append_assoc, List.singleton_append, lines_append hl, ih hls]

/-- Lines that are ended by line feeds alone differ at most in carriage returns at their ends. -/
theorem forall₂_rows_lines (cs : List Char) :
    List.Forall₂ (fun row line => line = row ∨ line = row ++ ['\r']) (rows cs) (lines cs) := by
  fun_induction rows cs with
  | case1 => exact .nil
  | case2 cs ih => exact .cons (.inl rfl) ih
  | case3 cs ih => exact .cons (.inr rfl) ih
  | case4 c cs hc _ hrows ih =>
    rw [hrows] at ih
    have hlines : lines cs = [] := List.forall₂_nil_left_iff.mp ih
    rw [lines, if_neg hc, hlines]
    exact .cons (.inl rfl) .nil
  | case5 c cs hc _ row rows hrows ih =>
    rw [hrows] at ih
    obtain ⟨line, lines', hline, hlines, heq⟩ := List.forall₂_cons_left_iff.mp ih
    rw [lines, if_neg hc, heq]
    refine .cons ?_ hlines
    rcases hline with rfl | rfl
    · exact .inl rfl
    · exact .inr rfl

/-- The words of the lines do not show how a line was ended. -/
theorem map_words_rows (cs : List Char) : (rows cs).map words = (lines cs).map words := by
  have hreturn : AreBlank ['\r'] := List.forall_mem_singleton.mpr (by decide)
  have hrows := forall₂_rows_lines cs
  generalize rows cs = rows at hrows ⊢
  generalize lines cs = lines at hrows ⊢
  induction hrows with
  | nil => rfl
  | @cons row line rows lines hline _ ih =>
    rw [List.map_cons, List.map_cons, ih]
    rcases hline with rfl | rfl
    · rfl
    · rw [words_append_blank row hreturn]

end TokenProvision.Text
