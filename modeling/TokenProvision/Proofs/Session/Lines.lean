import TokenProvision.Proofs.Token.Codec
import TokenProvision.Session.Basic

/-!
What the lines of a log show. Every line opens with a heading that tells its kind, since no heading
goes on with another; and behind the heading stands what the line is about: the refusal, the name
and the usage of a key, or the ticker, the chain and the decimals of a token.
-/
namespace TokenProvision

theorem Label.text_injective {max : Nat} {l l' : Label max} (h : l.text = l'.text) : l = l' := by
  have hread := Bytes.ofPrintable?_toText l.printable
  rw [show Bytes.toText l.bytes = Bytes.toText l'.bytes from h,
    Bytes.ofPrintable?_toText l'.printable] at hread
  exact Label.ext (Option.some.inj hread).symm

theorem Refusal.name_injective {r r' : Refusal} (h : r.name = r'.name) : r = r' := by
  revert h
  cases r <;> cases r' <;> decide

theorem Certificate.Usage.name_injective {u u' : Usage} (h : u.name = u'.name) : u = u' := by
  revert h
  cases u <;> cases u' <;> decide

namespace Notice

open Token (Descriptor)

variable {n n' : Notice} {heading other line : String} {r r' : Refusal} {d d' : Descriptor}
variable {name name' : Label Certificate.maxName} {usage usage' : Certificate.Usage}

def Opens (heading line : String) : Prop := heading.toList <+: line.toList

instance (heading line : String) : Decidable (Opens heading line) :=
  inferInstanceAs (Decidable (_ <+: _))

/-- The heading of a note, except of a reason, which brings its own. -/
def heading? : Notice → Option String
  | event _ => some "event: "
  | reason _ => none
  | certificateRejected _ => some "certificate rejected: "
  | keyTrusted _ _ => some "trusted key '"
  | noCertificate => some "token metadata without certificate"
  | tokenAccepted _ => some "token '"
  | tokenRejected _ => some "token metadata rejected: "
  | reset => some "engine reset"

def headings : List String :=
  ["event: ", "certificate rejected: ", "trusted key '", "token metadata without certificate",
    "token '", "token metadata rejected: ", "engine reset"]

def reasonHeadings : List String :=
  ["certificate missing tag: ", "no trust anchor for issuer 0x", "certificate usage ",
    "certificate target device 0x", "certificate expired at ", "certificate validity index "]

theorem Opens.append (h : Opens heading line) (rest : String) : Opens heading (line ++ rest) := by
  rw [Opens, String.toList_append]
  exact h.trans (List.prefix_append _ _)

/-- No heading goes on with another. -/
theorem eq_of_heading_front : ∀ heading ∈ headings ++ reasonHeadings,
    ∀ other ∈ headings ++ reasonHeadings, heading.toList <+: other.toList → heading = other := by
  decide +kernel

theorem eq_of_opens (hheading : heading ∈ headings ++ reasonHeadings)
    (hother : other ∈ headings ++ reasonHeadings) (h : Opens heading line)
    (h' : Opens other line) : heading = other := by
  rcases List.prefix_or_prefix_of_prefix h h' with hfront | hfront
  · exact eq_of_heading_front _ hheading _ hother hfront
  · exact (eq_of_heading_front _ hother _ hheading hfront).symm

theorem heading_mem (h : n.heading? = some heading) : heading ∈ headings := by
  cases n <;> cases h <;> decide

theorem opens_text (h : n.heading? = some heading) : Opens heading n.text := by
  have hself : Opens heading heading := List.prefix_rfl
  cases n with
  | event e =>
    cases h
    cases e with
    | loadCertificate usage certificate =>
      have hfront : Opens "event: " "event: LoadCertificate \x7b key_usage: " := by decide
      exact (((hfront.append _).append _).append _).append _
    | provideToken payload =>
      have hfront : Opens "event: " "event: ProvideTokenInfo \x7b payload: " := by decide
      exact (hfront.append _).append _
  | reason text => cases h
  | certificateRejected r => cases h; exact hself.append _
  | keyTrusted name usage => cases h; exact (((hself.append _).append _).append _).append _
  | noCertificate => cases h; exact hself
  | tokenAccepted d => cases h; exact ((((hself.append _).append _).append _).append _).append _
  | tokenRejected r => cases h; exact hself.append _
  | reset => cases h; exact hself

/-- The line of a reason opens with a heading of the reasons. -/
theorem exists_opens_reason {q : Certificate.Rejection} (h : q.reason? = some line) :
    ∃ heading ∈ reasonHeadings, Opens heading line := by
  have hself (heading : String) : Opens heading heading := List.prefix_rfl
  cases q with
  | missing tag => cases h; exact ⟨_, by decide, (hself _).append _⟩
  | unknownIssuer keyId => cases h; exact ⟨_, by decide, (hself _).append _⟩
  | wrongUsage certified expected =>
    cases h
    exact ⟨_, by decide, (((hself "certificate usage ").append _).append _).append _⟩
  | wrongDevice certified =>
    cases h
    exact ⟨_, by decide, ((hself "certificate target device 0x").append _).append _⟩
  | expired since => cases h; exact ⟨_, by decide, (hself _).append _⟩
  | revoked index =>
    cases h
    exact ⟨_, by decide, ((hself "certificate validity index ").append _).append _⟩
  | _ => cases h

/-- The heading of a line tells the kind of its note. -/
theorem opens_text_iff (h : n.heading? = some other) (hheading : heading ∈ headings) :
    Opens heading n.text ↔ heading = other := by
  constructor
  · intro hopens
    exact eq_of_opens (List.mem_append_left _ hheading) (List.mem_append_left _ (heading_mem h))
      hopens (opens_text h)
  · rintro rfl
    exact opens_text h

/-- No reason is taken for another note. -/
theorem not_opens_reason {q : Certificate.Rejection} (h : q.reason? = some line)
    (hheading : heading ∈ headings) : ¬ Opens heading line := by
  intro hopens
  obtain ⟨other, hother, hopens'⟩ := exists_opens_reason h
  have heq := eq_of_opens (List.mem_append_left _ hheading) (List.mem_append_right _ hother)
    hopens hopens'
  have hdisjoint : ∀ heading ∈ headings, heading ∉ reasonHeadings := by decide
  exact hdisjoint heading hheading (heq ▸ hother)

/-- Notes of two kinds have two lines. -/
theorem text_ne (h : n.heading? = some heading) (h' : n'.heading? = some other)
    (hne : heading ≠ other) : n.text ≠ n'.text := by
  intro heq
  exact hne ((opens_text_iff h' (heading_mem h)).mp (heq ▸ opens_text h))

/-- A text can be split in one way only at the last place of a character. -/
theorem append_cons_inj {xs ys ds es : List Char} {c : Char} (hds : c ∉ ds) (hes : c ∉ es)
    (h : xs ++ c :: ds = ys ++ c :: es) : xs = ys ∧ ds = es := by
  rcases List.append_eq_append_iff.mp h with ⟨more, rfl, hmore⟩ | ⟨more, rfl, hmore⟩
  · cases more with
    | nil => simpa using hmore
    | cons a more =>
      obtain ⟨rfl, rfl⟩ := List.cons.inj hmore
      simp at hds
  · cases more with
    | nil => simpa [eq_comm] using hmore
    | cons a more =>
      obtain ⟨rfl, rfl⟩ := List.cons.inj hmore
      simp at hes

/-- A text that ends with a number behind a space shows the number. -/
theorem append_number_inj {front front' : String} {n n' : Nat}
    (h : front ++ " " ++ toString n = front' ++ " " ++ toString n') : front = front' ∧ n = n' := by
  have hspace (n : Nat) : ' ' ∉ Nat.toDigits 10 n := fun hmem => by
    simpa using Nat.isDigit_of_mem_toDigits (by decide) (by decide) hmem
  have hlist := congrArg String.toList h
  simp only [String.toList_append, Nat.toString_eq_repr, Nat.toList_repr,
    List.append_assoc] at hlist
  obtain ⟨hfront, hdigits⟩ := append_cons_inj (hspace n) (hspace n') hlist
  have hvalue := congrArg (fun ds => Nat.ofDigitChars 10 ds 0) hdigits
  exact ⟨String.toList_inj.mp hfront, by simpa using hvalue⟩

theorem text_certificateRejected_inj
    (h : (certificateRejected r).text = (certificateRejected r').text) : r = r' :=
  Refusal.name_injective ((String.append_right_inj _).mp h)

theorem text_tokenRejected_inj (h : (tokenRejected r).text = (tokenRejected r').text) : r = r' :=
  Refusal.name_injective ((String.append_right_inj _).mp h)

theorem text_keyTrusted_inj (h : (keyTrusted name usage).text = (keyTrusted name' usage').text) :
    name = name' ∧ usage = usage' := by
  have hsplit (name : Label Certificate.maxName) (usage : Certificate.Usage) :
      (keyTrusted name usage).text.toList =
        ("trusted key '" ++ name.text ++ "' ").toList ++ '(' :: (usage.name ++ ")").toList := by
    have hopen : "' (" = "' " ++ "(" := rfl
    change ("trusted key '" ++ name.text ++ "' (" ++ usage.name ++ ")").toList = _
    rw [hopen]
    simp only [String.toList_append, List.append_assoc]
    rfl
  have hopen (usage : Certificate.Usage) : '(' ∉ (usage.name ++ ")").toList := by
    cases usage <;> decide
  have hlist := congrArg String.toList h
  rw [hsplit, hsplit] at hlist
  obtain ⟨hfront, hrest⟩ := append_cons_inj (hopen usage) (hopen usage') hlist
  have hname := (String.append_left_inj _).mp (String.toList_inj.mp hfront)
  have husage := (String.append_left_inj _).mp (String.toList_inj.mp hrest)
  exact ⟨Label.text_injective ((String.append_right_inj _).mp hname),
    Certificate.Usage.name_injective husage⟩

theorem text_tokenAccepted (d : Descriptor) : (tokenAccepted d).text =
    "token '" ++ d.ticker.text ++ "' chain" ++ " " ++ toString d.chainId.toNat ++ " decimals" ++
      " " ++ toString d.decimals.toNat := by
  have hchain : "' chain " = "' chain" ++ " " := rfl
  have hdecimals : " decimals " = " decimals" ++ " " := rfl
  change "token '" ++ d.ticker.text ++ "' chain " ++ toString d.chainId.toNat ++ " decimals " ++
    toString d.decimals.toNat = _
  rw [hchain, hdecimals]
  simp only [String.append_assoc]

/-- The line of an accepted token shows its ticker, its chain and its decimals, and nothing else. -/
theorem text_tokenAccepted_inj : (tokenAccepted d).text = (tokenAccepted d').text ↔
    d.ticker = d'.ticker ∧ d.chainId = d'.chainId ∧ d.decimals = d'.decimals := by
  rw [text_tokenAccepted, text_tokenAccepted]
  constructor
  · intro h
    obtain ⟨hfront, hdecimals⟩ := append_number_inj h
    obtain ⟨hfront, hchain⟩ := append_number_inj ((String.append_left_inj _).mp hfront)
    have hticker := (String.append_right_inj _).mp ((String.append_left_inj _).mp hfront)
    exact ⟨Label.text_injective hticker, UInt32.toNat_inj.mp hchain, UInt8.toNat_inj.mp hdecimals⟩
  · rintro ⟨hticker, hchain, hdecimals⟩
    rw [hticker, hchain, hdecimals]

end Notice

end TokenProvision
