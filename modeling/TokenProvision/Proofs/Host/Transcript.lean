import TokenProvision.Host.Transcript
import TokenProvision.Proofs.Session.Exchange
import TokenProvision.Session.Run

/-!
Runs of transcripts. A command that was read from a frame reaches the device as that very frame, and
an answer that ends with a status comes back as it was given; so a transport adds no failure of its
own. Every step that was read from a text holds a frame, so it is sent without failure over any
transport that sends frames, to any device that reports a status. What is left to find out is the
state of the device, which its frames lead to one after the other, and how many of the statuses were
not the ones that were expected.
-/
namespace TokenProvision.Host

variable {σ : Type} {d : Device σ} {c : Command} {frame : Bytes}

/-- What ends with a status is split into its data and the word of that status. -/
theorem Answer.ofResponse_append (data : Bytes) (status : Status) :
    ofResponse (data ++ status.toBytes) = .ok ⟨data, status.code⟩ := by
  have hsplit : (data ++ status.toBytes).length - 2 = data.length := by simp
  simp only [ofResponse, hsplit, List.drop_left, List.take_left, Status.toUInt16?_toBytes]

namespace Device

/-- Whether a device ends each of its responses with a status. -/
def Reports (d : Device σ) : Prop :=
  ∀ frame s, ∃ data status, (d frame s).1 = data ++ Status.toBytes status

/-- The device that also writes down every frame that it carries out. -/
def recording (d : Device σ) : Device (σ × List Bytes) := fun frame s =>
  ((d frame s.1).1, (d frame s.1).2, s.2 ++ [frame])

theorem Reports.recording (h : d.Reports) : d.recording.Reports := fun frame s => h frame s.1

end Device

/-- There is room for the response to every frame, so a session never leaves the status out. -/
theorem sessionDevice_reports : sessionDevice.Reports := by
  intro frame s
  obtain ⟨data, hresponse, -⟩ := s.response_exchange frame (by decide : 2 ≤ maxResponse)
  exact ⟨data, _, hresponse⟩

theorem write_of_parse (h : Command.parse frame = .ok c) : c.write maxFrame = .ok frame := by
  obtain ⟨hdata, rfl⟩ := Command.parse_eq_ok_iff.mp h
  exact Command.write_of_le hdata (Nat.add_le_add_left hdata _)

theorem framed_of_parse (h : Command.parse frame = .ok c) (s : σ) :
    framed d c s = (Answer.ofResponse (d frame s).1, (d frame s).2) := by
  simp only [framed, write_of_parse h]

/-- A command that was read from a frame is sent without failure, and what comes back is the
response of the device to that frame. -/
theorem send_framed_of_parse (hd : d.Reports) (h : Command.parse frame = .ok c) (s : σ) :
    ∃ r, send (framed d) c s = (.ok r, (d frame s).2) ∧
      (d frame s).1 = r.data ++ r.status.toBytes := by
  obtain ⟨data, status, hresponse⟩ := hd frame s
  refine ⟨⟨data, status⟩, ?_, hresponse⟩
  simp only [send, framed_of_parse h, hresponse, Answer.ofResponse_append, Status.ofCode?_code]

end TokenProvision.Host

namespace TokenProvision.Host.Transcript

variable {σ : Type} {d : Device σ} {steps : List Step} {frame : Bytes}

def AreFrames (steps : List Step) : Prop := ∀ step ∈ steps, ∃ c, Command.parse step.frame = .ok c

theorem exists_parse_of_readWords {words : List (List Char)} {expected : Option UInt16}
    (h : readWords words = .ok (some (frame, expected))) : ∃ c, Command.parse frame = .ok c := by
  unfold readWords at h
  split at h
  · cases h
  · split at h
    · cases h
    · split at h
      · cases h
      · split at h
        · cases h
        · rename_i c hparse
          split at h <;> cases h
          exact ⟨c, hparse⟩

theorem areFrames_of_readLines {line : Nat} {lines : List (List Char)}
    (h : readLines line lines = .ok steps) : AreFrames steps := by
  induction lines generalizing line steps with
  | nil =>
    cases h
    exact List.forall_mem_nil _
  | cons cs rest ih =>
    unfold readLines at h
    split at h
    · cases h
    · rename_i read hwords
      split at h
      · cases h
      · rename_i more hrest
        split at h
        · cases h
          exact ih hrest
        · rename_i frame expected
          cases h
          exact List.forall_mem_cons.mpr ⟨exists_parse_of_readWords hwords, ih hrest⟩

/-- Every step that is read from a text holds a frame. -/
theorem areFrames_of_parse {text : String} (h : parse text = .ok steps) : AreFrames steps :=
  areFrames_of_readLines h

example : parse "# a token before any certificate\ne00a000000 expect 6a80\n" =
    .ok [⟨2, [0xe0, 0x0a, 0x00, 0x00, 0x00], some 0x6a80⟩] := by decide +kernel

/-- The state of a device after the frames of some steps. -/
def final (d : Device σ) (steps : List Step) (s : σ) : σ :=
  steps.foldl (fun s step => (d step.frame s).2) s

/-- How many of some steps get a response from a device that does not end with the status that they
should get. -/
def missed (d : Device σ) : List Step → σ → Nat
  | [], _ => 0
  | step :: rest, s =>
    ((Status.ofResponse? (d step.frame s).1).any step.isMismatch).toNat +
      missed d rest (d step.frame s).2

/-- Steps that hold frames are all sent to the device, none of them fails, and those with another
status than expected are counted. -/
theorem runSteps_framed (hd : d.Reports) (hsteps : AreFrames steps) (n : Nat) (s : σ) :
    (runSteps (framed d) n steps s).result = .ok (n + missed d steps s) ∧
      (runSteps (framed d) n steps s).state = final d steps s := by
  induction steps generalizing n s with
  | nil => exact ⟨rfl, rfl⟩
  | cons step rest ih =>
    obtain ⟨⟨c, hparse⟩, hrest⟩ := List.forall_mem_cons.mp hsteps
    obtain ⟨r, hsend, hresponse⟩ := send_framed_of_parse hd hparse s
    have hmore : ((Status.ofResponse? (d step.frame s).1).any step.isMismatch).toNat =
        if step.isMismatch r.status then 1 else 0 := by
      rw [hresponse, Status.ofResponse?_append, Option.any_some]
      cases step.isMismatch r.status <;> rfl
    obtain ⟨hresult, hstate⟩ :=
      ih hrest (n + if step.isMismatch r.status then 1 else 0) (d step.frame s).2
    simp only [runSteps, hparse, hsend]
    refine ⟨?_, hstate⟩
    rw [hresult, missed, hmore, Nat.add_assoc]

/-- A run of steps that hold frames ends without failure. -/
theorem run_framed (hd : d.Reports) (hsteps : AreFrames steps) (s : σ) :
    (run (framed d) steps s).result = .ok (missed d steps s) ∧
      (run (framed d) steps s).state = final d steps s := by
  obtain ⟨hresult, hstate⟩ := runSteps_framed hd hsteps 0 s
  rw [Nat.zero_add] at hresult
  simp only [run, hresult]
  exact ⟨trivial, hstate⟩

theorem missed_recording (d : Device σ) (steps : List Step) (s : σ) (log : List Bytes) :
    missed d.recording steps (s, log) = missed d steps s := by
  induction steps generalizing s log with
  | nil => rfl
  | cons step rest ih =>
    simp only [missed, Device.recording, ih]

/-- A device that writes down its frames is led to the same state, and writes down the frames of the
steps as they are, one for each step. -/
theorem final_recording (d : Device σ) (steps : List Step) (s : σ) (log : List Bytes) :
    final d.recording steps (s, log) = (final d steps s, log ++ steps.map Step.frame) := by
  induction steps generalizing s log with
  | nil => rw [List.map_nil, List.append_nil]; rfl
  | cons step rest ih =>
    rw [List.map_cons, List.append_cons]
    exact ih (d step.frame s).2 (log ++ [step.frame])

/-- The steps that a session takes for the steps of a transcript. -/
def exchanges (steps : List Step) : List Session.Step :=
  steps.map fun step => .exchange step.frame maxResponse

/-- Whether a step has a status that it should get, and an answer has another one. -/
def Step.isMissedBy (step : Step) (a : Session.Answer) : Bool :=
  match step.expected, a with
  | some word, .response status _ => word ≠ status.code
  | _, _ => false

/-- How many of some steps get another status from a session than they should. -/
def mismatches (steps : List Step) (s : Session) : Nat :=
  (steps.zip (s.turns (exchanges steps))).countP fun x => x.1.isMissedBy x.2.answer

theorem final_sessionDevice (steps : List Step) (s : Session) :
    final sessionDevice steps s = s.after (exchanges steps) := by
  induction steps generalizing s with
  | nil => rfl
  | cons step rest ih => exact ih _

theorem missed_sessionDevice (steps : List Step) (s : Session) :
    missed sessionDevice steps s = mismatches steps s := by
  induction steps generalizing s with
  | nil => rfl
  | cons step rest ih =>
    have hmissed : (Status.ofResponse? (sessionDevice step.frame s).1).any step.isMismatch =
        step.isMissedBy (s.step (.exchange step.frame maxResponse)).answer := by
      obtain ⟨data, hresponse, -⟩ :=
        s.response_exchange step.frame (by decide : 2 ≤ maxResponse)
      simp only [sessionDevice, hresponse, Status.ofResponse?_append, Option.any_some]
      unfold Step.isMismatch Step.isMissedBy Session.step
      cases step.expected <;> rfl
    rw [missed, hmissed]
    simp only [mismatches, exchanges, List.map_cons, Session.turns_cons, List.zip_cons_cons,
      List.countP_cons]
    rw [Nat.add_comm, ih]
    cases step.isMissedBy (s.step (.exchange step.frame maxResponse)).answer <;> rfl

end TokenProvision.Host.Transcript
