import TokenProvision.CommandLine.Run
import TokenProvision.Proofs.Host.Transcript

/-!
Replays from the command line. A transcript that can be read is sent to the session frame by frame,
exactly as it is written, and the replay succeeds if every status that it names is the one that the
session gives. Of a transcript that cannot be read nothing is sent.
-/
namespace TokenProvision.CommandLine

open Host Host.Transcript

variable {text file : String} {steps : List Transcript.Step} {s : Session}

/-- A replay of a transcript that can be read succeeds if no status is another than expected, and is
concluded with the mismatches if one is. -/
theorem conclusion_runTranscript (h : parse text = .ok steps) :
    (runTranscript inProcess file (.ok text) s).1.conclusion =
      if mismatches steps s = 0 then .success else .mismatches := by
  obtain ⟨hresult, -⟩ := run_framed sessionDevice_reports (areFrames_of_parse h) s
  rw [missed_sessionDevice] at hresult
  change (Transcript.run inProcess steps s).result = _ at hresult
  simp only [runTranscript, h, hresult]
  cases mismatches steps s with
  | zero => rfl
  | succ n => rfl

/-- Of a transcript that cannot be read nothing is sent, whatever the transport. -/
theorem runTranscript_of_parse_error {σ : Type} (t : Transport σ) (s : σ) {line : Nat}
    {fault : Fault} (h : parse text = .error (line, fault)) :
    runTranscript t file (.ok text) s = (⟨[], .failed (fault.message line)⟩, s) := by
  simp only [runTranscript, h]

/-- A replay of a file with some text ends with zero exactly if the text can be read and no status
is another than expected. -/
theorem exitCode_runTranscript_eq_zero_iff :
    (runTranscript inProcess file (.ok text) s).1.conclusion.exitCode = 0 ↔
      ∃ steps, parse text = .ok steps ∧ mismatches steps s = 0 := by
  cases hparse : parse text with
  | error e =>
    rw [runTranscript_of_parse_error inProcess s hparse]
    simp [Conclusion.exitCode]
  | ok steps =>
    rw [conclusion_runTranscript hparse]
    by_cases hzero : mismatches steps s = 0
    · simp [hzero, Conclusion.exitCode]
    · simp [hzero, Conclusion.exitCode]

theorem conclusion_run_of_replay {w : Surroundings} {words : List String} {o : Options}
    {anchor : TrustAnchor} (ho : Options.read w.lookup words = .ok o)
    (htask : o.task = .replay file) (hanchor : o.anchor = .ok anchor) :
    (run w words).conclusion = (runTranscript inProcess file (w.readFile file)
      (.start (o.platform anchor w.clock))).1.conclusion := by
  simp only [run, ho, Options.perform, hanchor, htask]

/-- Replays are faithful. The frames of a transcript that can be read come out of the transport as
they were, and a run over a session never fails: it carries out one frame for each step, in order
and byte for byte, leads the session to where an exchange of these frames leads it, and counts the
steps whose status is another than expected. So a command line that asks for a replay of a file
that exists ends with zero exactly if the transcript can be read and no status is another than
expected; and no frame of a transcript that cannot be read is carried out. -/
theorem replay_is_faithful (text : String) :
    (∀ steps s, parse text = .ok steps →
      (∀ step ∈ steps, ∃ c, Command.parse step.frame = .ok c ∧
        c.write maxFrame = .ok step.frame) ∧
      (Transcript.run inProcess steps s).result = .ok (mismatches steps s) ∧
      (Transcript.run inProcess steps s).state = s.after (exchanges steps) ∧
      (Transcript.run (framed sessionDevice.recording) steps (s, [])).result =
        .ok (mismatches steps s) ∧
      (Transcript.run (framed sessionDevice.recording) steps (s, [])).state =
        (s.after (exchanges steps), steps.map Transcript.Step.frame)) ∧
    (∀ (σ : Type) (t : Transport σ) file s line fault, parse text = .error (line, fault) →
      runTranscript t file (.ok text) s = (⟨[], .failed (fault.message line)⟩, s)) ∧
    ∀ w words o file anchor, Options.read w.lookup words = .ok o → o.task = .replay file →
      o.anchor = .ok anchor → w.readFile file = .ok text →
      ((run w words).conclusion.exitCode = 0 ↔ ∃ steps, parse text = .ok steps ∧
        mismatches steps (.start (o.platform anchor w.clock)) = 0) := by
  refine ⟨?_, ?_, ?_⟩
  · intro steps s hparse
    have hframes := areFrames_of_parse hparse
    obtain ⟨hresult, hstate⟩ := run_framed sessionDevice_reports hframes s
    obtain ⟨hrecorded, hlog⟩ := run_framed sessionDevice_reports.recording hframes (s, [])
    rw [missed_sessionDevice] at hresult
    rw [final_sessionDevice] at hstate
    rw [missed_recording, missed_sessionDevice] at hrecorded
    rw [final_recording, final_sessionDevice, List.nil_append] at hlog
    refine ⟨?_, hresult, hstate, hrecorded, hlog⟩
    intro step hstep
    obtain ⟨c, hc⟩ := hframes step hstep
    exact ⟨c, hc, write_of_parse hc⟩
  · intro σ t file s line fault hparse
    exact runTranscript_of_parse_error t s hparse
  · intro w words o file anchor ho htask hanchor hfile
    rw [conclusion_run_of_replay ho htask hanchor, hfile, exitCode_runTranscript_eq_zero_iff]

end TokenProvision.CommandLine
