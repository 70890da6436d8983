import TokenProvision.CommandLine.FileTree
import TokenProvision.CommandLine.Options

/-!
Runs of the command line: what a run reports, and the number with which it ends. The environment,
the files and the clock are handed in.
-/
namespace TokenProvision.CommandLine

open Host

structure Surroundings where
  lookup : String → Option String
  readFile : String → Except FileFault String
  clock : Option UInt32

inductive Conclusion where
  | success
  | mismatches
  | failed (message : String)
  | ended (e : Ending)
  | unexpected
  deriving DecidableEq, Repr

namespace Conclusion

def exitCode : Conclusion → UInt8
  | success | ended .help => 0
  | mismatches | failed _ => 1
  | ended .misuse => 2
  | unexpected => 101

end Conclusion

structure Run where
  report : List Line
  conclusion : Conclusion
  deriving DecidableEq, Repr

namespace Run

def output (r : Run) : List String :=
  (r.report.filter (·.level ≠ .error)).map Line.render

def errorOutput (r : Run) : List String :=
  (r.report.filter (·.level = .error)).map Line.render ++
    match r.conclusion with
    | .failed message => ["Error: " ++ message]
    | _ => []

end Run

/-- The anchor that the options name, the fixed one if they give no key. -/
def Options.anchor (o : Options) : Except KeyFault TrustAnchor :=
  match o.anchorKey with
  | none => .ok Fixture.anchor
  | some key => readAnchor o.anchorId key.toList

def Options.platform (o : Options) (anchor : TrustAnchor) (clock : Option UInt32) : Platform :=
  .ofAnchors [anchor] o.device clock o.minValidityIndex

def runSuite (suite : Suite) (s : Session) : Run :=
  let start : Line := ⟨.info, "Running scenario '" ++ suite.name ++ "'"⟩
  match (suite.talk.run s).1 with
  | .ok _ => ⟨[start, ⟨.info, "Scenario OK!"⟩], .success⟩
  | .error .unexpected => ⟨[start], .unexpected⟩
  | .error (.failure f) => ⟨[start], .failed f.message⟩

/-- Runs the transcript of a file over a transport, whose state after the run is given too. -/
def runTranscript {σ : Type} (t : Transport σ) (file : String) (content : Except FileFault String)
    (s : σ) : Run × σ :=
  match content with
  | .error f => (⟨[], .failed f.message⟩, s)
  | .ok text =>
    match Transcript.parse text with
    | .error (line, f) => (⟨[], .failed (f.message line)⟩, s)
    | .ok steps =>
      let start : Line :=
        ⟨.info, "Replaying " ++ toString steps.length ++ " steps from '" ++ file ++ "'"⟩
      let run := Transcript.run t steps s
      match run.result with
      | .error f => (⟨start :: run.report, .failed f.message⟩, run.state)
      | .ok 0 => (⟨start :: run.report, .success⟩, run.state)
      | .ok n =>
        (⟨start :: run.report ++ [⟨.error, toString n ++ " status mismatches"⟩], .mismatches⟩,
          run.state)

/-- Does what the options ask for, and reports everything. -/
def Options.perform (o : Options) (w : Surroundings) : Run :=
  match o.anchor with
  | .error f => ⟨[], .failed f.message⟩
  | .ok anchor =>
    let s := Session.start (o.platform anchor w.clock)
    match o.task with
    | .scenario suite => runSuite suite s
    | .replay file => (runTranscript inProcess file (w.readFile file) s).1

/-- Runs a command line, and shows what the threshold lets through. -/
def run (w : Surroundings) (words : List String) : Run :=
  match Options.read w.lookup words with
  | .error e => ⟨[], .ended e⟩
  | .ok o =>
    let r := o.perform w
    { r with report := r.report.filter fun l => o.threshold.shows l.level }

end TokenProvision.CommandLine
