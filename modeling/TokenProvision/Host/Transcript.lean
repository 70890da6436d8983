import TokenProvision.Host.Transport

/-!
Transcripts: frames to be sent one after the other, one on a line, in hexadecimal. The word
`expect` and a status word may follow a frame. Blank lines and lines that start with `#` say
nothing.
-/
namespace TokenProvision.Host

inductive Level where
  | error | warn | info | debug | trace
  deriving DecidableEq, Repr

namespace Level

def name : Level → String
  | error => "ERROR"
  | warn => "WARN"
  | info => "INFO"
  | debug => "DEBUG"
  | trace => "TRACE"

def all : List Level := [error, warn, info, debug, trace]

/-- The place of a level, from one for what matters most. -/
def rank : Level → Nat
  | error => 1
  | warn => 2
  | info => 3
  | debug => 4
  | trace => 5

end Level

structure Line where
  level : Level
  text : String
  deriving DecidableEq, Repr

def Line.render (l : Line) : String := "[" ++ l.level.name ++ "] " ++ l.text

structure Threshold where
  least : Option Level
  deriving DecidableEq, Repr

namespace Threshold

def off : Threshold := ⟨none⟩

def shows (t : Threshold) (l : Level) : Bool :=
  match t.least with
  | none => false
  | some least => l.rank ≤ least.rank

/-- Reads a threshold: `off` or the name of a level, letters in either case. -/
def ofName? (name : String) : Option Threshold :=
  let name := name.toList.map Char.toUpper
  if name = ['O', 'F', 'F'] then some off
  else (Level.all.find? fun l => l.name.toList = name).map fun l => ⟨some l⟩

end Threshold

end TokenProvision.Host

namespace TokenProvision.Host.Transcript

/-- A frame to be sent, with the number of its line and the status that it should get. -/
structure Step where
  line : Nat
  frame : Bytes
  expected : Option UInt16
  deriving DecidableEq, Repr

inductive Fault where
  | hex (fault : Text.Hex.Fault)
  | invalidFrame (e : CodecError)
  | invalidStatus (word : List Char) (fault : Text.Numeral.Fault)
  | unexpectedWord (word : List Char)
  deriving DecidableEq, Repr

namespace Fault

def message (line : Nat) (f : Fault) : String :=
  "line " ++ toString line ++ ": " ++
    match f with
    | hex fault => fault.message
    | invalidFrame e => "invalid frame (" ++ e.name ++ ")"
    | invalidStatus word fault =>
      "invalid status '" ++ String.ofList word ++ "': " ++ fault.message
    | unexpectedWord word => "unexpected token '" ++ String.ofList word ++ "'"

end Fault

/-- The word between a frame and the status that it should get. -/
def expectWord : List Char := ['e', 'x', 'p', 'e', 'c', 't']

def readExpected : List (List Char) → Except Fault (Option UInt16)
  | [] => .ok none
  | word :: rest =>
    if word ≠ expectWord then .error (.unexpectedWord word)
    else
      match rest with
      | [] => .error (.unexpectedWord word)
      | status :: rest =>
        match Text.Numeral.read 16 0xffff status with
        | .error f => .error (.invalidStatus status f)
        | .ok n =>
          match rest with
          | [] => .ok (some (UInt16.ofNat n))
          | word :: _ => .error (.unexpectedWord word)

/-- Reads the words of a line: nothing, or a frame with the status that it should get. -/
def readWords : List (List Char) → Except Fault (Option (Bytes × Option UInt16))
  | [] => .ok none
  | word :: rest =>
    if word.head? = some '#' then .ok none
    else
      match Text.Hex.decode word with
      | .error f => .error (.hex f)
      | .ok frame =>
        match Command.parse frame with
        | .error e => .error (.invalidFrame e)
        | .ok _ =>
          match readExpected rest with
          | .error f => .error f
          | .ok expected => .ok (some (frame, expected))

/-- Reads lines, the first of which has a given number. -/
def readLines (line : Nat) : List (List Char) → Except (Nat × Fault) (List Step)
  | [] => .ok []
  | cs :: rest =>
    match readWords (Text.words cs) with
    | .error f => .error (line, f)
    | .ok step =>
      match readLines (line + 1) rest with
      | .error f => .error f
      | .ok steps =>
        match step with
        | none => .ok steps
        | some (frame, expected) => .ok (⟨line, frame, expected⟩ :: steps)

/-- Reads a transcript; a fault comes with the number of the first line that has one. -/
def parse (text : String) : Except (Nat × Fault) (List Step) :=
  readLines 1 (Text.lines text.toList)

def Step.isMismatch (step : Step) (status : Status) : Bool :=
  match step.expected with
  | none => false
  | some word => word ≠ status.code

def Step.report (step : Step) (r : Response) : Line :=
  let start := "line " ++ toString step.line ++ ": status " ++ Text.Hex.word r.status.code
  match step.expected with
  | some word =>
    if word ≠ r.status.code then ⟨.warn, start ++ " (expected " ++ Text.Hex.word word ++ ")"⟩
    else ⟨.debug, start ++ " data " ++ Text.Hex.listing r.data⟩
  | none => ⟨.debug, start ++ " data " ++ Text.Hex.listing r.data⟩

/-- What a run of steps led to: how many got another status than they should, what was reported,
and the state of the transport. -/
structure Run (σ : Type) where
  result : Except Failure Nat
  report : List Line
  state : σ

variable {σ : Type}

/-- Sends steps, given how many got another status before them. -/
def runSteps (t : Transport σ) (mismatches : Nat) : List Step → σ → Run σ
  | [], s => ⟨.ok mismatches, [], s⟩
  | step :: rest, s =>
    match Command.parse step.frame with
    | .error e => ⟨.error (.malformedStep step.line e), [], s⟩
    | .ok c =>
      match send t c s with
      | (.error f, s) => ⟨.error f, [], s⟩
      | (.ok r, s) =>
        let more := if step.isMismatch r.status then 1 else 0
        let run := runSteps t (mismatches + more) rest s
        { run with report := step.report r :: run.report }

def summary (steps mismatches : Nat) : Line :=
  ⟨.info, "replayed " ++ toString steps ++ " steps, " ++ toString mismatches ++ " mismatches"⟩

/-- Sends steps, and sums up if none of them failed. -/
def run (t : Transport σ) (steps : List Step) (s : σ) : Run σ :=
  let run := runSteps t 0 steps s
  match run.result with
  | .error _ => run
  | .ok n => { run with report := run.report ++ [summary steps.length n] }

end TokenProvision.Host.Transcript
