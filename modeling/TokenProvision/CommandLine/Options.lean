import TokenProvision.Host.Scenario
import TokenProvision.Host.Transcript

/-!
Options: what the words of a command line ask for, and the suites of scenarios that can be asked
for by name. Flags stand in front of the subcommand. What a flag leaves open comes from an
environment variable, and else from a default.

Some words end the reading at once: a request for help, or a word that has no place where it
stands. The other faults, a flag that is repeated or has a bad value, count only once all words have
been read. So help that comes later is still given.
-/
namespace TokenProvision.CommandLine

open Host (Threshold inProcess)
open Host.Scenario

inductive Suite where
  | erc20 | deadbeef | pki | eviction | all
  deriving DecidableEq, Repr

namespace Suite

def name : Suite → String
  | erc20 => "erc20"
  | deadbeef => "deadbeef"
  | pki => "pki"
  | eviction => "eviction"
  | all => "all"

def suites : List Suite := [erc20, deadbeef, pki, eviction, all]

def ofName? (name : String) : Option Suite := suites.find? (·.name = name)

def parts : Suite → List Suite
  | all => [erc20, deadbeef, pki, eviction]
  | suite => [suite]

/-- The talk of a part with a session that has just been reset. -/
def partTalk : Suite → Talk Session Unit
  | erc20 => provision inProcess Host.Fixture.tokens
  | deadbeef => do
    badSignatureWithoutCertificate inProcess
    badSignatureWithCertificate inProcess
  | pki => do
    frames inProcess
    certificates inProcess Host.Fixture.certificates
  | eviction => Host.Scenario.eviction inProcess Session.reset
  | all => pure ()

/-- The talks of the parts one after the other, each with a session that has been reset. -/
def talk (suite : Suite) : Talk Session Unit :=
  suite.parts.forM fun part => do
    modify Session.reset
    part.partTalk

end Suite

inductive Flag where
  | anchorKey | anchorId | device | minValidityIndex | logLevel
  deriving DecidableEq, Repr

namespace Flag

def all : List Flag := [anchorKey, anchorId, device, minValidityIndex, logLevel]

/-- The name of a flag behind two dashes. -/
def name : Flag → String
  | anchorKey => "anchor-key"
  | anchorId => "anchor-id"
  | device => "device"
  | minValidityIndex => "min-validity-index"
  | logLevel => "log-level"

/-- The environment variable that stands in for a flag. -/
def variableName : Flag → String
  | anchorKey => "ANCHOR_KEY"
  | anchorId => "ANCHOR_ID"
  | device => "DEVICE"
  | minValidityIndex => "MIN_VALIDITY_INDEX"
  | logLevel => "LOG_LEVEL"

def ofName? (name : List Char) : Option Flag :=
  all.find? fun f => f.name.toList = name

end Flag

inductive Ending where
  | help | misuse
  deriving DecidableEq, Repr

inductive Subcommand where
  | scenario | replay | help
  deriving DecidableEq, Repr

namespace Subcommand

def ofName? : String → Option Subcommand
  | "scenario" => some scenario
  | "replay" => some replay
  | "help" => some help
  | _ => none

end Subcommand

/-- Whether a word looks like a flag: it starts with a dash and does not end there. -/
def isDashed (word : String) : Bool :=
  match word.toList with
  | '-' :: _ :: _ => true
  | _ => false

inductive Word where
  | flag (f : Flag) (value : Option String)
  | subcommand (c : Subcommand)
  | ending (e : Ending)
  deriving DecidableEq, Repr

namespace Word

/-- Reads the name behind two dashes, with the value behind an equals sign if there is one. -/
def ofLong (cs : List Char) : Word :=
  let name := cs.takeWhile (· ≠ '=')
  let value :=
    match cs.dropWhile (· ≠ '=') with
    | [] => none
    | _ :: value => some (String.ofList value)
  if name = ['h', 'e', 'l', 'p'] ∧ value = none then ending .help
  else
    match Flag.ofName? name with
    | some f => flag f value
    | none => ending .misuse

def read (word : String) : Word :=
  match word.toList with
  | '-' :: '-' :: cs => ofLong cs
  | '-' :: 'h' :: _ => ending .help
  | _ =>
    match Subcommand.ofName? word with
    | some c => subcommand c
    | none => ending .misuse

end Word

/-- Reads the operands of a subcommand that takes one, given those before, once no word is a flag
any more. -/
def readPlain : Option String → List String → Except Ending String
  | some operand, [] => .ok operand
  | none, word :: rest => readPlain (some word) rest
  | _, _ => .error .misuse

/-- Reads the words behind a subcommand that takes one operand, given those before. -/
def readOperand : Option String → List String → Except Ending String
  | some operand, [] => .ok operand
  | none, [] => .error .misuse
  | before, word :: rest =>
    match word.toList with
    | ['-', '-'] => readPlain before rest
    | ['-', '-', 'h', 'e', 'l', 'p'] => .error .help
    | '-' :: 'h' :: _ => .error .help
    | _ =>
      if isDashed word then .error .misuse
      else
        match before with
        | none => readOperand (some word) rest
        | some _ => .error .misuse

/-- Reads the words behind the subcommand for help: at most one, the name of a subcommand. -/
def readHelp : List String → Ending
  | [] => .help
  | [word] => if (Subcommand.ofName? word).isSome then .help else .misuse
  | _ => .misuse

/-- The words of a command line in their places: the flags with their values, where there were any,
and the subcommand with its operand. -/
structure Draft where
  flags : List (Flag × Option String)
  subcommand : Subcommand
  operand : String
  deriving DecidableEq, Repr

namespace Draft

def give (f : Flag) (value : Option String) (d : Draft) : Draft :=
  { d with flags := (f, value) :: d.flags }

/-- Puts the words of a command line in their places. A flag may be waiting for its value, which is
the next word unless that looks like a flag. -/
def read (waiting : Option Flag) : List String → Except Ending Draft
  | [] => .error .misuse
  | word :: rest =>
    match waiting, isDashed word with
    | some f, false => (read none rest).map (give f (some word))
    | _, _ =>
      let missing (d : Draft) : Draft := waiting.elim d fun f => give f none d
      match Word.read word with
      | .ending e => .error e
      | .subcommand .help => .error (readHelp rest)
      | .subcommand c => (readOperand none rest).map fun operand => missing ⟨[], c, operand⟩
      | .flag f (some value) => (read none rest).map fun d => missing (give f (some value) d)
      | .flag f none => (read (some f) rest).map missing

end Draft

inductive Task where
  | scenario (suite : Suite)
  | replay (file : String)
  deriving DecidableEq, Repr

/-- What a command line asks for. Without an anchor's key the anchor is a fixed one. -/
structure Options where
  anchorKey : Option String
  anchorId : UInt16
  device : UInt8
  minValidityIndex : UInt32
  threshold : Threshold
  task : Task
  deriving DecidableEq, Repr

namespace Options

/-- The text for a flag: the only value that was given, or else that of the variable. -/
def text? (lookup : String → Option String) (d : Draft) (f : Flag) :
    Except Ending (Option String) :=
  match d.flags.filter (·.1 = f) with
  | [] => .ok (lookup f.variableName)
  | [(_, some value)] => .ok (some value)
  | _ => .error .misuse

def number (lookup : String → Option String) (d : Draft) (f : Flag) (limit default : Nat) :
    Except Ending Nat := do
  match ← text? lookup d f with
  | none => return default
  | some text =>
    match Text.Numeral.read 10 limit text.toList with
    | .ok n => return n
    | .error _ => throw .misuse

/-- The threshold of the report, down to what helps with debugging by default. -/
def readThreshold (lookup : String → Option String) (d : Draft) : Except Ending Threshold := do
  match ← text? lookup d .logLevel with
  | none => return ⟨some .debug⟩
  | some text =>
    match Threshold.ofName? text with
    | some t => return t
    | none => throw .misuse

def readTask (d : Draft) : Except Ending Task :=
  match d.subcommand with
  | .replay => .ok (.replay d.operand)
  | .scenario =>
    match Suite.ofName? d.operand with
    | some suite => .ok (.scenario suite)
    | none => .error .misuse
  | .help => .error .help

def read (lookup : String → Option String) (words : List String) : Except Ending Options := do
  let d ← Draft.read none words
  return {
    anchorKey := ← text? lookup d .anchorKey
    anchorId := UInt16.ofNat (← number lookup d .anchorId 0xffff Host.Fixture.anchorId.toNat)
    device := UInt8.ofNat (← number lookup d .device 0xff Host.Fixture.targetDevice.toNat)
    minValidityIndex := UInt32.ofNat (← number lookup d .minValidityIndex 0xffffffff 0)
    threshold := ← readThreshold lookup d
    task := ← readTask d }

end Options

end TokenProvision.CommandLine
