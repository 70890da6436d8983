import Std.Time.DateTime.Timestamp
import TokenProvision.CommandLine.Run

/-!
The command line as a program: it looks up the variables of the environment, the clock and the
file that a run may ask for, and prints what the run shows.
-/
namespace TokenProvision.CommandLine

/-- The seconds since 1970, as long as they fit. -/
def readClock : IO (Option UInt32) := do
  let seconds := (← Std.Time.Timestamp.now).toSecondsSinceUnixEpoch.val.toNat
  return if seconds < UInt32.size then some (UInt32.ofNat seconds) else none

def readText (file : String) : IO (Except FileFault String) := do
  try
    let bytes ← IO.FS.readBinFile file
    match String.fromUTF8? bytes with
    | some text => return .ok text
    | none => return .error .notText
  catch
    | .permissionDenied .. => return .error .forbidden
    | .noSuchThing .. => return .error .noDevice
    | .inappropriateType _ code _ =>
      return .error (if code = 21 then .isADirectory else .notADirectory)
    | .invalidArgument .. => return .error .nameTooLong
    | _ => return .error .missing

end TokenProvision.CommandLine

open TokenProvision.CommandLine

def main (words : List String) : IO UInt32 := do
  let mut found : List (String × String) := []
  for f in Flag.all do
    if let some value ← IO.getEnv f.variableName then
      found := (f.variableName, value) :: found
  let lookup name := found.lookup name
  let clock ← readClock
  let content ←
    match Options.read lookup words with
    | .ok { task := .replay file, .. } => readText file
    | _ => pure (.error .missing)
  let r := run ⟨lookup, fun _ => content, clock⟩ words
  for line in r.output do IO.println line
  for line in r.errorOutput do IO.eprintln line
  return r.conclusion.exitCode.toUInt32
