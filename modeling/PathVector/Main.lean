import PathVector.Launch

/-! The program. A router that is started runs until standard input ends. -/
namespace PathVector

def Log.write (l : Log) : IO Unit := do
  let lines := l.events.map fun e => e.record.toJson.text++"\n"
  match l.target with
  | .output => IO.print (String.join lines)
  | .terminal => return
  | .file path => IO.FS.withFile path .append fun h => h.putStr (String.join lines)

def failureText : IO.Error → String
  | .alreadyExists _ code details | .interrupted _ code details | .noFileOrDirectory _ code details
  | .invalidArgument _ code details | .permissionDenied _ code details
  | .resourceExhausted _ code details | .inappropriateType _ code details
  | .noSuchThing _ code details | .otherError code details | .resourceBusy code details
  | .resourceVanished code details | .unsupportedOperation code details
  | .hardwareFault code details | .unsatisfiedConstraints code details
  | .illegalOperation code details | .protocolError code details | .timeExpired code details =>
    s!"{details} (os error {code})"
  | e => toString e

/-- Why a file cannot be made. The file is empty afterwards if it can. -/
def createFault (path : String) : IO (Option String) := do
  try
    IO.FS.writeFile path ""
    return none
  catch e => return some (failureText e)

def waitForEnd : IO Unit := do
  let _ ← (← IO.getStdin).readToEnd

end PathVector

open PathVector in
def main (args : List String) : IO UInt32 := do
  let fault ← match CommandLine.parse args with
    | .ok s => s.logFile.elim (return none) createFault
    | .error _ => pure none
  let launch := Launch.ofArguments (fun _ => fault) .sockets args
  IO.print launch.output
  IO.eprint launch.complaint
  if let some log := launch.log then log.write
  match launch.code, launch.router with
  | none, some router =>
    waitForEnd
    let run := Dispatcher.run (fun _ _ => none) router [.stop]
    let target := (launch.log.map (·.target)).getD .output
    Log.write ⟨target,run.actions.filterMap Action.event?⟩
    return 0
  | code, _ => return (code.getD 0).toUInt32
