import LoxFrontEnd.CommandLine.Run

/-! The program.

The files, the input and the two streams of output are the system's. What is read
is handed to a run step by step, and what the steps show is written at once. -/
namespace LoxFrontEnd.CommandLine

/-- The number of an error of the system, which may be given with a sign. -/
def errorNumber (code : UInt32) : Nat := min code.toNat (UInt32.size - code.toNat)

/-- The cause of an error of the system. -/
def causeOf : IO.Error → Files.Error
  | .noFileOrDirectory .. => .notFound
  | .alreadyExists .. => .alreadyExists
  | .inappropriateType _ code details =>
    if errorNumber code = 20 then .notADirectory
    else if errorNumber code = 21 then .isADirectory
    else .other details
  | .invalidArgument _ code details =>
    if errorNumber code = 36 then .nameTooLong else .other details
  | e => .other (toString e)

def readText (path : String) : IO (Except Files.Error String) := do
  match Files.checkPath path with
  | .error e => return .error e
  | .ok () =>
    try
      let bytes ← IO.FS.readBinFile path
      return match Text.ofUtf8? bytes.data.toList with
        | some text => .ok text
        | none => .error .notUtf8
    catch e => return .error (causeOf e)

def makePath (path : String) : IO (Option Files.Error) := do
  try
    IO.FS.createDirAll path
    return none
  catch e => return some (causeOf e)

def writeAll (f : Log.Filter) (shown : List Emission) : IO Unit := do
  let output ← IO.getStdout
  let errors ← IO.getStderr
  for e in shown do
    let time := toString (← IO.monoMsNow) ++ "ms"
    output.putStr (Emission.stdout [e])
    output.flush
    errors.putStr (Emission.stderr (logLine f time) [e])

/-- The bytes of one line with the newline that ends it, after those read already. -/
partial def readLine (input : IO.FS.Stream) (bytes : Array UInt8) : IO (Array UInt8) := do
  let next ← input.read 1
  if next.isEmpty then return bytes
  let bytes := bytes ++ next.data
  if bytes.back? == some 10 then return bytes else readLine input bytes

/-- Goes on with a session until it is over or the input ends. -/
partial def converse (e : Environment) (f : Log.Filter) (state : Session.State) :
    IO (Except Failure Unit) := do
  match state with
  | .ended result => return result
  | .reading _ =>
    let line := (← readLine (← IO.getStdin) #[]).toList
    if line.isEmpty then return state.result
    let contents ← match Session.wanted? state line with
      | some path => readText path
      | none => pure (.error .notFound)
    let (next, shown) := Session.step ⟨e.prompts, fun _ => contents⟩ state line
    writeAll f shown
    converse e f next

def startSession (e : Environment) (a : Arguments) (f : Log.Filter) : IO ExitStatus := do
  let path := historyPath e a
  let made ← match Session.History.directory? path with
    | some directory => if directory.isEmpty then pure none else makePath directory
    | none => pure none
  writeAll f ((Session.History.events path made (← readText path)).map .log)
  writeAll f (Session.opening ⟨e.prompts, fun _ => .error .notFound⟩)
  let (status, complaint) := endSession (← converse e f (.reading []))
  writeAll f complaint
  return status

def start (e : Environment) (arguments : List String) : IO ExitStatus := do
  match Arguments.parse arguments e.history with
  | .error stop =>
    let (status, shown) := runStopped stop
    writeAll (filter e false) shown
    return status
  | .ok a =>
    let f := filter e a.verbose
    match a.mode with
    | .session => startSession e a f
    | .script path =>
      let (status, shown) := runScript path (← readText path)
      writeAll f shown
      return status
    | .usage =>
      let (status, shown) := runUsage
      writeAll f shown
      return status

end LoxFrontEnd.CommandLine

def main (arguments : List String) : IO UInt32 := do
  let environment : LoxFrontEnd.CommandLine.Environment :=
    ⟨← IO.getEnv "TERM", ← IO.getEnv "RUST_LOG", ← IO.getEnv "LOX_HISTORY",
      ← IO.getEnv "XDG_DATA_HOME", ← IO.getEnv "HOME"⟩
  let status ← LoxFrontEnd.CommandLine.start environment arguments
  return UInt32.ofNat status.code
