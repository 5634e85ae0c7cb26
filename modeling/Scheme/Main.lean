import Scheme.Shell.Run

/-!
# The command

Loads the files named on the command line, evaluates the expression given by `-e`, and reads and
evaluates the standard input line by line if asked to.
-/

namespace Scheme.Shell

/-- More steps than any evaluation takes. -/
def unlimited : Nat := 0x4000000000000000

/-- Send what a console has shown to the standard streams. -/
def flush (c : Console) : IO Console := do
  let stdout ← IO.getStdout
  stdout.putStr c.out
  stdout.flush
  (← IO.getStderr).putStr c.err
  return { c with out := "", err := "" }

/-- The cause of a failure to read a file. -/
def fileError : IO.Error → FileError
  | .inappropriateType _ code _ => if code = 21 then .isDirectory else .notDirectory
  | .illegalOperation .. => .isDirectory
  | .invalidArgument .. => .nameTooLong
  | .permissionDenied .. => .denied
  | _ => .missing

/-- The source text of a file, if it can be read. -/
def openFile (name : String) : IO (Except FileError Reader.Source) := do
  try
    return .ok (Reader.Source.ofBytes (← IO.FS.readBinFile name).toList)
  catch e => return .error (fileError e)

/-- The contents of the history file, or nothing. -/
def readHistory (path : String) : IO (List UInt8) := do
  try return (← IO.FS.readBinFile path).toList catch _ => return []

/-- Read more of the standard input after `bytes`: up to the end of a line, of the buffer or of the
input. -/
partial def readPart (bytes : Array UInt8) : IO (Array UInt8) := do
  let part ← (← IO.getStdin).read 1
  if part.isEmpty then return bytes
  let bytes := bytes ++ part.data
  if part.data.back? = some Line.lineFeed || Line.bufferSize ≤ bytes.size then return bytes
  readPart bytes

/-- Feed the lines of the standard input to the loop, given the bytes that have been read and
whether they are all. -/
partial def feedLines (r : Repl) (bytes : Array UInt8) (ended : Bool) : IO Repl := do
  match Line.next? ended bytes.toList with
  | some (line, rest) =>
    let r := r.feed unlimited (Reader.Script.ofBytes line.bytes)
    feedLines { r with console := ← flush r.console } rest.toArray ended
  | none =>
    if ended then return r.finish
    let more ← readPart bytes
    feedLines r more (more.size = bytes.size)

/-- Run with options. -/
def runIO (o : Options) : IO UInt32 := do
  let mut console := startConsole o
  for name in o.files do
    let (fine, c) := console.load unlimited name (← openFile name)
    console ← flush c
    if !fine then return 1
  let (fine, c) := evalOption unlimited o console
  console ← flush c
  if !fine then return 1
  if o.interactive then
    let path := ((← IO.getEnv "HOME").getD ".") ++ "/" ++ historyFile
    let start := Repl.begin console (History.ofBytes (← readHistory path))
    let r ← feedLines { start with console := ← flush start.console } #[] false
    let _ ← flush r.console
    try IO.FS.writeBinFile path ⟨r.history.script.bytes.toArray⟩ catch _ => pure ()
  return 0

end Scheme.Shell

/-- The command: the exit status is 1 after a failure and 2 after a mistake on the command line. -/
def main (args : List String) : IO UInt32 := do
  match Scheme.Shell.Command.parse args with
  | .run o => Scheme.Shell.runIO o
  | .help =>
    IO.eprint Scheme.Shell.usage
    return 0
  | .mistake message =>
    IO.eprint (message ++ "\n" ++ Scheme.Shell.usage)
    return 2
