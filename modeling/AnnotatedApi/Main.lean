import AnnotatedApi.Command.Run

/-! The command. It takes a picture of the part of the disk that the arguments name, runs on it, and
prints or writes the result. -/
open AnnotatedApi

namespace AnnotatedApi.Command

/-- Adds what is at a path of the real disk, without the directories that are never scanned. -/
partial def addTree (d : Disk) (path : String) : IO Disk := do
  let place := (← IO.currentDir) / path
  if ← place.isDir then
    let mut d := (d.makeDirectories? path).getD d
    for e in ← place.readDir do
      if Scan.isHidden e.fileName || e.fileName ∈ Scan.skippedNames then continue
      d ← addTree d (Path.join path [e.fileName])
    return d
  else if ← place.pathExists then return (d.write? path (← IO.FS.readBinFile place)).getD d
  else return d

/-- Adds the directories above a path, or the file that stands in their way. -/
partial def addAbove (d : Disk) (path : String) : IO Disk := do
  match Path.parent? path with
  | none => return d
  | some "" => return d
  | some above =>
    let d ← addAbove d above
    let place := (← IO.currentDir) / above
    if ← place.isDir then return (d.makeDirectories? above).getD d
    else addTree d above

def addPath (d : Disk) (path : String) : IO Disk := do
  addTree (← addAbove d path) path

/-- The part of the disk that the arguments name. -/
def picture (a : Arguments) : IO Disk := do
  let here := (Path.segments (← IO.currentDir).toString).filter (!Path.isVoid ·)
  let d : Disk := { root := Entry.put (.directory []) (.directory []) here, here }
  (a.config.toList ++ a.inputs ++ a.output.toList).foldlM addPath d

partial def readInput (stream : IO.FS.Stream) (before : ByteArray) : IO ByteArray := do
  let bytes ← stream.read 65536
  if bytes.isEmpty then return before else readInput stream (before ++ bytes)

def usage : String := "\n".intercalate [
  "Usage: [OPTIONS] [INPUTS]...",
  "",
  "Options:",
  "  -c, --config <FILE>          Settings file (JSON, or YAML for .yaml/.yml)",
  "      --title <TITLE>          API title",
  "      --api-version <VERSION>  API version",
  "      --server <URL>           Server URL (repeatable)",
  "  -e, --extension <EXT>        File extension scanned in directories (repeatable)",
  "  -f, --format <FORMAT>        yaml or json",
  "  -o, --output <FILE>          Output file",
  "  -v, --verbose                Verbose output",
  "  -h, --help                   Print help",
  "  -V, --version                Print version"]

def UsageFault.message : UsageFault → String
  | unknownArgument => "unexpected argument"
  | invalidValue => "invalid value"
  | conflict => "an argument cannot be used multiple times"
  | tooManyValues => "unexpected value"
  | help => usage
  | version => "0.1.0"

def store (outcome : Arguments.Outcome) (path : String) : IO Unit := do
  let base ← IO.currentDir
  if let some above := Path.parent? path then IO.FS.createDirAll (base / above)
  match outcome.disk.find? path with
  | some (.file bytes) => IO.FS.writeBinFile (base / path) bytes
  | _ => return

def execute (a : Arguments) : IO UInt32 := do
  let disk ← picture a
  let input ← if a.inputs.isEmpty then readInput (← IO.getStdin) .empty else pure .empty
  match a.run disk input with
  | .error failure =>
    IO.eprintln ("Error: " ++ failure.message)
    return 1
  | .ok outcome =>
    for warning in outcome.warnings do
      IO.eprintln warning.message
    match a.output with
    | some path => store outcome path
    | none => IO.print outcome.printed
    return 0

end AnnotatedApi.Command

def main (arguments : List String) : IO UInt32 := do
  match Command.Arguments.parse arguments with
  | .ok a => Command.execute a
  | .error fault =>
    if fault = .help || fault = .version then
      IO.println fault.message
      return 0
    else
      IO.eprintln ("error: " ++ fault.message)
      return 2
