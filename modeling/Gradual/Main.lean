import Gradual.Command.Run

/-!
# The program

Reads the files that a request looks at, and prints what the run writes.
-/

namespace Gradual.Program

/-- Why a file could not be read. -/
def faultOf : IO.Error → FileFault
  | .noFileOrDirectory .. => .missing
  | .inappropriateType _ code details =>
    if code = 20 then .notDirectory
    else if code = 21 then .isDirectory
    else .other details code.toNat
  | .permissionDenied _ code details => .other details code.toNat
  | e => .other (toString e) 5

/-- The file at a path, or a directory, whose entries are left out. -/
def loadFile (path : String) : IO Node := do
  if ← (← IO.FS.realPath path).isDir then return .directory []
  return .file (← IO.FS.readBinFile path)

/-- The file or directory at a path with all below it; only source files are read. -/
partial def loadTree (path : String) : IO Node := do
  let place ← IO.FS.realPath path
  if ← place.isDir then
    let entries ← place.readDir
    let nodes ← entries.mapM fun e => do
      return (e.fileName, ← loadTree (Path.child path e.fileName))
    return .directory nodes.toList
  else if Path.isSource path then return .file (← IO.FS.readBinFile path)
  else return .file .empty

/-- What is found at a path, by `load`. -/
def found (load : String → IO Node) (path : String) : IO (String × Except FileFault Node) := do
  match ← (load path).toBaseIO with
  | .ok node => return (path, .ok node)
  | .error e => return (path, .error (faultOf e))

/-- The workspace that the program was built in. -/
def workspace : IO (Option String) := do
  let program ← IO.appPath
  let build := program.parent.bind (·.parent)
  return (build.bind (·.parent)).bind (·.parent) |>.map toString

/-- What is found at the paths that a request looks at. -/
def filesFor (request : Request) (workspace : Option String) : IO Files := do
  let load := match request with
    | .test _ => loadTree
    | _ => loadFile
  let entries ← (request.paths workspace).mapM (found load)
  return fun path => (entries.lookup path).getD (.error .missing)

end Gradual.Program

open Gradual in
/-- Runs the command line. -/
def main (arguments : List String) : IO UInt32 := do
  match Request.ofArguments? arguments with
  | none =>
    IO.eprintln "error: unexpected arguments\n\nFor more information, try '--help'."
    return 2
  | some request =>
    let level := debugLevel (← IO.getEnv "INQUISITOR_DEBUG")
    let workspace ← Program.workspace
    let run := request.run (← Program.filesFor request workspace) level workspace
    run.output.forM fun line => IO.println line
    run.log.forM fun line => IO.eprintln line
    run.errorLines.forM fun line => IO.eprintln line
    return run.status.toUInt32
