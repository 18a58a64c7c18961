import Stencil.CommandLine.Job

/-!
# The program

Reads the files that the arguments name, runs the job and writes what it gives. Values files hold no objects of a caller's, so the
program runs in the plain world.
-/

namespace Stencil

open scoped World

/-- The usage of the program in one line. -/
def usageLine : String := "Usage: [--values FILE] [--var NAME=VALUE] [--prefer-velocity] [-o FILE] [-v] [--version] TEMPLATE"

/-- The system's code for reading a folder as a file. -/
def isFolderCode : UInt32 := 21

/-- What reading a file gives. -/
def readFileText (path : Text) : IO FileText := do
  try
    return .content (← IO.FS.readFile (String.ofList path)).toList
  catch
    | .inappropriateType _ code _ => return if code = isFolderCode then .folder else .throughFile
    | _ => return .missing

/-- Writes what the program gives, and its exit code. -/
def writeReport (report : Report) : IO UInt32 := do
  IO.print (String.ofList (report.output.shownOn (← (← IO.getStdout).isTty)))
  IO.eprint (String.ofList (report.errors.shownOn (← (← IO.getStderr).isTty)))
  match report.file with
  | none => pure ()
  | some (path, content) =>
    IO.FS.createDirAll (String.ofList (Path.parent path))
    IO.FS.writeFile (String.ofList path) (String.ofList content)
  return report.exitCode.toUInt32

/-- Runs a job on the files it names. -/
def runJob (job : Job) : IO UInt32 := do
  let template ← readFileText job.template
  let values ← (job.values.getD job.template |> readFileText)
  if job.verbose then IO.eprintln s!"Rendering {String.ofList job.template}"
  writeReport (job.run fun path => if path = job.template then template else values)

end Stencil

open scoped Stencil.World in
/-- Runs the program. -/
def main (arguments : List String) : IO UInt32 := do
  match Stencil.Request.ofArguments (arguments.map String.toList) with
  | .error _ =>
    IO.eprintln Stencil.usageLine
    return 2
  | .ok .help =>
    IO.println Stencil.usageLine
    return 0
  | .ok .version => Stencil.writeReport ⟨0, Stencil.versionLine, [], none⟩
  | .ok (.render job) => Stencil.runJob job
