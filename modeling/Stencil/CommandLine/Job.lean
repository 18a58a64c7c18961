import Stencil.CommandLine.Arguments
import Stencil.CommandLine.Pair
import Stencil.Document.Basic
import Stencil.Render.Alternate
import Stencil.Text.Control

/-!
# Running the program

What the program writes and how it ends, from the files that it was told to read. The template is read first, then the
values file, then the pairs, which win over the file; the first thing that goes wrong is reported. Control sequences reach
terminals and files that the output is written to, but no other place that standard output or standard error leads to.
-/

namespace Stencil

/-- What reading a file gave. -/
inductive FileText
  /-- The text of the file. -/
  | content (t : Text)
  /-- There is no such file. -/
  | missing
  /-- The path leads to a folder. -/
  | folder
  /-- A step of the path before the last one is a file. -/
  | throughFile

/-- What the program did. -/
structure Report where
  /-- The exit code. -/
  exitCode : Nat
  /-- The text on standard output. -/
  output : Text
  /-- The text on standard error. -/
  errors : Text
  /-- The path and content of the file to write. -/
  file : Option (Text × Text)
  deriving DecidableEq

/-- A text as it is written to a terminal or to another place. -/
def Text.shownOn (terminal : Bool) (t : Text) : Text := if terminal then t else t.withoutControls

/-- A text whose lines all end with a line feed, where they ended with a carriage return with or without one. -/
def Text.unifyLines : Text → Text
  | '\r' :: '\n' :: rest => '\n' :: unifyLines rest
  | '\r' :: rest => '\n' :: unifyLines rest
  | c :: rest => c :: unifyLines rest
  | [] => []

/-- What stops a job. -/
inductive JobError
  | noTemplate (path : Text)
  | noValues (path : Text)
  | folder (path : Text)
  | throughFile (path : Text)
  | namelessValues (path : Text)
  | values (e : DocumentError)
  | noPair (e : NoPair)
  | rendering (e : Failure)

variable [World]

/-- What stops a job, in words. -/
def JobError.message : JobError → Text
  | noTemplate path => "Error: [Errno 2] No such file or directory: " ++ Text.quoted path
  | noValues path => "Error: Values file not found: " ++ path
  | folder path => "Error: [Errno 21] Is a directory: " ++ Text.quoted path
  | throughFile path => "Error: [Errno 20] Not a directory: " ++ Text.quoted path
  | namelessValues path => "Error: Values file must contain a mapping at the top level: " ++ path
  | values e => (if e = .broken then "Unexpected error: " else "Error: ").toList ++ e.message
  | noPair e => "Error: " ++ e.message
  | rendering e => "Error: " ++ e.message.getD []

/-- The name and number of this version. -/
def versionLine : Text := "vtlite 0.1.0\n".toList

namespace Job

/-- The values of a values file. -/
def readValues (path : Text) (file : FileText) : Except JobError (Entries Value) :=
  match file with
  | .missing | .throughFile => .error (.noValues path)
  | .folder => .error (.folder path)
  | .content t =>
    match Document.read t.unifyLines with
    | .ok .empty => .ok []
    | .ok (.mapping entries) => .ok entries
    | .ok .nameless => .error (.namelessValues path)
    | .error e => .error (.values e)

/-- The output of a job. -/
def output? (job : Job) (read : Text → FileText) : Except JobError Text := do
  let template ←
    match read job.template with
    | .content t => .ok t.unifyLines
    | .missing => .error (.noTemplate job.template)
    | .folder => .error (.folder job.template)
    | .throughFile => .error (.throughFile job.template)
  let fromFile ←
    match job.values with
    | none => .ok []
    | some path => readValues path (read path)
  let pairs ← (Pair.readAll job.pairs).mapError .noPair
  let values := pairs.foldl (fun entries pair => Entries.insert pair.1 (.text pair.2) entries) fromFile
  (renderWith ⟨job.preferOther⟩ (.ofEngine none) template values).result.mapError .rendering

/-- What the program does for a job. -/
def run (job : Job) (read : Text → FileText) : Report :=
  match job.output? read with
  | .error e => ⟨1, [], e.message ++ ['\n'], none⟩
  | .ok text =>
    match job.output with
    | none => ⟨0, text, [], none⟩
    | some path => ⟨0, [], [], some (path, text)⟩

end Job

/-- What the program does for its arguments. -/
def runProgram (arguments : List Text) (read : Text → FileText) : Report :=
  match Request.ofArguments arguments with
  | .error _ => ⟨2, [], [], none⟩
  | .ok .version => ⟨0, versionLine, [], none⟩
  | .ok .help => ⟨0, [], [], none⟩
  | .ok (.render job) => job.run read

end Stencil
