import ThreeAddress.CommandLine.Command
import ThreeAddress.CommandLine.FileTree
import ThreeAddress.Compile
import ThreeAddress.Graph.Dump
import ThreeAddress.Machine.Machine
import ThreeAddress.Source.Json

set_option autoImplicit false

/-! # Sessions

What a command does, apart from touching files and the terminal. `Command.prepare` goes as far as
possible given the texts of files: to the end of a `build`, whose result may still have to be
saved, or to a machine that is ready to run. `Report` is what the user sees of it all. -/

namespace ThreeAddress.CommandLine

/-- The exit code and the two outputs of a session. -/
structure Report where
  code : Nat := 0
  out : String := ""
  err : String := ""
deriving DecidableEq, Repr

/-- The report of a failure, behind what has been printed before it. -/
def Report.failed (out : String) (f : Failure) : Report where
  code := 1
  out := out
  err := "Error: " ++ f.render ++ "\n"

/-- What a command still needs from the outside. -/
inductive Pending where
  | nothing (report : Report)
  /-- Write `text` to `path`; `out` has been printed. -/
  | save (out path text : String)
  /-- Run a machine; `out` has been printed. -/
  | execute (out : String) (machine : Machine)

/-- How to read a file: its text, or why it cannot be read. -/
abbrev FileReader := String → Except String String

/-! ## The parts of a command -/

/-- The text of a file. -/
def readFile (files : FileReader) (path : String) : Except Failure String :=
  (files path).mapError fun reason => ⟨.files, reason⟩

/-- What a reader finds in a text. -/
def decode {α : Type} (what : String) (read? : String → Option α) (text : String) :
    Except Failure α :=
  match read? text with
  | some a => .ok a
  | none => .error (.malformed what)

/-- The block graph of a source file. -/
def loadGraph (files : FileReader) (path : String) : Except Failure BlockGraph := do
  let text ← readFile files path
  let source ← decode "source tree" Source.Program.read? text
  source.graph

/-- The settings that the options ask for: a file first, then what the options change. -/
def RunOptions.settings (o : RunOptions) (files : FileReader) : Except Failure Settings := do
  let settings ←
    match o.config with
    | none => pure {}
    | some path => decode "settings" Settings.read? (← readFile files path)
  return { settings with
    unknownOpcode := if o.lenient then .warn else settings.unknownOpcode
    stepLimit := o.stepLimit <|> settings.stepLimit }

/-- The machine that runs a program under the given options. -/
def RunOptions.machine (o : RunOptions) (host : HostInfo) (files : FileReader)
    (program : Program) : Except Failure Machine := do
  let settings ← o.settings files
  let capabilities ← (settings.capabilityList host).mapError Fault.toFailure
  return .create program capabilities settings {}

/-- Get a machine ready. -/
def RunOptions.prepare (o : RunOptions) (host : HostInfo) (files : FileReader) (out : String)
    (program : Program) : Pending :=
  match o.machine host files program with
  | .ok machine => .execute out machine
  | .error f => .nothing (.failed out f)

/-- The result of building a program: shown, saved, or both. -/
def prepareBuild (output : Option String) (showBlocks showInstructions : Bool) (dump : String)
    (program : Program) : Pending :=
  let out := dump ++ if showInstructions then program.listing else ""
  let text := program.toJson.indented
  match output with
  | some path => .save out path text
  | none =>
    if showBlocks || showInstructions then .nothing { out } else .nothing { out := text ++ "\n" }

/-- Carry out a command as far as possible. -/
def Command.prepare (host : HostInfo) (files : FileReader) : Command → Pending
  | .build input output showBlocks showInstructions =>
    match loadGraph files input with
    | .error f => .nothing (.failed "" f)
    | .ok graph =>
      let dump := if showBlocks then graph.dump else ""
      match linkGraph graph with
      | .error f => .nothing (.failed dump f)
      | .ok program => prepareBuild output showBlocks showInstructions dump program
  | .run input showInstructions options =>
    match loadGraph files input >>= linkGraph with
    | .error f => .nothing (.failed "" f)
    | .ok program =>
      options.prepare host files (if showInstructions then program.listing else "") program
  | .exec input options =>
    match readFile files input >>= decode "program" Program.read? with
    | .error f => .nothing (.failed "" f)
    | .ok program => options.prepare host files "" program

/-! ## Reports -/

/-- The report of a build whose result was to be saved, given why it could not be, if so. -/
def Report.ofSave (out path : String) : Option String → Report
  | none => { out, err := "Instructions written to: " ++ path ++ "\n" }
  | some reason => .failed out ⟨.files, reason⟩

/-- The report of a run. -/
def Report.ofRun (out : String) : Machine × Except Fault Unit → Report
  | (m, .ok ()) => { out := out ++ m.sink.text }
  | (m, .error fault) => .failed (out ++ m.sink.text) fault.toFailure

/-- What is printed instead of carrying out a command. -/
def Report.ofStop : Stop → Report
  | .version => { out := "exprc 0.1.0\n" }
  | .help => { out := usageText }
  | .usage => { code := 2, err := usageText }
where
  /-- How the command line is to be used. -/
  usageText : String :=
    "Expr three-address compiler and interpreter\n\n" ++
    "Usage:\n" ++
    "  exprc build <INPUT> [-o <FILE>] [--show-blocks] [-c]\n" ++
    "  exprc run <INPUT> [-c] [--config <FILE>] [--lenient] [--step-limit <N>]\n" ++
    "  exprc exec <INPUT> [--config <FILE>] [--lenient] [--step-limit <N>]\n"

/-! ## Whole sessions on a tree of files -/

/-- The reason why something is not there. -/
def notFound : String := "No such file or directory"

/-- The reader of a tree of files. -/
def FileTree.reader (t : FileTree) : FileReader := fun path =>
  match t.read? path with
  | some text => .ok text
  | none => .error notFound

/-- A session on a tree of files, in which a program may take `fuel` steps: the report and the files
    afterwards. -/
def session (host : HostInfo) (fuel : Nat) (t : FileTree) (words : List String) :
    Option (Report × FileTree) :=
  match parse words with
  | .error stop => some (.ofStop stop, t)
  | .ok command =>
    match command.prepare host t.reader with
    | .nothing report => some (report, t)
    | .save out path text =>
      match t.write? path text with
      | some t => some (.ofSave out path none, t)
      | none => some (.ofSave out path (some notFound), t)
    | .execute out machine => (machine.run fuel).map fun result => (.ofRun out result, t)

end ThreeAddress.CommandLine
