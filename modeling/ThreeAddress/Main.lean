import ThreeAddress.CommandLine.Session

set_option autoImplicit false

/-! # The command line program

The outer layer: reading and writing files, printing, and stepping a machine until it stops. -/

namespace ThreeAddress.CommandLine

/-- Carry out an action; an exception becomes the reason of its failure. -/
def attempt {α : Type} (action : IO α) : IO (Except String α) := do
  try
    return .ok (← action)
  catch e =>
    return .error e.toString

/-- The variables of a process, from a text in which each is closed by a null character. -/
def environmentEntries (text : String) : List (String × String) :=
  (text.splitOn "\x00").filterMap fun entry =>
    match entry.splitOn "=" with
    | key :: value => if value.isEmpty then none else some (key, "=".intercalate value)
    | [] => none

/-- The host as the operating system describes it. -/
def currentHost : IO HostInfo := do
  let stat ← attempt (IO.FS.readFile "/proc/self/stat")
  let environ ← attempt (IO.FS.readFile "/proc/self/environ")
  let directory ← attempt (return toString (← IO.currentDir))
  let pid := stat.toOption.bind fun text => (text.splitOn " ").head?.bind String.toNat?
  let environment := (environ.toOption.map environmentEntries).getD []
  return {
    pid := Int64.ofNat (pid.getD 0)
    directory
    environment := fun key => environment.lookup key }

/-- The texts of the files that a command reads, as far as they can be read. -/
def openFiles (command : Command) : IO FileReader := do
  let mut texts : List (String × Except String String) := []
  for path in command.reads do
    texts := (path, ← attempt (IO.FS.readFile path)) :: texts
  let found := texts
  return fun path => (found.lookup path).getD (.error notFound)

/-- Step a machine until it stops, printing what it prints. -/
partial def runToEnd (m : Machine) : IO (Except Fault Unit) := do
  match m.status with
  | .running =>
    let (m, result) := m.step
    unless m.sink.text.isEmpty do IO.print m.sink.text
    match result with
    | .ok () => runToEnd { m with sink := {} }
    | .error fault => return .error fault
  | _ => return m.finish.2

/-- Do what a command still needs. -/
def Pending.complete : Pending → IO Report
  | .nothing report => return report
  | .save out path text => do
    match ← attempt (IO.FS.writeFile path text) with
    | .ok () => return .ofSave out path none
    | .error reason => return .ofSave out path (some reason)
  | .execute out machine => do
    IO.print out
    let result ← runToEnd machine.start
    return .ofRun "" (machine, result)

/-- Print a report. -/
def Report.print (r : Report) : IO UInt32 := do
  IO.print r.out
  IO.eprint r.err
  return r.code.toUInt32

end ThreeAddress.CommandLine

open ThreeAddress.CommandLine in
/-- Carry out a command line. -/
def main (words : List String) : IO UInt32 := do
  match parse words with
  | .error stop => (Report.ofStop stop).print
  | .ok command =>
    let report ← (command.prepare (← currentHost) (← openFiles command)).complete
    report.print
