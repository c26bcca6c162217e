import ThreeAddress.Machine.Effect
import ThreeAddress.Machine.Sink
import ThreeAddress.Program

set_option autoImplicit false

/-! # The machine

A machine runs a program instruction by instruction. It has to be started by `reset`; then every
`step` executes one instruction, until execution reaches the end of the program or a fault occurs,
and from there on nothing changes any more until the next `reset`. `run` starts a machine that has
not been started and steps until it stops. -/

namespace ThreeAddress

/-- How far a machine has come. -/
inductive Status where
  /-- Not started yet. -/
  | setup
  | running
  /-- The end of the program was reached. -/
  | halted
  | failed (fault : Fault)
deriving DecidableEq, Repr

/-- A machine: the program and what it may use, and the state of its execution. `pc` is the address
    of the next instruction, `hits` counts how often each instruction was executed and `steps` how
    many were in all. -/
structure Machine where
  program : Program
  capabilities : List Capability
  settings : Settings
  sink : Sink
  status : Status
  pc : Nat
  store : Store
  hits : Array Nat
  steps : Nat

namespace Machine

/-- A machine that has not been started. -/
def create (program : Program) (capabilities : List Capability) (settings : Settings)
    (sink : Sink) : Machine where
  program := program
  capabilities := capabilities
  settings := settings
  sink := sink
  status := .setup
  pc := 0
  store := .empty
  hits := Array.replicate program.size 0
  steps := 0

/-- Forget everything but the output, and start at the first instruction. -/
def reset (m : Machine) : Machine :=
  { m with
    status := .running
    pc := 0
    store := .empty
    hits := Array.replicate m.program.size 0
    steps := 0 }

/-- How often the instruction at an address was executed. -/
def hitCount (m : Machine) (address : Nat) : Nat := m.hits[address]?.getD 0

/-- Stop with a fault. -/
def fail (m : Machine) (fault : Fault) : Machine × Except Fault Unit :=
  ({ m with status := .failed fault }, .error fault)

/-- Whether no further instruction may be executed. -/
def atLimit (m : Machine) : Option UInt64 :=
  m.settings.stepLimit.filter (fun limit => decide (limit.toNat ≤ m.steps))

/-- Count the instruction at `pc` and move behind it. -/
def advance (m : Machine) : Machine :=
  { m with hits := m.hits.modify m.pc (· + 1), steps := m.steps + 1, pc := m.pc + 1 }

/-- Carry out an effect. -/
def commit (m : Machine) : Effect → Machine × Except Fault Unit
  | .skip => (m, .ok ())
  | .write name value => ({ m with store := m.store.set name value }, .ok ())
  | .allocate name type => ({ m with store := m.store.allocate name type }, .ok ())
  | .goto address => ({ m with pc := address }, .ok ())
  | .output line =>
    match m.sink.writeLine line with
    | (sink, none) => ({ m with sink := sink }, .ok ())
    | (sink, some reason) => fail { m with sink := sink } (.output reason)

/-- Execute the instruction `i`, which is the one at `pc`. -/
def execute (m : Machine) (i : Instr) : Machine × Except Fault Unit :=
  match i.effect m.capabilities m.settings.unknownOpcode m.pc m.store with
  | .ok effect => m.advance.commit effect
  | .error fault => m.advance.fail fault

/-- One step of a running machine: halt at the end of the program, or execute an instruction. -/
def stepRunning (m : Machine) : Machine × Except Fault Unit :=
  if m.pc = m.program.size then ({ m with status := .halted }, .ok ())
  else
    match m.program.code[m.pc]? with
    | none => m.fail (.addressOutOfRange m.pc m.program.size)
    | some i =>
      match m.atLimit with
      | some limit => m.fail (.stepLimitExceeded limit)
      | none => m.execute i

/-- One step. A machine that has stopped stays as it is. -/
def step (m : Machine) : Machine × Except Fault Unit :=
  match m.status with
  | .running => m.stepRunning
  | .halted => (m, .ok ())
  | .failed fault => (m, .error fault)
  | .setup => (m, .error .notStarted)

/-- How a run ends once the machine has stopped: the output is flushed, and a fault is reported. -/
def finish (m : Machine) : Machine × Except Fault Unit :=
  match m.sink.flush with
  | some reason => (m, .error (.output reason))
  | none =>
    match m.status with
    | .failed fault => (m, .error fault)
    | _ => (m, .ok ())

/-- Step while the machine is running, but at most `fuel` times; `none` if it is still running then.
    A fault ends the run at once. -/
def runFor : Nat → Machine → Option (Machine × Except Fault Unit)
  | fuel, m =>
    match m.status with
    | .running =>
      match fuel with
      | 0 => none
      | fuel + 1 =>
        match m.step with
        | (m, .ok ()) => runFor fuel m
        | (m, .error fault) => some (m, .error fault)
    | _ => some m.finish

/-- Start the machine if it has not been started. -/
def start (m : Machine) : Machine :=
  match m.status with
  | .setup => m.reset
  | _ => m

/-- Run until the machine stops, in at most `fuel` steps. -/
def run (fuel : Nat) (m : Machine) : Option (Machine × Except Fault Unit) := runFor fuel m.start

end Machine

end ThreeAddress
