import ThreeAddress.Proofs.Layout.Linking
import ThreeAddress.Proofs.Machine.Steps

set_option autoImplicit false

/-! # Execution of block graphs

A `Walk` executes a graph as it stands, without laying it out. It is in a block, at one of its
instructions or behind the last one, and remembers where the regions around the block go on: an arm
of a conditional returns to the block behind the conditional, the body of a loop to the loop
itself. Where nothing is left to return to, the walk has come to its end.

A walk has the same settings, store and sink as a machine. An instruction counts as one step, and so
does each passage from a block to another. -/

namespace ThreeAddress

/-- A graph and the state of its execution. `index` counts the instructions of the block that are
    done, and `returns` has the blocks where the regions around it go on, the innermost first. -/
structure Walk where
  graph : BlockGraph
  capabilities : List Capability
  settings : Settings
  sink : Sink
  status : Status
  block : BlockId
  index : Nat
  returns : List BlockId
  store : Store
  steps : Nat

namespace Walk

/-- A walk that sets out from the start block. -/
def start (graph : BlockGraph) (capabilities : List Capability) (settings : Settings)
    (sink : Sink) : Walk where
  graph := graph
  capabilities := capabilities
  settings := settings
  sink := sink
  status := .running
  block := graph.start
  index := 0
  returns := []
  store := .empty
  steps := 0

/-- The instruction that is next, if there is one left in the block. -/
def next? (w : Walk) : Option Instr := (w.graph.block? w.block).bind fun b => b.code[w.index]?

/-- The address that a fault reports: where the layout of the graph has the next instruction. -/
def address (w : Walk) : Nat := w.graph.origin w.block + w.index

/-- Stop with a fault. -/
def fail (w : Walk) (fault : Fault) : Walk := { w with status := .failed fault }

/-- The limit, if no further step may be taken. -/
def atLimit (w : Walk) : Option UInt64 :=
  w.settings.stepLimit.filter (fun limit => decide (limit.toNat ≤ w.steps))

/-- Carry out an effect. Instructions of blocks do not lead elsewhere. -/
def commit (w : Walk) : Effect → Walk
  | .write name value => { w with store := w.store.set name value }
  | .allocate name type => { w with store := w.store.allocate name type }
  | .output line =>
    match w.sink.writeLine line with
    | (sink, none) => { w with sink := sink }
    | (sink, some reason) => fail { w with sink := sink } (.output reason)
  | .skip | .goto _ => w

/-- Execute the instruction `i`, which is the next one. -/
def execute (w : Walk) (i : Instr) : Walk :=
  match i.effect w.capabilities w.settings.unknownOpcode w.address w.store with
  | .ok effect => commit { w with index := w.index + 1 } effect
  | .error fault => w.fail fault

/-- Go on at the beginning of a block. -/
def enter (w : Walk) (id : BlockId) (returns : List BlockId) : Walk :=
  { w with block := id, index := 0, returns := returns }

/-- Go on in one of two ways, as the truth value in a cell says. -/
def choose (w : Walk) (test : String) (ifTrue ifFalse : Walk) : Walk :=
  match w.store.readTyped test .bool with
  | .ok c => if c = .bool true then ifTrue else ifFalse
  | .error fault => w.fail fault

/-- Go on behind the instructions of the block `b`. -/
def turn (w : Walk) (b : Block) : Walk :=
  match b.kind, b.next with
  | .straight, some next => w.enter next w.returns
  | .conditional test thenBlock none, some merge =>
    w.choose test (w.enter thenBlock (merge :: w.returns)) (w.enter merge w.returns)
  | .conditional test thenBlock (some elseBlock), some merge =>
    w.choose test (w.enter thenBlock (merge :: w.returns))
      (w.enter elseBlock (merge :: w.returns))
  | .loop test body, some exit =>
    w.choose test (w.enter body (w.block :: w.returns)) (w.enter exit w.returns)
  | _, none =>
    match w.returns with
    | [] => w
    | target :: returns => w.enter target returns

/-- Whether nothing is left to do behind the block `b`. -/
def atEnd (w : Walk) (b : Block) : Bool :=
  decide (b.code.size ≤ w.index) && b.next.isNone && w.returns.isEmpty

/-- One step of a running walk. -/
def stepRunning (w : Walk) : Walk :=
  match w.graph.block? w.block with
  | none => w.fail (.unresolvedLabel w.block)
  | some b =>
    if w.atEnd b then { w with status := .halted }
    else
      match w.atLimit with
      | some limit => w.fail (.stepLimitExceeded limit)
      | none =>
        let counted := { w with steps := w.steps + 1 }
        match b.code[w.index]? with
        | some i => counted.execute i
        | none => counted.turn b

/-- One step. A walk that has stopped stays as it is. -/
def step (w : Walk) : Walk :=
  match w.status with
  | .running => w.stepRunning
  | _ => w

/-- How a run along a walk ends: with the fault that has stopped it, or with the refusal of the
    output to be flushed. -/
def conclude (w : Walk) : Except Fault Unit :=
  match w.status with
  | .failed fault => .error fault
  | _ =>
    match w.sink.flush with
    | some reason => .error (.output reason)
    | none => .ok ()

/-- The walk after `n` steps. -/
def after (w : Walk) (n : Nat) : Walk := step^[n] w

theorem after_succ (w : Walk) (n : Nat) : w.after (n + 1) = w.step.after n := rfl

theorem after_succ' (w : Walk) (n : Nat) : w.after (n + 1) = (w.after n).step :=
  Function.iterate_succ_apply' _ n w

theorem after_add (w : Walk) (n k : Nat) : w.after (n + k) = (w.after n).after k := by
  rw [Nat.add_comm]
  exact Function.iterate_add_apply _ k n w

theorem step_of_not_running {w : Walk} (h : w.status ≠ .running) : w.step = w := by
  unfold step
  split
  · contradiction
  · rfl

section Step

variable {w : Walk} {b : Block}

theorem step_halt (h : w.status = .running) (hb : w.graph.block? w.block = some b)
    (hend : w.atEnd b = true) : w.step = { w with status := .halted } := by
  simp [step, h, stepRunning, hb, hend]

theorem step_execute (h : w.status = .running) (hb : w.graph.block? w.block = some b) {i : Instr}
    (hi : b.code[w.index]? = some i) :
    w.step = match w.atLimit with
      | some limit => w.fail (.stepLimitExceeded limit)
      | none => execute { w with steps := w.steps + 1 } i := by
  have hlt : w.index < b.code.size := (Array.getElem?_eq_some_iff.1 hi).1
  have hend : w.atEnd b = false := by
    rw [atEnd, decide_eq_false (Nat.not_le.2 hlt), Bool.false_and, Bool.false_and]
  simp [step, h, stepRunning, hb, hend, hi]

theorem step_turn (h : w.status = .running) (hb : w.graph.block? w.block = some b)
    (hnone : b.code[w.index]? = none) (hend : w.atEnd b = false) :
    w.step = match w.atLimit with
      | some limit => w.fail (.stepLimitExceeded limit)
      | none => turn { w with steps := w.steps + 1 } b := by
  simp [step, h, stepRunning, hb, hend, hnone]

end Step

end Walk

/-! ## What is executed

An event is an instruction other than a jump at the moment at which it is executed, with the store
and the output of that moment. -/

/-- The event of executing `i`, if it is no jump. -/
def Instr.event? (i : Instr) (store : Store) (sink : Sink) : Option (Instr × Store × String) :=
  if i.isJump then none else some (i, store, sink.text)

/-- The event of the next step of a machine, if it executes an instruction other than a jump. -/
def Machine.event? (m : Machine) : Option (Instr × Store × String) :=
  match m.status, m.atLimit, m.program.code[m.pc]? with
  | .running, none, some i => i.event? m.store m.sink
  | _, _, _ => none

/-- The events of the first `n` steps of a machine. -/
def Machine.trace (m : Machine) (n : Nat) : List (Instr × Store × String) :=
  (List.range n).filterMap fun k => (m.after k).event?

/-- The event of the next step of a walk, if it executes an instruction. -/
def Walk.event? (w : Walk) : Option (Instr × Store × String) :=
  match w.status, w.atLimit, w.next? with
  | .running, none, some i => i.event? w.store w.sink
  | _, _, _ => none

/-- The events of the first `n` steps of a walk. -/
def Walk.trace (w : Walk) (n : Nat) : List (Instr × Store × String) :=
  (List.range n).filterMap fun k => (w.after k).event?

end ThreeAddress
