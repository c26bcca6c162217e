set_option autoImplicit false

/-! # Output sinks

What a program prints is collected in a sink. A sink may refuse a text, and it may refuse to be
flushed; a refusal gives its reason. What it refuses depends on a state that every collected text
advances, so that a sink need not look at all it has collected again and again. -/

namespace ThreeAddress

/-- Collected text, and what the sink refuses in which state. -/
structure Sink where
  text : String := ""
  state : Nat := 0
  /-- The state after a text has been collected. -/
  advance : Nat → String → Nat := fun state _ => state
  /-- Why a text is refused, if it is. -/
  refuse : Nat → String → Option String := fun _ _ => none
  /-- Why flushing is refused, if it is. -/
  refuseFlush : Nat → Option String := fun _ => none

namespace Sink

/-- A sink that refuses every text once it holds `limit` ends of lines. Its state is their number. -/
def limited (limit : Nat) : Sink where
  advance := fun lines piece => lines + piece.toList.count '\n'
  refuse := fun lines _ => if limit ≤ lines then some "sink full" else none

/-- Collect a text, unless the sink refuses it; an empty text is not even offered. -/
def write (s : Sink) (piece : String) : Sink × Option String :=
  if piece.isEmpty then (s, none)
  else
    match s.refuse s.state piece with
    | some reason => (s, some reason)
    | none => ({ s with text := s.text ++ piece, state := s.advance s.state piece }, none)

/-- Collect a text and the end of its line. They are two writes, so that the sink may take the one
    and refuse the other. -/
def writeLine (s : Sink) (line : String) : Sink × Option String :=
  match s.write line with
  | (s, some reason) => (s, some reason)
  | (s, none) => s.write "\n"

/-- Why flushing is refused, if it is. -/
def flush (s : Sink) : Option String := s.refuseFlush s.state

end Sink

end ThreeAddress
