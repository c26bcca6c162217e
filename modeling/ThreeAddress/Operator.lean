set_option autoImplicit false

/-! # Operators

The language has four arithmetic operators, eight comparisons (two of them the logical connectives)
and three unary operators. Each has two spellings: the `symbol` it has in a source tree and the
`name` it has in an instruction, where arithmetic and unary names become part of the opcode
(`add_int`) and comparison names travel as an operand of `cmp_T`. -/

namespace ThreeAddress

/-! ## Arithmetic -/

/-- A binary arithmetic operator. -/
inductive ArithOp where
  | add
  | sub
  | mul
  | div
deriving DecidableEq, Repr

namespace ArithOp

/-- Every arithmetic operator. -/
def all : List ArithOp := [add, sub, mul, div]

/-- The spelling in an opcode. -/
def name : ArithOp → String
  | add => "add"
  | sub => "sub"
  | mul => "mul"
  | div => "div"

/-- The spelling in a source tree. -/
def symbol : ArithOp → String
  | add => "+"
  | sub => "-"
  | mul => "*"
  | div => "/"

/-- The operator with the given opcode spelling. -/
def ofName? (s : String) : Option ArithOp := all.find? (fun op => op.name == s)

/-- The operator with the given source spelling. -/
def ofSymbol? (s : String) : Option ArithOp := all.find? (fun op => op.symbol == s)

end ArithOp

/-! ## Comparison -/

/-- A comparison, or a logical connective. -/
inductive CompareOp where
  | lt
  | le
  | gt
  | ge
  | eq
  | ne
  | land
  | lor
deriving DecidableEq, Repr

namespace CompareOp

/-- Every comparison. -/
def all : List CompareOp := [lt, le, gt, ge, eq, ne, land, lor]

/-- The spelling as an operand of `cmp_T`. -/
def name : CompareOp → String
  | lt => "lt"
  | le => "le"
  | gt => "gt"
  | ge => "ge"
  | eq => "eq"
  | ne => "ne"
  | land => "land"
  | lor => "lor"

/-- The spelling in a source tree. -/
def symbol : CompareOp → String
  | lt => "<"
  | le => "<="
  | gt => ">"
  | ge => ">="
  | eq => "=="
  | ne => "!="
  | land => "&&"
  | lor => "||"

/-- Whether the operator connects truth values rather than comparing operands. -/
def isLogical : CompareOp → Bool
  | land | lor => true
  | _ => false

/-- The comparison with the given instruction spelling. -/
def ofName? (s : String) : Option CompareOp := all.find? (fun op => op.name == s)

/-- The comparison with the given source spelling. -/
def ofSymbol? (s : String) : Option CompareOp := all.find? (fun op => op.symbol == s)

end CompareOp

/-! ## Unary -/

/-- A unary operator: the two signs and logical negation. -/
inductive UnaryOp where
  | uadd
  | usub
  | lnot
deriving DecidableEq, Repr

namespace UnaryOp

/-- Every unary operator. -/
def all : List UnaryOp := [uadd, usub, lnot]

/-- The spelling in an opcode. -/
def name : UnaryOp → String
  | uadd => "uadd"
  | usub => "usub"
  | lnot => "lnot"

/-- The spelling in a source tree. -/
def symbol : UnaryOp → String
  | uadd => "+"
  | usub => "-"
  | lnot => "!"

/-- The operator with the given opcode spelling. -/
def ofName? (s : String) : Option UnaryOp := all.find? (fun op => op.name == s)

/-- The operator with the given source spelling. -/
def ofSymbol? (s : String) : Option UnaryOp := all.find? (fun op => op.symbol == s)

end UnaryOp

end ThreeAddress
