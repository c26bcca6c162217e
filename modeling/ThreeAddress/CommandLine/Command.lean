set_option autoImplicit false

/-! # Commands

The command line, from its words to a `Command`. There are three commands, each with one input file
and options of its own before or behind it. An option with a value takes it from the next word or
behind an equals sign; one-letter options may be drawn together. No option may be given twice, and
`--` ends the options. -/

namespace ThreeAddress.CommandLine

/-- How a program is to be run. -/
structure RunOptions where
  config : Option String := none
  lenient : Bool := false
  stepLimit : Option UInt64 := none
deriving DecidableEq, Repr

/-- What the command line asks for. -/
inductive Command where
  /-- Compile a source file, and write or show the result. -/
  | build (input : String) (output : Option String) (showBlocks showInstructions : Bool)
  /-- Compile a source file and run it. -/
  | run (input : String) (showInstructions : Bool) (options : RunOptions)
  /-- Run a compiled file. -/
  | exec (input : String) (options : RunOptions)
deriving DecidableEq, Repr

/-- The files that a command reads. -/
def Command.reads : Command → List String
  | build input .. => [input]
  | run input _ options => input :: options.config.toList
  | exec input options => input :: options.config.toList

/-- Why the words are not a command. -/
inductive Stop where
  | usage
  | help
  | version
deriving DecidableEq, Repr

/-! ## Options -/

/-- An option without a value. -/
inductive Flag where
  | verbose
  | showBlocks
  | showInstructions
  | lenient
  | help
  | version
deriving DecidableEq, Repr

/-- An option with a value. -/
inductive Setting where
  | output
  | config
  | stepLimit
deriving DecidableEq, Repr

/-- What an option stands for. -/
inductive OptionKind where
  | flag (flag : Flag)
  | setting (setting : Setting)
deriving DecidableEq, Repr

/-- An option with its spellings. -/
structure OptionSpec where
  long : String
  short : Option Char := none
  kind : OptionKind
deriving DecidableEq, Repr

/-- The options that are accepted everywhere. -/
def commonOptions : List OptionSpec :=
  [⟨"verbose", some 'v', .flag .verbose⟩, ⟨"help", some 'h', .flag .help⟩]

/-- The options in front of the name of a command. -/
def mainOptions : List OptionSpec := commonOptions ++ [⟨"version", some 'V', .flag .version⟩]

/-- The options of a command that runs a program. -/
def runOptions : List OptionSpec :=
  [⟨"config", none, .setting .config⟩, ⟨"lenient", none, .flag .lenient⟩,
   ⟨"step-limit", none, .setting .stepLimit⟩]

/-- The option that shows the instructions. -/
def showOption : OptionSpec := ⟨"show-instructions", some 'c', .flag .showInstructions⟩

/-- The name of a command. -/
inductive CommandName where
  | build
  | run
  | exec
deriving DecidableEq, Repr

namespace CommandName

/-- The command with the given name. -/
def ofString? : String → Option CommandName
  | "build" => some build
  | "run" => some run
  | "exec" => some exec
  | _ => none

/-- The options of a command. -/
def options : CommandName → List OptionSpec
  | build => commonOptions ++
    [⟨"output", some 'o', .setting .output⟩, ⟨"show-blocks", none, .flag .showBlocks⟩, showOption]
  | run => commonOptions ++ [showOption] ++ runOptions
  | exec => commonOptions ++ runOptions

end CommandName

/-! ## Words -/

/-- What has been read so far. -/
structure Words where
  flags : List Flag := []
  settings : List (Setting × String) := []
  input : Option String := none
deriving DecidableEq, Repr

/-- An unsigned number of 64 bits in decimal digits, perhaps behind a plus sign. -/
def number? (s : String) : Option UInt64 :=
  let digits := match s.toList with
    | '+' :: rest => rest
    | cs => cs
  if digits.isEmpty || !digits.all Char.isDigit then none
  else
    let n := Nat.ofDigitChars 10 digits 0
    if n < UInt64.size then some n.toUInt64 else none

namespace Words

/-- A flag is given. Asking for help or for the version ends everything. -/
def addFlag (w : Words) (flag : Flag) : Except Stop Words :=
  match flag with
  | .help => .error .help
  | .version => .error .version
  | flag => if flag ∈ w.flags then .error .usage else .ok { w with flags := flag :: w.flags }

/-- Whether a value is acceptable: a number for the step limit, else a path, which is not empty. -/
def admits : Setting → String → Bool
  | .stepLimit, value => (number? value).isSome
  | _, value => !value.isEmpty

/-- An option with a value is given. -/
def addSetting (w : Words) (setting : Setting) (value : String) : Except Stop Words :=
  if (w.settings.lookup setting).isSome || !admits setting value then .error .usage
  else .ok { w with settings := (setting, value) :: w.settings }

/-- The input file is given. -/
def addInput (w : Words) (path : String) : Except Stop Words :=
  if w.input.isSome || path.isEmpty then .error .usage else .ok { w with input := some path }

/-- Read one-letter options that are drawn together. The first that takes a value takes the rest of
    the word, behind an equals sign if there is one; if nothing is left, its value is still
    missing. -/
def addShort (specs : List OptionSpec) (w : Words) :
    List Char → Except Stop (Words × Option Setting)
  | [] => .ok (w, none)
  | c :: rest =>
    match specs.find? (fun s => s.short == some c) with
    | none => .error .usage
    | some ⟨_, _, .flag flag⟩ =>
      match w.addFlag flag with
      | .ok w => addShort specs w rest
      | .error e => .error e
    | some ⟨_, _, .setting setting⟩ =>
      match rest with
      | [] => .ok (w, some setting)
      | '=' :: value => (w.addSetting setting (String.ofList value)).map (·, none)
      | value => (w.addSetting setting (String.ofList value)).map (·, none)

/-- Read a long option, given its name and what stands behind an equals sign. -/
def addLong (specs : List OptionSpec) (w : Words) (name : String) (value : Option String) :
    Except Stop (Words × Option Setting) :=
  match specs.find? (fun s => s.long == name), value with
  | none, _ => .error .usage
  | some ⟨_, _, .flag flag⟩, none => (w.addFlag flag).map (·, none)
  | some ⟨_, _, .flag _⟩, some _ => .error .usage
  | some ⟨_, _, .setting setting⟩, none => .ok (w, some setting)
  | some ⟨_, _, .setting setting⟩, some value => (w.addSetting setting value).map (·, none)

/-- Read a word that starts with a hyphen. -/
def addOption (specs : List OptionSpec) (w : Words) (word : List Char) :
    Except Stop (Words × Option Setting) :=
  match word with
  | '-' :: '-' :: rest =>
    match rest.span (· ≠ '=') with
    | (name, []) => w.addLong specs (String.ofList name) none
    | (name, _ :: value) => w.addLong specs (String.ofList name) (some (String.ofList value))
  | '-' :: rest => w.addShort specs rest
  | _ => .error .usage

end Words

/-- Whether a word is an option rather than a value. -/
def isOption (word : String) : Bool :=
  match word.toList with
  | '-' :: _ :: _ => true
  | _ => false

/-- Read the words behind the name of a command. -/
def readWords (specs : List OptionSpec) (w : Words) : List String → Except Stop Words
  | [] => .ok w
  | "--" :: rest => rest.foldlM Words.addInput w
  | word :: rest =>
    if isOption word then
      match w.addOption specs word.toList, rest with
      | .error e, _ => .error e
      | .ok (w, none), rest => readWords specs w rest
      | .ok (_, some _), [] => .error .usage
      | .ok (w, some setting), value :: rest =>
        if isOption value then .error .usage
        else
          match w.addSetting setting value with
          | .ok w => readWords specs w rest
          | .error e => .error e
    else
      match w.addInput word with
      | .ok w => readWords specs w rest
      | .error e => .error e

/-! ## Commands -/

/-- How the words ask a program to be run. -/
def Words.runOptions (w : Words) : RunOptions where
  config := w.settings.lookup .config
  lenient := decide (Flag.lenient ∈ w.flags)
  stepLimit := (w.settings.lookup .stepLimit).bind number?

/-- The command that the words behind its name make. -/
def CommandName.command? (name : CommandName) (w : Words) : Option Command :=
  w.input.map fun input =>
    match name with
    | .build =>
      .build input (w.settings.lookup .output) (decide (Flag.showBlocks ∈ w.flags))
        (decide (Flag.showInstructions ∈ w.flags))
    | .run => .run input (decide (Flag.showInstructions ∈ w.flags)) w.runOptions
    | .exec => .exec input w.runOptions

/-- Read the words behind the name of a command. -/
def CommandName.read (name : CommandName) (words : List String) : Except Stop Command := do
  let w ← readWords name.options {} words
  match name.command? w with
  | some command => .ok command
  | none => .error .usage

/-- What the words behind `help` ask for. -/
def readHelp : List String → Stop
  | [] => .help
  | [name] => if name == "help" || (CommandName.ofString? name).isSome then .help else .usage
  | _ => .usage

/-- Read the words in front of the name of a command, and then the command. -/
def readMain (w : Words) : List String → Except Stop Command
  | [] => .error .usage
  | word :: rest =>
    if isOption word then
      match w.addOption mainOptions word.toList with
      | .ok (w, none) => readMain w rest
      | .ok (_, some _) => .error .usage
      | .error e => .error e
    else
      match CommandName.ofString? word with
      | some name => name.read rest
      | none => .error (if word == "help" then readHelp rest else .usage)

/-- The command that a command line asks for. -/
def parse (words : List String) : Except Stop Command := readMain {} words

end ThreeAddress.CommandLine
