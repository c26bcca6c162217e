import ThreeAddress.CommandLine.Session
import ThreeAddress.Proofs.Json.RoundTrip
import ThreeAddress.Proofs.Lowering.Constants

set_option autoImplicit false

/-! # Saved programs

A compiled program that is saved and loaded again is the same program, so that executing the saved
file is as good as running the source. The tuples of its instructions are read back, and so is the
text of the file, as far as the floats in it are. -/

namespace ThreeAddress

/-! ## Programs as trees -/

theorem mapM_map_eq_some {α β : Type} {write : α → β} {read? : β → Option α} {l : List α}
    (h : ∀ a ∈ l, read? (write a) = some a) : (l.map write).mapM read? = some l := by
  induction l with
  | nil => rfl
  | cons a l ih =>
      rw [List.forall_mem_cons] at h
      rw [List.map_cons, List.mapM_cons, h.1, ih h.2]
      rfl

theorem Operand.ofJson?_toJson (o : Operand) : ofJson? o.toJson = some o := by
  cases o with
  | int v => simp [toJson, ofJson?, Json.int64?_toInt]
  | float v => rfl
  | bool v => rfl
  | text v => rfl

theorem Instr.ofJson?_toJson {i : Instr} (h : ofTuple i.toTuple = .ok i) :
    ofJson? i.toJson = some i := by
  have htuple : Operand.listOfJson? i.toJson = some i.toTuple :=
    mapM_map_eq_some fun o _ => o.ofJson?_toJson
  rw [ofJson?, htuple, Option.bind_eq_bind, Option.bind_some, h]
  rfl

theorem Program.ofJson?_toJson {P : Program} (h : ∀ i ∈ P.code, Instr.ofTuple i.toTuple = .ok i) :
    ofJson? P.toJson = some P := by
  have hcode : (P.code.toList.map Instr.toJson).mapM Instr.ofJson? = some P.code.toList :=
    mapM_map_eq_some fun i hi => Instr.ofJson?_toJson (h i (Array.mem_toList_iff.1 hi))
  unfold ofJson? toJson
  simp only [Json.items?, Option.bind_eq_bind, Option.bind_some, hcode]
  rfl

/-! ## Programs as texts -/

theorem Operand.readable_toJson {o : Operand}
    (h : ∀ x, o = .float x → (Json.float x).ReadsBack) : o.toJson.Readable := by
  cases o with
  | int v => exact Json.readable_toInt v
  | float x => exact .float (h x rfl)
  | bool b => exact .bool b
  | text s => exact .string s

theorem Program.readable_toJson {P : Program}
    (h : ∀ i ∈ P.code, ∀ x, .float x ∈ i.toTuple → (Json.float x).ReadsBack) :
    P.toJson.Readable := by
  refine .array fun v hv => ?_
  obtain ⟨i, hi, rfl⟩ := List.mem_map.1 hv
  refine .array fun w hw => ?_
  obtain ⟨o, ho, rfl⟩ := List.mem_map.1 hw
  refine Operand.readable_toJson fun x hx => ?_
  exact h i (Array.mem_toList_iff.1 hi) x (hx ▸ ho)

theorem Json.heightItems_le {items : List Json} {n : Nat} (h : ∀ v ∈ items, v.height ≤ n) :
    heightItems items ≤ n := by
  induction items with
  | nil => exact Nat.zero_le n
  | cons v items ih =>
      rw [List.forall_mem_cons] at h
      rw [heightItems]
      exact Nat.max_le.2 ⟨h.1, ih h.2⟩

/-- A program is an array of arrays of operands. -/
theorem Program.height_toJson_le (P : Program) : P.toJson.height ≤ 3 := by
  have hoperand (o : Operand) : o.toJson.height ≤ 1 := by
    cases o <;> simp [Operand.toJson, Json.height]
  have hinstr (i : Instr) : i.toJson.height ≤ 2 := by
    rw [Instr.toJson, Json.height]
    refine Nat.succ_le_succ (Json.heightItems_le fun v hv => ?_)
    obtain ⟨o, -, rfl⟩ := List.mem_map.1 hv
    exact hoperand o
  rw [Program.toJson, Json.height]
  refine Nat.succ_le_succ (Json.heightItems_le fun v hv => ?_)
  obtain ⟨i, -, rfl⟩ := List.mem_map.1 hv
  exact hinstr i

/-- A float among the operands of an instruction of the instruction set is its constant. -/
theorem Instr.Carries.mem_of_float_mem {i : Instr} {constants : List Constant}
    (h : i.Carries constants) (hknown : ∀ opcode operands, i ≠ .unknown opcode operands) {x : Float}
    (hx : .float x ∈ i.toTuple) : .float x ∈ constants := by
  have hlabel (label : Label) : .float x ≠ label.toOperand := by
    cases label <;> simp [Label.toOperand]
  cases i with
  | literal type value target =>
      have hvalue : value = .float x := by
        cases value <;> simp_all [toTuple, operands, Constant.toOperand]
      exact hvalue ▸ (h type value target rfl).2
  | unknown opcode operands => exact absurd rfl (hknown opcode operands)
  | _ => simp_all [toTuple, operands]

/-- The text of a compiled program is read back if its floats are. -/
theorem Source.Program.read?_indented {p : Source.Program} {P : ThreeAddress.Program}
    (hP : p.compile = .ok P) (hsize : P.size < Nat.pow 2 63)
    (hfloats : ∀ x ∈ p.floats, (Json.float x).ReadsBack) :
    ThreeAddress.Program.read? P.toJson.indented = some P := by
  have hreadable : P.toJson.Readable := by
    refine ThreeAddress.Program.readable_toJson fun i hi x hx => hfloats x (mem_floats ?_)
    exact (compile_carries hP i hi).mem_of_float_mem ((compile_closed hP).known i hi) hx
  have hparse := Json.parse?_indented hreadable
    (Nat.le_trans P.height_toJson_le (by decide))
  rw [ThreeAddress.Program.read?, Json.read?, hparse, Option.bind_some]
  refine ThreeAddress.Program.ofJson?_toJson fun i hi => ?_
  obtain ⟨hwellFormed, hlabels⟩ := compile_wellFormed hP hsize i hi
  exact hwellFormed.ofTuple_toTuple hlabels

/-! ## Files -/

namespace CommandLine

/-- Paths lead through folders, whatever the files are. -/
theorem FileTree.locate_files (t : FileTree) (files : List (Place × String)) (path : String) :
    locate { t with files := files } path = t.locate path := by
  have hfolder (p : Place) : isFolder { t with files := files } p = t.isFolder p := rfl
  have hfollow (parts : List String) (here : Place) :
      follow { t with files := files } here parts = t.follow here parts := by
    induction parts generalizing here with
    | nil => rfl
    | cons part parts ih => simp only [follow, hfolder, ih]
  rw [locate, locate, hfollow]

/-- A file that was written is read back. -/
theorem FileTree.read?_of_write? {t t' : FileTree} {path text : String}
    (h : t.write? path text = some t') (hpath : path ≠ nullDevice) :
    t'.read? path = some text := by
  rw [write?, if_neg hpath] at h
  obtain ⟨p, hp, h⟩ := Option.bind_eq_some_iff.1 h
  split at h
  · cases h
  · cases h
    rw [read?, if_neg hpath, locate_files, hp]
    simp

/-- The settings are all that a machine needs from the files. -/
theorem RunOptions.prepare_congr {o : RunOptions} {files files' : FileReader}
    (h : o.settings files' = o.settings files) (host : HostInfo) (out : String)
    (program : ThreeAddress.Program) :
    o.prepare host files' out program = o.prepare host files out program := by
  rw [prepare, prepare, machine, machine, h]

/-- A machine is got ready if the settings can be read and name capabilities that there are. -/
theorem RunOptions.prepare_eq_execute {o : RunOptions} {host : HostInfo} {files : FileReader}
    {settings : Settings} {capabilities : List Capability}
    (hsettings : o.settings files = .ok settings)
    (hcapabilities : settings.capabilityList host = .ok capabilities) (out : String)
    (program : ThreeAddress.Program) :
    o.prepare host files out program
      = .execute out (.create program capabilities settings {}) := by
  rw [prepare, machine, hsettings, ok_bind, hcapabilities]
  rfl

theorem loadGraph_eq_ok {t : FileTree} {input text : String} {p : Source.Program} {g : BlockGraph}
    (htext : t.read? input = some text) (hsource : Source.Program.read? text = some p)
    (hg : p.graph = .ok g) : loadGraph t.reader input = .ok g := by
  have hread : readFile t.reader input = .ok text := by
    rw [readFile, FileTree.reader, htext]
    rfl
  have hdecode : decode "source tree" Source.Program.read? text = .ok p := by
    rw [decode, hsource]
  rw [loadGraph, hread, ok_bind, hdecode, ok_bind, hg]

end CommandLine

open CommandLine in
/-- **Executing what was built is running the source.** The tuples of a compiled program with fewer
    than `2 ^ 63` instructions are read back as exactly its instructions. If the floats of the
    source are finite, and each of them is read back from its own text, then building the source
    saves a file from which `exec` gets the very machine ready that `run` gets from the source under
    the same settings, so that the two runs agree in result, output and store. If the settings can
    be read and name capabilities that there are, then it is the new machine for the compiled
    program with these capabilities and settings. -/
theorem build_then_exec_eq_run {p : Source.Program} {P : Program} (hP : p.compile = .ok P)
    (hsize : P.size < Nat.pow 2 63) :
    P.code.toList.mapM (fun i => Instr.ofTuple i.toTuple) = .ok P.code.toList ∧
    ((∀ x ∈ p.floats, x.isFinite) → (∀ x ∈ p.floats, x.isFinite → (Json.float x).ReadsBack) →
      ∀ (host : HostInfo) (t : FileTree) (input output text : String)
        (showBlocks showInstructions : Bool) (options : RunOptions),
        t.read? input = some text → Source.Program.read? text = some p →
        output ≠ FileTree.nullDevice →
        ∃ out saved,
          (Command.build input (some output) showBlocks showInstructions).prepare host t.reader
            = .save out output saved ∧
          ∀ t', t.write? output saved = some t' →
            options.settings t'.reader = options.settings t.reader →
            (Command.exec output options).prepare host t'.reader
              = (Command.run input false options).prepare host t.reader ∧
            ∀ settings capabilities, options.settings t.reader = .ok settings →
              settings.capabilityList host = .ok capabilities →
              (Command.run input false options).prepare host t.reader
                = .execute "" (.create P capabilities settings {})) := by
  constructor
  · have htuples : ∀ i ∈ P.code.toList, Instr.ofTuple i.toTuple = .ok (id i) := by
      intro i hi
      obtain ⟨hwellFormed, hlabels⟩ :=
        Source.Program.compile_wellFormed hP hsize i (Array.mem_toList_iff.1 hi)
      exact hwellFormed.ofTuple_toTuple hlabels
    rw [mapM_eq_ok _ htuples, List.map_id]
  · intro hfinite hreads host t input output text showBlocks showInstructions options htext hsource
      houtput
    obtain ⟨g, hg, hlink⟩ := bind_eq_ok_iff.1 hP
    have hload := loadGraph_eq_ok htext hsource hg
    have hbuild : (Command.build input (some output) showBlocks showInstructions).prepare host
        t.reader = prepareBuild (some output) showBlocks showInstructions
          (if showBlocks then g.dump else "") P := by
      rw [Command.prepare, hload]
      simp only [hlink]
    refine ⟨_, P.toJson.indented, hbuild, fun t' hwrite hsettings => ?_⟩
    have hread : readFile t'.reader output = .ok P.toJson.indented := by
      rw [readFile, FileTree.reader, FileTree.read?_of_write? hwrite houtput]
      rfl
    have hprogram := Source.Program.read?_indented hP hsize fun x hx => hreads x hx (hfinite x hx)
    have hdecode : decode "program" Program.read? P.toJson.indented = .ok P := by
      rw [decode, hprogram]
    have hexec : (Command.exec output options).prepare host t'.reader
        = options.prepare host t'.reader "" P := by
      rw [Command.prepare, hread, ok_bind, hdecode]
    have hrun : (Command.run input false options).prepare host t.reader
        = options.prepare host t.reader "" P := by
      rw [Command.prepare, hload, ok_bind, hlink]
      rfl
    rw [hexec, hrun]
    refine ⟨RunOptions.prepare_congr hsettings host "" P, fun settings capabilities hset hcap => ?_⟩
    exact RunOptions.prepare_eq_execute hset hcap "" P

/-! A program with a loop, a float and a text that has to be escaped. -/

/-- Doubles a half until it is not less than two, and says so. -/
def Source.Program.doubling : Source.Program := ⟨[
  .varDecl 1 "x" (some .float) (some (.ofConstant (.float 0.5))),
  .loop 2 (.comparison .lt (.load (some .float) "x") (.ofConstant (.int 2))) [
    .assign 3 "x" (.arith .add (.load (some .float) "x") (.load (some .float) "x"))],
  .print 4 (.ofConstant (.string "\"x\"\tis at least two\n"))]⟩

theorem Source.Program.read?_doubling :
    Source.Program.read? Source.Program.doubling.toJson.indented = some .doubling := by
  have hfloat : (Json.float 0.5).Readable := .float Json.readsBack_half
  have hint (n : Int) (hmin : Int64.minValue.toInt ≤ n) (hmax : n < UInt64.size) :
      (Json.int n).Readable := .int (Json.readsBack_int hmin hmax)
  have hreadable : Source.Program.doubling.toJson.Readable := by
    simp (disch := decide) [doubling, toJson, stmtsToJson, Stmt.toJson, stmtRecord, exprRecord,
      Expr.toJson, Expr.ofConstant, Expr.comparison, Expr.arith, Expr.type?, Constant.toJson,
      Constant.type, ScalarType.toJson, Json.ofOption, Json.readable_array_iff,
      Json.readable_object_iff, Json.Readable.string, hfloat, hint]
  have hparse := Json.parse?_indented hreadable (by decide +kernel)
  rw [read?, Json.read?, hparse]
  rfl

open CommandLine in
theorem build_then_exec_eq_run_doubling :
    ∃ (P : Program) (t t' : FileTree) (out saved : String),
      Source.Program.doubling.compile = .ok P ∧ P.size < Nat.pow 2 63 ∧
      (Command.build "doubling.json" (some "saved.json") false false).prepare .bare t.reader
        = .save out "saved.json" saved ∧
      t.write? "saved.json" saved = some t' ∧
      (Command.exec "saved.json" {}).prepare .bare t'.reader
        = (Command.run "doubling.json" false {}).prepare .bare t.reader ∧
      (Command.run "doubling.json" false {}).prepare .bare t.reader
        = .execute "" (.create P (Capability.builtin .bare) {} {}) := by
  have hcompile : Source.Program.doubling.compile.toOption.map Program.size = some 15 := by
    decide +kernel
  cases hP : Source.Program.doubling.compile with
  | error e =>
      rw [hP] at hcompile
      cases hcompile
  | ok P =>
      have hsize : P.size < Nat.pow 2 63 := by
        rw [hP] at hcompile
        rw [Option.some.inj hcompile]
        decide
      let t : FileTree :=
        { files := [(["doubling.json"], Source.Program.doubling.toJson.indented)] }
      have hinput : t.locate "doubling.json" = some ["doubling.json"] :=
        (FileTree.locate_files {} _ _).trans (by decide +kernel)
      have houtput : t.locate "saved.json" = some ["saved.json"] :=
        (FileTree.locate_files {} _ _).trans (by decide +kernel)
      have htext : t.read? "doubling.json" = some Source.Program.doubling.toJson.indented := by
        simp [FileTree.read?, FileTree.nullDevice, hinput, t]
      have hfloats : Source.Program.doubling.floats = [0.5] := by decide +kernel
      obtain ⟨-, hexec⟩ := build_then_exec_eq_run hP hsize
      rw [hfloats] at hexec
      obtain ⟨out, saved, hsave, hexec⟩ := hexec (by decide +kernel)
        (List.forall_mem_singleton.2 fun _ => Json.readsBack_half) .bare t "doubling.json"
        "saved.json" _ false false {} htext Source.Program.read?_doubling (by decide)
      obtain ⟨t', hwrite⟩ : ∃ t', t.write? "saved.json" saved = some t' := by
        simp [FileTree.write?, FileTree.nullDevice, houtput, FileTree.isFolder, t]
      obtain ⟨hsame, hmachine⟩ := hexec t' hwrite rfl
      exact ⟨P, t, t', out, saved, rfl, hsize, hsave, hwrite, hsame, hmachine {} _ rfl rfl⟩

end ThreeAddress
