import ThreeAddress.Proofs.Decimal.Digits
import ThreeAddress.Proofs.Wire.Grammar

set_option autoImplicit false

/-! # Writing and reading instructions

An instruction survives being written as a tuple and read back exactly if it is well formed, and
whatever is read is well formed. Reading in turn loses nothing of a tuple but the spelling of two
kinds of operands: what is written again is the tuple in its canonical spelling. -/

namespace ThreeAddress

/-! ## Labels -/

/-- The number of a block without a plus sign and leading zeros. -/
def canonicalNumber : List Char → List Char
  | '+' :: rest => canonicalDigits rest
  | cs => canonicalDigits cs

theorem eq_canonicalDigits_of_blockDigits? {cs : List Char} {id : BlockId}
    (h : blockDigits? cs = some id) :
    Nat.toDigits 10 id = canonicalDigits cs ∧ id < UInt32.size := by
  unfold blockDigits? at h
  split at h
  · cases h
  · next hdigits =>
      simp only [Bool.or_eq_true, List.isEmpty_iff, Bool.not_eq_true', not_or, Bool.not_eq_false,
        List.all_eq_true] at hdigits
      obtain ⟨hlt, rfl⟩ := by simpa using h
      exact ⟨toDigits_ofDigitChars hdigits.1 hdigits.2, hlt⟩

theorem eq_canonicalNumber_of_blockNumber? {cs : List Char} {id : BlockId}
    (h : blockNumber? cs = some id) :
    Nat.toDigits 10 id = canonicalNumber cs ∧ id < UInt32.size := by
  unfold blockNumber? at h
  split at h
  · exact eq_canonicalDigits_of_blockDigits? h
  · next hplus =>
      rw [canonicalNumber.eq_2 cs hplus]
      exact eq_canonicalDigits_of_blockDigits? h

theorem blockNumber?_toDigits {id : BlockId} (h : id < UInt32.size) :
    blockNumber? (Nat.toDigits 10 id) = some id := by
  have hdigits : ∀ c ∈ Nat.toDigits 10 id, c.isDigit := fun c hc =>
    Nat.isDigit_of_mem_toDigits (by decide) (by decide) hc
  have hread : blockDigits? (Nat.toDigits 10 id) = some id := by
    simp [blockDigits?, h, List.all_eq_true.2 hdigits]
  unfold blockNumber?
  split
  · next rest hplus =>
      rw [hplus] at hdigits
      exact absurd (hdigits '+' List.mem_cons_self) (by decide)
  · exact hread

namespace Label

/-- The label can be written: an address as a signed integer of 64 bits, a block number as an
    unsigned one of 32. -/
def Fits : Label → Prop
  | .address a => a < Nat.pow 2 63
  | .block id => id < UInt32.size

/-- The text of a label with the block number in its canonical spelling. -/
def canonicalText (s : String) : String :=
  match s.toList with
  | '@' :: 'b' :: 'l' :: 'o' :: 'c' :: 'k' :: rest =>
      "@block" ++ String.ofList (canonicalNumber rest)
  | _ => s

end Label

/-- An operand that stands for a label, in its canonical spelling. -/
def Operand.canonicalLabel : Operand → Operand
  | .text s => .text (Label.canonicalText s)
  | a => a

namespace Label

theorem toList_render_block (id : BlockId) :
    (Label.block id).render.toList
      = '@' :: 'b' :: 'l' :: 'o' :: 'c' :: 'k' :: Nat.toDigits 10 id := by
  rw [render, String.toList_append, Nat.toString_eq_repr, Nat.toList_repr]
  rfl

theorem ofOperand?_toOperand {label : Label} (h : label.Fits) :
    ofOperand? label.toOperand = some label := by
  cases label with
  | address a =>
      have ha : (Int64.ofNat a).toInt = a := Int64.toInt_ofNat_of_lt h
      simp [toOperand, ofOperand?, ha]
  | block id =>
      rw [toOperand, ofOperand?, ofText?, toList_render_block]
      simp [blockNumber?_toDigits h]

/-- Whatever is read as a label can be written, and is then spelled canonically. -/
theorem toOperand_of_ofOperand? {a : Operand} {label : Label} (h : ofOperand? a = some label) :
    label.Fits ∧ label.toOperand = a.canonicalLabel := by
  cases a with
  | int v =>
      obtain ⟨hnonneg, rfl⟩ : 0 ≤ v.toInt ∧ .address v.toInt.toNat = label := by
        simpa [ofOperand?] using h
      have hlt : v.toInt.toNat < Nat.pow 2 63 := v.toNatClampNeg_lt
      have hback : Int64.ofNat v.toInt.toNat = v :=
        v.ofNat_toNatClampNeg (Int64.le_iff_toInt_le.2 hnonneg)
      exact ⟨hlt, congrArg Operand.int hback⟩
  | text s =>
      have h : ofText? s = some label := h
      unfold ofText? at h
      split at h
      · next rest hs =>
          obtain ⟨id, hid, rfl⟩ := Option.map_eq_some_iff.1 h
          obtain ⟨hdigits, hlt⟩ := eq_canonicalNumber_of_blockNumber? hid
          refine ⟨hlt, ?_⟩
          rw [toOperand, render, Operand.canonicalLabel, canonicalText, hs,
            Nat.toString_eq_ofList_toDigits, hdigits]
          rfl
      · cases h
  | float v => cases h
  | bool v => cases h

end Label

/-! ## Constants -/

theorem Operands.constant?_toOperand (value : Constant) :
    constant? value.type value.toOperand = some value := by
  cases value <;> rfl

theorem Operands.type_of_constant? {t : ScalarType} {a : Operand} {value : Constant}
    (h : constant? t a = some value) : value.type = t := by
  cases t <;> cases a <;> cases h <;> rfl

/-! ## Instructions -/

namespace Instr

/-- A literal carries a constant of its type, addresses are less than `2 ^ 63`, and an instruction
    outside the instruction set does not use one of its opcodes. -/
structure WellFormed (i : Instr) : Prop where
  type_eq : ∀ t value target, i = .literal t value target → value.type = t
  address_lt : ∀ a, .address a ∈ i.labels → a < Nat.pow 2 63
  opcode_ne : ∀ opcode operands, i = .unknown opcode operands → ∀ op : Opcode, op.name ≠ opcode

variable {i : Instr}

theorem WellFormed.labels_fit (h : i.WellFormed)
    (hblocks : ∀ id, .block id ∈ i.labels → id < UInt32.size) : ∀ label ∈ i.labels, label.Fits := by
  intro label hlabel
  cases label with
  | address a => exact h.address_lt a hlabel
  | block id => exact hblocks id hlabel

/-- A well-formed instruction is what its own tuple spells. -/
theorem WellFormed.ofTuple_toTuple (h : i.WellFormed) (hlabels : ∀ label ∈ i.labels, label.Fits) :
    ofTuple i.toTuple = .ok i := by
  rw [ofTuple_eq_ok_iff]
  cases i with
  | alloc t name => exact .inl ⟨_, _, rfl, .alloc t name⟩
  | literal t value target =>
      obtain rfl := h.type_eq t value target rfl
      exact .inl ⟨_, _, rfl, .literal target (Operands.constant?_toOperand value)⟩
  | load t name target => exact .inl ⟨_, _, rfl, .load t name target⟩
  | store t source name => exact .inl ⟨_, _, rfl, .store t source name⟩
  | binary op t left right target => exact .inl ⟨_, _, rfl, .binary op t left right target⟩
  | unary op t source target => exact .inl ⟨_, _, rfl, .unary op t source target⟩
  | compare op t left right target => exact .inl ⟨_, _, rfl, .compare op t left right target⟩
  | print t source => exact .inl ⟨_, _, rfl, .print t source⟩
  | jump label =>
      have hlabel := hlabels label (by simp [labels])
      exact .inl ⟨_, _, rfl, .jump (Label.ofOperand?_toOperand hlabel)⟩
  | branch test ifTrue ifFalse =>
      have hTrue := hlabels ifTrue (by simp [labels])
      have hFalse := hlabels ifFalse (by simp [labels])
      exact .inl ⟨_, _, rfl, .branch test (Label.ofOperand?_toOperand hTrue)
        (Label.ofOperand?_toOperand hFalse)⟩
  | bind name returnType paramTypes => exact .inl ⟨_, _, rfl, .bind name returnType paramTypes⟩
  | call function args target => exact .inl ⟨_, _, rfl, .call function args target⟩
  | unknown opcode operands =>
      exact .inr ⟨opcode, operands, rfl, h.opcode_ne opcode operands rfl, rfl⟩

end Instr

theorem Spells.literal_type_eq {op : Opcode} {args : List Operand} {i : Instr}
    (h : Spells op args i) :
    ∀ t value target, i = .literal t value target → value.type = t := by
  cases h with
  | literal target hvalue =>
      rintro t value target' ⟨⟩
      exact Operands.type_of_constant? hvalue
  | _ => simp

theorem Spells.labels_fit {op : Opcode} {args : List Operand} {i : Instr} (h : Spells op args i) :
    ∀ label ∈ i.labels, label.Fits := by
  cases h with
  | jump hlabel => simpa [Instr.labels] using (Label.toOperand_of_ofOperand? hlabel).1
  | branch test hTrue hFalse =>
      simpa [Instr.labels] using
        ⟨(Label.toOperand_of_ofOperand? hTrue).1, (Label.toOperand_of_ofOperand? hFalse).1⟩
  | _ => exact List.forall_mem_nil _

theorem Spells.ne_unknown {op : Opcode} {args : List Operand} {i : Instr} (h : Spells op args i) :
    ∀ opcode operands, i ≠ .unknown opcode operands := by
  cases h <;> simp

namespace Instr

variable {i : Instr}

/-- Whatever is read from a tuple is well formed. -/
theorem wellFormed_of_ofTuple {tuple : List Operand} (h : ofTuple tuple = .ok i) :
    i.WellFormed ∧ ∀ label ∈ i.labels, label.Fits := by
  rcases ofTuple_eq_ok_iff.1 h with ⟨op, args, rfl, hspells⟩ | ⟨opcode, args, rfl, hopcode, rfl⟩
  · refine ⟨⟨hspells.literal_type_eq, fun a ha => hspells.labels_fit _ ha, ?_⟩, hspells.labels_fit⟩
    exact fun opcode operands hi => absurd hi (hspells.ne_unknown opcode operands)
  · refine ⟨⟨by simp, by simp [labels], ?_⟩, by simp [labels]⟩
    rintro opcode operands ⟨⟩
    exact hopcode

end Instr

/-- **Writing and reading an instruction gives it back exactly if it is well formed**: the constant
    of a literal has the literal's type, every address is less than `2 ^ 63`, and an instruction
    outside the instruction set has an opcode that is not in it. Floats are told apart by their
    bits. The numbers of blocks have 32 bits. -/
theorem tuple_reads_back_iff_wellFormed (i : Instr) :
    Instr.ofTuple i.toTuple = .ok i ↔
      i.WellFormed ∧ ∀ id, .block id ∈ i.labels → id < UInt32.size := by
  constructor
  · intro h
    obtain ⟨hwellFormed, hlabels⟩ := Instr.wellFormed_of_ofTuple h
    exact ⟨hwellFormed, fun id hid => hlabels (.block id) hid⟩
  · rintro ⟨hwellFormed, hblocks⟩
    exact hwellFormed.ofTuple_toTuple (hwellFormed.labels_fit hblocks)

/-! ## Canonical tuples -/

/-- The canonical spelling of the operand at position `k` after the opcode `op`: an integer given
    for a float literal is converted, and the labels of jumps and branches are respelled. -/
def Operand.canonicalAt (op : Opcode) (k : Nat) (a : Operand) : Operand :=
  match op, k, a with
  | .typed .literal .float, 0, .int v => .float v.toFloat
  | .jump, 0, a => a.canonicalLabel
  | .branch, 1, a => a.canonicalLabel
  | .branch, 2, a => a.canonicalLabel
  | _, _, a => a

/-- The canonical spelling of a tuple, operand by operand. -/
def canonicalTuple : List Operand → List Operand
  | .text opcode :: args =>
    match Opcode.ofName? opcode with
    | some op => .text opcode :: args.mapIdx (Operand.canonicalAt op)
    | none => .text opcode :: args
  | tuple => tuple

theorem mapIdx_eq_self {α : Type} {f : Nat → α → α} (h : ∀ k a, f k a = a) (l : List α) :
    l.mapIdx f = l := by
  refine List.ext_getElem? fun k => ?_
  rw [List.getElem?_mapIdx, funext (h k)]
  exact Option.map_id'

/-- What is spelled is written with the operands that spell it, in their canonical spelling. -/
theorem Spells.toTuple_eq {op : Opcode} {args : List Operand} {i : Instr} (h : Spells op args i) :
    i.toTuple = .text op.name :: args.mapIdx (Operand.canonicalAt op) := by
  cases h with
  | @literal t a value target hvalue =>
      -- Only an integer for a float literal is respelled.
      cases t <;> cases a <;> cases hvalue <;> rfl
  | jump hlabel =>
      rw [Instr.toTuple, Instr.operands, (Label.toOperand_of_ofOperand? hlabel).2]
      rfl
  | branch test hTrue hFalse =>
      rw [Instr.toTuple, Instr.operands, (Label.toOperand_of_ofOperand? hTrue).2,
        (Label.toOperand_of_ofOperand? hFalse).2]
      rfl
  | _ => exact congrArg _ (mapIdx_eq_self (fun _ _ => rfl) _).symm

/-- **Reading a tuple loses nothing but its spelling.** Whatever is read is read back from the tuple
    that it is written as, and this is the tuple that was read, position by position, in its
    canonical spelling: an integer given for a float literal has become a float, and the number of a
    block has lost its plus sign and its leading zeros. -/
theorem toTuple_eq_canonicalTuple {tuple : List Operand} {i : Instr}
    (h : Instr.ofTuple tuple = .ok i) :
    Instr.ofTuple i.toTuple = .ok i ∧ i.toTuple = canonicalTuple tuple := by
  obtain ⟨hwellFormed, hlabels⟩ := Instr.wellFormed_of_ofTuple h
  refine ⟨hwellFormed.ofTuple_toTuple hlabels, ?_⟩
  rcases Instr.ofTuple_eq_ok_iff.1 h with
    ⟨op, args, rfl, hspells⟩ | ⟨opcode, args, rfl, hopcode, rfl⟩
  · rw [hspells.toTuple_eq, canonicalTuple, Opcode.ofName?_eq_some_iff.2 rfl]
  · rw [canonicalTuple, Opcode.ofName?_eq_none_iff.2 hopcode]
    rfl

/-- A branch to `@block+007` or `@block000` is written as one to `@block7` or `@block0`. -/
theorem toTuple_eq_canonicalTuple_branch :
    Instr.ofTuple [.text "cbranch", .text "c", .text "@block+007", .text "@block000"]
        = .ok (.branch "c" (.block 7) (.block 0)) ∧
      (Instr.branch "c" (.block 7) (.block 0)).toTuple
        = [.text "cbranch", .text "c", .text "@block7", .text "@block0"] := by
  have h : Instr.ofTuple [.text "cbranch", .text "c", .text "@block+007", .text "@block000"]
      = .ok (.branch "c" (.block 7) (.block 0)) :=
    Instr.ofTuple_eq_ok_iff.2
      (.inl ⟨.branch, _, rfl, .branch "c" (by decide +kernel) (by decide +kernel)⟩)
  refine ⟨h, (toTuple_eq_canonicalTuple h).2.trans ?_⟩
  decide +kernel

end ThreeAddress
