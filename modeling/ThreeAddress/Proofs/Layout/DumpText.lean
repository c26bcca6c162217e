import ThreeAddress.Graph.Dump
import ThreeAddress.Proofs.Decimal.Digits

set_option autoImplicit false

/-! # The text of a dump

A dump is written line by line: for each entry a header, and below the header of a block its
instructions, which are indented. `Block.headline` lists the forms that the header of a block can
have. A line is what is written up to a line break; should the name of a cell have a line break in
it, then the line goes on behind it.

The headers stand out from the text. They are the lines that begin with `block`
(`filter_dumpLines`), and for each block that is shown there is exactly one line that begins with
`block`, its number and a parenthesis (`countP_heads_dumpLines`). -/

namespace ThreeAddress

/-! ## Lines -/

/-- The header of a block. -/
def Block.headline (id : BlockId) (b : Block) : String :=
  let next := b.next.elim "" fun next => " next=" ++ toString next
  match b.kind with
  | .straight => "block " ++ toString id ++ " (straight)" ++ next
  | .conditional test thenBlock none =>
    "block " ++ toString id ++ " (conditional) test=" ++ test ++ " then=" ++ toString thenBlock
      ++ next
  | .conditional test thenBlock (some elseBlock) =>
    "block " ++ toString id ++ " (conditional) test=" ++ test ++ " then=" ++ toString thenBlock
      ++ " else=" ++ toString elseBlock ++ next
  | .loop test body =>
    "block " ++ toString id ++ " (loop) test=" ++ test ++ " body=" ++ toString body ++ next

namespace DumpEntry

/-- The first line of an entry. -/
def headline : DumpEntry → String
  | block id b => b.headline id
  | missing id => "block " ++ toString id ++ ": <missing>"

/-- The lines of an entry below the first. -/
def body : DumpEntry → List String
  | block _ b => b.code.toList.map fun i => "    " ++ i.render
  | missing _ => []

/-- The lines of an entry. -/
def lines (e : DumpEntry) : List String := e.headline :: e.body

end DumpEntry

/-- The lines of a dump. -/
def BlockGraph.dumpLines (g : BlockGraph) : List String := g.entries.flatMap DumpEntry.lines

/-- The text of lines, each of them with a line break behind it. -/
def textOfLines (lines : List String) : String := String.join (lines.map fun line => line ++ "\n")

theorem textOfLines_cons (line : String) (lines : List String) :
    textOfLines (line :: lines) = line ++ "\n" ++ textOfLines lines := String.join_cons

theorem textOfLines_append (lines lines' : List String) :
    textOfLines (lines ++ lines') = textOfLines lines ++ textOfLines lines' := by
  rw [textOfLines, List.map_append, String.join_append]
  rfl

theorem headline_eq (id : BlockId) (b : Block) :
    s!"block {id} ({b.kind.name})" ++ b.links = b.headline id := by
  obtain ⟨id', code, kind, next⟩ := b
  rw [← String.toList_inj]
  rcases kind with _ | ⟨test, thenBlock, _ | elseBlock⟩ | ⟨test, body⟩ <;> cases next <;>
    simp [Block.headline, Block.links, BlockKind.name, toString]

theorem DumpEntry.render_eq (e : DumpEntry) : e.render = textOfLines e.lines := by
  cases e with
  | block id b =>
      rw [lines, textOfLines_cons, headline, ← headline_eq, body, textOfLines, List.map_map]
      rfl
  | missing id =>
      simp [render, lines, headline, body, textOfLines, toString, String.append_assoc]

/-- A dump is the text of its lines. -/
theorem BlockGraph.dump_eq (g : BlockGraph) : g.dump = textOfLines g.dumpLines := by
  rw [dump, dumpLines]
  induction g.entries with
  | nil => rfl
  | cons e entries ih =>
      rw [List.map_cons, String.join_cons, List.flatMap_cons, textOfLines_append, e.render_eq, ih]

/-! ## Headers -/

/-- Whether a line begins with a text. -/
def begins (text line : String) : Bool := text.toList.isPrefixOf line.toList

/-- Whether a line is the header of the block. -/
def heads (id : BlockId) (line : String) : Bool := begins ("block " ++ toString id ++ " (") line

namespace DumpEntry

/-- The block that an entry is the header of. -/
def header? : DumpEntry → Option BlockId
  | block id _ => some id
  | missing _ => none

/-- The blocks that entries are headers of, in order. -/
def headers (entries : List DumpEntry) : List BlockId := entries.filterMap header?

@[simp] theorem headers_nil : headers [] = [] := rfl

@[simp] theorem headers_block (id : BlockId) (b : Block) (entries : List DumpEntry) :
    headers (.block id b :: entries) = id :: headers entries := rfl

@[simp] theorem headers_missing (id : BlockId) (entries : List DumpEntry) :
    headers (.missing id :: entries) = headers entries := rfl

@[simp] theorem headers_append (entries entries' : List DumpEntry) :
    headers (entries ++ entries') = headers entries ++ headers entries' :=
  List.filterMap_append

theorem mem_headers_iff {id : BlockId} {entries : List DumpEntry} :
    id ∈ headers entries ↔ ∃ b, .block id b ∈ entries := by
  rw [headers, List.mem_filterMap]
  constructor
  · rintro ⟨⟨id', b⟩ | id', hmem, hid⟩
    · cases hid
      exact ⟨b, hmem⟩
    · cases hid
  · rintro ⟨b, hmem⟩
    exact ⟨_, hmem, rfl⟩

end DumpEntry

/-- In a line that begins with `block` and a number, the number and what follows it tell whether it
    is the header of a block. -/
theorem heads_iff {id id' : BlockId} {line : String} {c : Char} {rest : List Char}
    (hline : line.toList = "block ".toList ++ (Nat.toDigits 10 id' ++ c :: rest))
    (hc : c.isDigit = false) :
    heads id line = true ↔ id = id' ∧ [' ', '('] <+: c :: rest := by
  have htext : ("block " ++ toString id ++ " (").toList
      = "block ".toList ++ (Nat.toDigits 10 id ++ [' ', '(']) := by
    simp [Nat.toString_eq_repr]
  rw [heads, begins, List.isPrefixOf_iff_prefix, hline, htext, List.prefix_append_right_inj]
  constructor
  · rintro ⟨more, hmore⟩
    rw [List.append_assoc] at hmore
    obtain ⟨rfl, hrest⟩ := toDigits_append_inj rfl hc hmore
    exact ⟨rfl, more, hrest⟩
  · rintro ⟨rfl, hrest⟩
    exact (List.prefix_append_right_inj _).2 hrest

theorem heads_headline (id id' : BlockId) (b : Block) :
    heads id (b.headline id') = decide (id' = id) := by
  have hline : (b.headline id').toList = "block ".toList ++
      (Nat.toDigits 10 id' ++ ' ' :: '(' :: (b.kind.name ++ ")" ++ b.links).toList) := by
    rw [← headline_eq]
    simp [toString]
  rw [Bool.eq_iff_iff, heads_iff hline rfl, decide_eq_true_iff]
  simp [eq_comm]

theorem not_heads_missing (id id' : BlockId) :
    heads id (DumpEntry.missing id').headline = false := by
  have hline : (DumpEntry.missing id').headline.toList = "block ".toList ++
      (Nat.toDigits 10 id' ++ ':' :: " <missing>".toList) := by
    simp [DumpEntry.headline, Nat.toString_eq_repr]
  rw [Bool.eq_false_iff, Ne, heads_iff hline rfl]
  simp

/-- The lines below a header are indented. -/
theorem not_begins_body {text : String} (h : text.toList.head? = some 'b') (e : DumpEntry) :
    ∀ line ∈ e.body, begins text line = false := by
  obtain ⟨rest, htext⟩ := List.head?_eq_some_iff.1 h
  cases e with
  | missing id => exact List.forall_mem_nil _
  | block id b =>
      intro line hline
      obtain ⟨i, -, rfl⟩ := List.mem_map.1 hline
      simp [begins, htext, List.isPrefixOf]

/-- Each entry has one line that begins with `block`, its first. -/
theorem DumpEntry.filter_lines (e : DumpEntry) :
    e.lines.filter (begins "block") = [e.headline] := by
  have hfirst : begins "block" e.headline = true := by
    cases e with
    | block id b =>
        rw [headline, ← headline_eq]
        simp [begins, toString]
    | missing id => simp [begins, headline]
  rw [lines, List.filter_cons_of_pos hfirst, List.filter_eq_nil_iff.2]
  intro line hline
  rw [not_begins_body (by simp) e line hline]
  simp

/-- The lines of a dump that begin with `block` are the headers and the notes about missing blocks,
    in the order of the entries. -/
theorem BlockGraph.filter_dumpLines (g : BlockGraph) :
    g.dumpLines.filter (begins "block") = g.entries.map DumpEntry.headline := by
  simp only [dumpLines, List.filter_flatMap, DumpEntry.filter_lines]
  exact List.map_eq_flatMap.symm

theorem DumpEntry.countP_heads_lines (id : BlockId) (e : DumpEntry) :
    e.lines.countP (heads id) = (headers [e]).count id := by
  have hbody : e.body.countP (heads id) = 0 := by
    refine List.countP_eq_zero.2 fun line hline => ?_
    rw [heads, not_begins_body (by simp) e line hline]
    simp
  rw [lines, List.countP_cons, hbody]
  cases e with
  | block id' b =>
      rw [headline, heads_headline, headers_block, List.count_cons, headers_nil]
      simp
  | missing id' =>
      rw [not_heads_missing]
      rfl

/-- A block has as many headers in a dump as entries. -/
theorem BlockGraph.countP_heads_dumpLines (g : BlockGraph) (id : BlockId) :
    g.dumpLines.countP (heads id) = (DumpEntry.headers g.entries).count id := by
  rw [dumpLines]
  induction g.entries with
  | nil => rfl
  | cons e entries ih =>
      rw [List.flatMap_cons, List.countP_append, ih, e.countP_heads_lines, ← List.count_append,
        ← DumpEntry.headers_append, List.singleton_append]

end ThreeAddress
