import ThreeAddress.Json.Shape
import ThreeAddress.Proofs.Json.Lexing

set_option autoImplicit false

/-! # Reading back written trees

A tree is written as a sequence of tokens with blanks between them, and reading these tokens builds
the tree again. This holds of every tree whose numbers are read back and that is not nested too
deeply (`parse?_indented`). -/

namespace ThreeAddress.Json

/-- All numbers in the tree are read back, and no part of it is unreadable. -/
inductive Readable : Json → Prop
  | null : Readable .null
  | bool (b : Bool) : Readable (.bool b)
  | int {v : Int} (h : (Json.int v).ReadsBack) : Readable (.int v)
  | float {x : Float} (h : (Json.float x).ReadsBack) : Readable (.float x)
  | string (s : String) : Readable (.string s)
  | array {items : List Json} (h : ∀ v ∈ items, Readable v) : Readable (.array items)
  | object {members : List (String × Json)} (h : ∀ m ∈ members, Readable m.2) :
      Readable (.object members)

theorem readable_array_iff {items : List Json} :
    (Json.array items).Readable ↔ ∀ v ∈ items, v.Readable := by
  constructor
  · rintro ⟨⟩
    assumption
  · exact .array

theorem readable_object_iff {members : List (String × Json)} :
    (Json.object members).Readable ↔ ∀ m ∈ members, m.2.Readable := by
  constructor
  · rintro ⟨⟩
    assumption
  · exact .object

mutual

/-- The tokens of a tree. -/
def tokens : Json → List Token
  | .string s => [.text (some s)]
  | .array items => .openArray :: ([.comma].intercalate (tokensItems items) ++ [.closeArray])
  | .object members =>
      .openObject :: ([.comma].intercalate (tokensMembers members) ++ [.closeObject])
  | v => [.scalar v]

/-- The tokens of the items of an array. -/
def tokensItems : List Json → List (List Token)
  | [] => []
  | v :: rest => tokens v :: tokensItems rest

/-- The tokens of the members of an object. -/
def tokensMembers : List (String × Json) → List (List Token)
  | [] => []
  | (key, v) :: rest => (.text (some key) :: .colon :: tokens v) :: tokensMembers rest

end

theorem tokensItems_eq_map (items : List Json) : tokensItems items = items.map tokens := by
  induction items with
  | nil => rfl
  | cons v items ih => rw [tokensItems, ih, List.map_cons]

/-- The tokens of a member of an object. -/
def memberTokens (m : String × Json) : List Token := .text (some m.1) :: .colon :: tokens m.2

theorem tokensMembers_eq_map (members : List (String × Json)) :
    tokensMembers members = members.map memberTokens := by
  induction members with
  | nil => rfl
  | cons m members ih => rw [tokensMembers, ih, List.map_cons, memberTokens]

theorem indentedItems_eq_map (level : Nat) (items : List Json) :
    indentedItems level items = items.map (indentedAt level) := by
  induction items with
  | nil => rfl
  | cons v items ih => rw [indentedItems, ih, List.map_cons]

theorem indentedMembers_eq_map (level : Nat) (members : List (String × Json)) :
    indentedMembers level members
      = members.map fun m => literal m.1 ++ ": " ++ indentedAt level m.2 := by
  induction members with
  | nil => rfl
  | cons m members ih => rw [indentedMembers, ih, List.map_cons]

/-! ## Texts as tokens -/

/-- However a text goes on that begins with `text`, its first tokens are these. -/
def Begins (text : String) (tokens : List Token) : Prop :=
  ∀ rest more, EndsNumeral rest → Lexes rest more → Lexes (text.toList ++ rest) (tokens ++ more)

theorem endsNumeral_cons {c : Char} (rest : List Char)
    (h : c.isDigit = false ∧ c ≠ '.' ∧ c ≠ 'e' ∧ c ≠ 'E') : EndsNumeral (c :: rest) := by
  rintro _ ⟨⟩
  exact h

theorem begins_of_nextToken? {text : String} {token : Token} {c : Char} {cs : List Char}
    (htext : text.toList = c :: cs) (hc : isBlank c = false)
    (hnext : ∀ rest, EndsNumeral rest → nextToken? (c :: (cs ++ rest)) = some (token, rest)) :
    Begins text [token] := by
  intro rest more hrest h
  rw [htext]
  exact .token hc (hnext rest hrest) h

theorem begins_literal (s : String) : Begins (literal s) [.text (some s)] := by
  obtain ⟨cs, htext⟩ : ∃ cs, (literal s).toList = '"' :: cs := by simp [literal]
  refine begins_of_nextToken? htext rfl fun rest _ => ?_
  rw [← List.cons_append, ← htext]
  exact nextToken?_literal s rest

theorem ReadsBack.begins {v : Json} (h : v.ReadsBack) : Begins v.compact [.scalar v] := by
  obtain ⟨n, hscan, -⟩ := id h
  cases htext : v.compact.toList with
  | nil =>
      rw [htext] at hscan
      cases hscan
  | cons c cs =>
      rw [htext] at hscan
      have hc : isBlank c = false := by
        rcases head_of_scanNumeral hscan with rfl | hdigit
        · rfl
        · exact isBlank_of_isDigit hdigit
      refine begins_of_nextToken? htext hc fun rest hrest => ?_
      rw [← List.cons_append, ← htext]
      exact h.nextToken? hrest

/-- Parts with commas between them and blanks behind each comma. -/
theorem lexes_join {α : Type} {text : α → String} {tokens : α → List Token} {inner : String}
    (hinner : ∀ c ∈ inner.toList, isBlank c = true) {parts : List α}
    (hparts : ∀ a ∈ parts, Begins (text a) (tokens a)) (hne : parts ≠ []) {rest : List Char}
    {more : List Token} (hrest : EndsNumeral rest) (h : Lexes rest more) :
    Lexes ((("," ++ inner).intercalate (parts.map text)).toList ++ rest)
      ([.comma].intercalate (parts.map tokens) ++ more) := by
  induction parts with
  | nil => exact absurd rfl hne
  | cons a parts ih =>
      rw [List.forall_mem_cons] at hparts
      cases parts with
      | nil =>
          simpa using hparts.1 rest more hrest h
      | cons b parts =>
          have htail := ih hparts.2 (List.cons_ne_nil b parts)
          have hcomma := (htail.blanks hinner).single (c := ',') rfl fun _ => rfl
          have hfirst := hparts.1 _ _ (endsNumeral_cons _ (by decide)) hcomma
          simpa [String.intercalate_cons_cons, List.intercalate_cons_cons] using hfirst

/-- A container on lines of its own: its parts between an opening and a closing token. -/
theorem begins_spread {α : Type} {text : α → String} {tokens : α → List Token} {parts : List α}
    (hparts : ∀ a ∈ parts, Begins (text a) (tokens a)) {opening closing : String}
    {first last : Char} {openToken closeToken : Token} (hopening : opening.toList = [first])
    (hclosing : closing.toList = [last]) (hfirst : isBlank first = false)
    (hlast : isBlank last = false)
    (hopen : ∀ rest, nextToken? (first :: rest) = some (openToken, rest))
    (hclose : ∀ rest, nextToken? (last :: rest) = some (closeToken, rest)) (level : Nat) :
    Begins (spread opening closing level (parts.map text))
      (openToken :: ([.comma].intercalate (parts.map tokens) ++ [closeToken])) := by
  intro rest more hrest h
  have hend := h.single hlast hclose
  unfold spread
  split
  · next hempty =>
      obtain rfl : parts = [] := by simpa using hempty
      simpa [hopening, hclosing] using hend.single hfirst hopen
  · next hne =>
      have hmargin : ∀ c ∈ List.replicate (2 * level) ' ', isBlank c = true := by
        intro c hc
        rw [List.eq_of_mem_replicate hc]
        rfl
      have hnewline : Lexes ('\n' :: (List.replicate (2 * level) ' ' ++ last :: rest))
          (closeToken :: more) :=
        .blank rfl (hend.blanks hmargin)
      have hinner : ∀ c ∈ ("\n  " ++ String.ofList (List.replicate (2 * level) ' ')).toList,
          isBlank c = true := by
        rw [String.toList_append, List.forall_mem_append]
        exact ⟨by simp [isBlank], by rwa [String.toList_ofList]⟩
      have hjoin := lexes_join hinner hparts (by simpa using hne) (endsNumeral_cons _ (by decide))
        hnewline
      have hall := (hjoin.blanks hinner).single hfirst hopen
      simpa [hopening, hclosing] using hall

/-- The text of a readable tree begins with its tokens. -/
theorem Readable.begins {v : Json} (h : v.Readable) (level : Nat) :
    Begins (indentedAt level v) v.tokens := by
  induction h generalizing level with
  | null =>
      have htext : (indentedAt level .null).toList = ['n', 'u', 'l', 'l'] := by
        simp [indentedAt, compact]
      exact begins_of_nextToken? htext rfl fun rest _ => rfl
  | bool b =>
      cases b with
      | false =>
          have htext : (indentedAt level (.bool false)).toList = ['f', 'a', 'l', 's', 'e'] := by
            simp [indentedAt, compact]
          exact begins_of_nextToken? htext rfl fun rest _ => rfl
      | true =>
          have htext : (indentedAt level (.bool true)).toList = ['t', 'r', 'u', 'e'] := by
            simp [indentedAt, compact]
          exact begins_of_nextToken? htext rfl fun rest _ => rfl
  | int h => exact h.begins
  | float h => exact h.begins
  | string s => exact begins_literal s
  | @array items h ih =>
      rw [indentedAt, tokens, indentedItems_eq_map, tokensItems_eq_map]
      exact begins_spread (fun v hv => ih v hv _) rfl rfl rfl rfl (fun _ => rfl) (fun _ => rfl)
        level
  | @object members h ih =>
      rw [indentedAt, tokens, indentedMembers_eq_map, tokensMembers_eq_map]
      refine begins_spread (fun m hm => ?_) rfl rfl rfl rfl (fun _ => rfl) (fun _ => rfl) level
      intro rest more hrest h
      have hvalue := ih m hm (level + 1) rest more hrest h
      have hcolon := (Lexes.blank (c := ' ') rfl hvalue).single (c := ':') rfl fun _ => rfl
      have hkey := begins_literal m.1 _ _ (endsNumeral_cons _ (by decide)) hcolon
      simpa [memberTokens] using hkey

/-! ## Reading tokens -/

namespace Reader

variable {r : Reader}

/-- A value may come next. -/
def AwaitsValue (r : Reader) : Prop := r.expected = .value ∨ r.expected = .firstItem

theorem AwaitsValue.accept (h : r.AwaitsValue) (token : Token) (htoken : token ≠ .closeArray) :
    r.accept token = r.beginValue token := by
  unfold Reader.accept
  rcases h with h | h
  · rw [h]
  · rw [h]
    cases token <;> first | rfl | exact absurd rfl htoken

/-- Reading these tokens where a value may come yields the value. -/
def Reads (tokens : List Token) (v : Json) : Prop :=
  ∀ r : Reader, r.AwaitsValue → r.depth + v.height ≤ maxDepth →
    tokens.foldlM accept r = some (deliver v r.frames r.depth)

theorem reads_scalar (v : Json) : Reads [.scalar v] v := by
  intro r hr _
  rw [List.foldlM_cons, hr.accept _ (by simp)]
  rfl

theorem reads_text (s : String) : Reads [.text (some s)] (.string s) := by
  intro r hr _
  rw [List.foldlM_cons, hr.accept _ (by simp)]
  rfl

/-- Items of an array, with commas between them. -/
theorem foldlM_items {items : List Json} (hne : items ≠ []) (hitems : ∀ v ∈ items, Reads v.tokens v)
    {seen : List Json} {frames : List Frame} {depth : Nat} {expected : Expected}
    (hr : AwaitsValue ⟨.array seen :: frames, depth, expected⟩)
    (hdepth : depth + heightItems items ≤ maxDepth) :
    ([.comma].intercalate (items.map tokens)).foldlM accept ⟨.array seen :: frames, depth, expected⟩
      = some ⟨.array (items.reverse ++ seen) :: frames, depth, .separator⟩ := by
  induction items generalizing seen expected with
  | nil => exact absurd rfl hne
  | cons v items ih =>
      rw [List.forall_mem_cons] at hitems
      rw [heightItems] at hdepth
      have hv := hitems.1 _ hr (by simp only; omega)
      cases items with
      | nil =>
          rw [List.map_singleton, List.intercalate_singleton, hv]
          rfl
      | cons w items =>
          have hcomma : (deliver v (.array seen :: frames) depth).accept .comma
              = some ⟨.array (v :: seen) :: frames, depth, .value⟩ := rfl
          have hrest := @ih (List.cons_ne_nil w items) hitems.2 (v :: seen) .value (.inl rfl)
            (by omega)
          rw [List.map_cons, List.map_cons, List.intercalate_cons_cons, ← List.map_cons,
            List.foldlM_append, List.foldlM_append, hv]
          simpa [hcomma] using hrest

/-- Members of an object, with commas between them. -/
theorem foldlM_members {members : List (String × Json)} (hne : members ≠ [])
    (hmembers : ∀ m ∈ members, Reads m.2.tokens m.2) {seen : List (String × Json)}
    {frames : List Frame} {depth : Nat} {key : String} {expected : Expected}
    (hexpected : expected = .firstKey ∨ expected = .key)
    (hdepth : depth + heightMembers members ≤ maxDepth) :
    ∃ key', ([.comma].intercalate (members.map memberTokens)).foldlM accept
          ⟨.object seen true key :: frames, depth, expected⟩
      = some ⟨.object (members.reverse ++ seen) true key' :: frames, depth, .separator⟩ := by
  induction members generalizing seen key expected with
  | nil => exact absurd rfl hne
  | cons m members ih =>
      obtain ⟨name, v⟩ := m
      rw [List.forall_mem_cons] at hmembers
      rw [heightMembers] at hdepth
      have hkey : accept ⟨.object seen true key :: frames, depth, expected⟩ (.text (some name))
          = some ⟨.object seen true name :: frames, depth, .colon⟩ := by
        rcases hexpected with rfl | rfl <;> rfl
      have hcolon : accept ⟨.object seen true name :: frames, depth, .colon⟩ .colon
          = some ⟨.object seen true name :: frames, depth, .value⟩ := rfl
      have hv := hmembers.1 ⟨.object seen true name :: frames, depth, .value⟩ (.inl rfl)
        (by simp only; omega)
      have hmember : (memberTokens (name, v)).foldlM accept
            ⟨.object seen true key :: frames, depth, expected⟩
          = some ⟨.object ((name, v) :: seen) true name :: frames, depth, .separator⟩ := by
        rw [memberTokens, List.foldlM_cons, hkey, Option.bind_eq_bind, Option.bind_some,
          List.foldlM_cons, hcolon, Option.bind_eq_bind, Option.bind_some, hv]
        rfl
      cases members with
      | nil =>
          refine ⟨name, ?_⟩
          rw [List.map_singleton, List.intercalate_singleton, hmember]
          rfl
      | cons w members =>
          have hcomma :
              accept ⟨.object ((name, v) :: seen) true name :: frames, depth, .separator⟩ .comma
              = some ⟨.object ((name, v) :: seen) true name :: frames, depth, .key⟩ := rfl
          obtain ⟨key', hrest⟩ := @ih (List.cons_ne_nil w members) hmembers.2 ((name, v) :: seen)
            name .key (.inr rfl) (by omega)
          refine ⟨key', ?_⟩
          rw [List.map_cons, List.map_cons, List.intercalate_cons_cons, ← List.map_cons,
            List.foldlM_append, List.foldlM_append, hmember]
          simpa [hcomma] using hrest

theorem foldlM_container {r₁ r₂ r₃ : Reader} {opening closing : Token} {middle : List Token}
    (hopen : r.accept opening = some r₁) (hmiddle : middle.foldlM accept r₁ = some r₂)
    (hclose : r₂.accept closing = some r₃) :
    (opening :: (middle ++ [closing])).foldlM accept r = some r₃ := by
  simp [hopen, hmiddle, hclose]

end Reader

/-- Reading the tokens of a readable tree builds the tree. -/
theorem Readable.reads {v : Json} (h : v.Readable) : Reader.Reads v.tokens v := by
  induction h with
  | null => exact Reader.reads_scalar _
  | bool b => exact Reader.reads_scalar _
  | int h => exact Reader.reads_scalar _
  | float h => exact Reader.reads_scalar _
  | string s => exact Reader.reads_text s
  | @array items h ih =>
      intro r hr hdepth
      rw [height] at hdepth
      have hclose {seen : List Json} {expected : Expected}
          (hexpected : expected = .firstItem ∨ expected = .separator) :
          Reader.accept ⟨.array seen :: r.frames, r.depth + 1, expected⟩ .closeArray
            = some (.deliver (.array seen.reverse) r.frames r.depth) := by
        have hreadable : r.depth + 1 ≤ maxDepth := by omega
        rcases hexpected with rfl | rfl <;>
          simp [Reader.accept, Reader.separate, Reader.endContainer, hreadable]
      rw [tokens, tokensItems_eq_map]
      have hopen : r.accept .openArray = some ⟨.array [] :: r.frames, r.depth + 1, .firstItem⟩ :=
        hr.accept .openArray (by simp)
      cases items with
      | nil => exact Reader.foldlM_container hopen rfl (hclose (.inl rfl))
      | cons v items =>
          have hinner : r.depth + 1 + heightItems (v :: items) ≤ maxDepth := by omega
          have hend := Reader.foldlM_container hopen
            (Reader.foldlM_items (List.cons_ne_nil v items) ih (.inr rfl) hinner)
            (hclose (.inr rfl))
          simpa using hend
  | @object members h ih =>
      intro r hr hdepth
      rw [height] at hdepth
      have hclose {seen : List (String × Json)} {key : String} {expected : Expected}
          (hexpected : expected = .firstKey ∨ expected = .separator) :
          Reader.accept ⟨.object seen true key :: r.frames, r.depth + 1, expected⟩ .closeObject
            = some (.deliver (.object seen.reverse) r.frames r.depth) := by
        have hreadable : r.depth + 1 ≤ maxDepth := by omega
        rcases hexpected with rfl | rfl <;>
          simp [Reader.accept, Reader.separate, Reader.endContainer, hreadable]
      rw [tokens, tokensMembers_eq_map]
      have hopen : r.accept .openObject
          = some ⟨.object [] true "" :: r.frames, r.depth + 1, .firstKey⟩ :=
        hr.accept .openObject (by simp)
      cases members with
      | nil => exact Reader.foldlM_container hopen rfl (hclose (.inl rfl))
      | cons m members =>
          have hinner : r.depth + 1 + heightMembers (m :: members) ≤ maxDepth := by omega
          obtain ⟨key, hmembers⟩ := @Reader.foldlM_members _ (List.cons_ne_nil m members) ih []
            r.frames _ "" _ (.inl rfl) hinner
          have hend := Reader.foldlM_container hopen hmembers (hclose (.inr rfl))
          simpa using hend

/-- **A readable tree is read back from its text**, unless it is nested too deeply. -/
theorem parse?_indented {v : Json} (h : v.Readable) (hheight : v.height ≤ maxDepth) :
    parse? v.indented = some v := by
  have hlexes : Lexes v.indented.toList v.tokens := by
    have hbegins := h.begins 0 [] [] (by rintro _ ⟨⟩) .nil
    simpa [indented] using hbegins
  have hreads := h.reads .start (.inl rfl) (by simpa [Reader.start] using hheight)
  unfold parse?
  rw [tokens?_of_lexes hlexes]
  simp [hreads]
  rfl

/-! ## Numbers -/

theorem int64?_toInt (v : Int64) : (Json.int v.toInt).int64? = some v := by
  rw [int64?, if_pos ⟨v.minValue_le_toInt, v.toInt_le⟩, Int64.ofInt_toInt]

theorem uint64?_toNat (v : UInt64) : (Json.int v.toNat).uint64? = some v := by
  have hfits : 0 ≤ (v.toNat : Int) ∧ (v.toNat : Int).toNat < UInt64.size := by
    simpa using v.toNat_lt_size
  rw [uint64?, if_pos hfits, Int.toNat_natCast, UInt64.ofNat_toNat]

theorem readable_toInt (v : Int64) : (Json.int v.toInt).Readable := by
  have hmax : v.toInt < UInt64.size := Int.lt_trans v.toInt_lt (by decide)
  exact .int (readsBack_int v.minValue_le_toInt hmax)

theorem readable_toNat (v : UInt64) : (Json.int v.toNat).Readable := by
  have hmin : Int64.minValue.toInt ≤ v.toNat := Int.le_trans (by decide) (Int.natCast_nonneg _)
  exact .int (readsBack_int hmin (Int.ofNat_lt.2 v.toNat_lt_size))

theorem readsBack_half : (Json.float 0.5).ReadsBack := by
  have hscan : scanNumeral (Json.float 0.5).compact.toList
      = some (⟨false, ['0'], some ['5'], none⟩, []) := by decide +kernel
  have hscaled : Numeral.scaled ⟨false, ['0'], some ['5'], none⟩ = ⟨5, -1⟩ := by decide +kernel
  have hdivide : Scaled.divide (UInt64.toFloat 5) 1 = 0.5 := by
    rw [Scaled.divide]
    decide +kernel
  refine ⟨_, hscan, ?_⟩
  simp [Numeral.toJson, Numeral.toInt?, Numeral.toFloat?, hscaled, Scaled.toFloat?, hdivide]

end ThreeAddress.Json
