import Mathlib.Data.List.TakeDrop
import Mathlib.Data.List.TakeWhile
import ThreeAddress.Json.Token
import ThreeAddress.Json.Writer
import ThreeAddress.Proofs.Decimal.Digits

set_option autoImplicit false

/-! # Reading back what was written, token by token

The texts of numbers and of string literals are read back as what they stand for, whatever follows
them, as long as a number is not followed by more of a number. -/

namespace ThreeAddress.Json

/-! ## Numerals in front of a text -/

/-- No numeral goes on in this text. -/
def EndsNumeral (rest : List Char) : Prop :=
  ∀ c ∈ rest.head?, c.isDigit = false ∧ c ≠ '.' ∧ c ≠ 'e' ∧ c ≠ 'E'

section Append

variable {cs cs' rest : List Char}

theorem forall_head?_append {P : Char → Prop} (hcs : ∀ c ∈ cs.head?, P c)
    (hrest : ∀ c ∈ rest.head?, P c) : ∀ c ∈ (cs ++ rest).head?, P c := by
  cases cs with
  | nil => exact hrest
  | cons c cs => exact hcs

theorem span_append {digits : List Char} (h : cs.span Char.isDigit = (digits, cs'))
    (hrest : EndsNumeral rest) : (cs ++ rest).span Char.isDigit = (digits, cs' ++ rest) := by
  rw [List.span_eq_takeWhile_dropWhile] at h ⊢
  cases h
  induction cs with
  | nil =>
      cases rest with
      | nil => rfl
      | cons c rest => simp [(hrest c rfl).1]
  | cons c cs ih =>
      by_cases hc : c.isDigit
      · simpa [hc] using ih
      · simp [hc]

theorem scanFraction_of_head? (h : ∀ c ∈ cs.head?, c ≠ '.') :
    scanFraction cs = some (none, cs) := by
  unfold scanFraction
  split
  · exact absurd rfl (h '.' rfl)
  · rfl

theorem scanFraction_append {fraction : Option (List Char)}
    (h : scanFraction cs = some (fraction, cs')) (hrest : EndsNumeral rest) :
    scanFraction (cs ++ rest) = some (fraction, cs' ++ rest) := by
  unfold scanFraction at h
  split at h
  · next cs =>
      split at h
      · cases h
      · next digits cs' hne hspan =>
          cases h
          rw [List.cons_append, scanFraction, span_append hspan hrest]
          cases digits with
          | nil => exact absurd rfl hne
          | cons c digits => rfl
  · next hpoint =>
      cases h
      refine scanFraction_of_head? (forall_head?_append ?_ fun c hc => (hrest c hc).2.1)
      rintro c hc rfl
      cases cs with
      | nil => cases hc
      | cons d cs =>
          cases hc
          exact hpoint cs rfl

theorem scanDigits_append {n : Nat} (h : scanDigits cs = some (n, cs')) (hrest : EndsNumeral rest) :
    scanDigits (cs ++ rest) = some (n, cs' ++ rest) := by
  unfold scanDigits at h
  split at h
  · cases h
  · next digits cs' hne hspan =>
      cases h
      rw [scanDigits, span_append hspan hrest]
      cases digits with
      | nil => exact absurd rfl hne
      | cons c digits => rfl

theorem scanSigned_append {n : Int} (h : scanSigned cs = some (n, cs')) (hrest : EndsNumeral rest) :
    scanSigned (cs ++ rest) = some (n, cs' ++ rest) := by
  unfold scanSigned at h
  split at h
  · next cs =>
      obtain ⟨⟨m, cs₁⟩, hm, h⟩ := Option.map_eq_some_iff.1 h
      cases h
      rw [List.cons_append, scanSigned, scanDigits_append hm hrest]
      rfl
  · next cs =>
      obtain ⟨⟨m, cs₁⟩, hm, h⟩ := Option.map_eq_some_iff.1 h
      cases h
      rw [List.cons_append, scanSigned, scanDigits_append hm hrest]
      rfl
  · next hminus hplus =>
      obtain ⟨⟨m, cs₁⟩, hm, h⟩ := Option.map_eq_some_iff.1 h
      cases h
      cases cs with
      | nil => cases hm
      | cons c cs =>
          rw [scanSigned, scanDigits_append hm hrest]
          · rfl
          · rintro rest' ⟨⟩
            exact hminus cs rfl
          · rintro rest' ⟨⟩
            exact hplus cs rfl

theorem scanExponent_of_head? (h : ∀ c ∈ cs.head?, c ≠ 'e' ∧ c ≠ 'E') :
    scanExponent cs = some (none, cs) := by
  unfold scanExponent
  split
  · exact absurd rfl (h 'e' rfl).1
  · exact absurd rfl (h 'E' rfl).2
  · rfl

theorem scanExponent_append {exponent : Option Int} (h : scanExponent cs = some (exponent, cs'))
    (hrest : EndsNumeral rest) : scanExponent (cs ++ rest) = some (exponent, cs' ++ rest) := by
  unfold scanExponent at h
  split at h
  · next cs =>
      obtain ⟨⟨m, cs₁⟩, hm, h⟩ := Option.map_eq_some_iff.1 h
      cases h
      rw [List.cons_append, scanExponent, scanSigned_append hm hrest]
      rfl
  · next cs =>
      obtain ⟨⟨m, cs₁⟩, hm, h⟩ := Option.map_eq_some_iff.1 h
      cases h
      rw [List.cons_append, scanExponent, scanSigned_append hm hrest]
      rfl
  · next hlower hupper =>
      cases h
      refine scanExponent_of_head? (forall_head?_append ?_ fun c hc => (hrest c hc).2.2)
      intro c hc
      cases cs with
      | nil => cases hc
      | cons d cs =>
          cases hc
          exact ⟨fun hd => hlower cs (hd ▸ rfl), fun hd => hupper cs (hd ▸ rfl)⟩

theorem scanUnsigned_append {negative : Bool} {n : Numeral}
    (h : scanUnsigned negative cs = some (n, cs')) (hrest : EndsNumeral rest) :
    scanUnsigned negative (cs ++ rest) = some (n, cs' ++ rest) := by
  unfold scanUnsigned at h ⊢
  rcases hspan : cs.span Char.isDigit with ⟨whole, cs₁⟩
  rw [span_append hspan hrest]
  rw [hspan] at h
  simp only at h ⊢
  split at h
  · cases h
  · cases h
  · obtain ⟨⟨fraction, cs₂⟩, hfraction, h⟩ := Option.bind_eq_some_iff.1 h
    obtain ⟨⟨exponent, cs₃⟩, hexponent, h⟩ := Option.bind_eq_some_iff.1 h
    cases h
    rw [scanFraction_append hfraction hrest]
    change (scanExponent (cs₂ ++ rest) >>= _) = _
    rw [scanExponent_append hexponent hrest]
    rfl

/-- A numeral stays the same if a text follows in which no numeral goes on. -/
theorem scanNumeral_append {n : Numeral} (h : scanNumeral cs = some (n, cs'))
    (hrest : EndsNumeral rest) : scanNumeral (cs ++ rest) = some (n, cs' ++ rest) := by
  unfold scanNumeral at h
  split at h
  · exact scanUnsigned_append h hrest
  · next hminus =>
      cases cs with
      | nil => cases h
      | cons c cs =>
          rw [scanNumeral]
          · exact scanUnsigned_append h hrest
          · rintro rest' ⟨⟩
            exact hminus cs rfl

end Append

theorem isBlank_of_isDigit {c : Char} (h : c.isDigit = true) : isBlank c = false := by
  cases hblank : isBlank c with
  | false => rfl
  | true =>
      simp only [isBlank, Bool.or_eq_true, beq_iff_eq] at hblank
      rcases hblank with ((rfl | rfl) | rfl) | rfl <;> cases h

/-- A numeral begins with its sign or a digit. -/
theorem head_of_scanNumeral {c : Char} {cs cs' : List Char} {n : Numeral}
    (h : scanNumeral (c :: cs) = some (n, cs')) : c = '-' ∨ c.isDigit = true := by
  by_cases hminus : c = '-'
  · exact .inl hminus
  · right
    by_cases hdigit : c.isDigit
    · exact hdigit
    · have hspan : (c :: cs).span Char.isDigit = ([], c :: cs) := by
        rw [List.span_eq_takeWhile_dropWhile]
        simp [hdigit]
      rw [scanNumeral, scanUnsigned, hspan] at h
      · cases h
      · rintro rest ⟨⟩
        exact hminus rfl

theorem nextToken?_of_scanNumeral {cs cs' : List Char} {n : Numeral}
    (h : scanNumeral cs = some (n, cs')) : nextToken? cs = some (.scalar n.toJson, cs') := by
  unfold nextToken?
  split
  case h_11 =>
    rw [h]
    rfl
  -- no other token begins like a numeral
  all_goals exact absurd (head_of_scanNumeral h) (by decide)

/-! ## Numbers -/

/-- The text of a number is one numeral, and the number is what it is read as. -/
def ReadsBack (v : Json) : Prop :=
  ∃ n : Numeral, scanNumeral v.compact.toList = some (n, []) ∧ n.toJson = v

theorem ReadsBack.nextToken? {v : Json} {rest : List Char} (h : v.ReadsBack)
    (hrest : EndsNumeral rest) :
    nextToken? (v.compact.toList ++ rest) = some (.scalar v, rest) := by
  obtain ⟨n, hscan, hn⟩ := h
  rw [nextToken?_of_scanNumeral (scanNumeral_append hscan hrest), hn]
  rfl

theorem scanUnsigned_toDigits (negative : Bool) (n : Nat) :
    scanUnsigned negative (Nat.toDigits 10 n)
      = some (⟨negative, Nat.toDigits 10 n, none, none⟩, []) := by
  have hdigits : ∀ c ∈ Nat.toDigits 10 n, c.isDigit := fun c hc =>
    Nat.isDigit_of_mem_toDigits (by decide) (by decide) hc
  have hspan : (Nat.toDigits 10 n).span Char.isDigit = (Nat.toDigits 10 n, []) := by
    rw [List.span_eq_takeWhile_dropWhile, List.takeWhile_eq_self_iff.2 hdigits,
      List.dropWhile_eq_nil_iff.2 hdigits]
  unfold scanUnsigned
  rw [hspan]
  simp only
  split
  · next hnil => exact absurd hnil Nat.toDigits_ne_nil
  · next c cs hzero => exact absurd hzero (toDigits_ne_zero_cons n c cs)
  · rfl

theorem scanNumeral_toDigits (n : Nat) :
    scanNumeral (Nat.toDigits 10 n)
      = some (⟨false, Nat.toDigits 10 n, none, none⟩, []) := by
  rw [scanNumeral]
  · exact scanUnsigned_toDigits false n
  · intro rest hminus
    have hdigit : '-'.isDigit := Nat.isDigit_of_mem_toDigits (by decide) (by decide)
      (hminus ▸ List.mem_cons_self)
    exact absurd hdigit (by decide)

/-- An integer of 64 bits, with or without a sign, is read back. -/
theorem readsBack_int {v : Int} (hmin : Int64.minValue.toInt ≤ v) (hmax : v < UInt64.size) :
    (Json.int v).ReadsBack := by
  have htext : (Json.int v).compact.toList
      = if 0 ≤ v then Nat.toDigits 10 v.toNat else '-' :: Nat.toDigits 10 (-v).toNat := by
    rw [compact, Int.toString_eq_repr, Int.repr_eq_if]
    split
    · exact Nat.toList_repr
    · rw [String.toList_append, Nat.toList_repr]
      rfl
  unfold ReadsBack
  rw [htext]
  split
  · next hnonneg =>
      obtain ⟨n, rfl⟩ := Int.eq_ofNat_of_zero_le hnonneg
      have hlt : n < UInt64.size := by omega
      refine ⟨_, scanNumeral_toDigits n, ?_⟩
      simp [Numeral.toJson, Numeral.toInt?, hlt]
  · next hneg =>
      obtain ⟨n, rfl⟩ : ∃ n : Nat, v = -n := ⟨(-v).toNat, by omega⟩
      have hpos : 0 < n := by omega
      rw [Int.neg_neg, Int.toNat_natCast]
      refine ⟨_, scanUnsigned_toDigits true n, ?_⟩
      have hint : (⟨true, Nat.toDigits 10 n, none, none⟩ : Numeral).toInt?
          = some (-(n : Int)) := by
        simp only [Numeral.toInt?, Option.isSome_none, Bool.or_self, Bool.false_eq_true, if_false,
          if_true, Nat.ofDigitChars_ten_toDigits]
        exact if_pos ⟨hpos, hmin⟩
      rw [Numeral.toJson, hint]

/-! ## String literals -/

/-- What a piece of a literal stands for: the character `c`. -/
def Piece.Stands (p : Piece) (c : Char) : Prop :=
  ∀ behind rest, chars? behind (p :: rest) = chars? (c :: behind) rest

theorem Piece.stands_char (c : Char) : (Piece.char c).Stands c := fun _ _ => by
  rw [chars?]

theorem Piece.stands_unit {c : Char} (h : c.toNat < 0x20) : (Piece.unit c.toNat).Stands c := by
  intro behind rest
  have hlow : ¬(0xDC00 ≤ c.toNat ∧ c.toNat < 0xE000) := by omega
  have hhigh : ¬(0xD800 ≤ c.toNat ∧ c.toNat < 0xDC00) := by omega
  have hsurrogate : ¬(0xD800 ≤ c.toNat ∧ c.toNat < 0xE000) := by omega
  rcases rest with _ | ⟨_ | high, rest⟩
  · rw [chars?.eq_def]
    simp only [if_neg hsurrogate, Char.ofNat_toNat]
  · rw [chars?.eq_def]
    simp only [if_neg hsurrogate, Char.ofNat_toNat]
  · rw [chars?.eq_def]
    simp only [if_neg hlow, if_neg hhigh, Char.ofNat_toNat]

theorem hexValue?_digitChar : ∀ n < 16, hexValue? ['0', '0', '0', n.digitChar] = some n := by
  decide

theorem hexValue?_one_digitChar :
    ∀ n < 16, hexValue? ['0', '0', '1', n.digitChar] = some (16 + n) := by
  decide

/-- Each character of a text is written as a piece that stands for it. -/
theorem scanText_escaped (c : Char) : ∃ p : Piece, p.Stands c ∧
    ∀ seen cs, scanText seen ((escaped c).toList ++ cs) = scanText (p :: seen) cs := by
  unfold escaped
  split
  case h_8 =>
    split
    · next hlt =>
        have htext : ("\\u000" ++ String.ofList (Nat.toDigits 16 c.toNat)).toList
            = ['\\', 'u', '0', '0', '0', c.toNat.digitChar] := by
          simp [Nat.toDigits_of_lt_base hlt]
        refine ⟨.unit c.toNat, Piece.stands_unit (by omega), fun seen cs => ?_⟩
        rw [htext]
        simp only [List.cons_append, List.nil_append]
        rw [scanText, hexValue?_digitChar _ hlt]
    · split
      · next hge hlt =>
          have hdigits : Nat.toDigits 16 c.toNat = ['1', (c.toNat - 16).digitChar] := by
            have happend : Nat.toDigits 16 1 ++ Nat.toDigits 16 (c.toNat - 16)
                = Nat.toDigits 16 (16 * 1 + (c.toNat - 16)) :=
              Nat.toDigits_append_toDigits (by decide) (by decide) (by omega)
            rw [show 16 * 1 + (c.toNat - 16) = c.toNat by omega] at happend
            rw [← happend, Nat.toDigits_of_lt_base (n := c.toNat - 16) (by omega)]
            rfl
          have htext : ("\\u00" ++ String.ofList (Nat.toDigits 16 c.toNat)).toList
              = ['\\', 'u', '0', '0', '1', (c.toNat - 16).digitChar] := by
            simp [hdigits]
          have hvalue : 16 + (c.toNat - 16) = c.toNat := by omega
          refine ⟨.unit c.toNat, Piece.stands_unit hlt, fun seen cs => ?_⟩
          rw [htext]
          simp only [List.cons_append, List.nil_append]
          rw [scanText, hexValue?_one_digitChar _ (by omega), hvalue]
      · next hquote hbackslash _ _ _ _ _ _ hge =>
          refine ⟨.char c, Piece.stands_char c, fun seen cs => ?_⟩
          have htext : c.toString.toList = [c] := by simp
          rw [htext, List.singleton_append, scanText, if_neg hge]
          · exact hquote
          · exact fun _ _ _ _ _ hc _ => hbackslash hc
          · exact fun _ _ hc _ => hbackslash hc
  all_goals exact ⟨.char _, Piece.stands_char _, fun seen cs => rfl⟩

/-- The pieces of a text, and what follows the quote. -/
theorem scanText_append (s : List Char) (seen : List Piece) (rest : List Char) :
    ∃ pieces, scanText seen (s.flatMap (fun c => (escaped c).toList) ++ '"' :: rest)
        = some (pieces ++ seen, rest) ∧
      ∀ behind more, Piece.chars? behind (pieces ++ more) = Piece.chars? (s ++ behind) more := by
  induction s generalizing seen with
  | nil => exact ⟨[], rfl, fun _ _ => rfl⟩
  | cons c s ih =>
      obtain ⟨p, hp, hscan⟩ := scanText_escaped c
      obtain ⟨pieces, hpieces, hchars⟩ := ih (p :: seen)
      refine ⟨pieces ++ [p], ?_, fun behind more => ?_⟩
      · rw [List.flatMap_cons, List.append_assoc, hscan, hpieces]
        simp
      · rw [List.append_assoc, hchars, List.singleton_append, hp]
        rfl

theorem nextToken?_literal (s : String) (rest : List Char) :
    nextToken? ((literal s).toList ++ rest) = some (.text (some s), rest) := by
  have htext : (literal s).toList ++ rest
      = '"' :: (s.toList.flatMap (fun c => (escaped c).toList) ++ '"' :: rest) := by
    simp [literal, String.toList_join, List.flatMap_map]
  obtain ⟨pieces, hscan, hchars⟩ := scanText_append s.toList [] rest
  have hvalue : Piece.chars? [] (pieces ++ []) = some s.toList := by
    rw [hchars, List.append_nil, Piece.chars?]
  rw [htext, nextToken?, textToken?, hscan, Option.map_some]
  simp only [hvalue, Option.map_some, String.ofList_toList]

/-! ## Texts -/

/-- The text consists of these tokens, with blanks between them. -/
inductive Lexes : List Char → List Token → Prop
  | nil : Lexes [] []
  | blank {c : Char} {cs : List Char} {tokens : List Token} (hc : isBlank c = true)
      (h : Lexes cs tokens) : Lexes (c :: cs) tokens
  | token {c : Char} {cs rest : List Char} {token : Token} {tokens : List Token}
      (hc : isBlank c = false) (hnext : nextToken? (c :: (cs ++ rest)) = some (token, rest))
      (h : Lexes rest tokens) : Lexes (c :: (cs ++ rest)) (token :: tokens)

namespace Lexes

variable {cs rest : List Char} {tokens : List Token}

theorem blanks {bs : List Char} (hbs : ∀ c ∈ bs, isBlank c = true) (h : Lexes cs tokens) :
    Lexes (bs ++ cs) tokens := by
  induction bs with
  | nil => exact h
  | cons b bs ih =>
      rw [List.forall_mem_cons] at hbs
      exact .blank hbs.1 (ih hbs.2)

/-- A token of one character. -/
theorem single {c : Char} {token : Token} (hc : isBlank c = false)
    (hnext : ∀ rest, nextToken? (c :: rest) = some (token, rest)) (h : Lexes cs tokens) :
    Lexes (c :: cs) (token :: tokens) :=
  @Lexes.token c [] cs token tokens hc (hnext cs) h

/-- Reading all tokens of a text takes no more rounds than it has characters. -/
theorem tokensWithin_eq (h : Lexes cs tokens) {fuel : Nat} (hfuel : cs.length ≤ fuel)
    (seen : Array Token) : tokensWithin seen fuel cs = some (seen ++ tokens.toArray) := by
  induction h generalizing fuel seen with
  | nil =>
      cases fuel <;> simp [tokensWithin]
  | @blank c cs tokens hc h ih =>
      obtain ⟨fuel, rfl⟩ := Nat.exists_eq_add_of_lt (Nat.lt_of_lt_of_le (Nat.zero_lt_succ _) hfuel)
      have hskip :
          tokensWithin seen (0 + fuel + 1) (c :: cs) = tokensWithin seen (0 + fuel + 1) cs := by
        simp only [tokensWithin, List.dropWhile_cons_of_pos hc]
      rw [hskip]
      exact ih (Nat.le_of_succ_le hfuel) seen
  | @token c cs rest token tokens hc hnext h ih =>
      obtain ⟨fuel, rfl⟩ := Nat.exists_eq_add_of_lt (Nat.lt_of_lt_of_le (Nat.zero_lt_succ _) hfuel)
      have hdrop : (c :: (cs ++ rest)).dropWhile isBlank = c :: (cs ++ rest) :=
        List.dropWhile_cons_of_neg (by simp [hc])
      have hlength : rest.length ≤ 0 + fuel := by
        simp only [List.length_cons, List.length_append] at hfuel
        omega
      rw [tokensWithin, hdrop]
      simp only [hnext]
      rw [ih hlength]
      simp

end Lexes

theorem tokens?_of_lexes {text : String} {tokens : List Token} (h : Lexes text.toList tokens) :
    tokens? text = some tokens.toArray := by
  rw [tokens?, h.tokensWithin_eq (Nat.le_refl _)]
  simp

end ThreeAddress.Json
