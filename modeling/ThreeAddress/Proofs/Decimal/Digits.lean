set_option autoImplicit false

/-! # Decimal digits

Reading digits and writing the number again gives the digits back without leading zeros. A number
that is written in front of something that is no digit can be told from every other number. -/

namespace ThreeAddress

/-- Digits without leading zeros; of zeros alone one stays. -/
def canonicalDigits (cs : List Char) : List Char :=
  match cs.dropWhile (· == '0') with
  | [] => ['0']
  | ds => ds

theorem exists_eq_digitChar {c : Char} (h : c.isDigit) : ∃ d < 10, c = Nat.digitChar d := by
  have hrange : 48 ≤ c.toNat ∧ c.toNat ≤ 57 := Char.isDigit_iff_toNat.1 h
  have hlt : c.toNat - 48 < 10 := by omega
  refine ⟨c.toNat - 48, hlt, Char.toNat_inj.1 ?_⟩
  rw [Nat.toNat_digitChar_of_lt_ten hlt]
  omega

/-- Reading digits behind a positive number puts them after its own. -/
theorem toDigits_ofDigitChars_of_pos {n : Nat} (hn : 0 < n) {cs : List Char}
    (hcs : ∀ c ∈ cs, c.isDigit) :
    Nat.toDigits 10 (Nat.ofDigitChars 10 cs n) = Nat.toDigits 10 n ++ cs := by
  induction cs generalizing n with
  | nil => simp
  | cons c cs ih =>
      rw [List.forall_mem_cons] at hcs
      obtain ⟨d, hd, rfl⟩ := exists_eq_digitChar hcs.1
      rw [Nat.ofDigitChars_cons_digitChar_of_lt_ten hd, ih (by omega) hcs.2,
        ← Nat.toDigits_append_toDigits (by decide) hn hd, Nat.toDigits_of_lt_base hd,
        List.append_assoc, List.singleton_append]

/-- Reading a number and writing it again drops the leading zeros. -/
theorem toDigits_ofDigitChars {cs : List Char} (hne : cs ≠ []) (hcs : ∀ c ∈ cs, c.isDigit) :
    Nat.toDigits 10 (Nat.ofDigitChars 10 cs 0) = canonicalDigits cs := by
  induction cs with
  | nil => exact absurd rfl hne
  | cons c cs ih =>
      rw [List.forall_mem_cons] at hcs
      obtain ⟨d, hd, rfl⟩ := exists_eq_digitChar hcs.1
      rw [Nat.ofDigitChars_cons_digitChar_of_lt_ten hd]
      by_cases hzero : d = 0
      · subst hzero
        cases cs with
        | nil => rfl
        | cons c' cs => exact ih (List.cons_ne_nil c' cs) hcs.2
      · have hdrop : canonicalDigits (d.digitChar :: cs) = d.digitChar :: cs := by
          simp [canonicalDigits, hzero]
        rw [hdrop, Nat.mul_zero, Nat.zero_add,
          toDigits_ofDigitChars_of_pos (Nat.pos_of_ne_zero hzero) hcs.2,
          Nat.toDigits_of_lt_base hd, List.singleton_append]

/-- A written number has no leading zero, unless it is zero. -/
theorem toDigits_ne_zero_cons (n : Nat) (c : Char) (cs : List Char) :
    Nat.toDigits 10 n ≠ '0' :: c :: cs := by
  intro h
  have hdigits : ∀ d ∈ '0' :: c :: cs, d.isDigit := by
    rw [← h]
    exact fun d hd => Nat.isDigit_of_mem_toDigits (by decide) (by decide) hd
  have hread := toDigits_ofDigitChars (List.cons_ne_nil '0' (c :: cs)) hdigits
  rw [← h, Nat.ofDigitChars_ten_toDigits, h] at hread
  -- dropping the zero makes the digits shorter
  have hlength : (canonicalDigits ('0' :: c :: cs)).length ≤ (c :: cs).length := by
    have hdrop : ('0' :: c :: cs).dropWhile (· == '0') = (c :: cs).dropWhile (· == '0') := rfl
    unfold canonicalDigits
    rw [hdrop]
    split
    · simp
    · exact (List.dropWhile_sublist _).length_le
  rw [← hread] at hlength
  exact Nat.not_succ_le_self _ hlength

/-- Where the digits of a number end, the number is over. -/
theorem toDigits_append_inj {m n : Nat} {c d : Char} {cs ds : List Char} (hc : c.isDigit = false)
    (hd : d.isDigit = false) (h : Nat.toDigits 10 m ++ c :: cs = Nat.toDigits 10 n ++ d :: ds) :
    m = n ∧ c :: cs = d :: ds := by
  have htake (k : Nat) {e : Char} {es : List Char} (he : e.isDigit = false) :
      (Nat.toDigits 10 k ++ e :: es).takeWhile Char.isDigit = Nat.toDigits 10 k := by
    rw [List.takeWhile_append_of_pos fun _ => Nat.isDigit_of_mem_toDigits (by decide) (by decide),
      List.takeWhile_cons_of_neg (by simp [he]), List.append_nil]
  have hdigits : Nat.toDigits 10 m = Nat.toDigits 10 n := by rw [← htake m hc, h, htake n hd]
  have hread := congrArg (fun cs => Nat.ofDigitChars 10 cs 0) hdigits
  simp only [Nat.ofDigitChars_ten_toDigits] at hread
  subst hread
  exact ⟨rfl, List.append_cancel_left h⟩

end ThreeAddress
