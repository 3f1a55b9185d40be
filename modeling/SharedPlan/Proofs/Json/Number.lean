import Mathlib.Data.List.TakeWhile
import SharedPlan.Json.Fields
import SharedPlan.Json.Printer

/-!
# SharedPlan.Proofs.Json.Number

Natural numbers are numbers again.

A natural number is written as its decimal digits, the first of which is a zero only in
the number zero.  It is read back where the bound admits it (`natBelow?_ofNat`), and a 64-bit
one can be kept (`inRange_toDigits`): its digits fit the significand, so none of it goes to
the exponent, and rounding does not bring it near the overflow threshold.
-/

namespace SharedPlan

namespace Json

/-! ## Digits -/

theorem toList_toString (n : Nat) : (toString n).toList = Nat.toDigits 10 n := by
  rw [Nat.toString_eq_ofList_toDigits, String.toList_ofList]

theorem isDigit_of_mem {n : Nat} {c : Char} (hc : c ∈ Nat.toDigits 10 n) : c.isDigit = true :=
  Nat.isDigit_of_mem_toDigits (by decide) (by decide) hc

theorem ne_of_isDigit {c d : Char} (hc : c.isDigit = true) (hd : d.isDigit = false) : c ≠ d := by
  rintro rfl
  rw [hc] at hd
  cases hd

/-- A number is written without leading zeros. -/
theorem head_toDigits (n : Nat) : Nat.toDigits 10 n = ['0'] ∨
    ∃ c rest, Nat.toDigits 10 n = c :: rest ∧ c ≠ '0' := by
  induction n using Nat.strongRecOn with
  | ind n ih =>
      rw [Nat.toDigits_eq_if (by decide)]
      split
      · rcases Nat.eq_zero_or_pos n with rfl | hn
        · exact .inl rfl
        · exact .inr ⟨_, [], rfl, fun h => Nat.ne_of_gt hn (Nat.digitChar_eq_zero.1 h)⟩
      · rename_i hlarge
        have hpos : 0 < n / 10 := by omega
        refine .inr ?_
        rcases ih (n / 10) (by omega) with hzero | ⟨c, rest, hdigits, hc⟩
        · have hvalue := Nat.ofDigitChars_ten_toDigits (n := n / 10)
          rw [hzero] at hvalue
          exact absurd hvalue.symm (Nat.ne_of_gt hpos)
        · exact ⟨c, rest ++ [(n % 10).digitChar], by rw [hdigits]; rfl, hc⟩

/-! ## Reading -/

/-- **A number that is written is read as the same number**, where it is below the bound. -/
theorem natBelow?_ofNat {n bound : Nat} (hn : n < bound) : natBelow? bound (ofNat n) = some n := by
  have hdigits : (Nat.toDigits 10 n).all Char.isDigit = true :=
    List.all_eq_true.2 fun _ => isDigit_of_mem
  rw [ofNat, natBelow?, if_pos hdigits]
  simp only [Nat.ofDigitChars_ten_toDigits, if_pos hn]

/-! ## Range -/

theorem le_ofDigitChars (l : List Char) (init : Nat) : init ≤ Nat.ofDigitChars 10 l init := by
  induction l generalizing init with
  | nil => exact Nat.le_refl init
  | cons c rest ih =>
      rw [Nat.ofDigitChars_cons]
      have := ih (10 * init + (c.toNat - '0'.toNat))
      omega

/-- The digits of a number that fits 64 bits all go into the significand. -/
theorem wholeDigits_eq {l : List Char} {s : Nat} (hl : Nat.ofDigitChars 10 l s < UInt64.size) :
    wholeDigits s l = (Nat.ofDigitChars 10 l s, 0) := by
  induction l generalizing s with
  | nil => rfl
  | cons c rest ih =>
      have hstep : s * 10 + (c.toNat - 48) = 10 * s + (c.toNat - '0'.toNat) := by
        rw [Nat.mul_comm]
        rfl
      rw [Nat.ofDigitChars_cons, ← hstep] at hl ⊢
      have htakes : takesDigit s (c.toNat - 48) = true :=
        decide_eq_true (Nat.lt_of_le_of_lt (le_ofDigitChars _ _) hl)
      rw [wholeDigits, if_pos htakes, ih hl]

/-- Rounding adds at most one unit of the last place that is kept. -/
theorem roundTo53_le (n : Nat) : roundTo53 n ≤ n + Nat.pow 2 (n.log2 + 1 - 53) := by
  have hdivide := Nat.div_mul_le_self n (Nat.pow 2 (n.log2 + 1 - 53))
  simp only [roundTo53]
  split
  · rw [Nat.add_mul, Nat.one_mul]
    omega
  · omega

theorem finiteProduct_of_lt {n : Nat} (hn : n < UInt64.size) : finiteProduct n 0 = true := by
  rcases Nat.eq_zero_or_pos n with rfl | hpos
  · rfl
  have hshift : Nat.pow 2 (n.log2 + 1 - 53) ≤ 2 ^ 11 := by
    have := (Nat.log2_lt (Nat.ne_of_gt hpos)).2 (show n < 2 ^ 64 from hn)
    exact Nat.pow_le_pow_right (by decide) (by omega)
  have hround : roundTo53 n ≤ 2 ^ 65 := by
    have hle := roundTo53_le n
    have hsize : UInt64.size + 2 ^ 11 ≤ 2 ^ 65 := by decide
    omega
  have hone : roundTo53 (Nat.pow 10 (0 : Int).toNat) = 1 := by decide
  have hfar : 2 ^ 65 < overflow := by decide +kernel
  simp only [finiteProduct, hone, Nat.mul_one, Bool.or_eq_true, Bool.and_eq_true, decide_eq_true_eq]
  exact .inr ⟨by decide, Nat.lt_of_le_of_lt hround hfar⟩

/-- A digit sequence stops at no character that is no digit. -/
theorem takeWhile_toDigits (n : Nat) {p : Char → Bool} (hp : ∀ c, c.isDigit = true → p c = true) :
    (Nat.toDigits 10 n).takeWhile p = Nat.toDigits 10 n ∧
      (Nat.toDigits 10 n).dropWhile p = [] := by
  have hall : ∀ c ∈ Nat.toDigits 10 n, p c = true := fun c hc => hp c (isDigit_of_mem hc)
  exact ⟨List.takeWhile_eq_self_iff.2 hall, List.dropWhile_eq_nil_iff.2 hall⟩

/-- **A 64-bit number can be kept.** -/
theorem inRange_toDigits {n : Nat} (hn : n < UInt64.size) : inRange (Nat.toDigits 10 n) = true := by
  have hsign : (Nat.toDigits 10 n).head? ≠ some '-' := by
    intro hhead
    have := isDigit_of_mem (List.mem_of_mem_head? hhead)
    exact absurd this (by decide)
  obtain ⟨hmantissa, hexponent⟩ := takeWhile_toDigits n
    (p := fun c => c ≠ 'e' ∧ c ≠ 'E') fun c hc => by
      simp [ne_of_isDigit hc (d := 'e') rfl, ne_of_isDigit hc (d := 'E') rfl]
  obtain ⟨hwhole, hfraction⟩ := takeWhile_toDigits n (p := (· ≠ '.')) fun c hc => by
    simp [ne_of_isDigit hc (d := '.') rfl]
  have hvalue := Nat.ofDigitChars_ten_toDigits (n := n)
  have hdigits : wholeDigits 0 (Nat.toDigits 10 n) = (n, 0) := by
    rw [wholeDigits_eq (by rwa [hvalue]), hvalue]
  simp only [inRange, if_neg hsign, hmantissa, hexponent, hwhole, hfraction, hdigits,
    List.drop_nil, writtenExponent, Nat.ofDigitChars_nil, fractionDigits]
  exact finiteProduct_of_lt hn

end Json

end SharedPlan
