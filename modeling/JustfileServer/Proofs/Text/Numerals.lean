import Mathlib.Algebra.Group.Nat.Defs
import Mathlib.Data.Nat.Basic
import JustfileServer.Text.Blank
import JustfileServer.Text.Numeral

/-!
# Numerals: what is written is read back

The decimal numeral of a number is a nonempty run of digits whose value is the number
(`digitsValue_decimal`), without a zero in front unless it is zero itself
(`eq_zero_of_decimal_eq_cons`).  The hexadecimal numeral of a fixed width has as many digits, each
of which is read as the right digit (`hexDigit?_hexChar`).
-/

namespace JustfileServer

namespace CodePoint

/-- Every character has a number in the code space. -/
theorem val_ofChar (c : Char) : (ofChar c).val = c.toNat := by
  have inSpace : c.val.toNat < 0x110000 := by
    rcases c.valid with h | ⟨_, h⟩ <;> omega
  exact val_ofNat inSpace

theorem ofChar_injective {c d : Char} (h : ofChar c = ofChar d) : c = d := by
  have := congrArg val h
  rw [val_ofChar, val_ofChar] at this
  exact Char.toNat_inj.1 this

end CodePoint

namespace Numeral

/-! ## Decimal numerals -/

theorem isDigit_ofChar {c : Char} (h : c.isDigit = true) : isDigit (.ofChar c) = true := by
  have bounds := Char.isDigit_iff_toNat.1 h
  simp only [isDigit, CodePoint.val_ofChar, Bool.and_eq_true, decide_eq_true_eq]
  exact bounds

theorem isDigit_of_mem_decimal {n : Nat} {c : CodePoint} (h : c ∈ decimal n) :
    isDigit c = true := by
  obtain ⟨d, hd, rfl⟩ := List.mem_map.1 h
  exact isDigit_ofChar (Nat.isDigit_of_mem_toDigits (by decide) (by decide) hd)

theorem decimal_ne_nil (n : Nat) : decimal n ≠ [] := by
  simp [decimal]

/-- The value of a decimal numeral is the number that it was written for. -/
theorem digitsValue_decimal (n : Nat) : digitsValue (decimal n) = n := by
  have step : ∀ (cs : List Char) (init : Nat),
      (cs.map CodePoint.ofChar).foldl (fun n c => 10 * n + (c.val - 0x30)) init
        = Nat.ofDigitChars 10 cs init := by
    intro cs
    induction cs with
    | nil => intro init; rfl
    | cons c cs ih =>
        intro init
        rw [List.map_cons, List.foldl_cons, ih, Nat.ofDigitChars_cons, CodePoint.val_ofChar]
        rfl
  rw [digitsValue, decimal, step, Nat.ofDigitChars_ten_toDigits]

theorem head?_decimal_ne_zero {n : Nat} (h : 0 < n) :
    (decimal n).head? ≠ some (.ofChar '0') := by
  induction n using Nat.strongRecOn with
  | _ n ih =>
      by_cases small : n < 10
      · rw [decimal, Nat.toDigits_of_lt_base small, List.map_singleton, List.head?_singleton]
        intro e
        have := CodePoint.ofChar_injective (Option.some.inj e)
        simp only [Nat.digitChar_eq_zero] at this
        omega
      · have shorter := ih (n / 10) (by omega) (by omega)
        obtain ⟨d, ds, hd⟩ := List.exists_cons_of_ne_nil (decimal_ne_nil (n / 10))
        rw [decimal, Nat.toDigits_of_base_le (by decide) (by omega), List.map_append, ← decimal]
        rw [hd] at shorter ⊢
        exact shorter

/-- A decimal numeral that begins with the digit zero is that digit alone. -/
theorem eq_zero_of_decimal_eq_cons {n : Nat} {rest : Text}
    (h : decimal n = .ofChar '0' :: rest) : n = 0 ∧ rest = [] := by
  rcases Nat.eq_zero_or_pos n with rfl | pos
  · have : decimal 0 = [.ofChar '0'] := by decide
    rw [this] at h
    exact ⟨rfl, (List.cons.inj h).2.symm⟩
  · exact absurd (by rw [h]; rfl) (head?_decimal_ne_zero pos)

/-- The length of a decimal numeral has a bound that the number's size gives. -/
theorem length_decimal_le_iff {n k : Nat} (h : 0 < k) : (decimal n).length ≤ k ↔ n < 10 ^ k := by
  rw [decimal, List.length_map, Nat.length_toDigits_le_iff (by decide) h]

theorem ascii_of_isDigit {c : CodePoint} (h : isDigit c = true) :
    c.isBlank = false ∧ c.val < 0x80 ∧ c.val ≠ 0x0A := by
  simp only [isDigit, Bool.and_eq_true, decide_eq_true_eq] at h
  refine ⟨?_, by omega, by omega⟩
  simp only [CodePoint.isBlank, Bool.or_eq_false_iff, Bool.and_eq_false_iff,
    decide_eq_false_iff_not, beq_eq_false_iff_ne]
  omega

/-- Digits without underscores are read as they stand. -/
theorem digitRun?_eq {ds : Text} (nonempty : ds ≠ []) (digits : ∀ c ∈ ds, isDigit c = true) :
    digitRun? ds = some ds := by
  fun_induction digitRun? ds with
  | case1 => exact absurd rfl nonempty
  | case2 c h => rfl
  | case3 c h => exact absurd (digits c (by simp)) h
  | case4 c rest h ih =>
      have underscore : isDigit (.ofChar '_') = true := digits _ (by simp)
      exact absurd underscore (by decide)
  | case5 c d rest h notUnderscore ih =>
      rw [ih (by simp) fun e he => digits e (List.mem_cons_of_mem _ he)]
      rfl
  | case6 c d rest h => exact absurd (digits c (by simp)) h

theorem integer?_decimal {n : Nat} (short : (decimal n).length ≤ maxDigits) :
    integer? (decimal n) = some (n : Int) := by
  have digits : ∀ c ∈ decimal n, isDigit c = true := fun _ => isDigit_of_mem_decimal
  obtain ⟨c, rest, hc⟩ := List.exists_cons_of_ne_nil (decimal_ne_nil n)
  have hd : isDigit c = true := digits c (by rw [hc]; exact List.mem_cons_self ..)
  have natural : natural? (decimal n) = some n := by
    rw [natural?, digitRun?_eq (decimal_ne_nil n) digits]
    dsimp only
    rw [if_pos short, digitsValue_decimal]
  have minus : c ≠ .ofChar '-' := by rintro rfl; exact absurd hd (by decide)
  have plus : c ≠ .ofChar '+' := by rintro rfl; exact absurd hd (by decide)
  rw [hc] at natural ⊢
  rw [integer?, if_neg minus, if_neg plus, natural]
  rfl

/-! ## Hexadecimal numerals -/

/-- The digit that a hexadecimal numeral has for a value. -/
def hexChar (n : Nat) : CodePoint := .ofChar (Nat.digitChar n)

theorem hexDigit?_hexChar {n : Nat} (h : n < 16) : hexDigit? (hexChar n) = some n := by
  have all : ∀ d : Fin 16, hexDigit? (hexChar d) = some d.val := by decide
  exact all ⟨n, h⟩

theorem hex_four (n : Nat) :
    hex 4 n = [hexChar (n / 16 / 16 / 16 % 16), hexChar (n / 16 / 16 % 16), hexChar (n / 16 % 16),
      hexChar (n % 16)] := rfl

end Numeral

end JustfileServer
