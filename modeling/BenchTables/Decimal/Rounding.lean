/-!
# Rounding quotients of natural numbers

Quotients are rounded to the nearest integer in two ways that differ on exact halves only.
`roundHalfEven` is the rule of printed quantities, `roundHalfUp` the rule of integer columns.
Each comes with the law that it stays within half a unit of the quotient.
-/

namespace BenchTables.Decimal

/-- The integer nearest to `num / den`; an exact half goes to the even neighbour. -/
def roundHalfEven (num den : Nat) : Nat :=
  let quotient := num / den
  let rest := num % den
  if 2 * rest < den then quotient
  else if den < 2 * rest then quotient + 1
  else quotient + quotient % 2

/-- The integer nearest to `num / den`; an exact half goes up. -/
def roundHalfUp (num den : Nat) : Nat :=
  (2 * num + den) / (2 * den)

@[simp] theorem roundHalfEven_one (num : Nat) : roundHalfEven num 1 = num := by
  simp [roundHalfEven, Nat.mod_one]

theorem roundHalfEven_near (num den : Nat) (hden : 0 < den) :
    2 * num ≤ 2 * (den * roundHalfEven num den) + den ∧
      2 * (den * roundHalfEven num den) ≤ 2 * num + den := by
  have parts := Nat.div_add_mod num den
  have hrest := Nat.mod_lt num hden
  simp only [roundHalfEven]
  generalize num / den = q at *
  generalize num % den = r at *
  split
  · omega
  · split
    · rw [Nat.mul_succ]; omega
    · rcases Nat.mod_two_eq_zero_or_one q with h | h <;> rw [h]
      · rw [Nat.add_zero]; omega
      · rw [Nat.mul_succ]; omega

theorem roundHalfEven_half (num den : Nat) (half : 2 * (num % den) = den) :
    roundHalfEven num den % 2 = 0 := by
  simp only [roundHalfEven, half, Nat.lt_irrefl, if_false]
  omega

theorem roundHalfUp_near (num den : Nat) (hden : 0 < den) :
    2 * num < 2 * (den * roundHalfUp num den) + den ∧
      2 * (den * roundHalfUp num den) ≤ 2 * num + den := by
  have parts := Nat.div_add_mod (2 * num + den) (2 * den)
  have hrest := Nat.mod_lt (2 * num + den) (show 0 < 2 * den by omega)
  simp only [roundHalfUp]
  generalize (2 * num + den) / (2 * den) = q at *
  rw [Nat.mul_assoc] at parts
  omega

end BenchTables.Decimal
