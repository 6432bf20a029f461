import BenchTables.Decimal.Fixed
import BenchTables.Decimal.Numeral
import Mathlib.Data.Nat.Digits.Defs
import Mathlib.Tactic.IntervalCases

/-!
# Reading digits back

The digits of a number are read back as that number: by `digitsValue` (`digitsValue_digits`), as an
unsigned integer (`readWord_digits`) and, after a text of hundredths, as a numeral
(`read?_hundredthsText`).
-/

namespace BenchTables.Decimal

/-! ## Digits and their value -/

theorem isDigit_iff {c : Char} : isDigit c ↔ c.isDigit := by
  simp [isDigit, Char.isDigit, Char.le_def, UInt32.le_iff_toNat_le]

theorem toNat_of_isDigit {c : Char} (h : isDigit c) : 48 ≤ c.toNat ∧ c.toNat ≤ 57 := by
  have hrange : '0'.toNat ≤ c.toNat ∧ c.toNat ≤ '9'.toNat := by
    simpa [isDigit, Char.le_def, UInt32.le_iff_toNat_le] using h
  exact hrange

theorem isDigit_of_mem_digits {n : ℕ} {c : Char} (h : c ∈ digits n) : isDigit c :=
  isDigit_iff.mpr (Nat.isDigit_of_mem_toDigits (by decide) (by decide) h)

theorem digits_ne_nil (n : ℕ) : digits n ≠ [] :=
  Nat.toDigits_ne_nil

theorem digits_of_lt {d : ℕ} (h : d < 10) : digits d = [d.digitChar] :=
  Nat.toDigits_of_lt_base h

theorem digits_of_le {n : ℕ} (h : 10 ≤ n) : digits n = digits (n / 10) ++ [(n % 10).digitChar] :=
  Nat.toDigits_of_base_le (by decide) h

theorem digitChar_value {d : ℕ} (h : d < 10) : d.digitChar.toNat - '0'.toNat = d := by
  interval_cases d <;> rfl

theorem digitsValue_append_singleton (ds : List Char) (c : Char) :
    digitsValue (ds ++ [c]) = 10 * digitsValue ds + (c.toNat - '0'.toNat) := by
  rw [digitsValue, List.foldl_append]
  rfl

@[simp] theorem digitsValue_digits (n : ℕ) : digitsValue (digits n) = n := by
  induction n using Nat.strong_induction_on with
  | _ n ih =>
    by_cases h : n < 10
    · rw [digits_of_lt h]
      exact (Nat.zero_add _).trans (digitChar_value h)
    · rw [digits_of_le (by omega), digitsValue_append_singleton, ih (n / 10) (by omega),
        digitChar_value (Nat.mod_lt n (by decide))]
      omega

theorem digits_injective {m n : ℕ} (h : digits m = digits n) : m = n := by
  rw [← digitsValue_digits m, h, digitsValue_digits]

/-! ## Unsigned integers -/

/-- The digits of no number but zero begin with a zero. -/
theorem head?_digits_eq_zero_iff (n : ℕ) : (digits n).head? = some '0' ↔ n = 0 := by
  induction n using Nat.strong_induction_on with
  | h n ih =>
    by_cases hn : n < 10
    · rw [digits_of_lt hn]
      interval_cases n <;> decide
    · obtain ⟨first, rest, hparts⟩ := List.exists_cons_of_ne_nil (digits_ne_nil (n / 10))
      have hfirst := ih (n / 10) (by omega)
      rw [digits_of_le (by omega), hparts, List.cons_append, List.head?_cons]
      rw [hparts, List.head?_cons] at hfirst
      rw [hfirst]
      omega

theorem digitValue?_of_isDigit {c : Char} (h : isDigit c) :
    digitValue? 10 c = some (c.toNat - '0'.toNat) := by
  have hc : '0' ≤ c ∧ c ≤ '9' := by simpa [isDigit] using h
  have hlt : c.toNat - '0'.toNat < 10 := by
    have hrange := toNat_of_isDigit h
    have hzero : '0'.toNat = 48 := rfl
    omega
  rw [digitValue?, if_pos hc]
  simpa using hlt

theorem le_foldl_digits (ds : List Char) (n : ℕ) :
    n ≤ ds.foldl (fun n c => 10 * n + (c.toNat - '0'.toNat)) n := by
  induction ds generalizing n with
  | nil => exact le_rfl
  | cons c rest ih =>
    rw [List.foldl_cons]
    exact le_trans (by omega) (ih _)

/-- As long as the number stays in range, digits are taken over one by one. -/
theorem foldlM_nextDigit (ds : List Char) (n : ℕ) (hds : ∀ c ∈ ds, isDigit c)
    (hlt : ds.foldl (fun n c => 10 * n + (c.toNat - '0'.toNat)) n < UInt64.size) :
    ds.foldlM (nextDigit 10) n = .ok (ds.foldl (fun n c => 10 * n + (c.toNat - '0'.toNat)) n) := by
  induction ds generalizing n with
  | nil => rfl
  | cons c rest ih =>
    rw [List.foldl_cons] at hlt
    have hnext : nextDigit 10 n c = .ok (10 * n + (c.toNat - '0'.toNat)) := by
      rw [nextDigit, digitValue?_of_isDigit (hds c List.mem_cons_self)]
      exact if_pos ((le_foldl_digits rest _).trans_lt hlt)
    rw [List.foldlM_cons, hnext]
    exact ih _ (fun d hd => hds d (List.mem_cons_of_mem c hd)) hlt

theorem digitValue?_of_not_isDigit {c : Char} (h : ¬isDigit c) : digitValue? 10 c = none := by
  have hc : ¬('0' ≤ c ∧ c ≤ '9') := by simpa [isDigit] using h
  rw [digitValue?, if_neg hc]
  -- Letters count from ten, and so are no digits here.
  split
  · exact Option.filter_some_neg (by simp)
  · split
    · exact Option.filter_some_neg (by simp)
    · rfl

/-- Digits are taken over one by one exactly if they are digits of a number in range. -/
theorem foldlM_nextDigit_eq_ok_iff (ds : List Char) {n k : ℕ} (hn : n < UInt64.size) :
    ds.foldlM (nextDigit 10) n = .ok k ↔ (∀ c ∈ ds, isDigit c) ∧
      ds.foldl (fun n c => 10 * n + (c.toNat - '0'.toNat)) n = k ∧ k < UInt64.size := by
  constructor
  · intro h
    induction ds generalizing n with
    | nil =>
      cases h
      exact ⟨nofun, rfl, hn⟩
    | cons c rest ih =>
      rw [List.foldlM_cons] at h
      by_cases hc : isDigit c
      · rw [nextDigit, digitValue?_of_isDigit hc] at h
        dsimp only at h
        split at h
        next hlt =>
          obtain ⟨hrest, hvalue, hk⟩ := ih hlt h
          exact ⟨List.forall_mem_cons.mpr ⟨hc, hrest⟩, hvalue, hk⟩
        next => cases h
      · rw [nextDigit, digitValue?_of_not_isDigit hc] at h
        cases h
  · rintro ⟨hds, rfl, hk⟩
    exact foldlM_nextDigit ds n hds hk

/-- What is read digit by digit is the number of the digits. -/
theorem map_foldlM_nextDigit_eq_ok_iff (ds : List Char) (w : UInt64) :
    (ds.foldlM (nextDigit 10) 0).map UInt64.ofNat = .ok w ↔
      (∀ c ∈ ds, isDigit c) ∧ digitsValue ds = w.toNat := by
  have hfold := @foldlM_nextDigit_eq_ok_iff ds 0
  constructor
  · intro h
    cases hread : ds.foldlM (nextDigit 10) 0 with
    | error fault =>
      rw [hread] at h
      cases h
    | ok k =>
      rw [hread] at h
      cases h
      obtain ⟨hds, hvalue, hk⟩ := (hfold (by decide)).mp hread
      exact ⟨hds, hvalue.trans (UInt64.toNat_ofNat_of_lt' hk).symm⟩
  · rintro ⟨hds, hvalue⟩
    rw [(hfold (by decide)).mpr ⟨hds, hvalue, w.toNat_lt⟩]
    exact congrArg Except.ok UInt64.ofNat_toNat

theorem readWord_digits (w : UInt64) : readWord 10 (digits w.toNat) = .ok w := by
  have hne := digits_ne_nil w.toNat
  have hdigits : ∀ c ∈ digits w.toNat, isDigit c := fun c => isDigit_of_mem_digits
  have hread := (map_foldlM_nextDigit_eq_ok_iff _ w).mpr ⟨hdigits, digitsValue_digits w.toNat⟩
  generalize digits w.toNat = ds at hne hdigits hread
  -- Digits are neither nothing nor a plus sign, so they are read one by one.
  unfold readWord
  split
  · exact absurd rfl hne
  · exact absurd (hdigits '+' List.mem_cons_self) (by decide)
  · exact absurd (hdigits '+' List.mem_cons_self) (by decide)
  · exact hread

/-! ## Hundredths -/

theorem hundredthsText_toList (n : ℕ) :
    (hundredthsText n).toList =
      digits (n / 100) ++ '.' :: [(n / 10 % 10).digitChar, (n % 10).digitChar] := by
  simp only [hundredthsText, String.toList_append, natText_toList,
    digits_of_lt (Nat.mod_lt (n / 10) (by decide : 0 < 10)),
    digits_of_lt (Nat.mod_lt n (by decide : 0 < 10)), List.append_assoc]
  rfl

theorem isDigit_digitChar {d : ℕ} (h : d < 10) : isDigit d.digitChar :=
  isDigit_of_mem_digits (n := d) (by rw [digits_of_lt h]; exact List.mem_singleton_self _)

theorem isDigit_or_dot_of_mem_hundredthsText {n : ℕ} {c : Char}
    (h : c ∈ (hundredthsText n).toList) : isDigit c ∨ c = '.' := by
  rw [hundredthsText_toList] at h
  simp only [List.mem_append, List.mem_cons, List.not_mem_nil, or_false] at h
  rcases h with h | rfl | rfl | rfl
  · exact Or.inl (isDigit_of_mem_digits h)
  · exact Or.inr rfl
  · exact Or.inl (isDigit_digitChar (Nat.mod_lt _ (by decide)))
  · exact Or.inl (isDigit_digitChar (Nat.mod_lt _ (by decide)))

theorem takeSign_of_isDigit {c : Char} {rest : List Char} (h : isDigit c) :
    Numeral.takeSign (c :: rest) = (false, c :: rest) := by
  unfold Numeral.takeSign
  split
  next heq => cases heq; exact absurd h (by decide)
  next heq => cases heq; exact absurd h (by decide)
  next => rfl

theorem digitsValue_hundredths (n : ℕ) :
    digitsValue (digits (n / 100) ++ [(n / 10 % 10).digitChar, (n % 10).digitChar]) = n := by
  rw [List.append_cons, digitsValue_append_singleton, digitsValue_append_singleton,
    digitsValue_digits, digitChar_value (Nat.mod_lt _ (by decide)),
    digitChar_value (Nat.mod_lt _ (by decide))]
  omega

theorem readUnsigned?_hundredthsText (negative : Bool) (n : ℕ) :
    Numeral.readUnsigned? negative (hundredthsText n).toList = some ⟨negative, n, -2⟩ := by
  have hwhole : ∀ c ∈ digits (n / 100), isDigit c := fun c => isDigit_of_mem_digits
  have htens := isDigit_digitChar (Nat.mod_lt (n / 10) (by decide : 0 < 10))
  have hones := isDigit_digitChar (Nat.mod_lt n (by decide : 0 < 10))
  have hpoint : isDigit '.' = false := by decide
  have hvalue := digitsValue_hundredths n
  rw [hundredthsText_toList, Numeral.readUnsigned?, List.takeWhile_append_of_pos hwhole,
    List.dropWhile_append_of_pos hwhole]
  simp [hpoint, Numeral.takeFraction, htens, hones, Numeral.readExponent?, hvalue]

theorem read?_hundredthsText (n : ℕ) :
    Numeral.read? (hundredthsText n).toList = some ⟨false, n, -2⟩ := by
  obtain ⟨c, rest, hdigits⟩ := List.exists_cons_of_ne_nil (digits_ne_nil (n / 100))
  have hmem : c ∈ digits (n / 100) := hdigits ▸ List.mem_cons_self
  have hc := isDigit_of_mem_digits hmem
  have hlist : (hundredthsText n).toList =
      c :: (rest ++ '.' :: [(n / 10 % 10).digitChar, (n % 10).digitChar]) := by
    rw [hundredthsText_toList, hdigits, List.cons_append]
  rw [Numeral.read?, hlist, takeSign_of_isDigit hc, ← hlist]
  exact readUnsigned?_hundredthsText false n

theorem read?_minus_hundredthsText (n : ℕ) :
    Numeral.read? ('-' :: (hundredthsText n).toList) = some ⟨true, n, -2⟩ :=
  readUnsigned?_hundredthsText true n

end BenchTables.Decimal
