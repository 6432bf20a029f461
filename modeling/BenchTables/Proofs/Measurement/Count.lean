import BenchTables.Proofs.Binary64.Scientific
import BenchTables.Proofs.Decimal.Magnitude
import BenchTables.Proofs.Measurement.Record

/-!
# Integer cells

An integer cell that is nothing but digits is read as their number.  Any other decimal number is
read through the double nearest to it, so that what decides is whether that double is a whole number
that is not above `2 ^ 64`; and `2 ^ 64` itself counts as the greatest integer.  A number that is a
double is read exactly or refused, unless it is `2 ^ 64`: `integer_cell`.
-/

namespace BenchTables

open Binary64 Decimal

/-- The integer of 64 bits that a double counts as. -/
def CountsAs (x : Float) (v : UInt64) : Prop :=
  ∃ k : ℕ, numberOf x = k ∧ k ≤ 2 ^ 64 ∧ v.toNat = min k (2 ^ 64 - 1)

variable {x y : Float} {q : ℚ} {v w : UInt64} {text : String}

/-! ## Doubles -/

theorem wordOfFloat?_eq_some_iff : wordOfFloat? x = some v ↔ x.isFinite ∧ CountsAs x v := by
  have hword : wordOfFloat? x = some v ↔ ∃ k : ℕ, (BinaryValue.ofFloat x).toNat? = some k ∧
      k ≤ 2 ^ 64 ∧ v.toNat = min k (2 ^ 64 - 1) := by
    unfold wordOfFloat?
    cases (BinaryValue.ofFloat x).toNat? with
    | none => simp
    | some n =>
      simp only [Option.ite_none_right_eq_some, Option.some.injEq, exists_eq_left',
        ← toNat_ofNatClamp, UInt64.toNat_inj, @eq_comm _ v]
      rfl
  simp only [hword, toNat?_eq_some_iff, CountsAs, and_assoc, exists_and_left]

/-! ## Texts -/

theorem readFloat_of_denotes (h : Denotes text.toList q) :
    ∃ n, readFloat text.toList = .ok (Numeral.toFloat n) ∧ n.value = q := by
  obtain ⟨n, hread, hvalue⟩ := read?_of_denotes h
  have hne : text.toList ≠ [] := by
    intro hnil
    rw [hnil] at hread
    cases hread
  exact ⟨n, by rw [readFloat, if_neg hne, hread], hvalue⟩

theorem readCount?_of_wordText (h : WordText text.toList w) : readCount? text = some w := by
  rw [readCount?, readWord_eq_ok_iff.mpr h]

/-- What is not nothing but digits is read through the nearest double. -/
theorem readCount?_of_denotes (h : Denotes text.toList q) (hnot : ∀ w, ¬WordText text.toList w) :
    ∃ x, IsNearest q x ∧ ∀ v, readCount? text = some v ↔ CountsAs x v := by
  obtain ⟨n, hread, rfl⟩ := readFloat_of_denotes h
  obtain ⟨x, hx, hfloat⟩ := exists_isNearest_toFloat n
  have hcount : readCount? text = wordOfFloat? n.toFloat := by
    unfold readCount?
    cases hword : readWord 10 text.toList with
    | ok w => exact absurd (readWord_eq_ok_iff.mp hword) (hnot w)
    | error fault => rw [hread]
  refine ⟨x, hx, fun v => ?_⟩
  rw [hcount, wordOfFloat?_eq_some_iff]
  rcases hfloat with rfl | ⟨hinfinite, hend⟩
  · exact and_iff_right hx.isFinite
  · -- Neither an infinity nor the greatest double counts as a number.
    constructor
    · rintro ⟨hfinite, -⟩
      rw [hinfinite] at hfinite
      cases hfinite
    · rintro ⟨k, hk, hle, -⟩
      have hgreatest : ((2 ^ 64 : ℕ) : ℚ) < numberOf greatest := by decide +kernel
      rw [hk, Nat.abs_cast] at hend
      have hlarge : ((2 ^ 64 : ℕ) : ℚ) < k := hend ▸ hgreatest
      exact absurd hle (not_le.mpr (by exact_mod_cast hlarge))

/-! ## Cells -/

namespace Measurement

variable {header : List String} {record : Csv.Record} {column : String}

/-- A cell of a number is read as that number if it is an integer of 64 bits, and refused else. -/
def ReadExactly (header : List String) (record : Csv.Record) (column : String) (q : ℚ) : Prop :=
  ∀ v, readInteger header record column = .ok v ↔ q = v.toNat

/-- A cell is read exactly when what its nearest double counts as is its number. -/
theorem readExactly_iff {x : Float} (hx : IsNearest q x)
    (hread : ∀ v, readInteger header record column = .ok v ↔ CountsAs x v) :
    ReadExactly header record column q ↔
      ∀ k : ℕ, numberOf x = k → k ≤ 2 ^ 64 → q = (min k (2 ^ 64 - 1) : ℕ) := by
  unfold ReadExactly
  simp only [hread]
  constructor
  · intro hexact k hk hle
    have hword : (UInt64.ofNatClamp k).toNat = min k (2 ^ 64 - 1) := toNat_ofNatClamp k
    rw [← hword]
    exact (hexact _).mp ⟨k, hk, hle, hword⟩
  · intro hcounts v
    constructor
    · rintro ⟨k, hk, hle, hv⟩
      rw [hv]
      exact hcounts k hk hle
    · rintro rfl
      -- The double nearest to an integer of 64 bits is in range, and counts as that integer.
      obtain ⟨k, hk, hle⟩ := hx.exists_natCast v.toNat_lt.le
      exact ⟨k, hk, hle, by exact_mod_cast hcounts k hk hle⟩

/-- What a cell of a decimal number is read as.  An integer of 64 bits is read exactly.  Any other
number is read as what the double nearest to it counts as, and so exactly unless that is another
number; in particular a number that is a double is read exactly, unless it is `2 ^ 64`. -/
theorem integer_cell (h : Denotes (cellUnder header record.cells column).toList q) :
    ((∃ w, WordText (cellUnder header record.cells column).toList w) →
      ReadExactly header record column q) ∧
    ((∀ w, ¬WordText (cellUnder header record.cells column).toList w) →
      ∃ x, IsNearest q x ∧ (∀ v, readInteger header record column = .ok v ↔ CountsAs x v) ∧
        (ReadExactly header record column q ↔
          ∀ k : ℕ, numberOf x = k → k ≤ 2 ^ 64 → q = (min k (2 ^ 64 - 1) : ℕ))) ∧
    (∀ y : Float, y.isFinite → numberOf y = q → q ≠ 2 ^ 64 →
      ReadExactly header record column q) ∧
    ∀ error, readInteger header record column = .error error →
      error = .invalidValue record.position.line column (cellUnder header record.cells column)
        "expected a non-negative integer" := by
  have hword : (∃ w, WordText (cellUnder header record.cells column).toList w) →
      ReadExactly header record column q := by
    rintro ⟨w, hw⟩ v
    have hq : q = w.toNat := h.unique hw.denotes
    rw [readInteger, readCell_eq_ok_iff, readCount?_of_wordText hw, Option.some.injEq, hq,
      Nat.cast_inj, UInt64.toNat_inj]
  have hother : (∀ w, ¬WordText (cellUnder header record.cells column).toList w) →
      ∃ x, IsNearest q x ∧ ∀ v, readInteger header record column = .ok v ↔ CountsAs x v := by
    intro hnot
    simp only [readInteger, readCell_eq_ok_iff]
    exact readCount?_of_denotes h hnot
  refine ⟨hword, fun hnot => ?_, fun y hy hvalue htop => ?_, fun error herror => ?_⟩
  · obtain ⟨x, hx, hread⟩ := hother hnot
    exact ⟨x, hx, hread, readExactly_iff hx hread⟩
  · by_cases hplain : ∃ w, WordText (cellUnder header record.cells column).toList w
    · exact hword hplain
    obtain ⟨x, hx, hread⟩ := hother (not_exists.mp hplain)
    -- A number that is a double is the nearest double to itself.
    have hsame := hx.nearest y hy
    rw [hvalue, sub_self, abs_zero] at hsame
    have hnumber : q = numberOf x := sub_eq_zero.mp
      (abs_eq_zero.mp (le_antisymm hsame (abs_nonneg _)))
    refine (readExactly_iff hx hread).mpr fun k hk hle => ?_
    have hlt : k ≠ 2 ^ 64 := by
      rintro rfl
      exact htop (hnumber.trans (hk.trans (by norm_num)))
    rw [min_eq_left (by omega), hnumber, hk]
  · exact (readCell_eq_error_iff.mp herror).2

/-- A record with one cell. -/
def oneCell (text : String) : Csv.Record :=
  ⟨⟨1, 2, 8⟩, [text]⟩

theorem integer_cell_wholeFloat : Denotes "1024.0".toList 1024 ∧
    ReadExactly ["db_size"] (oneCell "1024.0") "db_size" 1024 := by
  have hdenotes : Denotes "1024.0".toList 1024 := by
    have hwhole : ∀ c ∈ ['1', '0', '2', '4'], isDigit c :=
      List.all_eq_true.mp (by decide)
    have hfraction : ∀ c ∈ ['0'], isDigit c :=
      List.all_eq_true.mp (by decide)
    have h := Denotes.intro .none hwhole (.point hfraction) (Or.inl (by decide)) .none
    have hvalue : digitsValue (['1', '0', '2', '4'] ++ ['0']) = 10240 := by decide
    rw [hvalue] at h
    convert h using 1
    · rfl
    · norm_num [signed]
  have hcell : Denotes (cellUnder ["db_size"] (oneCell "1024.0").cells "db_size").toList 1024 :=
    hdenotes
  obtain ⟨-, -, hdouble, -⟩ := integer_cell hcell
  obtain ⟨hfinite, hnumber⟩ := numberOf_ofNat (n := 1024) (by decide)
  exact ⟨hdenotes, hdouble (Float.ofNat 1024) hfinite hnumber (by norm_num)⟩

/-- The first number that is no integer of 64 bits is read as the greatest of them, and one between
two integers as one of these. -/
theorem integer_cell_rounded :
    (Denotes "18446744073709551616".toList (2 ^ 64) ∧
      readInteger ["db_size"] (oneCell "18446744073709551616") "db_size" =
        .ok 18446744073709551615 ∧
      ¬ReadExactly ["db_size"] (oneCell "18446744073709551616") "db_size" (2 ^ 64)) ∧
    (Denotes ".99999999999999999999".toList (1 - 1 / 10 ^ 20) ∧
      readInteger ["db_size"] (oneCell ".99999999999999999999") "db_size" = .ok 1 ∧
      ¬ReadExactly ["db_size"] (oneCell ".99999999999999999999") "db_size" (1 - 1 / 10 ^ 20)) := by
  have hgreat : readInteger ["db_size"] (oneCell "18446744073709551616") "db_size" =
      .ok 18446744073709551615 := readCell_eq_ok_iff.mpr (by decide +kernel)
  have hsmall : readInteger ["db_size"] (oneCell ".99999999999999999999") "db_size" =
      .ok 1 := readCell_eq_ok_iff.mpr (by decide +kernel)
  refine ⟨⟨?_, hgreat, fun hexact => ?_⟩, ?_, hsmall, fun hexact => ?_⟩
  · have hwhole : ∀ c ∈ "18446744073709551616".toList, isDigit c :=
      List.all_eq_true.mp (by decide)
    have h := Denotes.intro .none hwhole .none (Or.inl (by decide)) .none
    have hvalue : digitsValue ("18446744073709551616".toList ++ []) = 2 ^ 64 := by decide +kernel
    rw [hvalue] at h
    convert h using 1
    · rfl
    · norm_num [signed]
  · exact absurd ((hexact _).mp hgreat) (by decide +kernel)
  · have hfraction : ∀ c ∈ List.replicate 20 '9', isDigit c :=
      List.all_eq_true.mp (by decide)
    have h := Denotes.intro .none (List.forall_mem_nil _) (.point hfraction)
      (Or.inr (by decide)) .none
    have hvalue : digitsValue ([] ++ List.replicate 20 '9') = 10 ^ 20 - 1 := by decide +kernel
    rw [hvalue] at h
    convert h using 1
    · rfl
    · norm_num [signed]
  · exact absurd ((hexact _).mp hsmall) (by decide +kernel)

end Measurement

end BenchTables
