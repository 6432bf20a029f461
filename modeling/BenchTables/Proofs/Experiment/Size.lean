import BenchTables.Proofs.Binary64.TotalOrder
import BenchTables.Proofs.Experiment.Rate

/-!
# The mean size of a database

A database may have no entries, so the sizes of rows are words with zero among them.  Their sum is
zero or in the range that words come to rest in, and so their mean is a number that is not negative,
however many rows there are (`Experiment.IsMeanOf.isUnsigned_dbSize`).
-/

open Float.Model Float.Model.UnpackedFloat

namespace BenchTables

open Binary64

/-- A running sum of words: zero, or in the range that such sums come to rest in. -/
def IsWordSum (x : Float) : Prop :=
  x = 0.0 ∨ ∃ q, HasValue x q ∧ 1 ≤ q ∧ q ≤ 2 ^ 118

/-- A finite double without the sign of the negative ones. -/
structure IsUnsigned (x : Float) : Prop where
  isFinite : x.isFinite
  sign : signOf? x.toModel.unpack = some .positive

variable {x y : Float} {xs : List Float} {q : ℚ} {s : Sign} {u : UnpackedFloat}

theorem add_zero_of_hasValue (h : HasValue x q) : HasValue (x + 0.0) q := by
  obtain ⟨m, e, hcanonical, hx, rfl⟩ := h
  refine ⟨m, e, hcanonical, ?_, rfl⟩
  rw [unpack_add, unpack_zero, hx]
  exact unpack_pack_finite .positive hcanonical

/-- One more word leaves a sum of words one. -/
theorem IsWordSum.add (hx : IsWordSum x) (hy : y = 0.0 ∨ WordSized y) : IsWordSum (x + y) := by
  rcases hx with rfl | ⟨a, hx, ha, hatop⟩
  · rcases hy with rfl | ⟨b, hy, hb, hbtop⟩
    · exact Or.inl rfl
    · exact Or.inr ⟨b, hy.zero_add, hb, hbtop.trans (by norm_num)⟩
  · rcases hy with rfl | ⟨b, hy, hb, hbtop⟩
    · exact Or.inr ⟨a, add_zero_of_hasValue hx, ha, hatop⟩
    · have hgrown : (2 : ℚ) ^ (0 : ℤ) ≤ a + b := by
        rw [zpow_zero]
        linarith
      obtain ⟨c, hsum, hc, hctop⟩ := hx.add_word hatop hy hbtop (by decide) hgrown
      rw [zpow_zero] at hc
      exact Or.inr ⟨c, hsum, hc, hctop⟩

theorem IsWordSum.sumFrom (hx : IsWordSum x) (hxs : ∀ y ∈ xs, y = 0.0 ∨ WordSized y) :
    IsWordSum (sumFrom x xs) := by
  induction xs generalizing x with
  | nil => exact hx
  | cons first rest ih =>
    obtain ⟨hfirst, hrest⟩ := List.forall_mem_cons.mp hxs
    exact ih (hx.add hfirst) hrest

theorem zero_or_wordSized (k : UInt64) : k.toFloat = 0.0 ∨ WordSized k.toFloat := by
  by_cases hk : k = 0
  · left
    rw [hk]
    rfl
  · exact Or.inr (wordSized_toFloat hk)

/-- A sum of words is divided by the number of its terms to a number that is not negative. -/
theorem IsWordSum.isUnsigned_div (hx : IsWordSum x) {n : ℕ} (hn : 0 < n) :
    IsUnsigned (x / Float.ofNat n) := by
  rcases hx with rfl | ⟨a, hx, ha, hatop⟩
  · rw [zero_div_ofNat hn]
    exact ⟨rfl, rfl⟩
  refine ⟨(isFinite_div_ofNat x hn).mpr hx.isFinite, ?_⟩
  rcases ofNat_cases hn with hinfinity | ⟨b, hb, hone⟩
  · -- Beyond all doubles the number of terms counts as an infinity.
    obtain ⟨m, e, hcanonical, hunpack, rfl⟩ := hx
    have hquotient : (x / Float.ofNat n).toModel.unpack = .zero (.positive / .positive) := by
      rw [unpack_div, hunpack, hinfinity]
      exact (IsDouble.zero _).unpack_pack
    rw [hquotient]
    rfl
  · have hu := hx.div hb
    have hbelow : a / b ≤ ((2 ^ 52 : ℕ) : ℚ) * 2 ^ (66 : ℤ) := by
      refine (div_le_self (by linarith) hone).trans (hatop.trans_eq ?_)
      norm_num
    rw [unpack_div, (hu.le canonical_rest hbelow).1.unpack_pack]
    exact signOf?_of_roundsTo hu

theorem Experiment.IsMeanOf.isUnsigned_dbSize {e : Experiment} {own : List Measurement}
    (h : e.IsMeanOf own) : IsUnsigned e.dbSize := by
  rw [h.dbSize]
  apply IsWordSum.isUnsigned_div
  · exact IsWordSum.sumFrom (Or.inl rfl) (List.forall_mem_map.mpr fun m _ => zero_or_wordSized _)
  · exact List.length_pos_iff.mpr h.ne_nil

end BenchTables
