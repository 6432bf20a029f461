import BenchTables.Log.Traced
import Mathlib.Data.List.Forall2

/-!
# Sequences of steps

A sequence of steps succeeds exactly when each of its steps does, and fails with the error of the
first that does not.  An error seen from further out is one all the same.
-/

namespace BenchTables

variable {ε δ α β : Type}

@[simp] theorem ok_bind (a : α) (f : α → Except ε β) : (Except.ok a >>= f) = f a := rfl

theorem bind_eq_ok_iff {x : Except ε α} {f : α → Except ε β} {b : β} :
    x >>= f = .ok b ↔ ∃ a, x = .ok a ∧ f a = .ok b := by
  cases x with
  | error e => simp [bind, Except.bind]
  | ok a => simp [bind, Except.bind]

theorem exists_eq_ok_of_isOk {x : Except ε α} (h : x.isOk = true) : ∃ a, x = .ok a := by
  cases x with
  | error e => cases h
  | ok a => exact ⟨a, rfl⟩

theorem exists_eq_ok_iff {x : Except ε α} : (∃ a, x = .ok a) ↔ ∀ e, x ≠ .error e := by
  cases x with
  | error e => simp
  | ok a => simp

theorem isSome_toOption_or (x : Except ε α) :
    x.toOption.isSome ∨ ∃ e, x = .error e := by
  cases x with
  | error e => exact Or.inr ⟨e, rfl⟩
  | ok a => exact Or.inl rfl

/-- All members of a list have a property, or there is a first one that has not. -/
theorem forall_or_exists_first {α : Type} (P : α → Prop) (l : List α) :
    (∀ a ∈ l, P a) ∨
      ∃ before a after, l = before ++ a :: after ∧ (∀ b ∈ before, P b) ∧ ¬P a := by
  induction l with
  | nil => exact Or.inl (List.forall_mem_nil _)
  | cons a rest ih =>
    by_cases ha : P a
    · rcases ih with hrest | ⟨before, b, after, rfl, hbefore, hb⟩
      · exact Or.inl (List.forall_mem_cons.mpr ⟨ha, hrest⟩)
      · exact Or.inr ⟨a :: before, b, after, rfl, List.forall_mem_cons.mpr ⟨ha, hbefore⟩, hb⟩
    · exact Or.inr ⟨[], a, rest, rfl, List.forall_mem_nil _, ha⟩

/-- A list of steps that succeeds gives the result of each of them. -/
theorem forall₂_of_mapM_eq_ok {f : α → Except ε β} {l : List α} {results : List β}
    (h : l.mapM f = .ok results) : List.Forall₂ (fun a b => f a = .ok b) l results := by
  induction l generalizing results with
  | nil =>
    cases h
    exact .nil
  | cons a rest ih =>
    rw [List.mapM_cons] at h
    obtain ⟨b, hb, h⟩ := bind_eq_ok_iff.mp h
    obtain ⟨others, hothers, h⟩ := bind_eq_ok_iff.mp h
    cases h
    exact .cons hb (ih hothers)

theorem mapM_eq_ok_iff {f : α → Except ε β} {l : List α} {results : List β} :
    l.mapM f = .ok results ↔ List.Forall₂ (fun a b => f a = .ok b) l results := by
  refine ⟨forall₂_of_mapM_eq_ok, fun h => ?_⟩
  induction h with
  | nil => rfl
  | cons hab _ ih =>
    rw [List.mapM_cons, hab, ih]
    rfl

/-- Each result of a list of steps is that of one of the steps. -/
theorem exists_of_mem_of_mapM_eq_ok {f : α → Except ε β} {l : List α} {results : List β} {b : β}
    (h : l.mapM f = .ok results) (hb : b ∈ results) : ∃ a ∈ l, f a = .ok b := by
  obtain ⟨hlength, hsteps⟩ := List.forall₂_iff_get.mp (forall₂_of_mapM_eq_ok h)
  obtain ⟨i, hi, rfl⟩ := List.mem_iff_getElem.mp hb
  have hi' : i < l.length := hlength ▸ hi
  exact ⟨l[i], List.getElem_mem hi', hsteps i hi' hi⟩

/-- A list of steps that succeeds has no step that fails. -/
theorem exists_eq_ok_of_mapM_eq_ok {f : α → Except ε β} {l : List α} {results : List β} {a : α}
    (h : l.mapM f = .ok results) (ha : a ∈ l) : ∃ b, f a = .ok b := by
  obtain ⟨hlength, hsteps⟩ := List.forall₂_iff_get.mp (forall₂_of_mapM_eq_ok h)
  obtain ⟨i, hi, rfl⟩ := List.mem_iff_getElem.mp ha
  exact ⟨_, hsteps i hi (hlength ▸ hi)⟩

/-- A list of steps fails with the error of its first step that does. -/
theorem exists_of_mapM_eq_error {f : α → Except ε β} {l : List α} {error : ε}
    (h : l.mapM f = .error error) :
    ∃ before a after, l = before ++ a :: after ∧ (∀ b ∈ before, ∃ result, f b = .ok result) ∧
      f a = .error error := by
  induction l with
  | nil => cases h
  | cons first rest ih =>
    rw [List.mapM_cons] at h
    cases hfirst : f first with
    | error e =>
      rw [hfirst] at h
      cases h
      exact ⟨[], first, rest, rfl, List.forall_mem_nil _, hfirst⟩
    | ok result =>
      cases hrest : rest.mapM f with
      | error e =>
        rw [hfirst, hrest] at h
        cases h
        obtain ⟨before, a, after, rfl, hbefore, ha⟩ := ih hrest
        exact ⟨first :: before, a, after, rfl,
          List.forall_mem_cons.mpr ⟨⟨result, hfirst⟩, hbefore⟩, ha⟩
      | ok results =>
        rw [hfirst, hrest] at h
        cases h

theorem mapM_eq_error_iff {f : α → Except ε β} {l : List α} {error : ε} :
    l.mapM f = .error error ↔
      ∃ before a after, l = before ++ a :: after ∧ (∀ b ∈ before, ∃ result, f b = .ok result) ∧
        f a = .error error := by
  refine ⟨exists_of_mapM_eq_error, ?_⟩
  rintro ⟨before, a, after, rfl, hbefore, ha⟩
  induction before with
  | nil =>
    rw [List.nil_append, List.mapM_cons, ha]
    rfl
  | cons first rest ih =>
    obtain ⟨⟨result, hresult⟩, hrest⟩ := List.forall_mem_cons.mp hbefore
    rw [List.cons_append, List.mapM_cons, hresult, ih hrest]
    rfl

/-- Over a list in order, what fails is before all others that do. -/
theorem exists_first_of_mapM_eq_error {f : α → Except ε β} {l : List α} {error : ε}
    {r : α → α → Prop} (hl : l.Pairwise r) (h : l.mapM f = .error error) :
    ∃ a ∈ l, f a = .error error ∧ ∀ b ∈ l, (∀ result, f b ≠ .ok result) → b = a ∨ r a b := by
  obtain ⟨before, a, after, rfl, hbefore, ha⟩ := exists_of_mapM_eq_error h
  refine ⟨a, by simp, ha, fun b hb hfails => ?_⟩
  rcases List.mem_append.mp hb with hb | hb
  · obtain ⟨result, hresult⟩ := hbefore b hb
    exact absurd hresult (hfails result)
  · obtain ⟨hafter, -⟩ := List.pairwise_cons.mp (List.pairwise_append.mp hl).2.1
    exact (List.mem_cons.mp hb).imp_right (hafter b)

theorem toList_mapM_vector {n : ℕ} (f : α → Except ε β) (v : Vector α n) :
    v.toList.mapM f = Vector.toList <$> v.mapM f :=
  calc v.toList.mapM f = Array.toList <$> v.toArray.mapM f := Array.toList_mapM.symm
    _ = Array.toList <$> Vector.toArray <$> v.mapM f := by rw [Vector.toArray_mapM]
    _ = Vector.toList <$> v.mapM f := by
      rw [← comp_map]
      rfl

theorem getElem_of_mapM_eq_ok {n : ℕ} {f : α → Except ε β} {v : Vector α n} {results : Vector β n}
    (h : v.mapM f = .ok results) {i : ℕ} (hi : i < n) : f v[i] = .ok results[i] := by
  have hlist : v.toList.mapM f = .ok results.toList := by
    rw [toList_mapM_vector, h]
    rfl
  have hsteps := (List.forall₂_iff_get.mp (forall₂_of_mapM_eq_ok hlist)).2
  exact hsteps i (by rw [Vector.length_toList]; exact hi) (by rw [Vector.length_toList]; exact hi)

/-- What a list of successes gives, when each of them can be told without running it. -/
theorem eq_map_of_mapM_eq_ok {f : α → Except ε β} {g : α → β} (hg : ∀ a b, f a = .ok b → b = g a)
    {l : List α} {results : List β} (h : l.mapM f = .ok results) : results = l.map g := by
  induction l generalizing results with
  | nil =>
    cases h
    rfl
  | cons a rest ih =>
    rw [List.mapM_cons] at h
    obtain ⟨b, hb, h⟩ := bind_eq_ok_iff.mp h
    obtain ⟨others, hothers, h⟩ := bind_eq_ok_iff.mp h
    cases h
    rw [List.map_cons, hg a b hb, ih hothers]

theorem mapError_eq_ok_iff {f : ε → δ} {x : Except ε α} {a : α} :
    x.mapError f = .ok a ↔ x = .ok a := by
  cases x with
  | error e =>
    constructor
    · intro h
      cases h
    · intro h
      cases h
  | ok b =>
    constructor
    · intro h
      cases h
      rfl
    · intro h
      cases h
      rfl

theorem mapError_eq_error_iff {f : ε → δ} {x : Except ε α} {error : δ} :
    x.mapError f = .error error ↔ ∃ e, x = .error e ∧ error = f e := by
  cases x with
  | error e => simp [Except.mapError, eq_comm]
  | ok b => simp [Except.mapError]

theorem map_eq_error_iff {f : α → β} {x : Except ε α} {error : ε} :
    x.map f = .error error ↔ x = .error error := by
  cases x with
  | error e => rw [Except.map, Except.error.injEq, Except.error.injEq]
  | ok a =>
    constructor
    · intro h
      cases h
    · intro h
      cases h

/-! ## The error alone -/

/-- The error of a step that fails. -/
def errorOf? : Except ε α → Option ε
  | .error e => some e
  | .ok _ => none

theorem errorOf?_eq_some_iff {x : Except ε α} {e : ε} : errorOf? x = some e ↔ x = .error e := by
  cases x with
  | error other => simp [errorOf?]
  | ok a => simp [errorOf?]

theorem errorOf?_eq_none_iff {x : Except ε α} : errorOf? x = none ↔ ∃ a, x = .ok a := by
  cases x with
  | error other => simp [errorOf?]
  | ok a => simp [errorOf?]

theorem errorOf?_map (f : α → β) (x : Except ε α) : errorOf? (f <$> x) = errorOf? x := by
  cases x with
  | error e => rfl
  | ok a => rfl

/-- Where the errors of the later steps do not depend on the result of the first one, the error of
all of them is the first there is. -/
theorem errorOf?_bind {x : Except ε α} {f : α → Except ε β} {later : Option ε}
    (h : ∀ a, errorOf? (f a) = later) : errorOf? (x >>= f) = (errorOf? x).or later := by
  cases x with
  | error e => rfl
  | ok a => exact h a

theorem errorOf?_mapM (f : α → Except ε β) (l : List α) :
    errorOf? (l.mapM f) = l.findSome? fun a => errorOf? (f a) := by
  induction l with
  | nil => rfl
  | cons a rest ih =>
    have hrest : ∀ b, errorOf? (rest.mapM f >>= fun bs => pure (b :: bs)) =
        rest.findSome? fun a => errorOf? (f a) := by
      intro b
      have hlast : ∀ bs, errorOf? (pure (b :: bs) : Except ε (List β)) = none := fun _ => rfl
      rw [errorOf?_bind hlast, ih, Option.or_none]
    rw [List.mapM_cons, errorOf?_bind hrest, List.findSome?_cons]
    cases errorOf? (f a) with
    | none => rfl
    | some e => rfl

theorem errorOf?_mapM_vector {n : ℕ} (f : α → Except ε β) (v : Vector α n) :
    errorOf? (v.mapM f) = v.toList.findSome? fun a => errorOf? (f a) := by
  rw [← errorOf?_mapM, toList_mapM_vector, errorOf?_map]

/-- Steps that succeed one by one succeed together. -/
theorem mapM_vector_eq_ok {n : ℕ} {f : α → Except ε β} {v : Vector α n} {results : Vector β n}
    (h : ∀ (i : ℕ) (hi : i < n), f v[i] = .ok results[i]) : v.mapM f = .ok results := by
  have hnone : errorOf? (v.mapM f) = none := by
    rw [errorOf?_mapM_vector, List.findSome?_eq_none_iff]
    intro a ha
    obtain ⟨i, hi, rfl⟩ := List.mem_iff_getElem.mp ha
    exact errorOf?_eq_none_iff.mpr ⟨_, h i (by simpa using hi)⟩
  obtain ⟨others, hothers⟩ := errorOf?_eq_none_iff.mp hnone
  rw [hothers]
  congr 1
  ext i hi
  exact Except.ok.inj ((getElem_of_mapM_eq_ok hothers hi).symm.trans (h i hi))

end BenchTables
