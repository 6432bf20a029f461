import Mathlib.Data.List.Forall2

/-!
# Lists side by side

Facts about two lists whose members are related one by one: from which relations there is a second
list at all, where a member of it comes from, and what may be added to the members of both.
-/

namespace BenchTables

variable {α β : Type} {R S : α → β → Prop} {l : List α} {m : List β}

theorem exists_forall₂_iff :
    (∃ results, List.Forall₂ R l results) ↔ ∀ a ∈ l, ∃ b, R a b := by
  induction l with
  | nil => exact ⟨fun _ => List.forall_mem_nil _, fun _ => ⟨[], .nil⟩⟩
  | cons a rest ih =>
    rw [List.forall_mem_cons, ← ih]
    constructor
    · rintro ⟨results, h⟩
      cases h with
      | cons ha hrest => exact ⟨⟨_, ha⟩, _, hrest⟩
    · rintro ⟨⟨b, hb⟩, results, hrest⟩
      exact ⟨b :: results, .cons hb hrest⟩

theorem exists_left_of_forall₂ (h : List.Forall₂ R l m) {b : β} (hb : b ∈ m) : ∃ a ∈ l, R a b := by
  induction h with
  | nil => cases hb
  | cons hab _ ih =>
    rcases List.mem_cons.mp hb with rfl | hb
    · exact ⟨_, List.mem_cons_self, hab⟩
    · obtain ⟨a, ha, hR⟩ := ih hb
      exact ⟨a, List.mem_cons_of_mem _ ha, hR⟩

/-- Only the members of the second list count. -/
theorem forall₂_of_mem_right (h : List.Forall₂ R l m) (hS : ∀ a, ∀ b ∈ m, R a b → S a b) :
    List.Forall₂ S l m := by
  induction h with
  | nil => exact .nil
  | cons hab _ ih =>
    exact .cons (hS _ _ List.mem_cons_self hab)
      (ih fun a b hb => hS a b (List.mem_cons_of_mem _ hb))

theorem forall₂_iff_of_mem (h : ∀ a ∈ l, ∀ b, R a b ↔ S a b) :
    List.Forall₂ R l m ↔ List.Forall₂ S l m := by
  induction l generalizing m with
  | nil => rw [List.forall₂_nil_left_iff, List.forall₂_nil_left_iff]
  | cons a rest ih =>
    obtain ⟨ha, hrest⟩ := List.forall_mem_cons.mp h
    simp only [List.forall₂_cons_left_iff, ha, ih hrest]

theorem forall₂_zipIdx (h : List.Forall₂ R l m) (n : ℕ) :
    List.Forall₂ (fun a b => R a.1 b.1 ∧ a.2 = b.2) (l.zipIdx n) (m.zipIdx n) := by
  induction h generalizing n with
  | nil => exact .nil
  | cons hab _ ih => exact .cons ⟨hab, rfl⟩ (ih (n + 1))

end BenchTables
