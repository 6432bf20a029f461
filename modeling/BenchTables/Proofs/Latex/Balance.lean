import BenchTables.Latex.Markup
import BenchTables.Proofs.Decimal.Digits
import Mathlib.Data.List.Chain
import Mathlib.Data.List.Infix

/-!
# Balanced braces

A text is balanced when no part of it from its start closes more braces than it opens and the whole
closes all of them (`IsBalanced`). Balanced texts stay balanced side by side and inside braces, so
what is put together from commands and their arguments is balanced. `IsInline` says of a text that
stands in a line, besides, that no argument in it names an environment that begins with a `t`.
-/

namespace BenchTables.Latex

/-- No prefix of a text closes more braces than it opens, and the whole closes all. -/
structure IsBalanced (s : String) : Prop where
  opened : ∀ front, front <+: s.toList → front.count '\x7d' ≤ front.count '\x7b'
  closed : s.toList.count '\x7d' = s.toList.count '\x7b'

/-- Reads braces at a depth: none closes below zero, and at the end none is open. -/
def closesAll : ℕ → List Char → Bool
  | depth, [] => depth = 0
  | depth, c :: rest =>
    if c = '\x7b' then closesAll (depth + 1) rest
    else if c = '\x7d' then 0 < depth && closesAll (depth - 1) rest
    else closesAll depth rest

theorem closesAll_iff {depth : ℕ} {l : List Char} : closesAll depth l ↔
    (∀ front, front <+: l → front.count '\x7d' ≤ depth + front.count '\x7b') ∧
      l.count '\x7d' = depth + l.count '\x7b' := by
  induction l generalizing depth with
  | nil =>
    simp only [closesAll, decide_eq_true_eq, List.prefix_nil, forall_eq, List.count_nil]
    omega
  | cons c rest ih =>
    -- A prefix that is not empty has the first character, and a prefix of the rest.
    have hfronts : (∀ front, front <+: c :: rest →
        front.count '\x7d' ≤ depth + front.count '\x7b') ↔
        ∀ front, front <+: rest →
          (c :: front).count '\x7d' ≤ depth + (c :: front).count '\x7b' := by
      constructor
      · exact fun h front hfront => h (c :: front) (List.cons_prefix_cons.mpr ⟨rfl, hfront⟩)
      · intro h front hfront
        rcases List.prefix_cons_iff.mp hfront with rfl | ⟨others, rfl, hothers⟩
        · exact Nat.zero_le _
        · exact h others hothers
    rw [hfronts, closesAll]
    simp only [List.count_cons, beq_iff_eq]
    split
    next hopen =>
      have hclose : c ≠ '\x7d' := hopen ▸ by decide
      simp only [if_neg hclose, ih]
      rw [Nat.add_right_comm, Nat.add_assoc]
      exact and_congr_left' (forall₂_congr fun front _ => by omega)
    next hopen =>
      split
      next hclose =>
        simp only [Bool.and_eq_true, decide_eq_true_eq, ih]
        constructor
        · intro ⟨hdepth, hrest, htotal⟩
          refine ⟨fun front hfront => ?_, by omega⟩
          have := hrest front hfront
          omega
        · intro ⟨hrest, htotal⟩
          have hdepth := hrest [] List.nil_prefix
          rw [List.count_nil, List.count_nil] at hdepth
          refine ⟨by omega, fun front hfront => ?_, by omega⟩
          have := hrest front hfront
          omega
      next hclose =>
        simp only [Nat.add_zero, ih]

-- The braces are read once, whereas there are many prefixes to look at.
instance (s : String) : Decidable (IsBalanced s) :=
  decidable_of_iff (closesAll 0 s.toList) <| by
    rw [closesAll_iff]
    simp only [Nat.zero_add]
    exact ⟨fun h => ⟨h.1, h.2⟩, fun h => ⟨h.opened, h.closed⟩⟩

/-- A text without braces and line feeds. -/
def IsPlain (s : String) : Prop :=
  ∀ c ∈ s.toList, c ≠ '\x7b' ∧ c ≠ '\x7d' ∧ c ≠ '\n'

instance (s : String) : Decidable (IsPlain s) :=
  List.decidableBAll _ s.toList

/-- A plain text without a `t`. -/
def IsBare (s : String) : Prop :=
  ∀ c ∈ s.toList, c ≠ 't' ∧ c ≠ '\x7b' ∧ c ≠ '\x7d' ∧ c ≠ '\n'

instance (s : String) : Decidable (IsBare s) :=
  List.decidableBAll _ s.toList

/-- A balanced text on one line in which no argument begins with a `t`. -/
structure IsInline (s : String) : Prop where
  balanced : IsBalanced s
  arguments : s.toList.IsChain fun c d => c = '\x7b' → d ≠ 't'
  lineFeed : '\n' ∉ s.toList

instance (s : String) : Decidable (IsInline s) :=
  decidable_of_iff (IsBalanced s ∧ (s.toList.IsChain fun c d => c = '\x7b' → d ≠ 't') ∧
      '\n' ∉ s.toList)
    ⟨fun h => ⟨h.1, h.2.1, h.2.2⟩, fun h => ⟨h.balanced, h.arguments, h.lineFeed⟩⟩

/-- A text in a line that may stand in the braces of an argument. -/
structure IsArgument (s : String) : Prop extends IsInline s where
  head : s.toList.head? ≠ some 't'

instance (s : String) : Decidable (IsArgument s) :=
  decidable_of_iff (IsInline s ∧ s.toList.head? ≠ some 't')
    ⟨fun h => ⟨h.1, h.2⟩, fun h => ⟨h.toIsInline, h.head⟩⟩

variable {s t : String}

/-! ## Balanced texts -/

/-- A prefix of two lists ends in the first of them or goes on into the second. -/
theorem prefix_left_or_right {α : Type} {front l m : List α} (h : front <+: l ++ m) :
    front <+: l ∨ ∃ rest, rest <+: m ∧ front = l ++ rest := by
  rcases List.prefix_or_prefix_of_prefix h (List.prefix_append l m) with hfront | ⟨rest, rfl⟩
  · exact .inl hfront
  · exact .inr ⟨rest, (List.prefix_append_right_inj l).mp h, rfl⟩

theorem IsBalanced.append (hs : IsBalanced s) (ht : IsBalanced t) : IsBalanced (s ++ t) where
  opened := by
    intro front hfront
    rw [String.toList_append] at hfront
    rcases prefix_left_or_right hfront with hfront | ⟨rest, hrest, rfl⟩
    · exact hs.opened front hfront
    · have hsecond := ht.opened rest hrest
      rw [List.count_append, List.count_append, hs.closed]
      omega
  closed := by
    rw [String.toList_append, List.count_append, List.count_append, hs.closed, ht.closed]

/-- A text in braces: the brace that opens makes up for the one that closes, which comes last. -/
theorem IsBalanced.braced (h : IsBalanced s) : IsBalanced (braced s) := by
  have htext : (Latex.braced s).toList = '\x7b' :: (s.toList ++ ['\x7d']) := by
    unfold Latex.braced
    rw [String.toList_append, String.toList_append]
    rfl
  constructor
  · intro front hfront
    rw [htext] at hfront
    rcases List.prefix_cons_iff.mp hfront with rfl | ⟨inner, rfl, hinner⟩
    · exact Nat.le_refl 0
    · rw [List.count_cons_self, List.count_cons_of_ne (by decide)]
      rcases List.prefix_concat_iff.mp hinner with rfl | hinner
      · have hclosed := h.closed
        rw [List.count_append, List.count_append, hclosed]
        exact Nat.le_refl _
      · exact Nat.le_succ_of_le (h.opened inner hinner)
  · rw [htext, List.count_cons_self, List.count_cons_of_ne (by decide), List.count_append,
      List.count_append, h.closed]
    rfl

theorem IsPlain.isBalanced (h : IsPlain s) : IsBalanced s := by
  have hopen : '\x7b' ∉ s.toList := fun hmem => (h _ hmem).1 rfl
  have hclose : '\x7d' ∉ s.toList := fun hmem => (h _ hmem).2.1 rfl
  constructor
  · intro front hfront
    rw [List.count_eq_zero_of_not_mem fun hmem => hclose (hfront.subset hmem)]
    exact Nat.zero_le _
  · rw [List.count_eq_zero_of_not_mem hclose, List.count_eq_zero_of_not_mem hopen]

theorem isBalanced_join {parts : List String} (h : ∀ part ∈ parts, IsBalanced part) :
    IsBalanced (String.join parts) := by
  induction parts with
  | nil => decide
  | cons part others ih =>
    have hothers := ih fun p hp => h p (List.mem_cons_of_mem _ hp)
    rw [String.join_cons]
    exact (h part List.mem_cons_self).append hothers

/-- A balanced text does not end with a brace that opens. -/
theorem IsBalanced.getLast?_ne (h : IsBalanced s) : s.toList.getLast? ≠ some '\x7b' := by
  intro hlast
  obtain ⟨front, hfront⟩ := List.getLast?_eq_some_iff.mp hlast
  have hopened := h.opened front (hfront ▸ List.prefix_append front _)
  have hclosed := h.closed
  rw [hfront, List.count_append, List.count_append] at hclosed
  have hone : List.count '\x7b' ['\x7b'] = 1 := rfl
  have hzero : List.count '\x7d' ['\x7b'] = 0 := rfl
  omega

/-! ## Texts in a line -/

theorem IsInline.append (hs : IsInline s) (ht : IsInline t) : IsInline (s ++ t) where
  balanced := hs.balanced.append ht.balanced
  arguments := by
    rw [String.toList_append]
    apply hs.arguments.append ht.arguments
    intro c hc d hd hbrace
    exact absurd (hbrace ▸ hc) hs.balanced.getLast?_ne
  lineFeed := by
    rw [String.toList_append, List.mem_append]
    exact not_or.mpr ⟨hs.lineFeed, ht.lineFeed⟩

theorem IsPlain.isInline (h : IsPlain s) : IsInline s where
  balanced := h.isBalanced
  arguments := by
    apply List.isChain_iff_forall_rel_of_append_cons_cons.mpr
    intro c d front rest htext hbrace
    have hmem : c ∈ s.toList := by
      rw [htext]
      exact List.mem_append_right _ List.mem_cons_self
    exact absurd hbrace (h c hmem).1
  lineFeed := fun hmem => (h _ hmem).2.2 rfl

theorem IsBare.isArgument (h : IsBare s) : IsArgument s where
  toIsInline := by
    have hplain : IsPlain s := fun c hc => (h c hc).2
    exact hplain.isInline
  head := fun hhead => (h 't' (List.mem_of_head? hhead)).1 rfl

theorem IsArgument.braced (h : IsArgument s) : IsInline (braced s) := by
  have htext : (Latex.braced s).toList = ['\x7b'] ++ (s.toList ++ ['\x7d']) := by
    unfold Latex.braced
    rw [String.toList_append, String.toList_append, List.append_assoc]
    rfl
  refine ⟨h.balanced.braced, ?_, ?_⟩
  · rw [htext]
    apply List.IsChain.append (List.isChain_singleton _)
    · apply h.arguments.append (List.isChain_singleton _)
      intro c hc d hd hbrace
      exact absurd (hbrace ▸ hc) h.balanced.getLast?_ne
    · intro c hc d hd _ hdt
      have hhead := h.head
      rw [hdt] at hd
      cases hs : s.toList with
      | nil =>
        rw [hs] at hd
        cases hd
      | cons first rest =>
        rw [hs] at hd hhead
        exact hhead hd
  · rw [htext]
    simp only [List.mem_append, List.mem_singleton, not_or]
    exact ⟨by decide, h.lineFeed, by decide⟩

theorem isInline_join {parts : List String} (h : ∀ part ∈ parts, IsInline part) :
    IsInline (String.join parts) := by
  induction parts with
  | nil => decide
  | cons part others ih =>
    have hothers := ih fun p hp => h p (List.mem_cons_of_mem _ hp)
    rw [String.join_cons]
    exact (h part List.mem_cons_self).append hothers

theorem isInline_intercalate {separator : String} (hseparator : IsInline separator)
    {parts : List String} (h : ∀ part ∈ parts, IsInline part) :
    IsInline (String.intercalate separator parts) := by
  induction parts with
  | nil =>
    rw [String.intercalate_nil]
    decide
  | cons part others ih =>
    have hpart := h part List.mem_cons_self
    have hothers := ih fun p hp => h p (List.mem_cons_of_mem _ hp)
    cases others with
    | nil => rwa [String.intercalate_singleton]
    | cons next rest =>
      rw [String.intercalate_cons_cons]
      exact (hpart.append hseparator).append hothers

theorem IsPlain.command (hname : IsPlain s) {arguments : List String}
    (h : ∀ argument ∈ arguments, IsArgument argument) : IsArgument (command s arguments) where
  toIsInline := by
    have harguments : IsInline (String.join (arguments.map Latex.braced)) := by
      apply isInline_join
      intro part hpart
      obtain ⟨argument, hargument, rfl⟩ := List.mem_map.mp hpart
      exact (h argument hargument).braced
    unfold Latex.command
    exact (IsInline.append (by decide) hname.isInline).append harguments
  head := by
    unfold Latex.command
    rw [String.toList_append, String.toList_append]
    exact of_decide_eq_true rfl

/-! ## Building blocks -/

theorem bare_of_isDigit {c : Char} (h : Decimal.isDigit c) :
    c ≠ 't' ∧ c ≠ '\x7b' ∧ c ≠ '\x7d' ∧ c ≠ '\n' := by
  have hrange := Decimal.toNat_of_isDigit h
  refine ⟨?_, ?_, ?_, ?_⟩ <;> rintro rfl <;> exact absurd hrange (by decide)

theorem isBare_natText (n : ℕ) : IsBare (Decimal.natText n) := by
  intro c hc
  rw [Decimal.natText_toList] at hc
  exact bare_of_isDigit (Decimal.isDigit_of_mem_digits hc)

theorem isBare_twoPlaces (x : Float) : IsBare (Decimal.twoPlaces x) := by
  unfold Decimal.twoPlaces
  cases Decimal.BinaryValue.ofFloat x with
  | nan => decide
  | infinite negative => cases negative <;> decide
  | finite negative m e =>
    have hsign : IsBare (if negative then "-" else "") := by
      cases negative <;> decide
    intro c hc
    rw [Decimal.BinaryValue.twoPlaces, String.toList_append] at hc
    rcases List.mem_append.mp hc with hc | hc
    · exact hsign c hc
    · rcases Decimal.isDigit_or_dot_of_mem_hundredthsText hc with hdigit | rfl
      · exact bare_of_isDigit hdigit
      · decide

theorem isArgument_natText (n : ℕ) : IsArgument (Decimal.natText n) :=
  (isBare_natText n).isArgument

theorem isArgument_quantity (x : Float) (unit : QuantityUnit) : IsArgument (quantity x unit) := by
  apply IsPlain.command (by decide)
  intro argument hargument
  rcases List.mem_pair.mp hargument with rfl | rfl
  · exact (isBare_twoPlaces x).isArgument
  · cases unit <;> decide

theorem IsArgument.spanning (h : IsArgument s) (rows : ℕ) : IsArgument (spanning rows s) := by
  apply IsPlain.command (by decide)
  intro argument hargument
  simp only [List.mem_cons, List.not_mem_nil, or_false] at hargument
  rcases hargument with rfl | rfl | rfl
  · exact isArgument_natText rows
  · decide
  · exact h

theorem IsPlain.labelCommand (h : IsPlain s) : IsInline (labelCommand s) := by
  apply IsArgument.toIsInline
  apply h.command
  intro argument hargument
  rw [List.mem_singleton.mp hargument]
  decide

-- The name of a label is put into the text as it is.
example : ¬IsBalanced (labelCommand "m\x7dprot") := by decide

end BenchTables.Latex
