import BenchTables.Proofs.Decimal.Printed
import BenchTables.Proofs.Decimal.Shortest
import BenchTables.Proofs.Json.Reader

/-!
# Doubles in JSON read back

The text of a finite double is a number with a fraction or an exponent, in each of the layouts that
its size may ask for, and the number is that of its shortest decimal (`magnitudeText_place`). So the
reader takes it for the double again, bit for bit (`wordValue?_numberText`).
-/

open Float.Model Float.Model.UnpackedFloat

namespace BenchTables.Json

open Decimal Binary64

/-- A text is a number without a sign, and not one of nothing but digits. -/
inductive MagnitudeText : List Char → ℚ → Prop
  | intro {whole point fraction power : List Char} {exponent : ℤ} (hwhole : IsInteger whole)
      (hpoint : FractionText point fraction) (hfraction : point ≠ [] → fraction ≠ [])
      (hpower : ExponentText power exponent) (hmark : point ≠ [] ∨ power ≠ []) :
      MagnitudeText (whole ++ (point ++ power))
        (digitsValue (whole ++ fraction) * 10 ^ (exponent - fraction.length))

variable {cs ds : List Char} {q : ℚ}

/-! ## Reading a number -/

theorem isWhole_of_isInteger (h : IsInteger ds) : isWhole ds :=
  decide_eq_true ⟨h.ne_nil, h.canonical⟩

theorem readFraction?_append {whole point fraction power : List Char} {exponent : ℤ}
    (hpoint : FractionText point fraction) (hfraction : point ≠ [] → fraction ≠ [])
    (hpower : ExponentText power exponent) (negative : Bool) :
    readFraction? negative whole (point ++ power) =
      some ⟨negative, digitsValue (whole ++ fraction), exponent - fraction.length⟩ := by
  have hread := readExponent?_of_exponentText hpower
  cases hpoint with
  | none =>
    rw [List.nil_append, List.append_nil, List.length_nil, Nat.cast_zero, sub_zero]
    unfold readFraction?
    split
    · rcases hpower.head '.' rfl with h | h
      · exact absurd h (by decide)
      · exact absurd h (by decide)
    · rw [hread]
      rfl
  | point hds =>
    obtain ⟨htake, hdrop⟩ := span_digits hds (not_isDigit_head .none hpower)
    rw [List.nil_append] at htake hdrop
    rw [List.cons_append, readFraction?, htake, hdrop, hread]
    exact if_neg (hfraction (List.cons_ne_nil _ _))

/-- A text of a number is read as that number, with the sign that was in front of it. -/
theorem readMagnitude?_of_magnitudeText (h : MagnitudeText cs q) (negative : Bool) :
    ∃ n, readMagnitude? negative cs = some n ∧ n.negative = negative ∧
      n.coefficient * (10 : ℚ) ^ n.exponent = q := by
  cases h with
  | @intro whole point fraction power exponent hwhole hpoint hfraction hpower hmark =>
    obtain ⟨htake, hdrop⟩ := span_digits hwhole.digits (not_isDigit_head hpoint hpower)
    refine ⟨⟨negative, digitsValue (whole ++ fraction), exponent - fraction.length⟩, ?_, rfl, rfl⟩
    rw [readMagnitude?, htake, hdrop, readFraction?_append hpoint hfraction hpower]
    exact if_pos (isWhole_of_isInteger hwhole)

/-- A text is one word. -/
structure IsWord (cs : List Char) : Prop where
  ne_nil : cs ≠ []
  chars : ∀ c ∈ cs, isWordChar c

instance (cs : List Char) : Decidable (IsWord cs) :=
  decidable_of_iff (cs ≠ [] ∧ cs.all isWordChar)
    ⟨fun h => ⟨h.1, List.all_eq_true.mp h.2⟩, fun h => ⟨h.ne_nil, List.all_eq_true.mpr h.chars⟩⟩

theorem isWordChar_of_isDigit {c : Char} (h : isDigit c) : isWordChar c :=
  decide_eq_true (.inl h)

theorem ExponentText.isWordChar {power : List Char} {exponent : ℤ}
    (h : ExponentText power exponent) : ∀ c ∈ power, isWordChar c := by
  cases h with
  | none => nofun
  | @power letter sign ds negative hletter hsign hne hds =>
    have hletter' : Json.isWordChar letter := by
      rcases hletter with rfl | rfl
      · decide
      · decide
    have hsign' : ∀ c ∈ sign, Json.isWordChar c := by
      cases hsign with
      | none => nofun
      | plus => exact List.all_eq_true.mp rfl
      | minus => exact List.all_eq_true.mp rfl
    intro c hc
    rcases List.mem_cons.mp hc with rfl | hc
    · exact hletter'
    · rcases List.mem_append.mp hc with hc | hc
      · exact hsign' c hc
      · exact isWordChar_of_isDigit (hds c hc)

/-- All of a number is in one word. -/
theorem MagnitudeText.isWordChar (h : MagnitudeText cs q) : ∀ c ∈ cs, isWordChar c := by
  cases h with
  | @intro whole point fraction power exponent hwhole hpoint hfraction hpower hmark =>
    intro c hc
    rcases List.mem_append.mp hc with hc | hc
    · exact isWordChar_of_isDigit (hwhole.digits c hc)
    rcases List.mem_append.mp hc with hc | hc
    · cases hpoint with
      | none => cases hc
      | point hds =>
        rcases List.mem_cons.mp hc with rfl | hc
        · decide
        · exact isWordChar_of_isDigit (hds c hc)
    · exact ExponentText.isWordChar hpower c hc

/-- A number begins with a digit, and has a character other than digits. -/
theorem MagnitudeText.head (h : MagnitudeText cs q) :
    (∃ c rest, cs = c :: rest ∧ isDigit c) ∧ cs.all isDigit = false := by
  cases h with
  | @intro whole point fraction power exponent hwhole hpoint hfraction hpower hmark =>
    constructor
    · obtain ⟨c, rest, rfl⟩ := List.exists_cons_of_ne_nil hwhole.ne_nil
      exact ⟨c, _, rfl, hwhole.digits c List.mem_cons_self⟩
    · -- The point or the letter of the exponent is what comes behind the integer digits.
      have hne : point ++ power ≠ [] := by
        rcases hmark with hmark | hmark
        · exact List.append_ne_nil_of_left_ne_nil hmark _
        · exact List.append_ne_nil_of_right_ne_nil _ hmark
      obtain ⟨c, rest, hrest⟩ := List.exists_cons_of_ne_nil hne
      have hc := not_isDigit_head hpoint hpower c (by rw [hrest]; rfl)
      rw [List.all_eq_false]
      exact ⟨c, List.mem_append_right _ (hrest ▸ List.mem_cons_self), hc⟩

/-! ## The places of the digits -/

theorem digitsValue_zeros_append (n : ℕ) (ds : List Char) :
    digitsValue (List.replicate n '0' ++ ds) = digitsValue ds := by
  induction n with
  | zero => rfl
  | succ n ih =>
    rw [List.replicate_succ, List.cons_append, ← ih]
    rfl

theorem isDigit_of_mem_zeros {n : ℕ} {c : Char} (h : c ∈ List.replicate n '0') : isDigit c := by
  rw [List.eq_of_mem_replicate h]
  decide

/-- Digits with a point behind the first, unless that is the only one. -/
def pointed : List Char → List Char
  | first :: second :: rest => first :: '.' :: second :: rest
  | ds => ds

theorem ofList_pointed (ds : List Char) :
    (match ds with
      | first :: second :: rest => String.ofList (first :: '.' :: second :: rest)
      | _ => String.ofList ds) = String.ofList (pointed ds) := by
  unfold pointed
  split
  · rfl
  · rfl

section Places

variable (hds : ∀ c ∈ ds, isDigit c) (hne : ds ≠ []) (hhead : ds.head? ≠ some '0')
include hds hne

/-- Below one there is a zero in front of the point. -/
theorem magnitudeText_zero_point (n : ℕ) :
    MagnitudeText ("0." ++ zeros n ++ String.ofList ds).toList
      (digitsValue ds * 10 ^ (-(n + ds.length : ℤ))) := by
  have hfraction : ∀ c ∈ List.replicate n '0' ++ ds, isDigit c := by
    intro c hc
    rcases List.mem_append.mp hc with hc | hc
    · exact isDigit_of_mem_zeros hc
    · exact hds c hc
  have h := MagnitudeText.intro (isInteger_digits 0) (.point hfraction)
    (fun _ => List.append_ne_nil_of_right_ne_nil _ hne) .none (.inl (List.cons_ne_nil _ _))
  have hvalue : digitsValue (digits 0 ++ (List.replicate n '0' ++ ds)) = digitsValue ds := by
    rw [← digitsValue_zeros_append n ds]
    rfl
  rw [hvalue, List.append_nil] at h
  convert h using 1
  · simp only [zeros, String.toList_append, String.toList_ofList, List.append_assoc]
    rfl
  · rw [List.length_append, List.length_replicate, zero_sub]
    push_cast
    rfl

include hhead

/-- Up to the point there are zeros, and behind it one. -/
theorem magnitudeText_point_zero (n : ℕ) :
    MagnitudeText (String.ofList ds ++ zeros n ++ ".0").toList (digitsValue ds * 10 ^ (n : ℤ)) := by
  have hwhole : IsInteger (ds ++ List.replicate n '0') := by
    refine ⟨List.append_ne_nil_of_left_ne_nil hne _, fun c hc => ?_, fun hzero => ?_⟩
    · rcases List.mem_append.mp hc with hc | hc
      · exact hds c hc
      · exact isDigit_of_mem_zeros hc
    · rw [List.head?_append_of_ne_nil _ hne] at hzero
      exact absurd hzero hhead
  have hpoint : FractionText ['.', '0'] ['0'] := .point (List.all_eq_true.mp rfl)
  have h := MagnitudeText.intro hwhole hpoint (fun _ => List.cons_ne_nil _ _) .none
    (.inl (List.cons_ne_nil _ _))
  have hvalue : digitsValue (ds ++ List.replicate n '0' ++ ['0']) =
      digitsValue ds * 10 ^ (n + 1) := by
    rw [List.append_assoc, ← List.replicate_succ', digitsValue_append_zeros]
  rw [hvalue] at h
  convert h using 1
  · simp only [zeros, String.toList_append, String.toList_ofList, List.append_assoc]
    rfl
  · push_cast
    rw [pow_succ, zpow_natCast]
    norm_num
    ring

/-- A point among the digits. -/
theorem magnitudeText_point {w : ℕ} (hw : 0 < w) (hlt : w < ds.length) :
    MagnitudeText (String.ofList (ds.take w) ++ "." ++ String.ofList (ds.drop w)).toList
      (digitsValue ds * 10 ^ (-(ds.length - w : ℤ))) := by
  obtain ⟨first, rest, rfl⟩ := List.exists_cons_of_ne_nil hne
  obtain ⟨k, rfl⟩ := Nat.exists_eq_succ_of_ne_zero hw.ne'
  have hwhole : IsInteger ((first :: rest).take (k + 1)) := by
    refine ⟨List.cons_ne_nil _ _, fun c hc => hds c (List.mem_of_mem_take hc), fun hzero => ?_⟩
    exact absurd hzero hhead
  have hfraction : (first :: rest).drop (k + 1) ≠ [] := by
    intro hnil
    have hlength := congrArg List.length hnil
    rw [List.length_drop, List.length_nil] at hlength
    omega
  have h := MagnitudeText.intro hwhole (.point fun c hc => hds c (List.mem_of_mem_drop hc))
    (fun _ => hfraction) .none (.inl (List.cons_ne_nil _ _))
  rw [List.take_append_drop, List.append_nil] at h
  convert h using 1
  · simp only [String.toList_append, String.toList_ofList, List.append_assoc]
    rfl
  · rw [List.length_drop, zero_sub, Nat.cast_sub hlt.le]

/-- The first digit in front of the point, and an exponent. -/
theorem magnitudeText_exponent {mark : String} {n : ℕ} {exponent : ℤ}
    (hmark : ExponentText (mark.toList ++ digits n) exponent) :
    MagnitudeText (String.ofList (pointed ds) ++ mark ++ natText n).toList
      (digitsValue ds * 10 ^ (exponent - (ds.length - 1))) := by
  obtain ⟨first, rest, rfl⟩ := List.exists_cons_of_ne_nil hne
  have hfirst : IsInteger [first] := by
    refine ⟨List.cons_ne_nil _ _, fun c hc => ?_, fun hzero => absurd hzero hhead⟩
    rw [List.mem_singleton.mp hc]
    exact hds first List.mem_cons_self
  have hpower : mark.toList ++ digits n ≠ [] :=
    List.append_ne_nil_of_right_ne_nil _ (digits_ne_nil n)
  cases rest with
  | nil =>
    have h := MagnitudeText.intro hfirst .none nofun hmark (.inr hpower)
    convert h using 1
    · simp only [String.toList_append, String.toList_ofList, natText_toList, List.append_assoc]
      rfl
    · rw [List.append_nil]
      simp
  | cons second others =>
    have hpoint : FractionText ('.' :: second :: others) (second :: others) :=
      .point fun c hc => hds c (List.mem_cons_of_mem _ hc)
    have h := MagnitudeText.intro hfirst hpoint (fun _ => List.cons_ne_nil _ _) hmark (.inr hpower)
    convert h using 1
    · simp only [String.toList_append, String.toList_ofList, natText_toList, List.append_assoc]
      rfl
    · rw [List.length_cons]
      push_cast
      rw [add_sub_cancel_right]
      rfl

/-- The text of digits, wherever the first of them stands, and whatever the powers are for which a
layout is positional. -/
theorem magnitudeText_place {layout : NumberLayout} (hplus : layout.plusMark = "e+")
    (hminus : layout.minusMark = "e-") (htail : layout.integerTail = ".0") (leading : ℤ) :
    MagnitudeText (layout.place ds leading).toList
      (digitsValue ds * 10 ^ (leading + 1 - ds.length)) := by
  have hlength := List.length_pos_iff.mpr hne
  unfold NumberLayout.place
  dsimp only
  rw [hplus, hminus, htail]
  split
  next hrange =>
    by_cases hbelow : leading < 0
    · rw [if_pos hbelow]
      convert magnitudeText_zero_point hds hne ((-leading).toNat - 1) using 3
      omega
    rw [if_neg hbelow]
    by_cases hshort : ds.length ≤ leading.toNat + 1
    · rw [if_pos hshort]
      convert magnitudeText_point_zero hds hne hhead (leading.toNat + 1 - ds.length) using 3
      omega
    · rw [if_neg hshort]
      convert magnitudeText_point hds hne hhead (w := leading.toNat + 1) (by omega) (by omega)
        using 3
      omega
  next hrange =>
    have hdigits : ∀ c ∈ digits leading.natAbs, isDigit c := fun _ => isDigit_of_mem_digits
    by_cases hnegative : leading < 0
    · rw [if_pos hnegative]
      have hpower : ExponentText ("e-".toList ++ digits leading.natAbs) _ :=
        .power (.inl rfl) .minus (digits_ne_nil _) hdigits
      convert magnitudeText_exponent hds hne hhead hpower using 3
      · exact congrArg (· ++ "e-") (ofList_pointed ds)
      · rw [digitsValue_digits, if_pos rfl]
        omega
    · rw [if_neg hnegative]
      have hpower : ExponentText ("e+".toList ++ digits leading.natAbs) _ :=
        .power (.inl rfl) .plus (digits_ne_nil _) hdigits
      convert magnitudeText_exponent hds hne hhead hpower using 3
      · exact congrArg (· ++ "e+") (ofList_pointed ds)
      · rw [digitsValue_digits, if_neg Bool.false_ne_true]
        omega

end Places

/-! ## The word of a double -/

/-- The sign in front of a number. -/
def minus (negative : Bool) : List Char :=
  if negative then ['-'] else []

theorem readNumber?_append (h : MagnitudeText cs q) (negative : Bool) :
    readNumber? (minus negative ++ cs) = readMagnitude? negative cs := by
  obtain ⟨⟨c, rest, rfl, hc⟩, -⟩ := h.head
  cases negative with
  | true => rfl
  | false =>
    change readNumber? (c :: rest) = _
    unfold readNumber?
    split
    next heq =>
      cases heq
      exact absurd hc (by decide)
    next => rfl

/-- A number is read as the double that it is rounded to, whatever sign is in front of it. -/
theorem wordValue?_of_magnitudeText (h : MagnitudeText cs q) (negative : Bool) :
    ∃ n : Numeral, n.negative = negative ∧ n.coefficient * (10 : ℚ) ^ n.exponent = q ∧
      wordValue? (minus negative ++ cs) =
        if n.toFloat.isFinite then some (.number n.toFloat) else none := by
  obtain ⟨n, hn, hsign, hvalue⟩ := readMagnitude?_of_magnitudeText h negative
  obtain ⟨⟨c, rest, hcs, hc⟩, hall⟩ := h.head
  have hdigits : (minus negative ++ cs).all isDigit = false := by
    rw [List.all_append, hall, Bool.and_false]
  -- No name begins with a minus sign or a digit.
  have hname : ∀ letter others, isDigit letter = false → letter ≠ '-' →
      minus negative ++ cs ≠ letter :: others := by
    rintro letter others hletter hminus heq
    cases negative with
    | true => exact hminus (List.cons.inj heq).1.symm
    | false =>
      rw [hcs] at heq
      rw [← (List.cons.inj heq).1, hc] at hletter
      cases hletter
  refine ⟨n, hsign, hvalue, ?_⟩
  rw [wordValue?, if_neg (hname _ _ (by decide) (by decide)),
    if_neg (hname _ _ (by decide) (by decide)), if_neg (hname _ _ (by decide) (by decide)), hdigits,
    if_neg Bool.false_ne_true, readNumber?_append h, hn]
  rfl

variable {x : Float} {s : Sign} {m : ℕ} {e : ℤ} {hm : 0 < m}

theorem numberText_zero (hx : x.toModel.unpack = .zero s) :
    (numberText x).toList = minus (BinaryValue.isMinus s) ++ ['0', '.', '0'] := by
  unfold numberText BinaryValue.ofFloat
  rw [hx]
  cases s <;> decide +kernel

/-- The number that is printed of a double is that of its shortest decimal. -/
theorem numberText_finite (hx : x.toModel.unpack = .finite s m e hm) :
    ∃ cs, (numberText x).toList = minus (BinaryValue.isMinus s) ++ cs ∧
      MagnitudeText cs (shortest m e).value := by
  have hc := coefficient_shortest_pos hm e
  have hhead : (digits (shortest m e).coefficient).head? ≠ some '0' :=
    fun hzero => hc.ne' ((head?_digits_eq_zero_iff _).mp hzero)
  have hmarks : jsonNumber.plusMark = "e+" := rfl
  have hplace := magnitudeText_place (fun _ => isDigit_of_mem_digits)
    (digits_ne_nil (shortest m e).coefficient) hhead hmarks rfl rfl (shortest m e).leading
  refine ⟨(jsonNumber.place (digits (shortest m e).coefficient) (shortest m e).leading).toList,
    ?_, ?_⟩
  · unfold numberText BinaryValue.ofFloat
    rw [hx, NumberLayout.text]
    dsimp only
    rw [if_neg hm.ne', String.toList_append]
    cases s <;> rfl
  · convert hplace using 1
    rw [digitsValue_digits, Scientific.leading, Scientific.value]
    congr 2
    omega

/-- The text of a finite double is a word. -/
theorem isWord_numberText (hx : x.isFinite) : IsWord (numberText x).toList := by
  have hminus : ∀ negative, ∀ c ∈ minus negative, isWordChar c := by
    intro negative
    cases negative with
    | true => exact List.all_eq_true.mp rfl
    | false => nofun
  have hdouble := IsDouble.of_unpack hx
  generalize hu : x.toModel.unpack = u at hdouble
  cases hdouble with
  | zero s =>
    rw [numberText_zero hu]
    cases s <;> decide
  | finite s h =>
    obtain ⟨cs, htext, hcs⟩ := numberText_finite hu
    rw [htext]
    obtain ⟨⟨c, rest, rfl, -⟩, -⟩ := hcs.head
    refine ⟨List.append_ne_nil_of_right_ne_nil _ (List.cons_ne_nil _ _), fun d hd => ?_⟩
    rcases List.mem_append.mp hd with hd | hd
    · exact hminus _ d hd
    · exact hcs.isWordChar d hd

/-- The text of a finite double is read as the double. -/
theorem wordValue?_numberText (hx : x.isFinite) :
    wordValue? (numberText x).toList = some (.number x) := by
  have hdouble := IsDouble.of_unpack hx
  generalize hu : x.toModel.unpack = u at hdouble
  cases hdouble with
  | zero s =>
    -- Both zeros are found by evaluating.
    have hzero : Numeral.toFloat ⟨BinaryValue.isMinus s, 0, -1⟩ = x := by
      refine (eq_of_unpack_eq hx (hu.trans ?_)).symm
      cases s <;> rfl
    rw [numberText_zero hu, ← hzero]
    cases s <;> rfl
  | @finite s m e h =>
    obtain ⟨cs, htext, hcs⟩ := numberText_finite hu
    obtain ⟨n, hsign, hvalue, hword⟩ := wordValue?_of_magnitudeText hcs (BinaryValue.isMinus s)
    rw [htext, hword, toFloat_eq_of_shortest hu hsign hvalue]
    exact if_pos hx

example : numberText (-0.0) = "-0.0" := by decide +kernel

example : numberText 5e-324 = "5e-324" := by decide +kernel

end BenchTables.Json
