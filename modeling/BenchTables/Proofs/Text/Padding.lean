import BenchTables.Proofs.Decimal.Digits
import BenchTables.Text.Blank
import BenchTables.Text.Utf8
import Mathlib.Data.List.DropRight

/-!
# Padding in bytes and in characters

The bytes of a text are stripped before they are decoded, its characters after that.
`decode_strip_encode` says that the two together are `trim`: the white space that is one byte goes
first and is white space among the characters too.
-/

namespace BenchTables.Text

/-! ## Stripping twice -/

section Strip

variable {α : Type} {narrow wide : α → Bool}

theorem strip_eq_rdropWhile (blank : α → Bool) (l : List α) :
    strip blank l = (l.dropWhile blank).rdropWhile blank := rfl

theorem dropWhile_dropWhile_of_imp (h : ∀ x, narrow x → wide x) (l : List α) :
    (l.dropWhile narrow).dropWhile wide = l.dropWhile wide := by
  induction l with
  | nil => rfl
  | cons x rest ih =>
    rw [List.dropWhile_cons]
    split
    next hx => rw [ih, List.dropWhile_cons, if_pos (h x hx)]
    next => rfl

/-- What is dropped at the end does not matter to a strip that would drop it as well. -/
theorem strip_rdropWhile_of_imp (h : ∀ x, narrow x → wide x) (l : List α) :
    strip wide (l.rdropWhile narrow) = strip wide l := by
  induction l using List.reverseRecOn with
  | nil => rfl
  | append_singleton l x ih =>
    rw [List.rdropWhile_concat]
    split
    next hx =>
      rw [ih, strip_eq_rdropWhile, strip_eq_rdropWhile, List.dropWhile_append]
      split
      next hall =>
        rw [List.isEmpty_iff.mp hall, List.dropWhile_cons, if_pos (h x hx)]
        rfl
      next => rw [List.rdropWhile_concat_pos _ _ _ (h x hx)]
    next => rfl

theorem strip_strip_of_imp (h : ∀ x, narrow x → wide x) (l : List α) :
    strip wide (strip narrow l) = strip wide l := by
  rw [strip_eq_rdropWhile narrow, strip_rdropWhile_of_imp h, strip_eq_rdropWhile,
    dropWhile_dropWhile_of_imp h, ← strip_eq_rdropWhile]

theorem strip_append_left {blank : α → Bool} {pad : List α} (h : ∀ x ∈ pad, blank x) (l : List α) :
    strip blank (pad ++ l) = strip blank l := by
  rw [strip, List.dropWhile_append_of_pos h, ← strip]

theorem strip_append_right {blank : α → Bool} {pad : List α} (h : ∀ x ∈ pad, blank x)
    (l : List α) : strip blank (l ++ pad) = strip blank l := by
  have hdrop : (l ++ pad).rdropWhile blank = l.rdropWhile blank := by
    rw [List.rdropWhile, List.reverse_append,
      List.dropWhile_append_of_pos fun x hx => h x (List.mem_reverse.mp hx), ← List.rdropWhile]
  rw [← strip_rdropWhile_of_imp (fun _ hx => hx) (l ++ pad), hdrop,
    strip_rdropWhile_of_imp fun _ hx => hx]

theorem strip_of_forall {blank : α → Bool} {l : List α} (h : ∀ x ∈ l, blank x = false) :
    strip blank l = l :=
  strip_eq_self blank l (fun x hx => h x (List.mem_of_mem_head? hx))
    fun x hx => h x (List.mem_of_mem_getLast? hx)

end Strip

theorem isBlank_of_isDigit {c : Char} (h : Decimal.isDigit c) : isBlank c = false := by
  have hrange := Decimal.toNat_of_isDigit h
  simp only [isBlank, Bool.or_eq_false_iff, Bool.and_eq_false_iff, decide_eq_false_iff_not]
  omega

theorem trim_of_forall {s : String} (h : ∀ c ∈ s.toList, isBlank c = false) : trim s = s := by
  rw [trim, strip_of_forall h, String.ofList_toList]

/-- A text that begins and ends with other characters than white space. -/
theorem trim_of_ends {s : String} {c d : Char} {middle : List Char}
    (hs : s.toList = c :: (middle ++ [d])) (hc : isBlank c = false) (hd : isBlank d = false) :
    trim s = s := by
  have hlast : s.toList.getLast? = some d := by
    rw [hs, ← List.cons_append, List.getLast?_append]
    rfl
  have hstrip : strip isBlank s.toList = s.toList := by
    apply strip_eq_self
    · intro x hx
      rw [hs] at hx
      rwa [← Option.some.inj hx]
    · intro x hx
      rw [hlast] at hx
      rwa [← Option.some.inj hx]
  rw [trim, hstrip, String.ofList_toList]

/-- White space before a text does not matter to its trimming. -/
theorem trim_append_left {pad : String} (h : ∀ c ∈ pad.toList, isBlank c) (s : String) :
    trim (pad ++ s) = trim s := by
  rw [trim, String.toList_append, strip_append_left h, ← trim]

/-- White space after a text does not matter to its trimming. -/
theorem trim_append_right {pad : String} (h : ∀ c ∈ pad.toList, isBlank c) (s : String) :
    trim (s ++ pad) = trim s := by
  rw [trim, String.toList_append, strip_append_right h, ← trim]

/-! ## White space that is one byte -/

/-- Whether a character is written as a byte that is white space. -/
def isNarrowBlank (c : Char) : Bool :=
  c = '\t' || c = '\n' || c = '\x0C' || c = '\r' || c = ' '

theorem isBlank_of_isNarrowBlank (c : Char) (h : isNarrowBlank c) : isBlank c := by
  simp only [isNarrowBlank, Bool.or_eq_true, decide_eq_true_eq] at h
  rcases h with (((rfl | rfl) | rfl) | rfl) | rfl <;> rfl

theorem utf8EncodeChar_of_isNarrowBlank {c : Char} (h : isNarrowBlank c) :
    ∃ b, String.utf8EncodeChar c = [b] ∧ isBlankByte b := by
  simp only [isNarrowBlank, Bool.or_eq_true, decide_eq_true_eq] at h
  rcases h with (((rfl | rfl) | rfl) | rfl) | rfl <;> exact ⟨_, rfl, rfl⟩

/-- A byte of a character is the whole character, or it is no ASCII. -/
theorem toNat_of_mem_utf8EncodeChar {c : Char} {b : UInt8} (h : b ∈ String.utf8EncodeChar c) :
    b.toNat = c.toNat ∨ 0x80 ≤ b.toNat := by
  have high : ∀ k, 0x80 ≤ k → k < 0x100 → 0x80 ≤ (UInt8.ofNat k).toNat := fun k hlow hhigh => by
    rw [UInt8.toNat_ofNat']
    omega
  have hc : c.toNat = c.val.toNat := rfl
  rw [hc]
  -- One byte is the character itself, and all bytes of longer encodings have the highest bit.
  unfold String.utf8EncodeChar at h
  generalize c.val.toNat = n at h
  dsimp only at h
  split at h
  · rw [List.mem_singleton] at h
    subst h
    left
    rw [UInt8.toNat_ofNat']
    omega
  right
  split at h
  · simp only [List.mem_cons, List.not_mem_nil, or_false] at h
    rcases h with rfl | rfl <;> exact high _ (by omega) (by omega)
  split at h <;> simp only [List.mem_cons, List.not_mem_nil, or_false] at h
  · rcases h with rfl | rfl | rfl <;> exact high _ (by omega) (by omega)
  · rcases h with rfl | rfl | rfl | rfl <;> exact high _ (by omega) (by omega)

/-- No byte of another character is white space. -/
theorem isBlankByte_of_mem {c : Char} (h : isNarrowBlank c = false) {b : UInt8}
    (hb : b ∈ String.utf8EncodeChar c) : isBlankByte b = false := by
  -- A blank byte is ASCII, so it would be the whole character.
  by_contra hblank
  have hcode : ∀ k : UInt8, b = k → k.toNat < 0x80 → c.toNat = k.toNat := by
    rintro k rfl hk
    rcases toNat_of_mem_utf8EncodeChar hb with h | h <;> omega
  have hc : ∀ d : Char, c.toNat = d.toNat → isNarrowBlank d → False := by
    intro d hd hnarrow
    rw [Char.toNat_inj.mp hd, hnarrow] at h
    cases h
  simp only [isBlankByte, Bool.not_eq_false, Bool.or_eq_true, decide_eq_true_eq] at hblank
  rcases hblank with (((hb | hb) | hb) | hb) | hb
  · exact hc '\t' (hcode _ hb (by decide)) rfl
  · exact hc '\n' (hcode _ hb (by decide)) rfl
  · exact hc '\x0C' (hcode _ hb (by decide)) rfl
  · exact hc '\r' (hcode _ hb (by decide)) rfl
  · exact hc ' ' (hcode _ hb (by decide)) rfl

/-! ## Stripping the bytes of a text -/

theorem dropWhile_encodeChars (cs : List Char) :
    (encodeChars cs).dropWhile isBlankByte = encodeChars (cs.dropWhile isNarrowBlank) := by
  induction cs with
  | nil => rfl
  | cons c rest ih =>
    rw [encodeChars_cons, List.dropWhile_cons]
    split
    next hc =>
      obtain ⟨b, hbytes, hb⟩ := utf8EncodeChar_of_isNarrowBlank hc
      rw [hbytes, List.cons_append, List.dropWhile_cons, if_pos hb, List.nil_append, ih]
    next hc =>
      obtain ⟨b, bs, hbytes⟩ := List.exists_cons_of_ne_nil (String.utf8EncodeChar_ne_nil (c := c))
      have hb := isBlankByte_of_mem (Bool.not_eq_true _ ▸ hc) (hbytes ▸ List.mem_cons_self)
      rw [encodeChars_cons, hbytes, List.cons_append, List.dropWhile_cons, if_neg (by simp [hb])]

theorem rdropWhile_encodeChars (cs : List Char) :
    (encodeChars cs).rdropWhile isBlankByte = encodeChars (cs.rdropWhile isNarrowBlank) := by
  induction cs using List.reverseRecOn with
  | nil => rfl
  | append_singleton cs c ih =>
    have hone : encodeChars [c] = String.utf8EncodeChar c := List.append_nil _
    rw [List.rdropWhile_concat, encodeChars_append, hone]
    split
    next hc =>
      obtain ⟨b, hbytes, hb⟩ := utf8EncodeChar_of_isNarrowBlank hc
      rw [hbytes, List.rdropWhile_concat_pos _ _ _ hb, ih]
    next hc =>
      obtain ⟨bs, b, hbytes⟩ :=
        (List.eq_nil_or_concat' (String.utf8EncodeChar c)).resolve_left String.utf8EncodeChar_ne_nil
      have hb := isBlankByte_of_mem (Bool.not_eq_true _ ▸ hc) (b := b) (by simp [hbytes])
      rw [encodeChars_append, hone, hbytes, ← List.append_assoc,
        List.rdropWhile_concat_neg _ _ _ (by simp [hb])]

/-- Of the bytes of a text the strip takes the bytes of characters. -/
theorem strip_encodeChars (cs : List Char) :
    strip isBlankByte (encodeChars cs) = encodeChars (strip isNarrowBlank cs) := by
  rw [strip_eq_rdropWhile, dropWhile_encodeChars, rdropWhile_encodeChars, ← strip_eq_rdropWhile]

/-- A text whose bytes were stripped decodes, and trimmed it is the whole text trimmed. -/
theorem decode_strip_encode (s : String) :
    ∃ t, decode (strip isBlankByte (encode s)) = .ok t ∧ trim t = trim s := by
  refine ⟨String.ofList (strip isNarrowBlank s.toList), ?_, ?_⟩
  · rw [encode, strip_encodeChars]
    simpa [encode] using decode_encode (String.ofList (strip isNarrowBlank s.toList))
  · rw [trim, String.toList_ofList, strip_strip_of_imp isBlank_of_isNarrowBlank, ← trim]

end BenchTables.Text
