import BenchTables.Proofs.Text.Padding

/-!
# Which bytes are a text

Bytes decode to a text exactly when they are its bytes, and else the decoding stops where no
character begins.  White space that is stripped before does not matter to this: stripped bytes are
those of a text exactly when all of them are (`decode_strip_eq_ok_iff`).
-/

namespace BenchTables.Text

variable {bytes : List UInt8} {c : Char} {cs : List Char} {offset fuel : ℕ} {text : String}

/-- The bytes before an offset are those of a text, and no character begins at it. -/
def StopsAt (bytes : List UInt8) (offset : ℕ) : Prop :=
  ∃ (text : String) (rest : List UInt8), bytes = encode text ++ rest ∧
    offset = (encode text).length ∧ rest ≠ [] ∧ ∀ c, ¬String.utf8EncodeChar c <+: rest

/-! ## Characters -/

theorem headChar?_eq_some_iff : headChar? bytes = some c ↔ String.utf8EncodeChar c <+: bytes := by
  constructor
  · intro h
    obtain ⟨rest, hrest⟩ := ByteArray.exists_of_utf8DecodeChar?_eq_some h
    have hprefix : String.utf8EncodeChar c <+: bytes.take 4 := by
      refine ⟨rest.data.toList, ?_⟩
      have hlist := congrArg (·.data.toList) hrest
      simpa using hlist.symm
    exact hprefix.trans (List.take_prefix 4 bytes)
  · rintro ⟨rest, rfl⟩
    exact headChar?_utf8EncodeChar_append c rest

theorem headChar?_eq_none_iff :
    headChar? bytes = none ↔ ∀ c, ¬String.utf8EncodeChar c <+: bytes := by
  constructor
  · intro h c hc
    rw [headChar?_eq_some_iff.mpr hc] at h
    cases h
  · intro h
    cases hhead : headChar? bytes with
    | none => rfl
    | some c => exact absurd (headChar?_eq_some_iff.mp hhead) (h c)

/-! ## Texts -/

/-- Either all bytes are read as the characters that they encode, or the reading stops. -/
theorem decodeFrom_spec (offset : ℕ) (hfuel : bytes.length ≤ fuel) :
    (∃ cs, decodeFrom offset fuel bytes = .ok cs ∧ bytes = encodeChars cs) ∨
      ∃ cs rest, decodeFrom offset fuel bytes = .error (offset + (encodeChars cs).length) ∧
        bytes = encodeChars cs ++ rest ∧ rest ≠ [] ∧ ∀ c, ¬String.utf8EncodeChar c <+: rest := by
  induction fuel generalizing offset bytes with
  | zero =>
    obtain rfl : bytes = [] := List.eq_nil_of_length_eq_zero (by omega)
    exact Or.inl ⟨[], rfl, rfl⟩
  | succ fuel ih =>
    cases bytes with
    | nil => exact Or.inl ⟨[], rfl, rfl⟩
    | cons b bs =>
      rw [decodeFrom]
      cases hhead : headChar? (b :: bs) with
      | none =>
        exact Or.inr ⟨[], b :: bs, rfl, rfl, List.cons_ne_nil b bs, headChar?_eq_none_iff.mp hhead⟩
      | some c =>
        obtain ⟨rest, hrest⟩ := headChar?_eq_some_iff.mp hhead
        have hsize := String.length_utf8EncodeChar c
        have hdrop : (b :: bs).drop c.utf8Size = rest := by
          rw [← hrest, ← hsize, List.drop_left]
        have hshorter : rest.length ≤ fuel := by
          have hlength := congrArg List.length hrest
          rw [List.length_append, hsize] at hlength
          have hpos := c.utf8Size_pos
          omega
        dsimp only
        rw [hdrop]
        -- The rest is read from the offset after the character.
        rcases ih (offset + c.utf8Size) hshorter with
          ⟨cs, hok, hcs⟩ | ⟨cs, others, herror, hcs, hstop⟩
        · rw [hok]
          exact Or.inl ⟨c :: cs, rfl, by rw [encodeChars_cons, ← hcs, hrest]⟩
        · rw [herror]
          refine Or.inr ⟨c :: cs, others, ?_, ?_, hstop⟩
          · rw [encodeChars_cons, List.length_append, hsize, ← Nat.add_assoc]
            rfl
          · rw [encodeChars_cons, List.append_assoc, ← hcs, hrest]

theorem encode_ofList (cs : List Char) : encode (String.ofList cs) = encodeChars cs := by
  rw [encode, String.toList_ofList]

theorem decode_spec (bytes : List UInt8) :
    (∃ text, decode bytes = .ok text ∧ bytes = encode text) ∨
      ∃ offset, decode bytes = .error offset ∧ StopsAt bytes offset := by
  rcases decodeFrom_spec 0 (Nat.le_refl bytes.length) with
    ⟨cs, hok, hcs⟩ | ⟨cs, rest, herror, hcs, hstop⟩
  · left
    refine ⟨String.ofList cs, ?_, ?_⟩
    · rw [decode, hok]
      rfl
    · rw [encode_ofList, hcs]
  · right
    refine ⟨(encodeChars cs).length, ?_, String.ofList cs, rest, ?_, ?_, hstop⟩
    · rw [decode, herror, Nat.zero_add]
      rfl
    · rw [encode_ofList, hcs]
    · rw [encode_ofList]

theorem decode_eq_ok_iff : decode bytes = .ok text ↔ bytes = encode text := by
  constructor
  · intro h
    rcases decode_spec bytes with ⟨other, hother, hbytes⟩ | ⟨offset, herror, -⟩
    · rw [hother] at h
      cases h
      exact hbytes
    · rw [herror] at h
      cases h
  · rintro rfl
    exact decode_encode text

/-- Bytes are taken apart in one way into characters and bytes at which no character begins. -/
theorem encodeChars_append_inj {ds : List Char} {rest others : List UInt8}
    (h : encodeChars cs ++ rest = encodeChars ds ++ others)
    (hrest : ∀ c, ¬String.utf8EncodeChar c <+: rest)
    (hothers : ∀ c, ¬String.utf8EncodeChar c <+: others) : cs = ds ∧ rest = others := by
  induction cs generalizing ds with
  | nil =>
    cases ds with
    | nil => exact ⟨rfl, h⟩
    | cons d ds => exact absurd ⟨encodeChars ds ++ others, by simpa using h.symm⟩ (hrest d)
  | cons c cs ih =>
    cases ds with
    | nil => exact absurd ⟨encodeChars cs ++ rest, by simpa using h⟩ (hothers c)
    | cons d ds =>
      rw [encodeChars_cons, encodeChars_cons, List.append_assoc, List.append_assoc] at h
      have hhead := headChar?_utf8EncodeChar_append c (encodeChars cs ++ rest)
      rw [h, headChar?_utf8EncodeChar_append] at hhead
      obtain rfl : d = c := Option.some.inj hhead
      obtain ⟨rfl, hsame⟩ := ih (List.append_cancel_left h)
      exact ⟨rfl, hsame⟩

theorem decode_eq_error_iff : decode bytes = .error offset ↔ StopsAt bytes offset := by
  constructor
  · intro h
    rcases decode_spec bytes with ⟨text, hok, -⟩ | ⟨other, herror, hstop⟩
    · rw [hok] at h
      cases h
    · rw [herror] at h
      cases h
      exact hstop
  · rintro ⟨text, rest, hbytes, rfl, hne, hrest⟩
    rcases decode_spec bytes with ⟨other, -, hother⟩ | ⟨offset, herror, other, others, hother, rfl,
      -, hothers⟩
    · -- Nothing is left over after a text.
      have hempty : ∀ c, ¬String.utf8EncodeChar c <+: [] := fun c hc =>
        String.utf8EncodeChar_ne_nil (List.prefix_nil.mp hc)
      have hsame : encodeChars text.toList ++ rest = encodeChars other.toList ++ [] := by
        rw [List.append_nil]
        exact hbytes.symm.trans hother
      exact absurd (encodeChars_append_inj hsame hrest hempty).2 hne
    · obtain ⟨hsame, -⟩ := encodeChars_append_inj (hbytes.symm.trans hother) hrest hothers
      rw [herror, encode, encode, hsame]

/-! ## Stripped bytes -/

theorem exists_pads (blank : UInt8 → Bool) (bytes : List UInt8) :
    ∃ before after, bytes = before ++ strip blank bytes ++ after ∧
      (∀ b ∈ before, blank b) ∧ ∀ b ∈ after, blank b := by
  refine ⟨bytes.takeWhile blank, (bytes.dropWhile blank).rtakeWhile blank, ?_,
    fun b hb => List.mem_takeWhile_imp hb, fun b hb => List.mem_rtakeWhile_imp hb⟩
  rw [strip_eq_rdropWhile, List.append_assoc, List.rdropWhile_append_rtakeWhile,
    List.takeWhile_append_dropWhile]

theorem exists_chars_of_isBlankByte {pad : List UInt8} (h : ∀ b ∈ pad, isBlankByte b) :
    ∃ cs, pad = encodeChars cs ∧ ∀ c ∈ cs, isNarrowBlank c := by
  induction pad with
  | nil => exact ⟨[], rfl, List.forall_mem_nil _⟩
  | cons b rest ih =>
    obtain ⟨hb, hrest⟩ := List.forall_mem_cons.mp h
    obtain ⟨cs, rfl, hcs⟩ := ih hrest
    have hchar : ∃ c, [b] = String.utf8EncodeChar c ∧ isNarrowBlank c := by
      simp only [isBlankByte, Bool.or_eq_true, decide_eq_true_eq] at hb
      rcases hb with (((rfl | rfl) | rfl) | rfl) | rfl
      · exact ⟨'\t', rfl, rfl⟩
      · exact ⟨'\n', rfl, rfl⟩
      · exact ⟨'\x0C', rfl, rfl⟩
      · exact ⟨'\r', rfl, rfl⟩
      · exact ⟨' ', rfl, rfl⟩
    obtain ⟨c, hbyte, hc⟩ := hchar
    refine ⟨c :: cs, ?_, List.forall_mem_cons.mpr ⟨hc, hcs⟩⟩
    rw [encodeChars_cons, ← hbyte]
    rfl

/-- Stripped bytes decode exactly when all of them are those of a text, and then to that text but
for white space. -/
theorem decode_strip_eq_ok_iff :
    (∃ stripped, decode (strip isBlankByte bytes) = .ok stripped ∧ trim stripped = text) ↔
      ∃ whole, bytes = encode whole ∧ trim whole = text := by
  constructor
  · rintro ⟨stripped, hdecode, rfl⟩
    obtain ⟨before, after, hbytes, hbefore, hafter⟩ := exists_pads isBlankByte bytes
    obtain ⟨front, rfl, hfront⟩ := exists_chars_of_isBlankByte hbefore
    obtain ⟨back, rfl, hback⟩ := exists_chars_of_isBlankByte hafter
    rw [decode_eq_ok_iff] at hdecode
    refine ⟨String.ofList front ++ stripped ++ String.ofList back, ?_, ?_⟩
    · rw [hbytes, hdecode]
      simp [encode, encodeChars_append]
    · rw [trim_append_right, trim_append_left]
      · intro c hc
        rw [String.toList_ofList] at hc
        exact isBlank_of_isNarrowBlank c (hfront c hc)
      · intro c hc
        rw [String.toList_ofList] at hc
        exact isBlank_of_isNarrowBlank c (hback c hc)
  · rintro ⟨whole, rfl, rfl⟩
    exact decode_strip_encode whole

end BenchTables.Text
