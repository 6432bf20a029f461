/-!
# UTF-8

The bytes of a text and the text of a byte list. Decoding goes character by character and stops
at the first byte that begins none; `decode_encode` says that the bytes of a text decode to it.
-/

namespace BenchTables.Text

def encodeChars (cs : List Char) : List UInt8 :=
  cs.flatMap String.utf8EncodeChar

def encode (s : String) : List UInt8 :=
  encodeChars s.toList

/-- The byte order mark that a text may begin with. -/
def byteOrderMark : List UInt8 := [0xEF, 0xBB, 0xBF]

/-- The bytes after the byte order mark, if they begin with one. -/
def dropByteOrderMark (bytes : List UInt8) : List UInt8 :=
  if byteOrderMark.isPrefixOf bytes then bytes.drop byteOrderMark.length else bytes

/-- The character at the head of a byte list; none is longer than four bytes. -/
def headChar? (bytes : List UInt8) : Option Char :=
  (bytes.take 4).toByteArray.utf8DecodeChar? 0

/-- The characters of a byte list at most `fuel` characters long that starts at `offset`, or the
offset of the first byte that begins no character. -/
def decodeFrom (offset : Nat) : (fuel : Nat) → List UInt8 → Except Nat (List Char)
  | _, [] => .ok []
  | 0, _ :: _ => .error offset
  | fuel + 1, bytes@(_ :: _) =>
    match headChar? bytes with
    | none => .error offset
    | some c => (decodeFrom (offset + c.utf8Size) fuel (bytes.drop c.utf8Size)).map (c :: ·)

/-- The text of a byte list, or the offset of the first byte that begins no character. -/
def decode (bytes : List UInt8) : Except Nat String :=
  (decodeFrom 0 bytes.length bytes).map String.ofList

@[simp] theorem encodeChars_nil : encodeChars [] = [] := rfl

@[simp] theorem encodeChars_cons (c : Char) (cs : List Char) :
    encodeChars (c :: cs) = String.utf8EncodeChar c ++ encodeChars cs := rfl

theorem encodeChars_append (cs ds : List Char) :
    encodeChars (cs ++ ds) = encodeChars cs ++ encodeChars ds := by
  simp [encodeChars]

/-- The bytes of a character are read back whatever follows them. -/
theorem headChar?_utf8EncodeChar_append (c : Char) (rest : List UInt8) :
    headChar? (String.utf8EncodeChar c ++ rest) = some c := by
  have hsize : (String.utf8EncodeChar c).length ≤ 4 := by
    simpa using c.utf8Size_le_four
  rw [headChar?, List.take_append, List.take_of_length_le hsize, List.toByteArray_append]
  exact ByteArray.utf8DecodeChar?_utf8EncodeChar_append

theorem decodeFrom_encodeChars (cs : List Char) (offset fuel : Nat)
    (h : (encodeChars cs).length ≤ fuel) :
    decodeFrom offset fuel (encodeChars cs) = .ok cs := by
  induction cs generalizing offset fuel with
  | nil => cases fuel <;> rfl
  | cons c cs ih =>
    have hlen := String.length_utf8EncodeChar c
    have hpos := c.utf8Size_pos
    rw [encodeChars_cons] at h ⊢
    rw [List.length_append, hlen] at h
    have hhead := headChar?_utf8EncodeChar_append c (encodeChars cs)
    have hdrop : (String.utf8EncodeChar c ++ encodeChars cs).drop c.utf8Size = encodeChars cs := by
      rw [← hlen, List.drop_left]
    obtain ⟨b, bs, hb⟩ : ∃ b bs, String.utf8EncodeChar c ++ encodeChars cs = b :: bs := by
      cases hbytes : String.utf8EncodeChar c ++ encodeChars cs with
      | nil => simp at hbytes
      | cons b bs => exact ⟨b, bs, rfl⟩
    obtain ⟨fuel, rfl⟩ : ∃ n, fuel = n + 1 := ⟨fuel - 1, by omega⟩
    rw [hb] at hhead hdrop ⊢
    rw [decodeFrom, hhead]
    simp only [hdrop, ih (offset + c.utf8Size) fuel (by omega)]
    rfl

/-- The bytes of a text decode to it. -/
theorem decode_encode (s : String) : decode (encode s) = .ok s := by
  rw [decode, encode, decodeFrom_encodeChars _ _ _ (Nat.le_refl _)]
  simp [Except.map]

end BenchTables.Text
