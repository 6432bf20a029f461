import BenchTables.Text.Utf8
import Mathlib.Data.String.Basic

/-!
# ASCII texts

A character below `0x80` is one byte, so texts of such characters have their bytes in the order of
their characters (`encode_lt_encode`).
-/

namespace BenchTables.Text

/-- The text has no other characters than those of one byte. -/
def IsAscii (s : String) : Prop := ∀ c ∈ s.toList, c.toNat < 0x80

theorem utf8EncodeChar_of_lt {c : Char} (h : c.toNat < 0x80) :
    String.utf8EncodeChar c = [UInt8.ofNat c.toNat] := by
  have hle : c.val.toNat ≤ 0x7f := Nat.le_of_lt_succ h
  unfold String.utf8EncodeChar
  dsimp only
  rw [if_pos hle]
  rfl

theorem ofNat_lt_ofNat {c d : Char} (hc : c.toNat < 0x80) (hd : d.toNat < 0x80) (h : c < d) :
    UInt8.ofNat c.toNat < UInt8.ofNat d.toNat := by
  have hcode : c.toNat < d.toNat := h
  rw [UInt8.lt_iff_toNat_lt, UInt8.toNat_ofNat', UInt8.toNat_ofNat']
  omega

theorem encodeChars_lt_encodeChars {cs ds : List Char} (hcs : ∀ c ∈ cs, c.toNat < 0x80)
    (hds : ∀ d ∈ ds, d.toNat < 0x80) (h : cs < ds) : encodeChars cs < encodeChars ds := by
  induction cs generalizing ds with
  | nil =>
    cases ds with
    | nil => exact absurd h (List.lt_irrefl _)
    | cons d ds =>
      rw [encodeChars_cons, utf8EncodeChar_of_lt (hds d List.mem_cons_self)]
      exact List.nil_lt_cons _ _
  | cons c cs ih =>
    cases ds with
    | nil => exact absurd h (List.not_lt_nil _)
    | cons d ds =>
      have hc := hcs c List.mem_cons_self
      have hd := hds d List.mem_cons_self
      rw [encodeChars_cons, encodeChars_cons, utf8EncodeChar_of_lt hc, utf8EncodeChar_of_lt hd,
        List.singleton_append, List.singleton_append, List.cons_lt_cons_iff]
      rcases List.cons_lt_cons_iff.mp h with hlt | ⟨rfl, hrest⟩
      · exact Or.inl (ofNat_lt_ofNat hc hd hlt)
      · exact Or.inr ⟨rfl, ih (fun x hx => hcs x (List.mem_cons_of_mem _ hx))
          (fun x hx => hds x (List.mem_cons_of_mem _ hx)) hrest⟩

theorem encode_lt_encode {s t : String} (hs : IsAscii s) (ht : IsAscii t) (h : s < t) :
    encode s < encode t :=
  encodeChars_lt_encodeChars hs ht (String.lt_iff_toList_lt.mp h)

end BenchTables.Text
