/-!
# White space

The characters with the Unicode property White_Space, and the removal of such characters from
both ends of a text. `strip_eq_self` says that nothing is lost when the ends are not white space.
-/

namespace BenchTables.Text

/-- Whether a character has the Unicode property White_Space. -/
def isBlank (c : Char) : Bool :=
  let n := c.toNat
  (0x09 ≤ n && n ≤ 0x0D) || n = 0x20 || n = 0x85 || n = 0xA0 || n = 0x1680 ||
    (0x2000 ≤ n && n ≤ 0x200A) || n = 0x2028 || n = 0x2029 || n = 0x202F || n = 0x205F ||
    n = 0x3000

/-- Whether a byte is white space that ends or pads a line: tab, line feed, form feed, carriage
return or space. -/
def isBlankByte (b : UInt8) : Bool :=
  b = 0x09 || b = 0x0A || b = 0x0C || b = 0x0D || b = 0x20

/-- A list without the elements at both ends that satisfy a condition. -/
def strip {α : Type} (blank : α → Bool) (l : List α) : List α :=
  ((l.dropWhile blank).reverse.dropWhile blank).reverse

/-- A text without the white space at its ends. -/
def trim (s : String) : String :=
  String.ofList (strip isBlank s.toList)

@[simp] theorem strip_nil {α : Type} (blank : α → Bool) : strip blank [] = [] := rfl

/-- A list whose first and last elements do not satisfy the condition stays as it is. -/
theorem strip_eq_self {α : Type} (blank : α → Bool) (l : List α)
    (hfirst : ∀ x ∈ l.head?, blank x = false) (hlast : ∀ x ∈ l.getLast?, blank x = false) :
    strip blank l = l := by
  have keep : ∀ m : List α, (∀ x ∈ m.head?, blank x = false) → m.dropWhile blank = m := by
    intro m hm
    cases m with
    | nil => rfl
    | cons x rest => simp [List.dropWhile, hm x (by simp)]
  rw [strip, keep l hfirst, keep l.reverse (by simpa using hlast), List.reverse_reverse]

end BenchTables.Text
