/-!
# Settings and their values

Settings are kept as an environment keeps them: as texts `name=value`. A name has the value that
stands after it and an equals sign in the first text that begins so; no value belongs to the empty
name. The laws say what a new setting does: its name gets the value unless it has one, and every
other name keeps what it has.
-/

namespace BenchTables

/-- Texts `name=value`, the first that begins with a name and an equals sign counting. -/
abbrev Settings := List String

namespace Settings

/-- The settings that give names their values. A name that holds an equals sign ends there, and
the rest of it begins the value. -/
def ofVariables (pairs : List (String × String)) : Settings :=
  pairs.map fun (name, value) => name ++ "=" ++ value

/-- The value that a setting gives a name: what stands after the name and an equals sign. -/
def valueIn? (name setting : String) : Option String :=
  ((name ++ "=").toList.isPrefixOf? setting.toList).map String.ofList

/-- The value of a name. A name that holds an equals sign fits a setting whose value goes on the
same way. -/
def value? (settings : Settings) (name : String) : Option String :=
  if name = "" then none else settings.findSome? (valueIn? name)

/-- The settings with one more, unless its name has a value already. -/
def addNew (settings : Settings) (name value : String) : Settings :=
  if (settings.value? name).isSome then settings else settings ++ [name ++ "=" ++ value]

theorem isPrefixOf?_append_self (start rest : List Char) :
    start.isPrefixOf? (start ++ rest) = some rest := by
  have step : ∀ (c : Char) (start text : List Char),
      (c :: start).isPrefixOf? (c :: text) = if c == c then start.isPrefixOf? text else none :=
    fun _ _ _ => rfl
  induction start with
  | nil => rfl
  | cons c others ih => simp [step, ih]

/-- A name and an equals sign begin a setting of another name only if an equals sign is part of
one of the names. -/
theorem isPrefixOf?_equals_of_ne (name key value : List Char) (hname : '=' ∉ name)
    (hkey : '=' ∉ key) (h : name ≠ key) :
    (name ++ ['=']).isPrefixOf? (key ++ '=' :: value) = none := by
  have step : ∀ (c d : Char) (start text : List Char),
      (c :: start).isPrefixOf? (d :: text) = if c == d then start.isPrefixOf? text else none :=
    fun _ _ _ _ => rfl
  induction name generalizing key with
  | nil =>
    cases key with
    | nil => exact absurd rfl h
    | cons d rest =>
      have hd : '=' ≠ d := fun hd => hkey (List.mem_cons.mpr (.inl hd))
      simp [step, hd]
  | cons c others ih =>
    have hc : c ≠ '=' := fun hc => hname (by simp [hc])
    cases key with
    | nil => simp [step, hc]
    | cons d rest =>
      by_cases hcd : c = d
      · have hothers : others ≠ rest := fun he => h (by rw [hcd, he])
        simp [step, hcd, ih rest (fun he => hname (by simp [he])) (fun he => hkey (by simp [he]))
          hothers]
      · simp [step, hcd]

theorem valueIn?_self (name value : String) :
    valueIn? name (name ++ "=" ++ value) = some value := by
  have := isPrefixOf?_append_self (name ++ "=").toList value.toList
  rw [← String.toList_append] at this
  rw [valueIn?, this, Option.map_some, String.ofList_toList]

theorem valueIn?_of_ne (name other value : String) (h : other ≠ name) (hname : '=' ∉ name.toList)
    (hother : '=' ∉ other.toList) : valueIn? other (name ++ "=" ++ value) = none := by
  have := isPrefixOf?_equals_of_ne other.toList name.toList value.toList hother hname
    fun he => h (String.toList_inj.mp he)
  simp [valueIn?, this]

theorem value?_addNew_self (settings : Settings) (name value : String) (h : name ≠ "") :
    (settings.addNew name value).value? name = some ((settings.value? name).getD value) := by
  cases hv : settings.value? name with
  | some old => simp [addNew, hv]
  | none =>
    have hfind : settings.findSome? (valueIn? name) = none := by simpa [value?, h] using hv
    simp [addNew, value?, h, List.findSome?_append, hfind, valueIn?_self]

/-- A new setting leaves the values of all other names as they are. -/
theorem value?_addNew_of_ne (settings : Settings) (name other value : String) (h : other ≠ name)
    (hname : '=' ∉ name.toList) (hother : '=' ∉ other.toList) :
    (settings.addNew name value).value? other = settings.value? other := by
  unfold addNew
  split
  · rfl
  · simp [value?, List.findSome?_append, valueIn?_of_ne name other value h hname hother]

end Settings

end BenchTables
