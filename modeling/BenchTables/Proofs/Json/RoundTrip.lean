import BenchTables.Proofs.Json.Number
import BenchTables.Proofs.SideBySide

/-!
# Printed values read back

A value whose doubles are finite is read back from its text with and without white space
(`decode_compact`, `decode_pretty`). Both texts are cut into the same tokens, and from the tokens
the value is read (`IsSpelt`); for lists this is said once, for whatever their parts are.
-/

namespace BenchTables.Json

open Decimal (digits digitsValue isDigit natText)

/-- All doubles in a value are finite. -/
inductive Value.IsFinite : Value → Prop
  | null : IsFinite .null
  | bool (b : Bool) : IsFinite (.bool b)
  | integer (n : ℕ) : IsFinite (.integer n)
  | number {x : Float} (h : x.isFinite) : IsFinite (.number x)
  | text (s : String) : IsFinite (.text s)
  | array {items : List Value} (h : ∀ v ∈ items, IsFinite v) : IsFinite (.array items)
  | object {members : List (String × Value)} (h : ∀ m ∈ members, IsFinite m.2) :
      IsFinite (.object members)

/-- What follows a word ends it. -/
def Breaks (rest : List Char) : Prop :=
  ∀ c ∈ rest.head?, isWordChar c = false

/-- Between other tokens a text is cut into these, whatever follows it. -/
def Cuts (s : String) (tokens : List Token) : Prop :=
  ∀ rest, tokensFrom .between (s.toList ++ rest) = (tokensFrom .between rest).map (tokens ++ ·)

/-- The same of a text that may end in a word, where what follows ends the word. -/
def CutsTo (s : String) (tokens : List Token) : Prop :=
  ∀ rest, Breaks rest →
    tokensFrom .between (s.toList ++ rest) = (tokensFrom .between rest).map (tokens ++ ·)

/-- A part is read from tokens, whatever follows them. -/
def ReadsAs {α : Type} (readPart : List Token → Option (α × List Token)) (a : α)
    (tokens : List Token) : Prop :=
  ∀ rest, readPart (tokens ++ rest) = some (a, rest)

variable {s t : String} {cs rest : List Char} {ts us : List Token}

/-! ## Texts side by side -/

theorem Cuts.cutsTo (h : Cuts s ts) : CutsTo s ts :=
  fun rest _ => h rest

theorem map_append_append (tokens : Option (List Token)) :
    (tokens.map (us ++ ·)).map (ts ++ ·) = tokens.map (ts ++ us ++ ·) := by
  rw [Option.map_map]
  congr 1
  funext others
  exact (List.append_assoc ts us others).symm

theorem map_nil_append (tokens : Option (List Token)) : tokens.map ([] ++ ·) = tokens := by
  cases tokens <;> rfl

theorem Cuts.append (hs : Cuts s ts) (ht : CutsTo t us) : CutsTo (s ++ t) (ts ++ us) := by
  intro rest hrest
  rw [String.toList_append, List.append_assoc, hs, ht rest hrest, map_append_append]

theorem breaks_cons {c : Char} (h : isWordChar c = false) (rest : List Char) :
    Breaks (c :: rest) := by
  rintro d ⟨⟩
  exact h

theorem breaks_append (h : Breaks cs) (hrest : Breaks rest) : Breaks (cs ++ rest) := by
  cases cs with
  | nil => exact hrest
  | cons c others => exact h

theorem CutsTo.append (hs : CutsTo s ts) (ht : CutsTo t us) (hbreaks : Breaks t.toList) :
    CutsTo (s ++ t) (ts ++ us) := by
  intro rest hrest
  rw [String.toList_append, List.append_assoc, hs _ (breaks_append hbreaks hrest), ht rest hrest,
    map_append_append]

theorem cuts_openArray : Cuts "[" [.openArray] := fun _ => rfl

theorem cuts_closeArray : Cuts "]" [.closeArray] := fun _ => rfl

theorem cuts_openObject : Cuts "\x7b" [.openObject] := fun _ => rfl

theorem cuts_closeObject : Cuts "\x7d" [.closeObject] := fun _ => rfl

theorem cuts_emptyArray : Cuts "[]" [.openArray, .closeArray] :=
  fun _ => map_append_append _

theorem cuts_emptyObject : Cuts "\x7b\x7d" [.openObject, .closeObject] :=
  fun _ => map_append_append _

theorem cuts_comma : Cuts "," [.comma] := fun _ => rfl

theorem cuts_colon : Cuts ":" [.colon] := fun _ => rfl

theorem cuts_spaces (h : ∀ c ∈ s.toList, isSpace c) : Cuts s [] := by
  intro rest
  generalize s.toList = cs at h
  induction cs with
  | nil => rw [List.nil_append, map_nil_append]
  | cons c others ih =>
    have hothers := ih fun d hd => h d (List.mem_cons_of_mem _ hd)
    rw [List.cons_append, tokensFrom, Scan.step, Scan.start, if_pos (h c List.mem_cons_self)]
    dsimp only [Option.bind_some]
    rw [hothers, map_nil_append]

theorem isSpace_newLine (level : ℕ) : ∀ c ∈ (newLine level).toList, isSpace c := by
  intro c hc
  unfold newLine at hc
  rw [String.toList_append] at hc
  rcases List.mem_append.mp hc with hc | hc
  · rw [List.mem_singleton.mp hc]
    decide
  · rw [String.toList_ofList] at hc
    rw [List.eq_of_mem_replicate hc]
    decide

theorem breaks_newLine (level : ℕ) (s : String) : Breaks (newLine level ++ s).toList := by
  unfold newLine
  rw [String.toList_append, String.toList_append]
  exact breaks_cons rfl _

/-! ## Words -/

/-- In a word the characters of words are taken over, up to where it ends. -/
theorem tokensFrom_word (read : List Char) (hcs : ∀ c ∈ cs, isWordChar c) (hrest : Breaks rest) :
    tokensFrom (.word read) (cs ++ rest) =
      (tokensFrom .between rest).map ([.word (read ++ cs)] ++ ·) := by
  induction cs generalizing read with
  | nil =>
    rw [List.nil_append, List.append_nil]
    cases rest with
    | nil => rfl
    | cons c others =>
      -- The word is given with what the character behind it begins.
      have hc : isWordChar c = false := hrest c rfl
      rw [tokensFrom, tokensFrom, Scan.step, Scan.step, hc, if_neg Bool.false_ne_true]
      cases hstart : Scan.start c with
      | none => rfl
      | some begun =>
        obtain ⟨tokens, next⟩ := begun
        dsimp only [Option.map_some, Option.bind_some]
        rw [map_append_append]
        rfl
  | cons c others ih =>
    have hc := hcs c List.mem_cons_self
    rw [List.cons_append, tokensFrom, Scan.step, if_pos hc]
    dsimp only [Option.bind_some]
    rw [ih _ fun d hd => hcs d (List.mem_cons_of_mem _ hd), map_append_append, List.append_assoc]
    rfl

theorem not_isSpace_of_isWordChar {c : Char} (h : isWordChar c) : isSpace c = false ∧ c ≠ '"' := by
  constructor
  · rw [isSpace, decide_eq_false_iff_not]
    rintro (rfl | rfl | rfl | rfl) <;> exact absurd h (by decide)
  · rintro rfl
    exact absurd h (by decide)

theorem cutsTo_word (hword : IsWord s.toList) : CutsTo s [.word s.toList] := by
  intro rest hrest
  obtain ⟨c, others, hs⟩ := List.exists_cons_of_ne_nil hword.ne_nil
  rw [hs] at hword ⊢
  have hc := hword.chars c List.mem_cons_self
  obtain ⟨hspace, hquote⟩ := not_isSpace_of_isWordChar hc
  rw [List.cons_append, tokensFrom, Scan.step, Scan.start, hspace, if_neg Bool.false_ne_true,
    if_neg hquote, if_pos hc]
  dsimp only [Option.bind_some]
  have hothers : ∀ d ∈ others, isWordChar d :=
    fun d hd => hword.chars d (List.mem_cons_of_mem _ hd)
  rw [tokensFrom_word [c] hothers hrest, map_nil_append]
  rfl

theorem wordValue?_digits (n : ℕ) : wordValue? (digits n) = some (.integer n) := by
  have hinteger := Decimal.isInteger_digits n
  have hall : (digits n).all isDigit := List.all_eq_true.mpr hinteger.digits
  obtain ⟨c, others, hcs⟩ := List.exists_cons_of_ne_nil hinteger.ne_nil
  have hc : isDigit c := hinteger.digits c (hcs ▸ List.mem_cons_self)
  -- Names begin with a letter.
  have hname : ∀ letter rest, isDigit letter = false → digits n ≠ letter :: rest := by
    rintro letter rest hletter heq
    rw [hcs] at heq
    rw [← (List.cons.inj heq).1, hc] at hletter
    cases hletter
  rw [wordValue?, if_neg (hname _ _ (by decide)), if_neg (hname _ _ (by decide)),
    if_neg (hname _ _ (by decide)), if_pos hall, if_pos (isWhole_of_isInteger hinteger),
    Decimal.digitsValue_digits]

theorem isWord_natText (n : ℕ) : IsWord (natText n).toList := by
  rw [Decimal.natText_toList]
  refine ⟨Decimal.digits_ne_nil n, fun c hc => ?_⟩
  exact isWordChar_of_isDigit (Decimal.isDigit_of_mem_digits hc)

/-! ## Texts between quotes -/

theorem digitValue?_hexDigit : ∀ d < 16, Decimal.digitValue? 16 (hexDigit d) = some d := by
  decide

theorem tokensFrom_of_step {state next : Scan} {c : Char}
    (h : state.step c = some ([], next)) :
    tokensFrom state (c :: rest) = tokensFrom next rest := by
  rw [tokensFrom, h]
  exact map_nil_append _

theorem step_code {read : List Char} {digits value d : ℕ} {c : Char}
    (h : Decimal.digitValue? 16 c = some d) (hdigits : digits < 3) :
    (Scan.code read digits value).step c = some ([], .code read (digits + 1) (16 * value + d)) := by
  rw [Scan.step, h]
  exact if_pos hdigits

/-- A control character is told by its number, in four hexadecimal digits. -/
theorem tokensFrom_control (read : List Char) {c : Char} (h : c.toNat < 32) (rest : List Char) :
    tokensFrom (.text read)
        (['\\', 'u', '0', '0', hexDigit (c.toNat / 16), hexDigit (c.toNat % 16)] ++ rest) =
      tokensFrom (.text (read ++ [c])) rest := by
  have hbackslash : (Scan.text read).step '\\' = some ([], .escaped read) := rfl
  have hletter : (Scan.escaped read).step 'u' = some ([], .code read 0 0) := rfl
  have hzero : Decimal.digitValue? 16 '0' = some 0 := by decide
  have hhigh := digitValue?_hexDigit (c.toNat / 16) (by omega)
  have hlow := digitValue?_hexDigit (c.toNat % 16) (Nat.mod_lt _ (by decide))
  have hlast : (Scan.code read 3 (16 * 0 + c.toNat / 16)).step (hexDigit (c.toNat % 16)) =
      some ([], .text (read ++ [c])) := by
    have hvalue : 16 * (16 * 0 + c.toNat / 16) + c.toNat % 16 = c.toNat := by omega
    have hvalid : c.toNat.isValidChar := c.valid
    rw [Scan.step, hlow]
    dsimp only [Option.bind_some]
    rw [hvalue, if_neg (lt_irrefl 3), if_pos hvalid, Char.ofNat_toNat]
  simp only [List.cons_append, List.nil_append]
  rw [tokensFrom_of_step hbackslash, tokensFrom_of_step hletter,
    tokensFrom_of_step (step_code hzero (by decide)),
    tokensFrom_of_step (step_code hzero (by decide)),
    tokensFrom_of_step (step_code hhigh (by decide)), tokensFrom_of_step hlast]

/-- What a character is written as is read as the character. -/
theorem tokensFrom_escapeChar (read : List Char) (c : Char) (rest : List Char) :
    tokensFrom (.text read) (escapeChar c ++ rest) = tokensFrom (.text (read ++ [c])) rest := by
  have hescape : ∀ letter, unescape? letter = some c → letter ≠ 'u' →
      tokensFrom (.text read) (['\\', letter] ++ rest) = tokensFrom (.text (read ++ [c])) rest := by
    intro letter hletter hu
    have hbackslash : (Scan.text read).step '\\' = some ([], .escaped read) := rfl
    have hstep : (Scan.escaped read).step letter = some ([], .text (read ++ [c])) := by
      rw [Scan.step, if_neg hu, hletter]
      rfl
    rw [List.cons_append, List.cons_append, List.nil_append, tokensFrom_of_step hbackslash,
      tokensFrom_of_step hstep]
  unfold escapeChar
  split
  next h => subst h; exact hescape _ rfl (by decide)
  split
  next h => subst h; exact hescape _ rfl (by decide)
  split
  next h => subst h; exact hescape _ rfl (by decide)
  split
  next h => subst h; exact hescape _ rfl (by decide)
  split
  next h => subst h; exact hescape _ rfl (by decide)
  split
  next h => exact hescape 'b' (by rw [← Char.ofNat_toNat c, h]; rfl) (by decide)
  split
  next h => exact hescape 'f' (by rw [← Char.ofNat_toNat c, h]; rfl) (by decide)
  split
  next h => exact tokensFrom_control read h rest
  next hquote hbackslash _ _ _ _ _ hcontrol =>
    have hstep : (Scan.text read).step c = some ([], .text (read ++ [c])) := by
      rw [Scan.step, if_neg hquote, if_neg hbackslash, if_neg hcontrol]
    exact tokensFrom_of_step hstep

theorem cuts_quoted (s : String) : Cuts (quoted s) [.text s] := by
  intro rest
  have hopen : Scan.between.step '"' = some ([], .text []) := rfl
  have hchars : ∀ (cs read : List Char),
      tokensFrom (.text read) (cs.flatMap escapeChar ++ '"' :: rest) =
        (tokensFrom .between rest).map ([.text (String.ofList (read ++ cs))] ++ ·) := by
    intro cs
    induction cs with
    | nil =>
      intro read
      rw [List.append_nil]
      rfl
    | cons c others ih =>
      intro read
      rw [List.flatMap_cons, List.append_assoc, tokensFrom_escapeChar, ih, List.append_assoc]
      rfl
  unfold quoted
  rw [String.toList_ofList, List.cons_append, List.cons_append, List.append_assoc,
    tokensFrom_of_step hopen]
  exact (hchars s.toList []).trans (by rw [List.nil_append, String.ofList_toList])

/-! ## Lists -/

/-- The tokens of parts with commas between them. -/
def listed (parts : List (List Token)) : List Token :=
  [Token.comma].intercalate parts

theorem listed_singleton (part : List Token) : listed [part] = part :=
  List.intercalate_singleton

theorem listed_cons_cons (part next : List Token) (parts : List (List Token)) :
    listed (part :: next :: parts) = part ++ .comma :: listed (next :: parts) := by
  rw [listed, List.intercalate_cons_cons, List.append_assoc]
  rfl

theorem exists_listed_cons (token : Token) (others : List Token) (parts : List (List Token)) :
    ∃ rest, listed ((token :: others) :: parts) = token :: rest := by
  cases parts with
  | nil => exact ⟨others, listed_singleton _⟩
  | cons next parts => exact ⟨_, listed_cons_cons _ _ _⟩

/-- Parts are cut one after the other, with white space behind the commas or not. -/
theorem cutsTo_intercalate {gap : String} (hgap : ∀ c ∈ gap.toList, isSpace c)
    {texts : List String} {parts : List (List Token)} (h : List.Forall₂ CutsTo texts parts) :
    CutsTo (String.intercalate ("," ++ gap) texts) (listed parts) := by
  induction h with
  | nil =>
    intro rest _
    exact (map_nil_append _).symm
  | @cons text part texts parts hfirst hothers ih =>
    cases hothers with
    | nil =>
      rw [String.intercalate_singleton, listed_singleton]
      exact hfirst
    | cons hsecond hrest =>
      rw [String.intercalate_cons_cons, listed_cons_cons, String.append_assoc, String.append_assoc]
      apply hfirst.append
      · exact cuts_comma.append ((cuts_spaces hgap).append ih)
      · rw [String.toList_append]
        exact breaks_cons rfl _

section Enclosed

variable {first last : String} {openMark closeMark : Token} {texts : List String}
  {parts : List (List Token)}

/-- A list without white space is its parts between two marks. -/
theorem cutsTo_compact_list (hopen : Cuts first [openMark]) (hclose : Cuts last [closeMark])
    (hbreaks : Breaks last.toList) (h : List.Forall₂ CutsTo texts parts) :
    CutsTo (first ++ String.intercalate ("," ++ "") texts ++ last)
      (openMark :: (listed parts ++ [closeMark])) := by
  rw [String.append_assoc]
  have hgap : ∀ c ∈ "".toList, isSpace c := nofun
  exact hopen.append ((cutsTo_intercalate hgap h).append hclose.cutsTo hbreaks)

/-- A list on several lines is its parts between two marks. -/
theorem cutsTo_pretty_list (hopen : Cuts first [openMark]) (hclose : Cuts last [closeMark])
    (level : ℕ) (h : List.Forall₂ CutsTo texts parts) :
    CutsTo (first ++ (newLine (level + 1) ++
        String.intercalate ("," ++ newLine (level + 1)) texts) ++ newLine level ++ last)
      (openMark :: (listed parts ++ [closeMark])) := by
  have hinner := (cuts_spaces (isSpace_newLine (level + 1))).append
    (cutsTo_intercalate (isSpace_newLine (level + 1)) h)
  have hend := (cuts_spaces (isSpace_newLine level)).append hclose.cutsTo
  rw [String.append_assoc, String.append_assoc]
  exact hopen.append (hinner.append hend (breaks_newLine level last))

end Enclosed

theorem readParts_listed {α : Type} {readPart : List Token → Option (α × List Token)}
    {close : Token} (hclose : close ≠ .comma) {items : List α} {parts : List (List Token)}
    (h : List.Forall₂ (ReadsAs readPart) items parts) (hne : items ≠ []) {fuel : ℕ}
    (hfuel : items.length ≤ fuel) (rest : List Token) :
    readParts readPart close fuel (listed parts ++ close :: rest) = some (items, rest) := by
  induction h generalizing fuel with
  | nil => exact absurd rfl hne
  | @cons a part items parts hfirst hothers ih =>
    obtain ⟨fuel, rfl⟩ := Nat.exists_eq_succ_of_ne_zero (Nat.ne_zero_of_lt hfuel)
    rw [Nat.succ_eq_add_one, readParts]
    cases hothers with
    | nil =>
      rw [listed_singleton, hfirst]
      exact if_pos rfl
    | cons hsecond hrest =>
      have hlater := ih (List.cons_ne_nil _ _) (Nat.le_of_succ_le_succ hfuel)
      rw [listed_cons_cons, List.append_assoc, List.cons_append, hfirst]
      dsimp only [Option.bind_some]
      rw [if_neg hclose.symm, if_pos rfl, hlater]
      rfl

theorem length_le_listed {part : List Token} {parts : List (List Token)} (h : part ∈ parts) :
    part.length ≤ (listed parts).length := by
  induction parts with
  | nil => cases h
  | cons first others ih =>
    cases others with
    | nil =>
      rw [List.mem_singleton.mp h, listed_singleton]
    | cons next rest =>
      rw [listed_cons_cons, List.length_append, List.length_cons]
      rcases List.mem_cons.mp h with rfl | h
      · exact Nat.le_add_right _ _
      · exact (ih h).trans (by omega)

theorem length_parts_le {parts : List (List Token)} (h : ∀ part ∈ parts, part ≠ []) :
    parts.length ≤ (listed parts).length := by
  induction parts with
  | nil => exact Nat.zero_le _
  | cons first others ih =>
    have hfirst := List.length_pos_iff.mpr (h first List.mem_cons_self)
    cases others with
    | nil =>
      rw [listed_singleton]
      exact hfirst
    | cons next rest =>
      have hothers := ih fun part hpart => h part (List.mem_cons_of_mem _ hpart)
      rw [listed_cons_cons]
      simp only [List.length_append, List.length_cons] at hothers ⊢
      omega

/-- Where each part is read from its tokens, and none begins with the token that closes the list,
the list is read from its parts, as there are enough tokens. -/
theorem readParts_enclosed {α : Type} {spells : α → List Token → Prop} {close : Token}
    (hclose : close ≠ .comma) {readPart : ℕ → List Token → Option (α × List Token)}
    (hreads : ∀ a tokens fuel, spells a tokens → tokens.length ≤ fuel →
      ReadsAs (readPart fuel) a tokens)
    (hhead : ∀ a tokens, spells a tokens →
      ∃ token others, tokens = token :: others ∧ token ≠ close)
    {items : List α} {parts : List (List Token)} (h : List.Forall₂ spells items parts)
    (hne : items ≠ []) {fuel : ℕ} (hfuel : (listed parts).length ≤ fuel) (rest : List Token) :
    (listed parts ++ close :: rest).head? ≠ some close ∧
      readParts (readPart fuel) close fuel (listed parts ++ close :: rest) =
        some (items, rest) := by
  have hread : List.Forall₂ (ReadsAs (readPart fuel)) items parts :=
    forall₂_of_mem_right h fun a tokens htokens ha =>
      hreads a tokens fuel ha ((length_le_listed htokens).trans hfuel)
  -- Every part takes a token at least, so there is fuel for all of them.
  have hlength : items.length ≤ (listed parts).length := by
    rw [h.length_eq]
    apply length_parts_le
    intro part hpart
    obtain ⟨a, -, ha⟩ := exists_left_of_forall₂ h hpart
    obtain ⟨token, others, rfl, -⟩ := hhead a part ha
    exact List.cons_ne_nil _ _
  refine ⟨?_, readParts_listed hclose hread hne (hlength.trans hfuel) rest⟩
  cases h with
  | nil => exact absurd rfl hne
  | cons ha _ =>
    obtain ⟨token, tokens, rfl, htoken⟩ := hhead _ _ ha
    obtain ⟨after, hafter⟩ := exists_listed_cons token tokens _
    rw [hafter]
    exact fun heq => htoken (Option.some.inj heq)

/-! ## The texts of lists -/

theorem compactItems_eq (items : List Value) :
    compactItems items = String.intercalate ("," ++ "") (items.map compact) := by
  induction items with
  | nil => rfl
  | cons v others ih =>
    cases others with
    | nil => rfl
    | cons w rest =>
      rw [compactItems, ih]
      simp only [List.map_cons, String.intercalate_cons_cons]
      rfl

theorem prettyItems_eq (level : ℕ) {items : List Value} (hne : items ≠ []) :
    prettyItems level items =
      newLine level ++ String.intercalate ("," ++ newLine level) (items.map (prettyAt level)) := by
  induction items with
  | nil => exact absurd rfl hne
  | cons v others ih =>
    cases others with
    | nil => rfl
    | cons w rest =>
      rw [prettyItems, ih (List.cons_ne_nil _ _)]
      simp only [List.map_cons, String.intercalate_cons_cons, String.append_assoc]

def compactMember (m : String × Value) : String :=
  quoted m.1 ++ ":" ++ compact m.2

def prettyMember (level : ℕ) (m : String × Value) : String :=
  quoted m.1 ++ ": " ++ prettyAt level m.2

theorem compactMembers_eq (members : List (String × Value)) :
    compactMembers members = String.intercalate ("," ++ "") (members.map compactMember) := by
  induction members with
  | nil => rfl
  | cons m others ih =>
    cases others with
    | nil => rfl
    | cons n rest =>
      rw [compactMembers, ih]
      simp only [List.map_cons, String.intercalate_cons_cons]
      rfl

theorem prettyMembers_eq (level : ℕ) {members : List (String × Value)} (hne : members ≠ []) :
    prettyMembers level members =
      newLine level ++
        String.intercalate ("," ++ newLine level) (members.map (prettyMember level)) := by
  induction members with
  | nil => exact absurd rfl hne
  | cons m others ih =>
    cases others with
    | nil =>
      rw [prettyMembers, List.map_singleton, String.intercalate_singleton, prettyMember]
      simp only [String.append_assoc]
    | cons n rest =>
      rw [prettyMembers, ih (List.cons_ne_nil _ _)]
      simp only [List.map_cons, String.intercalate_cons_cons, prettyMember, String.append_assoc]

/-! ## Values -/

/-- The tokens of a value: its texts are cut into them, and it is read from them. -/
structure IsSpelt (v : Value) (tokens : List Token) : Prop where
  compact : CutsTo (compact v) tokens
  pretty : ∀ level, CutsTo (prettyAt level v) tokens
  reads : ∀ fuel, tokens.length ≤ fuel → ReadsAs (readValue fuel) v tokens
  head : ∃ token others, tokens = token :: others ∧ token ≠ .closeArray

/-- A value of one word, which is written alike in both texts. -/
theorem isSpelt_word {v : Value} {s : String} (hcompact : compact v = s)
    (hpretty : ∀ level, prettyAt level v = s)
    (hword : IsWord s.toList) (hvalue : wordValue? s.toList = some v) :
    IsSpelt v [.word s.toList] where
  compact := by
    rw [hcompact]
    exact cutsTo_word hword
  pretty level := by
    rw [hpretty]
    exact cutsTo_word hword
  reads fuel hfuel rest := by
    obtain ⟨fuel, rfl⟩ := Nat.exists_eq_succ_of_ne_zero (Nat.ne_zero_of_lt hfuel)
    rw [List.singleton_append, readValue, hvalue]
    rfl
  head := ⟨_, _, rfl, nofun⟩

theorem isSpelt_text (s : String) : IsSpelt (.text s) [.text s] where
  compact := (cuts_quoted s).cutsTo
  pretty _ := (cuts_quoted s).cutsTo
  reads fuel hfuel rest := by
    obtain ⟨fuel, rfl⟩ := Nat.exists_eq_succ_of_ne_zero (Nat.ne_zero_of_lt hfuel)
    rfl
  head := ⟨_, _, rfl, nofun⟩

theorem readValue_openArray (fuel : ℕ) {tokens : List Token}
    (h : tokens.head? ≠ some .closeArray) :
    readValue (fuel + 1) (.openArray :: tokens) =
      (readParts (readValue fuel) .closeArray fuel tokens).map fun (items, rest) =>
        (.array items, rest) := by
  cases tokens with
  | nil => rfl
  | cons token others =>
    cases token with
    | closeArray => exact absurd rfl h
    | _ => rfl

theorem readValue_openObject (fuel : ℕ) {tokens : List Token}
    (h : tokens.head? ≠ some .closeObject) :
    readValue (fuel + 1) (.openObject :: tokens) =
      (readParts (readMember (readValue fuel)) .closeObject fuel tokens).map
        fun (members, rest) => (.object members, rest) := by
  cases tokens with
  | nil => rfl
  | cons token others =>
    cases token with
    | closeObject => exact absurd rfl h
    | _ => rfl

theorem isSpelt_array {items : List Value} {parts : List (List Token)}
    (h : List.Forall₂ IsSpelt items parts) :
    IsSpelt (.array items) (.openArray :: (listed parts ++ [.closeArray])) where
  compact := by
    rw [Json.compact, compactItems_eq]
    exact cutsTo_compact_list cuts_openArray cuts_closeArray (breaks_cons rfl _)
      (List.forall₂_map_left_iff.mpr (h.imp fun _ _ hv => hv.compact))
  pretty level := by
    cases items with
    | nil =>
      cases h
      rw [prettyAt]
      exact cuts_emptyArray.cutsTo
    | cons v others =>
      rw [prettyAt, prettyItems_eq _ (List.cons_ne_nil _ _)]
      exact cutsTo_pretty_list cuts_openArray cuts_closeArray level
        (List.forall₂_map_left_iff.mpr (h.imp fun _ _ hv => hv.pretty (level + 1)))
  reads fuel hfuel rest := by
    rw [List.length_cons, List.length_append] at hfuel
    obtain ⟨fuel, rfl⟩ := Nat.exists_eq_succ_of_ne_zero (Nat.ne_zero_of_lt hfuel)
    rw [List.cons_append, List.append_assoc, List.singleton_append, Nat.succ_eq_add_one]
    cases items with
    | nil =>
      cases h
      rfl
    | cons v others =>
      have hclose : Token.closeArray ≠ .comma := nofun
      obtain ⟨hhead, hread⟩ := readParts_enclosed hclose
        (fun _ _ fuel hv => hv.reads fuel) (fun _ _ hv => hv.head) h
        (List.cons_ne_nil _ _) (by omega : (listed parts).length ≤ fuel) rest
      rw [readValue_openArray fuel hhead, hread]
      rfl
  head := ⟨_, _, rfl, nofun⟩

/-- The tokens of a member are its key, a colon and those of its value. -/
def IsMemberSpelt (m : String × Value) (tokens : List Token) : Prop :=
  ∃ valueTokens, tokens = .text m.1 :: .colon :: valueTokens ∧ IsSpelt m.2 valueTokens

theorem IsMemberSpelt.compact {m : String × Value} (h : IsMemberSpelt m ts) :
    CutsTo (compactMember m) ts := by
  obtain ⟨tokens, rfl, hv⟩ := h
  unfold compactMember
  rw [String.append_assoc]
  exact (cuts_quoted m.1).append (cuts_colon.append hv.compact)

theorem IsMemberSpelt.pretty {m : String × Value} (h : IsMemberSpelt m ts) (level : ℕ) :
    CutsTo (prettyMember level m) ts := by
  obtain ⟨tokens, rfl, hv⟩ := h
  have hcolon : ": " = ":" ++ " " := rfl
  have hspace : ∀ c ∈ " ".toList, isSpace c := List.all_eq_true.mp rfl
  unfold prettyMember
  rw [hcolon, String.append_assoc, String.append_assoc]
  exact (cuts_quoted m.1).append
    (cuts_colon.append ((cuts_spaces hspace).append (hv.pretty level)))

theorem IsMemberSpelt.reads {m : String × Value} (h : IsMemberSpelt m ts) (fuel : ℕ)
    (hfuel : ts.length ≤ fuel) : ReadsAs (readMember (readValue fuel)) m ts := by
  intro rest
  obtain ⟨tokens, rfl, hv⟩ := h
  rw [List.length_cons, List.length_cons] at hfuel
  rw [List.cons_append, List.cons_append, readMember, hv.reads fuel (by omega) rest]
  rfl

theorem IsMemberSpelt.head {m : String × Value} (h : IsMemberSpelt m ts) :
    ∃ token others, ts = token :: others ∧ token ≠ .closeObject := by
  obtain ⟨tokens, rfl, -⟩ := h
  exact ⟨_, _, rfl, nofun⟩

theorem isSpelt_object {members : List (String × Value)} {parts : List (List Token)}
    (h : List.Forall₂ IsMemberSpelt members parts) :
    IsSpelt (.object members) (.openObject :: (listed parts ++ [.closeObject])) where
  compact := by
    rw [Json.compact, compactMembers_eq]
    exact cutsTo_compact_list cuts_openObject cuts_closeObject (breaks_cons rfl _)
      (List.forall₂_map_left_iff.mpr (h.imp fun _ _ hm => hm.compact))
  pretty level := by
    cases members with
    | nil =>
      cases h
      rw [prettyAt]
      exact cuts_emptyObject.cutsTo
    | cons m others =>
      rw [prettyAt, prettyMembers_eq _ (List.cons_ne_nil _ _)]
      exact cutsTo_pretty_list cuts_openObject cuts_closeObject level
        (List.forall₂_map_left_iff.mpr (h.imp fun _ _ hm => hm.pretty (level + 1)))
  reads fuel hfuel rest := by
    rw [List.length_cons, List.length_append] at hfuel
    obtain ⟨fuel, rfl⟩ := Nat.exists_eq_succ_of_ne_zero (Nat.ne_zero_of_lt hfuel)
    rw [List.cons_append, List.append_assoc, List.singleton_append, Nat.succ_eq_add_one]
    cases members with
    | nil =>
      cases h
      rfl
    | cons m others =>
      have hclose : Token.closeObject ≠ .comma := nofun
      obtain ⟨hhead, hread⟩ := readParts_enclosed hclose
        (fun _ _ fuel hm => hm.reads fuel) (fun _ _ hm => hm.head) h
        (List.cons_ne_nil _ _) (by omega : (listed parts).length ≤ fuel) rest
      rw [readValue_openObject fuel hhead, hread]
      rfl
  head := ⟨_, _, rfl, nofun⟩

/-- Every value of finite doubles has tokens. -/
theorem exists_isSpelt {v : Value} (h : v.IsFinite) : ∃ tokens, IsSpelt v tokens := by
  induction h with
  | null => exact ⟨_, isSpelt_word rfl (fun _ => rfl) (by decide) rfl⟩
  | bool b =>
    cases b with
    | false => exact ⟨_, isSpelt_word rfl (fun _ => rfl) (by decide) rfl⟩
    | true => exact ⟨_, isSpelt_word rfl (fun _ => rfl) (by decide) rfl⟩
  | integer n =>
    have hvalue : wordValue? (natText n).toList = some (.integer n) := by
      rw [Decimal.natText_toList]
      exact wordValue?_digits n
    exact ⟨_, isSpelt_word rfl (fun _ => rfl) (isWord_natText n) hvalue⟩
  | number hx =>
    exact ⟨_, isSpelt_word rfl (fun _ => rfl) (isWord_numberText hx) (wordValue?_numberText hx)⟩
  | text s => exact ⟨_, isSpelt_text s⟩
  | array _ ih =>
    obtain ⟨parts, hparts⟩ := exists_forall₂_iff.mpr ih
    exact ⟨_, isSpelt_array hparts⟩
  | @object members _ ih =>
    have hmembers : ∀ m ∈ members, ∃ tokens, IsMemberSpelt m tokens := by
      intro m hm
      obtain ⟨tokens, htokens⟩ := ih m hm
      exact ⟨.text m.1 :: .colon :: tokens, tokens, rfl, htokens⟩
    obtain ⟨parts, hparts⟩ := exists_forall₂_iff.mpr hmembers
    exact ⟨_, isSpelt_object hparts⟩

/-! ## Texts -/

theorem decode_of_cutsTo {v : Value} (h : IsSpelt v ts) (hs : CutsTo s ts) : decode s = some v := by
  have hcut : tokensFrom .between s.toList = some ts := by
    have hend := hs [] nofun
    rw [List.append_nil] at hend
    rw [hend]
    exact congrArg some (List.append_nil ts)
  have hread := h.reads ts.length le_rfl []
  rw [List.append_nil] at hread
  rw [decode, hcut]
  dsimp only [Option.bind_some]
  rw [hread]

/-- A value is read back from its text without white space. -/
theorem decode_compact {v : Value} (h : v.IsFinite) : decode (compact v) = some v := by
  obtain ⟨tokens, htokens⟩ := exists_isSpelt h
  exact decode_of_cutsTo htokens htokens.compact

/-- A value is read back from its text on several lines. -/
theorem decode_pretty {v : Value} (h : v.IsFinite) : decode (pretty v) = some v := by
  obtain ⟨tokens, htokens⟩ := exists_isSpelt h
  exact decode_of_cutsTo htokens (htokens.pretty 0)

example : decode "[1,]" = none := by rfl

end BenchTables.Json
