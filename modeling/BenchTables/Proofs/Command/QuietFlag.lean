import BenchTables.Command.Arguments
import BenchTables.Proofs.Outcome
import Mathlib.Data.List.Basic

/-!
# The flag for silence

Where the flag for silence is put among arguments it is one more option, before the name of the
command (`readFront_insert`) or after it (`readAll_insert`), unless it is one more operand or stands
behind a request for help, where nothing is read.  An operand more is refused, for every command has
as many of them as it needs.  So arguments come to the same with the flag and without it unless one
of the two is refused (`parse_insert_flag`), and in front of all arguments the flag is refused only
where there is one before the command already (`parse_cons_flag`).
-/

namespace BenchTables

namespace Arguments

/-- The texts of the flag for silence. -/
def quietFlags : List String := ["--quiet", "-q"]

/-- What the flag is read as. -/
def quietOption : Argument := .option quietSpec.name none

variable {flag : String} {specs more : List OptionSpec} {given given' : List Argument}

theorem flag_ne_dashes (h : flag ∈ quietFlags) : flag ≠ "--" := by
  rintro rfl
  exact absurd h (by decide)

theorem eq_of_mem_quietFlags (h : flag ∈ quietFlags) : flag = "--quiet" ∨ flag = "-q" :=
  List.mem_pair.mp h

theorem looksLikeOption_flag (h : flag ∈ quietFlags) : looksLikeOption flag = true := by
  rcases eq_of_mem_quietFlags h with rfl | rfl <;> decide

theorem readOption?_flag (h : flag ∈ quietFlags) (more : List OptionSpec) :
    readOption? (sharedSpecs ++ more) flag = some (some ([quietOption], none)) := by
  rcases eq_of_mem_quietFlags h with rfl | rfl <;> rfl

theorem asksHelp_quietOption : ¬ asksHelp [quietOption] = true := by decide

theorem valuesOf_append (name : String) (front back : List Argument) :
    valuesOf name (front ++ back) = valuesOf name front ++ valuesOf name back :=
  List.filterMap_append

theorem has_append (name : String) (front back : List Argument) :
    has name (front ++ back) = (has name front || has name back) := by
  simp [has, valueOf?, valuesOf_append, List.head?_append]

theorem asksHelp_append (front back : List Argument) :
    asksHelp (front ++ back) = (asksHelp front || asksHelp back) :=
  has_append _ _ _

/-! ## Arguments with the flag among them -/

/-- Arguments as they are read without the flag and with it: it is one more option, or it is not
read, for help is asked for before it. -/
inductive Silenced : List Argument → List Argument → Prop
  | option (front back : List Argument) : Silenced (front ++ back) (front ++ quietOption :: back)
  | unread {given : List Argument} (h : asksHelp given = true) : Silenced given given

namespace Silenced

theorem append (h : Silenced given given') (found : List Argument) :
    Silenced (found ++ given) (found ++ given') := by
  cases h with
  | option front back =>
    rw [← List.append_assoc, ← List.append_assoc]
    exact .option (found ++ front) back
  | unread h =>
    apply unread
    rw [asksHelp_append, h, Bool.or_true]

theorem asksHelp_eq (h : Silenced given given') : asksHelp given' = asksHelp given := by
  cases h with
  | option front back =>
    rw [asksHelp_append, asksHelp_append]
    rfl
  | unread => rfl

theorem has_quiet (h : Silenced given given') (hhelp : asksHelp given = false) :
    has quietSpec.name given' = true := by
  cases h with
  | option front back =>
    rw [has_append]
    exact Bool.or_true _
  | unread h => exact absurd h (ne_true_of_eq_false hhelp)

end Silenced

/-- As before, or the flag is one more operand, which only happens after the name of a command. -/
inductive Inserted (flag : String) : List Argument → List Argument → Prop
  | silenced {given given' : List Argument} (h : Silenced given given') : Inserted flag given given'
  | operand (front back : List Argument) :
      Inserted flag (front ++ back) (front ++ .operand flag :: back)

namespace Inserted

theorem append (h : Inserted flag given given') (found : List Argument) :
    Inserted flag (found ++ given) (found ++ given') := by
  cases h with
  | silenced h => exact .silenced (h.append found)
  | operand front back =>
    rw [← List.append_assoc, ← List.append_assoc]
    exact .operand (found ++ front) back

theorem asksHelp_eq (h : Inserted flag given given') : asksHelp given' = asksHelp given := by
  cases h with
  | silenced h => exact h.asksHelp_eq
  | operand front back =>
    rw [asksHelp_append, asksHelp_append]
    rfl

end Inserted

/-! ## Before the command -/

theorem readFront_cons_flag (h : flag ∈ quietFlags) (arguments : List String) :
    readFront (flag :: arguments) =
      (readFront arguments).map fun (front, rest) => (quietOption :: front, rest) := by
  have hflag : readOption? sharedSpecs flag = some (some ([quietOption], none)) :=
    readOption?_flag h []
  rw [readFront, if_neg (flag_ne_dashes h), hflag]
  exact if_neg asksHelp_quietOption

theorem readFront_insert {before after : List String} {front' : List Argument} {rest' : List String}
    (h : flag ∈ quietFlags) (hread : readFront (before ++ flag :: after) = some (front', rest')) :
    ∃ front rest, readFront (before ++ after) = some (front, rest) ∧
      (Silenced front front' ∧ rest' = rest ∨
        ∃ name between, front' = front ∧ rest = name :: (between ++ after) ∧
          rest' = name :: (between ++ flag :: after)) := by
  -- Both readings take the same steps until they come to the flag, or end before it.
  induction before generalizing front' with
  | nil =>
    rw [List.nil_append, readFront_cons_flag h] at hread
    obtain ⟨⟨front, rest⟩, hplain, hpair⟩ := Option.map_eq_some_iff.mp hread
    cases hpair
    exact ⟨front, rest', hplain, .inl ⟨.option [] front, rfl⟩⟩
  | cons text others ih =>
    rw [List.cons_append, readFront] at hread
    rw [List.cons_append, readFront]
    by_cases hdashes : text = "--"
    · rw [if_pos hdashes] at hread
      cases hread
    rw [if_neg hdashes] at hread ⊢
    split at hread
    · cases hread
      exact ⟨[], text :: (others ++ after), rfl, .inr ⟨text, others, rfl, rfl, rfl⟩⟩
    next found _ =>
      dsimp only
      split at hread
      next hhelp =>
        cases hread
        rw [if_pos hhelp]
        exact ⟨_, [], rfl, .inl ⟨.unread hhelp, rfl⟩⟩
      next hhelp =>
        obtain ⟨⟨front'', rest''⟩, hflagged, hpair⟩ := Option.map_eq_some_iff.mp hread
        cases hpair
        obtain ⟨front, rest, hplain, hwhere⟩ := ih hflagged
        rw [if_neg hhelp, hplain]
        refine ⟨found ++ front, rest, rfl, hwhere.imp ?_ ?_⟩
        · rintro ⟨hsilenced, hrest⟩
          exact ⟨hsilenced.append found, hrest⟩
        · rintro ⟨name, between, rfl, hrest⟩
          exact ⟨name, between, rfl, hrest⟩
    · cases hread

/-! ## After the command -/

theorem length_operands_insert (front back : List Argument) (text : String) :
    (operands (front ++ .operand text :: back)).length =
      (operands (front ++ back)).length + 1 := by
  simp only [operands, List.filterMap_append, List.filterMap_cons, List.length_append,
    List.length_cons]
  omega

theorem readAll_insert {before after : List String} {waiting : Option String}
    (h : flag ∈ quietFlags)
    (hread : readAll (sharedSpecs ++ more) waiting (before ++ flag :: after) = some given') :
    ∃ given, readAll (sharedSpecs ++ more) waiting (before ++ after) = some given ∧
      Inserted flag given given' := by
  -- As before the command; an option that waits for its value takes the same one in both.
  induction before generalizing waiting given' with
  | nil =>
    rw [List.nil_append] at hread
    cases waiting with
    | some name =>
      rw [readAll, if_pos (looksLikeOption_flag h)] at hread
      cases hread
    | none =>
      rw [readAll, if_neg (flag_ne_dashes h), readOption?_flag h more] at hread
      dsimp only at hread
      rw [if_neg asksHelp_quietOption] at hread
      obtain ⟨given, hplain, rfl⟩ := Option.map_eq_some_iff.mp hread
      exact ⟨given, hplain, .silenced (.option [] given)⟩
  | cons text others ih =>
    -- What is read before goes in front of both.
    have hfront : ∀ {next : Option String} (found : List Argument),
        (readAll (sharedSpecs ++ more) next (others ++ flag :: after)).map (found ++ ·) =
            some given' →
          ∃ given, (readAll (sharedSpecs ++ more) next (others ++ after)).map (found ++ ·) =
            some given ∧ Inserted flag given given' := by
      intro next found hmap
      obtain ⟨rest', hflagged, rfl⟩ := Option.map_eq_some_iff.mp hmap
      obtain ⟨rest, hplain, hinserted⟩ := ih hflagged
      rw [hplain]
      exact ⟨found ++ rest, rfl, hinserted.append found⟩
    rw [List.cons_append] at hread ⊢
    cases waiting with
    | some name =>
      rw [readAll] at hread ⊢
      split at hread
      · cases hread
      next hvalue =>
        rw [if_neg hvalue]
        exact hfront [.option name (some text)] hread
    | none =>
      rw [readAll] at hread ⊢
      split at hread
      next hdashes =>
        -- After two dashes the flag is an operand like everything else.
        cases hread
        rw [if_pos hdashes, List.map_append, List.map_append, List.map_cons]
        exact ⟨_, rfl, .operand _ _⟩
      next hdashes =>
        rw [if_neg hdashes]
        split at hread
        · exact hfront [.operand text] hread
        · cases hread
        next found next _ =>
          split at hread
          next hhelp =>
            cases hread
            rw [if_pos hhelp]
            exact ⟨_, rfl, .silenced (.unread hhelp)⟩
          next hhelp =>
            rw [if_neg hhelp]
            exact hfront found hread

/-! ## The command -/

/-- A command has all of its operands. -/
theorem length_operands_of_commandOf? {settings : String → Option String} {name : String}
    {spec : CommandSpec} {command : Command} (hspec : specOf? name = some spec)
    (h : commandOf? settings name given = some command) :
    (operands given).length = spec.operands.length := by
  unfold commandOf? at h
  split at h
  next hoperands =>
    cases hspec
    rw [hoperands]
    rfl
  next hoperands =>
    cases hspec
    rw [hoperands]
    rfl
  next hoperands =>
    cases hspec
    rw [hoperands]
    rfl
  · cases h

/-- Whether a command is accepted does not depend on the settings, which only give labels. -/
theorem isSome_commandOf? (settings others : String → Option String) (name : String)
    (given : List Argument) :
    (commandOf? settings name given).isSome = (commandOf? others name given).isSome := by
  unfold commandOf?
  split
  · rfl
  next input stem _ => cases readPath? input <;> cases readPath? stem <;> rfl
  · rfl
  · rfl

theorem commandOf?_silenced (settings : String → Option String) (name : String)
    (h : Silenced given given') :
    commandOf? settings name given' = commandOf? settings name given := by
  cases h with
  | unread => rfl
  | option front back =>
    have hoperands : operands (front ++ quietOption :: back) = operands (front ++ back) := by
      simp [operands, quietOption]
    have hvalue : ∀ other, other ≠ quietSpec.name →
        valueOf? other (front ++ quietOption :: back) = valueOf? other (front ++ back) := by
      intro other hne
      simp [valueOf?, valuesOf, quietOption, Ne.symm hne]
    unfold commandOf?
    rw [hoperands]
    split
    · simp only [has, hvalue "single-client" (by decide)]
    · simp only [hvalue "noauth-macro" (by decide), hvalue "auth-macro" (by decide)]
    · simp only [hvalue "repetitions" (by decide), hvalue "output" (by decide)]
    · rfl

/-- How the arguments of a command come to something: help is asked for by the command of that name
or by an option, or there is a command. -/
theorem readCommand_cases {settings : String → Option String} {name : String}
    {arguments : List String} (h : readCommand settings name arguments ≠ .error .misuse) :
    (name = "help" ∧ ∃ topic, helpTopic? arguments = some topic ∧
      readCommand settings name arguments = .error (.help topic)) ∨
    (name ≠ "help" ∧ ∃ spec given, specOf? name = some spec ∧ given? spec arguments = some given ∧
      (asksHelp given = true → readCommand settings name arguments = .error (.help spec.topic)) ∧
      (asksHelp given = false → ∃ command, commandOf? settings name given = some command ∧
        readCommand settings name arguments = .ok ⟨has quietSpec.name given, command⟩)) := by
  unfold readCommand at h ⊢
  split at h
  next hname =>
    left
    rw [if_pos hname]
    cases htopic : helpTopic? arguments with
    | none =>
      rw [htopic] at h
      exact absurd rfl h
    | some topic => exact ⟨hname, topic, rfl, rfl⟩
  next hname =>
    right
    rw [if_neg hname]
    refine ⟨hname, ?_⟩
    split at h
    · exact absurd rfl h
    next spec hspec =>
      split at h
      · exact absurd rfl h
      next given hgiven =>
        refine ⟨spec, given, hspec, hgiven, ?_⟩
        split at h
        next hhelp =>
          exact ⟨fun _ => if_pos hhelp, fun hnone => absurd hhelp (ne_true_of_eq_false hnone)⟩
        next hhelp =>
          rw [if_neg hhelp]
          refine ⟨fun hasked => absurd hasked hhelp, fun _ => ?_⟩
          split at h
          · exact absurd rfl h
          next command hcommand => exact ⟨command, hcommand, rfl⟩

/-- What is read among the arguments after the name of a command. -/
theorem readAll_of_given? {spec : CommandSpec} {arguments : List String}
    (h : given? spec arguments = some given) :
    readAll (sharedSpecs ++ spec.options) none arguments = some given :=
  (Option.filter_eq_some_iff.mp h).1

/-- The command for help takes one name at most. -/
theorem helpTopic?_insert (h : flag ∈ quietFlags) (before after : List String) :
    helpTopic? (before ++ flag :: after) = none := by
  cases before with
  | nil =>
    cases after with
    | nil => rcases eq_of_mem_quietFlags h with rfl | rfl <;> rfl
    | cons => rfl
  | cons name rest => cases rest <;> rfl

end Arguments

namespace Invocation

open Arguments

variable {flag : String} {settings : String → Option String} {arguments before after : List String}

def silenced (invocation : Invocation) : Invocation :=
  { invocation with quiet := true }

theorem readCommand_insert_flag {name : String} (h : flag ∈ quietFlags)
    (hplain : readCommand settings name (before ++ after) ≠ .error .misuse)
    (hflagged : readCommand settings name (before ++ flag :: after) ≠ .error .misuse) :
    readCommand settings name (before ++ flag :: after) =
      (readCommand settings name (before ++ after)).map silenced := by
  rcases readCommand_cases hflagged with ⟨-, topic, htopic, -⟩ |
    ⟨hname, spec', given', hspec', hgiven', hhelped', hasks'⟩
  · rw [helpTopic?_insert h] at htopic
    cases htopic
  rcases readCommand_cases hplain with ⟨hhelp, -⟩ |
    ⟨-, spec, given, hspec, hgiven, hhelped, hasks⟩
  · exact absurd hhelp hname
  obtain rfl : spec' = spec := Option.some.inj (hspec'.symm.trans hspec)
  obtain ⟨read, hread, hinserted⟩ := readAll_insert h (readAll_of_given? hgiven')
  obtain rfl : read = given := Option.some.inj (hread.symm.trans (readAll_of_given? hgiven))
  have hhelp : asksHelp given' = asksHelp read := hinserted.asksHelp_eq
  cases hasked : asksHelp read with
  | true =>
    rw [hhelped hasked, hhelped' (hhelp.trans hasked)]
    rfl
  | false =>
    obtain ⟨command, hcommand, hend⟩ := hasks hasked
    obtain ⟨command', hcommand', hend'⟩ := hasks' (hhelp.trans hasked)
    cases hinserted with
    | silenced hsilenced =>
      rw [commandOf?_silenced settings name hsilenced] at hcommand'
      obtain rfl : command' = command := Option.some.inj (hcommand'.symm.trans hcommand)
      rw [hend, hend', hsilenced.has_quiet hasked]
      rfl
    | operand front back =>
      -- Both have all operands of the command, but one of them has an operand more.
      have hcount := length_operands_of_commandOf? hspec hcommand
      have hcount' := length_operands_of_commandOf? hspec hcommand'
      rw [length_operands_insert, hcount] at hcount'
      omega

theorem silencedBy_of_has {front : List Argument} (h : has quietSpec.name front = true)
    (invocation : Invocation) : invocation.silencedBy front = invocation.silenced := by
  rw [silencedBy, h, Bool.true_or, silenced]

theorem silencedBy_silenced (front : List Argument) (invocation : Invocation) :
    invocation.silenced.silencedBy front = invocation.silenced := by
  rw [silencedBy, silenced, Bool.or_true]

/-- How arguments come to something: they ask for help in front, or what follows comes to it. -/
theorem parse_cases (h : parse settings arguments ≠ .error .misuse) :
    ∃ front rest, readFront arguments = some (front, rest) ∧
      (asksHelp front = true → parse settings arguments = .error (.help .program)) ∧
      (asksHelp front = false → ∃ name others, rest = name :: others ∧
        readCommand settings name others ≠ .error .misuse ∧ parse settings arguments =
          (readCommand settings name others).map (·.silencedBy front)) := by
  unfold parse at h ⊢
  split at h
  · exact absurd rfl h
  next front rest hfront =>
    refine ⟨front, rest, hfront, ?_⟩
    split at h
    · exact absurd rfl h
    next hgiven =>
      rw [if_neg hgiven]
      split at h
      next hhelp =>
        exact ⟨fun _ => if_pos hhelp, fun hnone => absurd hhelp (ne_true_of_eq_false hnone)⟩
      next hhelp =>
        rw [if_neg hhelp]
        refine ⟨fun hasked => absurd hasked hhelp, fun _ => ?_⟩
        split at h
        · exact absurd rfl h
        next name others =>
          refine ⟨name, others, rfl, fun hmisuse => ?_, rfl⟩
          rw [hmisuse] at h
          exact h rfl

/-- Arguments that come to something without the flag and with it come to the same, and the flag
makes it quiet. -/
theorem parse_insert_flag_of_ne (h : flag ∈ quietFlags)
    (hplain : parse settings (before ++ after) ≠ .error .misuse)
    (hflagged : parse settings (before ++ flag :: after) ≠ .error .misuse) :
    parse settings (before ++ flag :: after) =
      (parse settings (before ++ after)).map silenced := by
  obtain ⟨front', rest', hfront', hhelped', hasks'⟩ := parse_cases hflagged
  obtain ⟨front, rest, hfront, hhelped, hasks⟩ := parse_cases hplain
  obtain ⟨read, others, hread, hinserted⟩ := readFront_insert h hfront'
  obtain ⟨rfl, rfl⟩ : front = read ∧ rest = others :=
    Prod.mk.inj (Option.some.inj (hfront.symm.trans hread))
  have hhelp : asksHelp front' = asksHelp front := by
    rcases hinserted with ⟨hsilenced, -⟩ | ⟨-, -, rfl, -⟩
    · exact hsilenced.asksHelp_eq
    · rfl
  cases hasked : asksHelp front with
  | true =>
    rw [hhelped hasked, hhelped' (hhelp.trans hasked)]
    rfl
  | false =>
    obtain ⟨name, others, rfl, hcommand, hend⟩ := hasks hasked
    obtain ⟨name', others', rfl, hcommand', hend'⟩ := hasks' (hhelp.trans hasked)
    rw [hend, hend']
    rcases hinserted with ⟨hsilenced, hrest⟩ | ⟨between, _, rfl, hrest, hrest'⟩
    · cases hrest
      cases readCommand settings name others with
      | error reason => rfl
      | ok invocation =>
        exact congrArg Except.ok (silencedBy_of_has (hsilenced.has_quiet hasked) invocation)
    · cases hrest
      cases hrest'
      rw [readCommand_insert_flag h hcommand hcommand']
      cases readCommand settings name (_ ++ after) with
      | error reason => rfl
      | ok invocation =>
        exact congrArg Except.ok (silencedBy_silenced _ invocation)

/-! ## Refusal -/

/-- Whether arguments are refused, or help is asked for, does not depend on the settings. -/
theorem readCommand_eq_misuse_iff (settings others : String → Option String) (name : String)
    (arguments : List String) :
    readCommand settings name arguments = .error .misuse ↔
      readCommand others name arguments = .error .misuse := by
  unfold readCommand
  split
  · exact Iff.rfl
  split
  · exact Iff.rfl
  split
  · exact Iff.rfl
  next given _ =>
    split
    · exact Iff.rfl
    have hsome := isSome_commandOf? settings others name given
    cases hcommand : commandOf? settings name given with
    | none =>
      rw [hcommand] at hsome
      have hother : commandOf? others name given = none := by simpa using hsome.symm
      rw [hother]
    | some command =>
      rw [hcommand] at hsome
      obtain ⟨other, hother⟩ := Option.isSome_iff_exists.mp hsome.symm
      rw [hother]
      simp

/-- Arguments that ask neither for a command nor for help. -/
def Refused (arguments : List String) : Prop :=
  parse (fun _ => none) arguments = .error .misuse

instance (arguments : List String) : Decidable (Refused arguments) :=
  inferInstanceAs (Decidable (_ = _))

theorem parse_eq_misuse_iff (settings : String → Option String) :
    parse settings arguments = .error .misuse ↔ Refused arguments := by
  unfold Refused parse
  split
  · exact Iff.rfl
  split
  · exact Iff.rfl
  split
  · exact Iff.rfl
  split
  · exact Iff.rfl
  · rw [map_eq_error_iff, map_eq_error_iff]
    exact readCommand_eq_misuse_iff _ _ _ _

/-- A flag for silence among arguments that are refused both with the flag and without it, or
neither way, changes nothing but that their command is quiet. -/
theorem parse_insert_flag (h : flag ∈ quietFlags)
    (hrefused : Refused (before ++ after) ↔ Refused (before ++ flag :: after))
    (settings : String → Option String) :
    parse settings (before ++ flag :: after) =
      (parse settings (before ++ after)).map silenced := by
  by_cases hplain : parse settings (before ++ after) = .error .misuse
  · have hflagged := (parse_eq_misuse_iff settings).mpr
      (hrefused.mp ((parse_eq_misuse_iff settings).mp hplain))
    rw [hplain, hflagged]
    rfl
  · refine parse_insert_flag_of_ne h hplain fun hflagged => hplain ?_
    exact (parse_eq_misuse_iff settings).mpr
      (hrefused.mpr ((parse_eq_misuse_iff settings).mp hflagged))

/-! ## In front of all arguments -/

/-- Whether a flag for silence stands before the name of the command. -/
def quietInFront (arguments : List String) : Bool :=
  (readFront arguments).any fun (front, _) => has quietSpec.name front

/-- A second flag in front is one too many. -/
theorem wellGiven_cons_quietOption (front : List Argument) :
    wellGiven sharedSpecs (quietOption :: front) =
      (!has quietSpec.name front && wellGiven sharedSpecs front) := by
  have hquiet : valuesOf quietSpec.name (quietOption :: front) =
      "" :: valuesOf quietSpec.name front := rfl
  have hhelp : valuesOf helpSpec.name (quietOption :: front) = valuesOf helpSpec.name front := rfl
  unfold wellGiven sharedSpecs has valueOf?
  rw [List.all_cons, List.all_cons, hquiet, List.all_cons, List.all_cons, hhelp]
  cases valuesOf quietSpec.name front with
  | nil => simp [quietSpec]
  | cons => simp

theorem parse_cons_flag (h : flag ∈ quietFlags) (settings : String → Option String)
    (arguments : List String) :
    parse settings (flag :: arguments) =
      if quietInFront arguments then .error .misuse
      else (parse settings arguments).map silenced := by
  unfold parse quietInFront
  rw [readFront_cons_flag h]
  cases readFront arguments with
  | none => rfl
  | some pair =>
    obtain ⟨front, rest⟩ := pair
    dsimp only [Option.map_some, Option.any_some]
    by_cases hquiet : has quietSpec.name front = true
    · have hgiven : wellGiven sharedSpecs (quietOption :: front) = false := by
        rw [wellGiven_cons_quietOption, hquiet]
        rfl
      rw [if_pos hgiven, if_pos hquiet]
    · have hgiven : wellGiven sharedSpecs (quietOption :: front) = wellGiven sharedSpecs front := by
        rw [wellGiven_cons_quietOption, eq_false_of_ne_true hquiet]
        rfl
      have hhelp : asksHelp (quietOption :: front) = asksHelp front := rfl
      rw [hgiven, hhelp, if_neg hquiet]
      split
      · rfl
      split
      · rfl
      split
      · rfl
      next name others =>
        cases readCommand settings name others with
        | error reason => rfl
        | ok invocation => exact congrArg Except.ok (silencedBy_of_has rfl invocation)

end Invocation

end BenchTables
