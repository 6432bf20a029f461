import BenchTables.Proofs.Command.QuietFlag
import BenchTables.Session

/-!
# Silence

Being quiet changes what is printed to the log and nothing else.  Two sessions that differ only in
when they are quiet are followed side by side, with their files equal after every step
(`QuietVariants.seen_eq`); a quiet run of the program prints to standard error the error that ended
it, if one did (`runLine_quiet`).
-/

namespace BenchTables

open Files Arguments

variable {steps others : List SessionStep} {arguments others' : List String}
  {environment : Settings} {tree : FileTree}

/-! ## Runs of the program -/

namespace Invocation

/-- Arguments that come to the same command, quiet or not, or to help on the same, or are both
refused, whatever the settings. -/
def SameCommand (arguments others : List String) : Prop :=
  ∀ settings, (parse settings arguments).map command = (parse settings others).map command

theorem sameCommand_of_silenced
    (h : ∀ settings, parse settings others' = (parse settings arguments).map silenced) :
    SameCommand arguments others' := by
  intro settings
  rw [h settings]
  cases parse settings arguments with
  | error reason => rfl
  | ok invocation => rfl

end Invocation

namespace Exit

/-- What a run leaves and prints apart from standard error. -/
def withoutErrors : Exit → Exit
  | ended status output _ => ended status output ""
  | helped topic settings => helped topic settings
  | refused _ settings => refused [] settings

theorem status_withoutErrors (exit : Exit) : exit.withoutErrors.status = exit.status := by
  cases exit <;> rfl

theorem standardOutput_withoutErrors (exit : Exit) (wording : Wording) :
    exit.withoutErrors.standardOutput wording = exit.standardOutput wording := by
  cases exit <;> rfl

theorem withoutErrors_ofTraced (q r : Bool) (done : Traced CommandError String) :
    (ofTraced q done).withoutErrors = (ofTraced r done).withoutErrors := by
  unfold ofTraced
  cases done.outcome <;> rfl

theorem withoutErrors_withoutCommand (arguments others : List String) (settings : Settings)
    (reason : NoInvocation) :
    (withoutCommand arguments settings reason).withoutErrors =
      (withoutCommand others settings reason).withoutErrors := by
  cases reason <;> rfl

end Exit

theorem runLine_of_sameCommand (h : Invocation.SameCommand arguments others')
    (environment : Settings) (tree : FileTree) :
    (runLine environment arguments tree).1 = (runLine environment others' tree).1 ∧
      (runLine environment arguments tree).2.withoutErrors =
        (runLine environment others' tree).2.withoutErrors := by
  have hsame := h (settingsIn environment tree).value?
  unfold runLine
  dsimp only
  -- Both ask for no command for the same reason, or both for one, carried out on the same tree.
  cases hfirst : Invocation.parse (settingsIn environment tree).value? arguments with
  | error reason =>
    rw [hfirst] at hsame
    rw [map_eq_error_iff.mp hsame.symm]
    exact ⟨rfl, Exit.withoutErrors_withoutCommand _ _ _ _⟩
  | ok first =>
    rw [hfirst] at hsame
    cases hsecond : Invocation.parse (settingsIn environment tree).value? others' with
    | error reason =>
      rw [hsecond] at hsame
      cases hsame
    | ok second =>
      rw [hsecond] at hsame
      have hcommand : first.command = second.command := Except.ok.inj hsame
      dsimp only
      rw [hcommand]
      exact ⟨rfl, Exit.withoutErrors_ofTraced _ _ _⟩

/-- A quiet run prints nothing to standard error, except for the error that ends it. -/
theorem runLine_quiet {invocation : Invocation}
    (hparse : Invocation.parse (settingsIn environment tree).value? arguments = .ok invocation)
    (hquiet : invocation.quiet = true) :
    (runLine environment arguments tree).2 =
      match ((invocation.command.plan tree.read).carryOut tree).2.outcome with
      | .ok text => .ended 0 text ""
      | .error e => .ended 1 "" ("❌ Error: " ++ e.message ++ "\n") := by
  unfold runLine
  dsimp only
  rw [hparse]
  dsimp only
  rw [hquiet, Exit.ofTraced, LogEntry.linesOf_quiet]
  cases ((invocation.command.plan tree.read).carryOut tree).2.outcome with
  | ok text => rfl
  | error e => simp only [String.empty_append]

/-- A run that succeeds prints to standard error only if its command is not quiet. -/
theorem standardError_of_status (wording : Wording)
    (hquiet : ∀ invocation, Invocation.parse (settingsIn environment tree).value? arguments =
      .ok invocation → invocation.quiet = true)
    (hstatus : (runLine environment arguments tree).2.status = 0) :
    (runLine environment arguments tree).2.standardError wording = "" := by
  cases hparse : Invocation.parse (settingsIn environment tree).value? arguments with
  | error reason =>
    have hexit : (runLine environment arguments tree).2 =
        .withoutCommand arguments (settingsIn environment tree) reason := by
      unfold runLine
      dsimp only
      rw [hparse]
    rw [hexit] at hstatus ⊢
    cases reason with
    | help topic => rfl
    | misuse => cases hstatus
  | ok invocation =>
    rw [runLine_quiet hparse (hquiet _ hparse)] at hstatus ⊢
    cases houtcome : ((invocation.command.plan tree.read).carryOut tree).2.outcome with
    | ok text => rfl
    | error e =>
      rw [houtcome] at hstatus
      cases hstatus

/-! ## Sessions -/

/-- Two sessions that differ in where they are silenced or not, and in whether their runs of the
program are told to be quiet. -/
inductive QuietVariants : List SessionStep → List SessionStep → Prop
  | nil : QuietVariants [] []
  | setQuiet_left (quiet : Bool) {steps others : List SessionStep}
      (h : QuietVariants steps others) : QuietVariants (.setQuiet quiet :: steps) others
  | setQuiet_right (quiet : Bool) {steps others : List SessionStep}
      (h : QuietVariants steps others) : QuietVariants steps (.setQuiet quiet :: others)
  | same (todo : SessionStep) {steps others : List SessionStep} (h : QuietVariants steps others) :
      QuietVariants (todo :: steps) (todo :: others)
  | run (environment : List (String × String)) {arguments others' : List String}
      (hcommand : Invocation.SameCommand arguments others') {steps others : List SessionStep}
      (h : QuietVariants steps others) :
      QuietVariants (.run environment arguments :: steps) (.run environment others' :: others)

/-- What a step gives back, apart from what a run of the program prints to standard error. -/
def SessionAnswer.withoutErrors : SessionAnswer → SessionAnswer
  | .exited exit => .exited exit.withoutErrors
  | answer => answer

namespace Session

/-- What is seen of a session: the files after each step and what it gave back.  A step that only
sets whether the session is quiet is not counted. -/
def seen (s : Session) : List SessionStep → List (FileTree × SessionAnswer)
  | [] => []
  | todo :: rest =>
    let (next, answer, _) := s.step todo
    match todo with
    | .setQuiet _ => next.seen rest
    | _ => (next.tree, answer.withoutErrors) :: next.seen rest

theorem seen_setQuiet (tree : FileTree) (quiet state : Bool) (rest : List SessionStep) :
    seen ⟨tree, quiet⟩ (.setQuiet state :: rest) = seen ⟨tree, state⟩ rest := rfl

/-- The session after a step that is no setting is as quiet as before. -/
theorem seen_cons {todo : SessionStep} (h : ∀ state, todo ≠ .setQuiet state) (tree : FileTree)
    (quiet : Bool) (rest : List SessionStep) :
    seen ⟨tree, quiet⟩ (todo :: rest) =
      ((act tree todo).1, (act tree todo).2.1.withoutErrors) ::
        seen ⟨(act tree todo).1, quiet⟩ rest := by
  cases todo with
  | setQuiet state => exact absurd rfl (h state)
  | _ => rfl

theorem run_tree_setQuiet (tree : FileTree) (quiet state : Bool) (rest : List SessionStep) :
    (run ⟨tree, quiet⟩ (.setQuiet state :: rest)).1.tree = (run ⟨tree, state⟩ rest).1.tree := rfl

theorem run_tree_cons {todo : SessionStep} (h : ∀ state, todo ≠ .setQuiet state) (tree : FileTree)
    (quiet : Bool) (rest : List SessionStep) :
    (run ⟨tree, quiet⟩ (todo :: rest)).1.tree = (run ⟨(act tree todo).1, quiet⟩ rest).1.tree := by
  cases todo with
  | setQuiet state => exact absurd rfl (h state)
  | _ => rfl

end Session

theorem QuietVariants.seen_eq (h : QuietVariants steps others) (tree : FileTree) (q r : Bool) :
    Session.seen ⟨tree, q⟩ steps = Session.seen ⟨tree, r⟩ others ∧
      (Session.run ⟨tree, q⟩ steps).1.tree = (Session.run ⟨tree, r⟩ others).1.tree := by
  -- Both sessions have the same files before every step, while each may be quiet or not.
  induction h generalizing tree q r with
  | nil => exact ⟨rfl, rfl⟩
  | setQuiet_left quiet _ ih =>
    rw [Session.seen_setQuiet, Session.run_tree_setQuiet]
    exact ih tree quiet r
  | setQuiet_right quiet _ ih =>
    rw [Session.seen_setQuiet, Session.run_tree_setQuiet]
    exact ih tree q quiet
  | same todo _ ih =>
    by_cases hset : ∃ state, todo = .setQuiet state
    · -- From the setting on both are equally quiet.
      obtain ⟨state, rfl⟩ := hset
      exact ih tree state state
    · have hstep : ∀ state, todo ≠ .setQuiet state := fun state heq => hset ⟨state, heq⟩
      rw [Session.seen_cons hstep, Session.seen_cons hstep, Session.run_tree_cons hstep,
        Session.run_tree_cons hstep]
      obtain ⟨hseen, htree⟩ := ih (Session.act tree todo).1 q r
      exact ⟨congrArg _ hseen, htree⟩
  | run environment hcommand _ ih =>
    -- The two runs leave the same files, so what comes after starts from the same tree.
    obtain ⟨hafter, hexit⟩ := runLine_of_sameCommand hcommand (.ofVariables environment) tree
    have hstep : ∀ arguments state, SessionStep.run environment arguments ≠ .setQuiet state := by
      intro arguments state heq
      cases heq
    rw [Session.seen_cons (hstep _), Session.seen_cons (hstep _), Session.run_tree_cons (hstep _),
      Session.run_tree_cons (hstep _)]
    simp only [Session.act, SessionAnswer.withoutErrors]
    rw [hafter, hexit]
    obtain ⟨hseen, htree⟩ := ih (runLine (.ofVariables environment) _ tree).1 q r
    exact ⟨congrArg _ hseen, htree⟩

/-- The flag is an argument too many for the command for help. -/
example : (runLine [] ["help"] FileTree.fresh).2.status = 0 ∧
    (runLine [] ["help", "-q"] FileTree.fresh).2.status = 2 ∧
    (runLine [] ["render", "-h", "-q", "-q"] FileTree.fresh).2.status = 0 := by
  decide

end BenchTables
