import ProjectGraph.CommandLine.Run
import ProjectGraph.Proofs.CommandLine.Modes
import ProjectGraph.Proofs.Container.Hierarchy

/-!
What the command line says in place of the environment. The variables are read before the command line is looked at. A
build file that is given there takes the place of whatever the variable says. A warning mode that is given there takes
the place of any mode that the variable names; but where the variable names none, the run has ended by then, since the
value is read all the same.
-/

namespace ProjectGraph

namespace Settings

/-- The same look-up with another value under one name. -/
def setTo (setting? : String → Option String) (name : String) (value? : Option String) : String → Option String :=
  fun other => if other = name then value? else setting? other

theorem setTo_self (setting? : String → Option String) (name : String) (value? : Option String) :
    setTo setting? name value? name = value? := if_pos rfl

theorem setTo_of_ne (setting? : String → Option String) {name other : String} (h : other ≠ name)
    (value? : Option String) : setTo setting? name value? other = setting? other := if_neg h

/-- The value of a variable, unless it is set to nothing. -/
def given (value? : Option String) : Option String := value?.filter (!·.isEmpty)

/-- Why the value of a variable names no mode. -/
def modeFault? (value? : Option String) : Option BuildError :=
  (given value?).bind fun raw =>
    match WarningMode.parse raw with
    | .ok _ => none
    | .error x => some x

/-- The mode that the value of a variable names, or the initial one. -/
def modeOf (value? : Option String) : WarningMode :=
  ((given value?).bind fun raw => (WarningMode.parse raw).toOption).getD initial.warningMode

/-- The build file that the value of a variable names, or the initial one. -/
def fileOf (value? : Option String) : FilePath := ((given value?).map FilePath.of).getD initial.buildFile

/-- Each variable gives its own setting, and only that of the mode may be at fault. -/
theorem load_eq (setting? : String → Option String) :
    load setting? = match modeFault? (setting? warningModeVariable) with
      | some x => .error x
      | none => .ok ⟨modeOf (setting? warningModeVariable), fileOf (setting? buildFileVariable)⟩ := by
  simp only [load, modeFault?, modeOf, fileOf, given]
  cases (setting? warningModeVariable).filter (!·.isEmpty) with
  | none => cases (setting? buildFileVariable).filter (!·.isEmpty) <;> rfl
  | some raw =>
      cases hparse : WarningMode.parse raw with
      | error x => simp [hparse, bind, Except.bind]
      | ok m =>
          cases (setting? buildFileVariable).filter (!·.isEmpty) <;>
            simp [hparse, bind, Except.bind, pure, Except.pure, Except.toOption]

end Settings

namespace Arguments

variable {args : Arguments} {setting? setting?' : String → Option String}

/-- The settings of a run, told from the values of the two variables. -/
theorem settings_eq (args : Arguments) (setting? : String → Option String) :
    args.settings setting? = match Settings.modeFault? (setting? Settings.warningModeVariable) with
      | some x => .error (.settings ("Could not load config: " ++ x.message))
      | none => .ok {
          warningMode := args.warningMode.getD (Settings.modeOf (setting? Settings.warningModeVariable))
          buildFile := (args.build.map FilePath.of).getD
            (Settings.fileOf (setting? Settings.buildFileVariable)) } := by
  rw [settings, Settings.load_eq]
  cases Settings.modeFault? (setting? Settings.warningModeVariable) <;> rfl

/-- A run depends on the environment by its settings alone. -/
theorem run_congr (h : args.settings setting? = args.settings setting?') (read? : String → Option ByteArray) :
    args.run setting? read? = args.run setting?' read? := by
  rw [run, run, h]

/-- A build file on the command line leaves the variable no say. A mode on the command line leaves its variable no say
as long as this names a mode or nothing; if it names anything else, the run ends before the command line counts. -/
theorem options_count_more_than_variables (args : Arguments) (setting? : String → Option String)
    (read? : String → Option ByteArray) :
    (args.build.isSome → ∀ value? value?',
      args.run (Settings.setTo setting? Settings.buildFileVariable value?) read? =
        args.run (Settings.setTo setting? Settings.buildFileVariable value?') read?) ∧
    (args.warningMode.isSome → ∀ value?,
      args.run (Settings.setTo setting? Settings.warningModeVariable value?) read? =
        match Settings.modeFault? value? with
        | some x => ⟨[], [], [], .error (.settings ("Could not load config: " ++ x.message))⟩
        | none => args.run (Settings.setTo setting? Settings.warningModeVariable none) read?) := by
  have hother : Settings.buildFileVariable ≠ Settings.warningModeVariable := by decide
  constructor
  · intro hbuild value? value?'
    obtain ⟨file, hfile⟩ := Option.isSome_iff_exists.1 hbuild
    refine run_congr ?_ read?
    simp only [settings_eq, Settings.setTo_self, Settings.setTo_of_ne setting? hother.symm, hfile, Option.map_some,
      Option.getD_some]
  · intro hmode value?
    obtain ⟨m, hm⟩ := Option.isSome_iff_exists.1 hmode
    cases hfault : Settings.modeFault? value? with
    | some x =>
        have hsettings : args.settings (Settings.setTo setting? Settings.warningModeVariable value?) =
            .error (.settings ("Could not load config: " ++ x.message)) := by
          rw [settings_eq, Settings.setTo_self, hfault]
        rw [run, hsettings]
    | none =>
        refine run_congr ?_ read?
        have hnone : Settings.modeFault? none = none := rfl
        simp only [settings_eq, Settings.setTo_self, Settings.setTo_of_ne setting? hother, hfault, hnone, hm,
          Option.getD_some]

/-- Nothing is set. -/
def unset (_ : String) : Option String := none

/-- The mode of the variable is overridden, and so is its build file. -/
theorem options_count_more_than_variables_retired :
    let quiet : Arguments := ⟨0, some "shop.json", some .silent, .check⟩
    quiet.run (Settings.setTo unset Settings.buildFileVariable (some "other.json")) readRetired =
        quiet.run (Settings.setTo unset Settings.buildFileVariable none) readRetired ∧
      quiet.run (Settings.setTo unset Settings.warningModeVariable (some "fail")) readRetired =
        quiet.run (Settings.setTo unset Settings.warningModeVariable none) readRetired := by
  intro quiet
  obtain ⟨hbuild, hmode⟩ := options_count_more_than_variables quiet unset readRetired
  have hfault : Settings.modeFault? (some "fail") = none := Option.isNone_iff_eq_none.1 (by decide +kernel)
  have hequal := hmode rfl (some "fail")
  rw [hfault] at hequal
  exact ⟨hbuild rfl _ _, hequal⟩

/-- A mode on the command line does not save the run from a variable that names none. -/
theorem unreadable_variable_ends_run_loud :
    let loud := Settings.setTo unset Settings.warningModeVariable (some "loud")
    let silent := Settings.setTo unset Settings.warningModeVariable none
    Arguments.parse ["check", "--warning-mode", "none"] = .ok (checking .silent) ∧
      ((checking .silent).run loud readRetired).result =
        .error (.settings ("Could not load config: Configuration Error: Unknown warning mode 'loud', " ++
          "expected one of all, summary, none, fail")) ∧
      ((checking .silent).run silent readRetired).result = .ok () := by
  intro loud silent
  refine ⟨by decide +kernel, Container.eq_error_of_failure? (by decide +kernel), ?_⟩
  have hran : ((checking .silent).run silent readRetired).result.toOption.map id = some () := by decide +kernel
  obtain ⟨_, hok, _⟩ := Build.exists_eq_ok hran
  exact hok

end Arguments

end ProjectGraph
