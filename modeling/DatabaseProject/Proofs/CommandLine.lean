import DatabaseProject.CommandLine
import DatabaseProject.Proofs.Path
import Mathlib.Data.Option.Basic

/-!
# The project folder among the arguments

The option for the project folder can be given before any other option or behind it, and so it
stands in for the default wherever it is added. The default of a definition in the working folder is
the empty path.
-/

namespace DatabaseProject.CommandLine

variable {arguments : Arguments} {folder : String}

/-- The project folder may be given before another option or behind it. -/
theorem set?_comm (name : OptionName) (value : String) :
    (arguments.set? .projectFolder folder).bind (·.set? name value) =
      (arguments.set? name value).bind (·.set? .projectFolder folder) := by
  obtain ⟨input, output, projectFolder, edition, packages, verbose⟩ := arguments
  by_cases hf : folder = ""
  · simp [Arguments.set?, Arguments.path?, hf]
  · cases projectFolder <;> cases name <;>
      simp [Arguments.set?, Arguments.path?, Arguments.once?, hf, Option.map_eq_bind, Option.bind_assoc]
    split <;> rfl

theorem setVerbose?_comm : (arguments.set? .projectFolder folder).bind (·.setVerbose?) =
    arguments.setVerbose?.bind (·.set? .projectFolder folder) := by
  obtain ⟨input, output, projectFolder, edition, packages, verbose⟩ := arguments
  cases verbose <;>
    simp [Arguments.set?, Arguments.setVerbose?, Option.map_eq_bind, Option.bind_assoc]

theorem takeFlags?_comm (count : Nat) :
    (arguments.set? .projectFolder folder).bind (takeFlags? · count) =
      (takeFlags? arguments count).bind (·.set? .projectFolder folder) := by
  induction count generalizing arguments with
  | zero => simp [takeFlags?]
  | succ count ih =>
    simp only [takeFlags?]
    rw [← Option.bind_assoc, setVerbose?_comm, Option.bind_assoc, Option.bind_assoc]
    exact Option.bind_congr fun taken _ => ih

theorem takeOne?_comm (awaiting : Option OptionName) (argument : String) :
    (arguments.set? .projectFolder folder).bind (takeOne? · awaiting argument) =
      (takeOne? arguments awaiting argument).bind fun taken =>
        (taken.1.set? .projectFolder folder).map (·, taken.2) := by
  have hset : ∀ (arguments : Arguments) (name : OptionName) (value : String),
      (arguments.set? .projectFolder folder).bind
          (fun taken => (taken.set? name value).map (·, (none : Option OptionName))) =
        ((arguments.set? name value).map (·, (none : Option OptionName))).bind fun taken =>
          (taken.1.set? .projectFolder folder).map (·, taken.2) := by
    intro arguments name value
    have hcomm := congrArg (Option.map (·, (none : Option OptionName)))
      (@set?_comm arguments folder name value)
    simpa only [Option.map_bind, Option.bind_map, Function.comp_def] using hcomm
  unfold takeOne?
  cases awaiting with
  | some name =>
    dsimp only
    split
    · exact hset arguments name argument
    · simp
  | none =>
    cases Word.ofArgument? argument with
    | none => simp
    | some word =>
      simp only [bind, Option.bind_some]
      rw [← Option.bind_assoc, takeFlags?_comm, Option.bind_assoc, Option.bind_assoc]
      refine Option.bind_congr fun taken _ => ?_
      split
      · simp [Option.map_eq_bind]
      · exact hset taken _ _
      · simp [Option.map_eq_bind]

/-- The project folder may be given in front of all arguments or behind them. -/
theorem takeAll?_comm (awaiting : Option OptionName) (rest : List String) :
    (arguments.set? .projectFolder folder).bind (takeAll? · awaiting rest) =
      (takeAll? arguments awaiting rest).bind (·.set? .projectFolder folder) := by
  induction rest generalizing arguments awaiting with
  | nil =>
    unfold takeAll?
    split <;> simp
  | cons argument rest ih =>
    unfold takeAll?
    split
    · simp
    · rw [← Option.bind_assoc, takeOne?_comm, Option.bind_assoc, Option.bind_assoc]
      refine Option.bind_congr fun taken _ => ?_
      rw [Option.bind_map]
      exact ih taken.2

/-- Without the option there is the default, and with it in front its value. -/
theorem parse_of_takeAll? {rest : List String} (ha : takeAll? .empty none rest = some arguments)
    (hfolder : arguments.projectFolder = none) : parse ("generate" :: rest) = ofArguments arguments ∧
      parse ("generate" :: "--project-dir" :: "." :: rest) =
        ofArguments { arguments with projectFolder := some ⟨"."⟩ } := by
  have hadded : takeAll? .empty none ("--project-dir" :: "." :: rest) =
      some { arguments with projectFolder := some ⟨"."⟩ } := by
    have hfront : takeAll? .empty none ("--project-dir" :: "." :: rest) =
        (Arguments.empty.set? .projectFolder ".").bind (takeAll? · none rest) := rfl
    rw [hfront, takeAll?_comm, ha, Option.bind_some]
    simp [Arguments.set?, Arguments.path?, Arguments.once?, hfolder]
  constructor
  · rw [parse, if_pos rfl, ha]
  · rw [parse, if_pos rfl, hadded]

/-- A definition that is named without a folder has the empty path for its folder. -/
theorem defaultProjectFolder_of_isSegment {name : String} (h : Path.IsSegment name) :
    defaultProjectFolder ⟨name⟩ = ⟨""⟩ := by
  have hfiller := h.not_filler
  have hsplit : (Path.mk name).split = ("", [name]) := by
    unfold Path.split
    rw [h.fields_eq]
    split
    · rename_i he
      cases he
    · rename_i he
      cases he
      exact absurd hfiller (by decide)
    · rfl
  unfold defaultProjectFolder Path.parent?
  simp [hsplit, hfiller]

end DatabaseProject.CommandLine
