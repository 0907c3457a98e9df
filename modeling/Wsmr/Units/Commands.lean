import Wsmr.Units.Templates

/-!
# The commands of the drop-ins (`src/units/templates.rs`)

A drop-in consists of a header, a description and a command (`preloaderDropin_eq`, `serviceDropin_eq`).
In the file, `%I` stands for the instance.
-/

namespace Wsmr

open Text

/-- What the service's drop-in appends to the command of the unit. -/
def serviceArgs (input : DropinInput) : List Str :=
  if firstIsAbsolute input then input.cmdline
  else if !input.cliArgs.isEmpty then [] :: input.cliArgs
  else []

/-- The command of the service's drop-in, for an instance. -/
def serviceCommand (inst : Str) (input : DropinInput) : Option (List Str) :=
  if (serviceArgs input).isEmpty then none
  else some ([input.binPath, "aux".toList, "exec".toList, "--".toList, inst] ++ serviceArgs input)

/-- The command of the preloader's drop-in. -/
def preloaderCommand (inst : Str) (input : DropinInput) : Option (List Str) :=
  if !(desktopArgs input).isEmpty || firstIsAbsolute input then
    some ([input.binPath, "aux".toList, "prepare-env".toList] ++ desktopArgs input ++ ["--".toList, inst] ++
      if firstIsAbsolute input then input.cmdline.take 1 else [])
  else none

/-- The part of a drop-in about its command. -/
def override (command : Option (List Str)) : Str := command.elim [] fun c => execOverride c []

theorem execOverride_append (base extra : List Str) : execOverride base extra = execOverride (base ++ extra) [] := by
  unfold execOverride
  rw [List.append_nil]

theorem serviceDropin_eq (input : DropinInput) : serviceDropin input =
    dropinOf input (descriptionLine "Main service".toList input ++ override (serviceCommand "%I".toList input)) := by
  unfold serviceDropin serviceCommand
  show dropinOf input (descriptionLine "Main service".toList input ++
    if !(serviceArgs input).isEmpty then execOverride _ (serviceArgs input) else []) = _
  cases (serviceArgs input).isEmpty with
  | true => rfl
  | false => exact congrArg (fun o => dropinOf input (_ ++ o)) (execOverride_append _ _)

theorem preloaderDropin_eq (input : DropinInput) : preloaderDropin input =
    dropinOf input (descriptionLine "Environment preloader".toList input ++
      override (preloaderCommand "%I".toList input)) := by
  unfold preloaderDropin preloaderCommand
  dsimp only
  cases (!(desktopArgs input).isEmpty || firstIsAbsolute input) with
  | false => rfl
  | true =>
    refine congrArg (fun o => dropinOf input (_ ++ o)) ((execOverride_append _ _).trans ?_)
    simp only [if_true, override, Option.elim_some, List.append_assoc]

end Wsmr
