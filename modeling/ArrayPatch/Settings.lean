import ArrayPatch.Text.Quoted

/-!
# Settings

The settings name the two fields that make an object a target: the identifier
field, which must hold a string, and the target field, which must hold an
array.  They also bound how deeply arrays and objects may be nested.

Settings can be built without being valid.  `fault?` gives the first reason
why they are not.
-/

namespace ArrayPatch

/-- The field names to look for and the nesting limit. -/
structure Settings where
  identifierField : Text := ['i', 'd']
  targetField : Text := ['t', 'a', 'g', 's']
  maxDepth : Nat := 512
deriving DecidableEq, Repr

/-- Why settings cannot be used. -/
inductive SettingsFault where
  | emptyIdentifierField
  | emptyTargetField
  | equalFields (field : Text)
  | zeroDepth
  | unreadable (reason : Text)
deriving DecidableEq, Repr

namespace SettingsFault

/-- What is wrong, in words. -/
def message : SettingsFault → String
  | .emptyIdentifierField => "identifierField must not be empty"
  | .emptyTargetField => "targetField must not be empty"
  | .equalFields field =>
      "identifierField and targetField must differ (both are " ++ field.quote ++ ")"
  | .zeroDepth => "maxDepth must be greater than zero"
  | .unreadable reason => String.ofList reason

end SettingsFault

namespace Settings

/-- The first reason why the settings cannot be used, if there is one. -/
def fault? (settings : Settings) : Option SettingsFault :=
  if settings.identifierField = [] then some .emptyIdentifierField
  else if settings.targetField = [] then some .emptyTargetField
  else if settings.identifierField = settings.targetField then
    some (.equalFields settings.identifierField)
  else if settings.maxDepth = 0 then some .zeroDepth
  else none

/-- Valid settings name two different fields and allow some nesting. -/
theorem fault?_eq_none_iff (settings : Settings) :
    settings.fault? = none ↔
      settings.identifierField ≠ [] ∧ settings.targetField ≠ [] ∧
        settings.identifierField ≠ settings.targetField ∧ 0 < settings.maxDepth := by
  simp only [fault?, Nat.pos_iff_ne_zero]
  repeat' split
  all_goals simp_all

end Settings

end ArrayPatch
