/-!
# Refusals

Why a command cannot be carried out: a name that names nothing or is taken, a part that is missing
or ill-typed, or a place where the command makes no sense. A refused command does nothing, except
that a command on several things may have dealt with those before the one that it refuses.
-/

namespace WeakSet

/-- Why a command could not be carried out. -/
inductive Refusal where
  | noOwner
  | noSet
  | noChannel
  | noCursor
  | noTicket
  | nameTaken
  | unknownCommand
  | badList
  | badField (field : String)
  | notGated
  | inScript
  | nothingInHand
  | differentTypes
  | tooDeep
  deriving DecidableEq, Repr, Inhabited

namespace Refusal

/-- The wording of a refusal. -/
def message : Refusal → String
  | noOwner => "no owner"
  | noSet => "no set"
  | noChannel => "no channel"
  | noCursor => "no iterator"
  | noTicket => "no id"
  | nameTaken => "name taken"
  | unknownCommand => "unknown op"
  | badList => "list"
  | badField field => s!"field {field}"
  | notGated => "not gated"
  | inScript => "not in a script"
  | nothingInHand => "nothing in hand"
  | differentTypes => "different set types"
  | tooDeep => "too deep"

end Refusal

end WeakSet
