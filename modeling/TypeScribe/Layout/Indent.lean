/-!
# Indentation

One unit of indentation, and the units that stand in front of a line at a level.
-/

namespace TypeScribe

/-- What one level of indentation is written as. -/
inductive Indent where
  /-- A number of spaces; none at all is possible. -/
  | spaces (count : Nat)
  /-- One tab. -/
  | tab
deriving DecidableEq, Repr

namespace Indent

/-- Two spaces, where nothing else is asked for. -/
def standard : Indent := .spaces 2

/-- The text of one unit. -/
def unit : Indent → String
  | .spaces count => String.ofList (List.replicate count ' ')
  | .tab => "\t"

/-- The units in front of a line at a level. -/
def lead (indent : Indent) (level : Nat) : String :=
  String.join (List.replicate level indent.unit)

theorem lead_succ (indent : Indent) (level : Nat) :
    indent.lead (level + 1) = indent.unit ++ indent.lead level := by
  apply String.ext
  simp [lead, List.replicate_succ, String.toList_join]

end Indent

end TypeScribe
