import TypeScribe.Number.Notation
import TypeScribe.Text.Quoted
import TypeScribe.Tree.Node

/-!
# Why a tree does not fit

A misfit is what is wrong with a value; a place is where it was noticed; a fault is either a misfit or the
point at which there was nothing more to read. The wording of misfits is one function.
-/

namespace TypeScribe

/-- The two forms in which documents are written. -/
inductive Format where
  /-- Tables with headers. -/
  | toml
  /-- Nested objects. -/
  | json
deriving DecidableEq, Repr

/-- What stands in a document where something else was wanted. -/
inductive Found where
  | text (value : String)
  | integer (value : Int)
  /-- A whole number of more than 64 bits, which is handed over as signed or not. -/
  | wide (value : Int) (signed : Bool)
  | double (value : Double)
  | bool (value : Bool)
  | null
  | sequence
  | map
deriving DecidableEq, Repr

/-- What was wanted. -/
inductive Wanted where
  | text | bool | byte | path | sequence | map | unit | anyValue | variant | textOrMap | singleKey
  | verbatim | value | statement | member | element
  /-- An index of one of so many variants. -/
  | variantIndex (count : Nat)
  /-- A table of fixed shape. -/
  | record (name : String)
  /-- A table of fixed shape written as an array of its fields. -/
  | recordItems (name : String) (count : Nat)
  /-- An array of so many items. -/
  | items (count : Nat)
deriving DecidableEq, Repr

/-- What is wrong with a value. -/
inductive Misfit where
  | unknownField (name : String) (known : List String)
  | unknownVariant (name : String) (known : List String)
  | duplicateField (name : String)
  | missingField (name : String)
  | wrongType (found : Found) (wanted : Wanted)
  | wrongValue (found : Found) (wanted : Wanted)
  | wrongLength (length : Nat) (wanted : Wanted)
  | integerOverflow
  | doubleOverflow
deriving DecidableEq, Repr

/-- Where a misfit was noticed. -/
inductive Place where
  /-- A scalar, once it was read. -/
  | scalar (span : Span)
  /-- An array or table of which nothing but its beginning was looked at. -/
  | before (span : Span)
  /-- An array or table that was entered before it was refused. -/
  | entered (span : Span)
  /-- A key, once it was read. -/
  | key (span : Span)
  /-- The end of an array or table. -/
  | ending (span : Span)
  /-- Somewhere in an element, which was read whole first. -/
  | element (span : Span)
deriving DecidableEq, Repr

/-- What keeps a tree from being decoded. -/
inductive Fault where
  /-- A misfit at a place. -/
  | misfit (cause : Misfit) (place : Place)
  /-- There was nothing more to read. -/
  | unread
  /-- An array goes on after a byte, though it has an item for each field already. -/
  | overlong (stop : Nat)
  /-- A value that can name no variant. -/
  | noVariant (start : Nat)
  /-- A table that names a variant goes on after a byte, though it has its one entry already. -/
  | variantNotClosed (stop : Nat)
deriving DecidableEq, Repr

/-- The result of decoding. -/
abbrev Read := Except Fault

/-- A noun with `s` unless there is exactly one. -/
def plural (count : Nat) (noun : String) : String :=
  toString count ++ " " ++ noun ++ (if count = 1 then "" else "s")

/-- What stands there, in words. -/
def Found.describe (format : Format) : Found → String
  | .text value => "string " ++ showQuoted value
  | .integer value => "integer `" ++ toString value ++ "`"
  | .wide value signed =>
    "integer `" ++ toString value ++ "` as " ++ (if signed then "i128" else "u128")
  | .double value =>
    "floating point `"
      ++ value.text (match format with
          | .toml => .pointed
          | .json => .scientific) ++ "`"
  | .bool value => "boolean `" ++ toString value ++ "`"
  | .null => "null"
  | .sequence => "sequence"
  | .map => "map"

/-- What was wanted, in words. -/
def Wanted.describe : Wanted → String
  | .text => "a string"
  | .bool => "a boolean"
  | .byte => "u8"
  | .path => "path string"
  | .sequence => "a sequence"
  | .map => "a map"
  | .unit => "unit"
  | .anyValue => "any value"
  | .variant => "variant identifier"
  | .textOrMap => "string or map"
  | .singleKey => "map with a single key"
  | .verbatim => "a string, number, or boolean"
  | .value => "a verbatim expression or an object literal table"
  | .statement => "a statement string or an element table"
  | .member => "a member name or a \x7b name, value \x7d table"
  | .element => "internally tagged enum CodeElement"
  | .variantIndex count => "variant index 0 <= i < " ++ toString count
  | .record name => "struct " ++ name
  | .recordItems name count => "struct " ++ name ++ " with " ++ plural count "element"
  | .items count => plural count "element" ++ " in sequence"

/-- The names that would have been right. -/
def alternatives (names : List String) : String :=
  let marked := names.map fun n => "`" ++ n ++ "`"
  match marked with
  | [] => "nothing"
  | [a] => a
  | [a, b] => a ++ " or " ++ b
  | more => "one of " ++ ", ".intercalate more

/-- A misfit in words. -/
def Misfit.message (format : Format) : Misfit → String
  | .unknownField name known => "unknown field `" ++ name ++ "`, expected " ++ alternatives known
  | .unknownVariant name known => "unknown variant `" ++ name ++ "`, expected " ++ alternatives known
  | .duplicateField name => "duplicate field `" ++ name ++ "`"
  | .missingField name => "missing field `" ++ name ++ "`"
  | .wrongType found wanted => "invalid type: " ++ found.describe format ++ ", expected " ++ wanted.describe
  | .wrongValue found wanted => "invalid value: " ++ found.describe format ++ ", expected " ++ wanted.describe
  | .wrongLength length wanted => "invalid length " ++ toString length ++ ", expected " ++ wanted.describe
  | .integerOverflow => "integer number overflowed"
  | .doubleOverflow => "floating-point number overflowed"

end TypeScribe
