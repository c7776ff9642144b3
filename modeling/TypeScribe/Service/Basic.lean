import TypeScribe.Element.Basic

/-!
# Service models

What a service offers: entity types with their keys, sets of entities, enum types, and the actions and
functions that can be called.
-/

namespace TypeScribe

/-- A type of entities. -/
structure EntityType where
  name : String
  keys : List String := []
  properties : Fields := []
deriving DecidableEq, Repr

/-- A set of entities of one type. -/
structure EntitySet where
  name : String
  entityType : String
deriving DecidableEq, Repr

/-- A type with named values. -/
structure EnumType where
  name : String
  members : List EnumMember := []
deriving DecidableEq, Repr

/-- Something that can be called. -/
structure Operation where
  name : String
  parameters : Fields := []
  returnType : Option String := none
deriving DecidableEq, Repr

/-- A service with all its parts, in the order in which they are listed. -/
structure ServiceModel where
  name : String
  entityTypes : List EntityType := []
  entitySets : List EntitySet := []
  enumTypes : List EnumType := []
  actions : List Operation := []
  functions : List Operation := []
deriving DecidableEq, Repr

end TypeScribe
