import TypeScribe.Element.Decode
import TypeScribe.Service.Basic

/-!
# Service models of a document

The tables of a service model, each of fixed shape.
-/

namespace TypeScribe

/-- An entity type. -/
def entityTypeRecord : Record EntityType where
  name := "EntityType"
  columns := [
    .needed "name" readText fun v s => { s with name := v },
    .optional "keys" (readList readText) fun v s => { s with keys := v },
    .optional "properties" readFields fun v s => { s with properties := v }]
  blank := { name := "" }

/-- An entity set. -/
def entitySetRecord : Record EntitySet where
  name := "EntitySet"
  columns := [
    .needed "name" readText fun v s => { s with name := v },
    .needed "entityType" readText fun v s => { s with entityType := v }]
  blank := ⟨"", ""⟩

/-- An enum type. -/
def enumTypeRecord : Record EnumType where
  name := "EnumType"
  columns := [
    .needed "name" readText fun v s => { s with name := v },
    .optional "members" (readList readMember) fun v s => { s with members := v }]
  blank := { name := "" }

/-- An action or function. -/
def operationRecord : Record Operation where
  name := "Operation"
  columns := [
    .needed "name" readText fun v s => { s with name := v },
    .optional "parameters" readFields fun v s => { s with parameters := v },
    .optional "returnType" (readOptional readText) fun v s => { s with returnType := v }]
  blank := { name := "" }

/-- A service model. -/
def serviceRecord (mode : Mode) : Record ServiceModel where
  name := "ServiceModel"
  columns := [
    .needed "name" readText fun v s => { s with name := v },
    .optional "entityTypes" (readList (entityTypeRecord.read mode)) fun v s => { s with entityTypes := v },
    .optional "entitySets" (readList (entitySetRecord.read mode)) fun v s => { s with entitySets := v },
    .optional "enumTypes" (readList (enumTypeRecord.read mode)) fun v s => { s with enumTypes := v },
    .optional "actions" (readList (operationRecord.read mode)) fun v s => { s with actions := v },
    .optional "functions" (readList (operationRecord.read mode)) fun v s => { s with functions := v }]
  blank := { name := "" }

/-- A service model from a tree. -/
def readService (mode : Mode) : Node → Read ServiceModel := (serviceRecord mode).read mode

end TypeScribe
