import TypeScribe.Document.Decode
import TypeScribe.Document.Error
import TypeScribe.Json.Decode
import TypeScribe.Toml.Decode

/-!
# Documents from texts

A text is decoded and the document is judged: the settings first, then the name of the service, then every
element, those of the service first.

* `Document.parse_eq`: a document is had from a text exactly when it is decoded and found good.
-/

namespace TypeScribe

/-- What is wrong with a document that was decoded. -/
inductive Objection where
  | indent (value : UInt8)
  | namelessService
  | tree (cause : RenderError)
deriving DecidableEq, Repr

/-- An objection to a text. -/
def Objection.error (source : Source) : Objection → DocumentError
  | .indent value =>
    source.complaint ("indent must be between 1 and " ++ toString OutputSettings.maxIndent.toNat ++ ", got "
      ++ toString value.toNat) (some "indent")
  | .namelessService => source.complaint "service name must not be empty" (some "name")
  | .tree cause => .invalidTree source.name cause

namespace Document

/-- The place of the elements that come from the service. -/
def servicePlace : String := "service.elements"

/-- Judges a document. -/
def judge (d : Document) : Except Objection Unit := do
  if !d.output.hasValidIndent then throw (.indent d.output.indent)
  if d.service.any fun m => isBlank m.name then throw .namelessService
  (validateFrom servicePlace 0 d.serviceElements).mapError .tree
  (validateFrom CodeFile.place 0 d.elements).mapError .tree

/-- Decodes a text in one of the two forms. -/
def decode (source : Source) : Format → Except DocumentError Document
  | .toml => (Toml.decode (readDocument .toml) source.text).mapError (.malformedToml source)
  | .json => (Json.decode (readDocument .json) source.text).mapError (.malformedJson source)

/-- The document that a text describes. -/
def parse (source : Source) (format : Format) : Except DocumentError Document := do
  let d ← decode source format
  d.judge.mapError (Objection.error source)
  return d

theorem parse_eq (source : Source) (format : Format) (d : Document) :
    parse source format = .ok d ↔ decode source format = .ok d ∧ d.judge = .ok () := by
  unfold parse
  cases decode source format with
  | error err => exact ⟨fun h => (nomatch h), fun h => (nomatch h.1)⟩
  | ok d' =>
    show (do d'.judge.mapError (Objection.error source); return d') = _ ↔ _
    cases hj : d'.judge with
    | error o =>
      refine ⟨fun h => (nomatch h), fun ⟨hd, hok⟩ => ?_⟩
      obtain rfl := Except.ok.inj hd
      exact (nomatch hj.symm.trans hok)
    | ok u => exact ⟨fun h => ⟨h, Except.ok.inj h ▸ hj⟩, fun h => h.1⟩

end Document

end TypeScribe
