import TypeScribe.Proofs.Conformity
import TypeScribe.Proofs.Judgement

/-!
# The two forms of documents

A text in nested objects and one in tables with headers that say the same come to the same. Of the readers of the
two forms nothing is used but that they deliver what the texts say: each gets through its text, and what it read
holds the tree.

* `Delivers`: a text says a tree.
* `Document.decode_of_reads`: decoding a text that was read is decoding what was read.
* `Document.parse_formats`: the same document is parsed from both texts, or both fail alike.
-/

namespace TypeScribe

/-- The reader of a form gets through a text and reads a value. -/
def Format.Reads (text : String) (n : Node) : Format → Prop
  | .json => ∃ next, Json.parse text.toList = (n, .ok next) ∧ (Json.skipBlanks next).ahead = []
  | .toml => Toml.parse text.toList = some n

/-- Reading a text decides what is read of it. -/
instance (format : Format) (text : String) (n : Node) : Decidable (format.Reads text n) :=
  match format with
  | .toml => inferInstanceAs (Decidable (Toml.parse text.toList = some n))
  | .json =>
    match hparse : Json.parse text.toList with
    | (m, .ok next) =>
      decidable_of_iff (m = n ∧ (Json.skipBlanks next).ahead = []) (by simp [Format.Reads, hparse])
    | (m, .error fault) => .isFalse (by simp [Format.Reads, hparse])

/-- A text in some form says a tree: what is read of it holds the tree. -/
def Delivers (format : Format) (text : String) (t : Tree) : Prop :=
  ∃ n, format.Reads text n ∧ n.Holds t

/-- Two parsings fail at the same stage: both texts cannot be decoded, or the same is wrong with what both say. -/
inductive DocumentError.FailsLike : DocumentError → DocumentError → Prop
  | malformed (source source' : Source) (failure : Json.Failure) (failure' : Toml.Failure) :
    FailsLike (.malformedJson source failure) (.malformedToml source' failure')
  | complaint (source source' : Source) (message : String) (span span' : Option Span) :
    FailsLike (.complaint source message span) (.complaint source' message span')
  | invalidTree (name : String) (cause : RenderError) :
    FailsLike (.invalidTree name cause) (.invalidTree name cause)

/-- The same objection to two texts of one name. -/
theorem Objection.error_alike (o : Objection) (name text text' : String) :
    (o.error ⟨name, text⟩).FailsLike (o.error ⟨name, text'⟩) := by
  cases o with
  | indent value => exact .complaint _ _ _ _ _
  | namelessService => exact .complaint _ _ _ _ _
  | tree cause => exact .invalidTree name cause

namespace Document

variable {source : Source} {n : Node}

/-- What is read is decoded. -/
theorem decode_of_reads {format : Format} (h : format.Reads source.text n) {d : Document}
    (hd : readDocument format n = .ok d) : decode source format = .ok d := by
  cases format with
  | toml => rw [decode, Toml.decode_of_parse h, hd]; rfl
  | json =>
    obtain ⟨next, hparse, hend⟩ := h
    rw [decode, Json.decode, hparse]
    simp only [hd, hend]
    rfl

/-- What is read and cannot be decoded is malformed. -/
theorem decode_json_of_reads {f : Fault} (h : Format.json.Reads source.text n)
    (hf : readDocument .json n = .error f) :
    ∃ failure, decode source .json = .error (.malformedJson source failure) := by
  obtain ⟨next, hparse, -⟩ := h
  rw [decode, Json.decode, hparse]
  simp only [hf]
  exact ⟨_, rfl⟩

theorem decode_toml_of_reads {f : Fault} (h : Format.toml.Reads source.text n)
    (hf : readDocument .toml n = .error f) :
    ∃ failure, decode source .toml = .error (.malformedToml source failure) := by
  rw [decode, Toml.decode_of_parse h, hf]
  exact ⟨_, rfl⟩

/-- From two texts of one name that say one plain tree, one in each form, the same document is parsed, and it
renders; or both cannot be decoded; or both are decoded and the same is wrong with them. -/
theorem parse_formats (name : String) {json toml : String} {t : Tree} (hjson : Delivers .json json t)
    (htoml : Delivers .toml toml t) (hp : IsPlain (.record .document) t) :
    (∃ d text, parse ⟨name, json⟩ .json = .ok d ∧ parse ⟨name, toml⟩ .toml = .ok d ∧ d.render = .ok text) ∨
      ∃ e e', parse ⟨name, json⟩ .json = .error e ∧ parse ⟨name, toml⟩ .toml = .error e' ∧ e.FailsLike e' := by
  obtain ⟨n, hn, hholds⟩ := hjson
  obtain ⟨n', hn', hholds'⟩ := htoml
  have hj : Format.json.Reads (Source.mk name json).text n := hn
  have ht : Format.toml.Reads (Source.mk name toml).text n' := hn'
  -- What was read agrees, so both texts are decoded or none, and then the same document is judged.
  rcases (readDocument_alike .json .toml n n' t (Nat.le_refl _) hholds hholds' hp).both with
    ⟨-, d, hd, hd'⟩ | ⟨-, f, g, hf, hg⟩
  · have hparse := parse_eq_match ⟨name, json⟩ .json
    have hparse' := parse_eq_match ⟨name, toml⟩ .toml
    rw [decode_of_reads hj hd] at hparse
    rw [decode_of_reads ht hd'] at hparse'
    cases ho : d.objections with
    | nil =>
      simp only [ho] at hparse hparse'
      obtain ⟨text, hr⟩ := render_of_parse hparse
      exact .inl ⟨d, text, hparse, hparse', hr⟩
    | cons o rest =>
      simp only [ho] at hparse hparse'
      exact .inr ⟨_, _, hparse, hparse', o.error_alike name json toml⟩
  · obtain ⟨failure, hx⟩ := decode_json_of_reads hj hf
    obtain ⟨failure', hy⟩ := decode_toml_of_reads ht hg
    refine .inr ⟨_, _, ?_, ?_, .malformed ⟨name, json⟩ ⟨name, toml⟩ failure failure'⟩
    · rw [parse_eq_match, hx]
    · rw [parse_eq_match, hy]

/-- Without a name of its service a document fails alike in both forms, with one table in another or a key with a
dot. -/
theorem parse_formats_nameless :
    let json := "\x7b\"service\":\x7b\"name\":\"\"\x7d\x7d"
    let toml := "service.name=''"
    let t := Tree.table [("service", .table [("name", .text "")])]
    Delivers .json json t ∧ Delivers .toml toml t ∧ IsPlain (.record .document) t ∧
      ∃ e e', parse ⟨"a", json⟩ .json = .error e ∧ parse ⟨"a", toml⟩ .toml = .error e' ∧ e.FailsLike e' := by
  intro json toml t
  have hreads : Format.json.Reads json (.table ⟨0, 23⟩ [⟨⟨"service", ⟨1, 10⟩⟩, .table ⟨11, 22⟩
      [⟨⟨"name", ⟨12, 18⟩⟩, .text ⟨19, 21⟩ ""⟩] true⟩] true) := by decide +kernel
  have hreads' : Format.toml.Reads toml (.table ⟨0, 0⟩ [⟨⟨"service", ⟨0, 7⟩⟩, .table ⟨0, 7⟩
      [⟨⟨"name", ⟨8, 12⟩⟩, .text ⟨13, 15⟩ ""⟩] true⟩] true) := by decide +kernel
  have hjson : Delivers .json json t := ⟨_, hreads, .table _ (.cons _ _ (.table _ (.cons _ _ (.text _ _) .nil)) .nil)⟩
  have htoml : Delivers .toml toml t := ⟨_, hreads', .table _ (.cons _ _ (.table _ (.cons _ _ (.text _ _) .nil)) .nil)⟩
  have hservice : Conforms (.record .service) (.table [("name", .text "")]) :=
    conforms_record_iff.mpr ⟨(fillable_cons (.needed "name" .text) (by decide) (by decide)).mpr
      ⟨by decide, .text _, by simp, .nil⟩, by decide⟩
  have ht : Conforms (.record .document) t :=
    conforms_record_iff.mpr ⟨(fillable_cons (.optional "service" (.nullable (.record .service))) (by decide)
      (by decide)).mpr ⟨by decide, .nullable hservice, by simp, .nil⟩, by decide⟩
  have hfails : (parse ⟨"a", json⟩ .json).isOk = false := by decide +kernel
  refine ⟨hjson, htoml, ht.isPlain, ?_⟩
  rcases parse_formats "a" hjson htoml ht.isPlain with ⟨d, text, hd, -⟩ | h
  · rw [hd] at hfails
    cases hfails
  · exact h

end Document

end TypeScribe
