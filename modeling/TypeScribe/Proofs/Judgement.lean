import TypeScribe.Document.Parse
import TypeScribe.Proofs.Requirements

/-!
# Judging and rendering

A document is judged by the first of the objections to it: to its settings, to the name of its service, to the
elements of the service and to its own elements, in this order. Its elements are checked once more when it is
rendered, as one list. With settings and a name that are fit both checks come to the same.

* `Document.judge_eq`: judging tells the first objection.
* `Document.judge_render`: judging and rendering fail alike or not at all.
* `Document.parse_judged`: what parsing and rendering come to.
-/

namespace TypeScribe

/-- The first of some objections, if there are any. -/
def verdict : List Objection → Except Objection Unit
  | [] => .ok ()
  | o :: _ => .error o

/-- An objection, unless something holds. -/
def objectUnless (p : Prop) [Decidable p] (o : Objection) : List Objection := if p then [] else [o]

/-- The objection to an element of a list, if it has a defect. -/
def treeObjection? (list : String) (index : Nat) (e : Element) : Option Objection :=
  match e.validate (itemPlace list index) with
  | .ok () => none
  | .error err => some (.tree err)

/-- The objections to the elements of a list under its name. -/
def treeObjections (list : String) (es : List Element) : List Objection :=
  es.zipIdx.filterMap fun (e, i) => treeObjection? list i e

namespace Document

/-- The spaces for a level are from one to eight. -/
def HasFitIndent (d : Document) : Prop := 1 ≤ d.output.indent.toNat ∧ d.output.indent.toNat ≤ 8

/-- The service has a name, if there is a service. -/
def HasFitName (d : Document) : Prop := ∀ m, d.service = some m → trimmed m.name ≠ ""

instance (d : Document) : Decidable d.HasFitIndent := inferInstanceAs (Decidable (_ ∧ _))

instance (d : Document) : Decidable d.HasFitName :=
  match h : d.service with
  | none => .isTrue fun _ hm => (nomatch h.symm.trans hm)
  | some m =>
    decidable_of_iff (trimmed m.name ≠ "")
      ⟨fun hn _ hm => Option.some.inj (h.symm.trans hm) ▸ hn, fun hf => hf m h⟩

/-- All objections to a document, in order. -/
def objections (d : Document) : List Objection :=
  objectUnless d.HasFitIndent (.indent d.output.indent) ++ objectUnless d.HasFitName .namelessService ++
    treeObjections servicePlace d.serviceElements ++ treeObjections CodeFile.place d.elements

/-- Judging and rendering fail with the same defect of the same element of a list: judging tells it under the
name of the list, rendering under that of the whole file, with the number counted on. -/
def FailsAlike (d : Document) (list : String) (count before : Nat) : Prop :=
  ∃ kind field i suffix, i < count ∧
    d.judge = .error (.tree ⟨kind, field, itemPlace list i ++ suffix⟩) ∧
    d.render = .error ⟨kind, field, itemPlace CodeFile.place (before + i) ++ suffix⟩

end Document

/-! ## The first objection -/

theorem objectUnless_eq_nil_iff {p : Prop} [Decidable p] {o : Objection} : objectUnless p o = [] ↔ p := by
  by_cases h : p
  · exact ⟨fun _ => h, fun _ => if_pos h⟩
  · exact ⟨fun he => absurd ((if_neg h).symm.trans he) (List.cons_ne_nil _ _), fun hp => absurd hp h⟩

theorem verdict_objectUnless {p : Prop} [Decidable p] {b : Bool} (h : b = true ↔ p) (o : Objection) :
    verdict (objectUnless p o) = if b then .ok () else .error o := by
  by_cases hp : p
  · rw [objectUnless, if_pos hp, if_pos (h.mpr hp), verdict]
  · rw [objectUnless, if_neg hp, if_neg (mt h.mp hp), verdict]

theorem verdict_append (a b : List Objection) : verdict (a ++ b) = (do verdict a; verdict b) := by
  cases a <;> rfl

/-- Elements are checked up to the first objection. -/
theorem validateFrom_eq_verdict (list : String) (es : List Element) :
    (validateFrom list 0 es).mapError .tree = verdict (treeObjections list es) := by
  have counted : ∀ index, (validateFrom list index es).mapError .tree =
      verdict ((es.zipIdx index).filterMap fun (e, i) => treeObjection? list i e) := by
    induction es with
    | nil => exact fun _ => rfl
    | cons e es ih =>
      intro index
      have hplace : list ++ "[" ++ toString index ++ "]" = itemPlace list index := rfl
      simp only [List.zipIdx_cons, List.filterMap_cons, validateFrom, hplace, treeObjection?]
      cases e.validate (itemPlace list index) with
      | ok u => exact ih (index + 1)
      | error err => rfl
  exact counted 0

theorem treeObjection?_eq_none_iff {list : String} {index : Nat} {e : Element} :
    treeObjection? list index e = none ↔ e.validate (itemPlace list index) = .ok () := by
  rw [treeObjection?]
  cases e.validate (itemPlace list index) with
  | ok u => exact ⟨fun _ => rfl, fun _ => rfl⟩
  | error err => exact ⟨fun h => (nomatch h), fun h => (nomatch h)⟩

/-- There is no objection to elements that pass a check, each at its place. -/
theorem treeObjections_eq_nil_iff {list : String} {es : List Element} :
    treeObjections list es = [] ↔
      ∀ (i : Nat) (e : Element), es[i]? = some e → e.validate (itemPlace list i) = .ok () := by
  rw [treeObjections, List.filterMap_eq_nil_iff]
  refine ⟨fun h i e he => ?_, fun h (e, i) hm => ?_⟩
  · exact treeObjection?_eq_none_iff.mp (h (e, i) (List.mk_mem_zipIdx_iff_getElem?.mpr he))
  · exact treeObjection?_eq_none_iff.mpr (h i e (List.mk_mem_zipIdx_iff_getElem?.mp hm))

namespace Document

theorem hasValidIndent_iff (d : Document) : d.output.hasValidIndent = true ↔ d.HasFitIndent := by
  rw [OutputSettings.hasValidIndent, Bool.and_eq_true, decide_eq_true_eq, decide_eq_true_eq,
    UInt8.le_iff_toNat_le, UInt8.le_iff_toNat_le]
  rfl

theorem named_iff (d : Document) : (!d.service.any fun m => isBlank m.name) = true ↔ d.HasFitName := by
  unfold HasFitName
  cases d.service with
  | none => exact ⟨fun _ _ h => (nomatch h), fun _ => rfl⟩
  | some m =>
    have hm : isBlank m.name = false ↔ trimmed m.name ≠ "" := by
      rw [ne_eq, trimmed_eq_empty_iff, Bool.not_eq_true]
    rw [Option.any_some, Bool.not_eq_true', hm]
    exact ⟨fun h m' h' => Option.some.inj h' ▸ h, fun h => h m rfl⟩

/-- A document is judged by the first objection to it. -/
theorem judge_eq (d : Document) : d.judge = verdict d.objections := by
  have hindent := verdict_objectUnless d.hasValidIndent_iff (.indent d.output.indent)
  have hname := verdict_objectUnless d.named_iff .namelessService
  rw [objections, verdict_append, verdict_append, verdict_append, hindent, hname, ← validateFrom_eq_verdict,
    ← validateFrom_eq_verdict, judge]
  cases d.output.hasValidIndent <;> cases d.service.any fun m => isBlank m.name <;> rfl

/-- There is no objection exactly when settings, name and elements pass. -/
theorem objections_eq_nil_iff {d : Document} :
    d.objections = [] ↔ d.HasFitIndent ∧ d.HasFitName ∧
      (∀ (i : Nat) (e : Element), d.serviceElements[i]? = some e →
        e.validate (itemPlace servicePlace i) = .ok ()) ∧
      ∀ (j : Nat) (e : Element), d.elements[j]? = some e →
        e.validate (itemPlace CodeFile.place j) = .ok () := by
  rw [objections, List.append_eq_nil_iff, List.append_eq_nil_iff, List.append_eq_nil_iff,
    objectUnless_eq_nil_iff, objectUnless_eq_nil_iff, treeObjections_eq_nil_iff, treeObjections_eq_nil_iff,
    and_assoc, and_assoc]

/-- A text is parsed by decoding it and telling the first objection to the document. -/
theorem parse_eq_match (source : Source) (format : Format) :
    parse source format = match decode source format with
      | .error err => .error err
      | .ok d => match d.objections with
        | [] => .ok d
        | o :: _ => .error (o.error source) := by
  rw [parse]
  cases decode source format with
  | error err => rfl
  | ok d =>
    show (do d.judge.mapError (Objection.error source); return d) = _
    rw [judge_eq]
    cases ho : d.objections with
    | nil => simp only [ho]; rfl
    | cons o rest => simp only [ho]; rfl

/-- With fit settings and a fit name a document is judged by the first defects of its two lists. -/
theorem judge_of_fit {d : Document} (hi : d.HasFitIndent) (hn : d.HasFitName) :
    d.judge = (do
      (validateFrom servicePlace 0 d.serviceElements).mapError .tree
      (validateFrom CodeFile.place 0 d.elements).mapError .tree) := by
  rw [judge_eq, objections, objectUnless, objectUnless, if_pos hi, if_pos hn, validateFrom_eq_verdict,
    validateFrom_eq_verdict, List.nil_append, List.nil_append, verdict_append]

/-- Judging and rendering come to the same for a document with fit settings and a fit name. -/
theorem judge_render {d : Document} (hi : d.HasFitIndent) (hn : d.HasFitName) :
    (d.judge = .ok () ∧ ∃ text, d.render = .ok text) ∨
      d.FailsAlike servicePlace d.serviceElements.length 0 ∨
      d.FailsAlike CodeFile.place d.elements.length d.serviceElements.length := by
  have hrender : ∀ i m, firstDefect 0 d.allElements = some (i, m) →
      d.render = .error (m.at (itemPlace CodeFile.place i)) :=
    fun i m h => CodeFile.renderAt_eq_error_iff.mpr ⟨i, m, h, rfl⟩
  have hjudge := judge_of_fit hi hn
  rw [validateFrom_eq, validateFrom_eq] at hjudge
  cases hs : firstDefect 0 d.serviceElements with
  | some found =>
    obtain ⟨i, m⟩ := found
    rw [hs] at hjudge
    refine .inr (.inl ⟨m.kind, m.field, i, pathText m.steps, firstDefect_lt_length hs, hjudge, ?_⟩)
    rw [Nat.zero_add]
    exact hrender i m (firstDefect_append_left hs d.elements)
  | none =>
    have happend : firstDefect 0 d.allElements = _ := firstDefect_append_right hs d.elements
    rw [hs] at hjudge
    cases he : firstDefect 0 d.elements with
    | some found =>
      obtain ⟨j, m⟩ := found
      have hlt : j < d.elements.length := firstDefect_lt_length he
      rw [he] at hjudge happend
      exact .inr (.inr ⟨m.kind, m.field, j, pathText m.steps, hlt, hjudge, hrender _ m happend⟩)
    | none =>
      rw [he] at hjudge happend
      exact .inl ⟨hjudge, _, CodeFile.renderAt_eq_ok_iff.mpr ⟨happend, rfl⟩⟩

/-- A document that a text was parsed to renders. -/
theorem render_of_parse {source : Source} {format : Format} {d : Document} (h : parse source format = .ok d) :
    ∃ text, d.render = .ok text := by
  have hjudge : d.judge = .ok () := ((parse_eq source format d).mp h).2
  have hnone : d.objections = [] := by
    rw [judge_eq] at hjudge
    cases ho : d.objections with
    | nil => rfl
    | cons o rest => rw [ho] at hjudge; exact (nomatch hjudge)
  obtain ⟨hi, hn, -⟩ := objections_eq_nil_iff.mp hnone
  rcases judge_render hi hn with ⟨-, ht⟩ | ⟨_, _, _, _, -, he, -⟩ | ⟨_, _, _, _, -, he, -⟩
  · exact ht
  · exact (nomatch hjudge.symm.trans he)
  · exact (nomatch hjudge.symm.trans he)

/-- A text is parsed exactly when it is decoded to a document that nothing is objected to, and otherwise the
first objection is told. A document that was parsed renders, and judging and rendering come to the same for
every document with fit settings and a fit name. -/
theorem parse_judged (source : Source) (format : Format) :
    (parse source format = match decode source format with
      | .error err => .error err
      | .ok d => match d.objections with
        | [] => .ok d
        | o :: _ => .error (o.error source)) ∧
    (∀ d : Document, d.objections = [] ↔ d.HasFitIndent ∧ d.HasFitName ∧
      (∀ (i : Nat) (e : Element), d.serviceElements[i]? = some e →
        e.validate (itemPlace servicePlace i) = .ok ()) ∧
      ∀ (j : Nat) (e : Element), d.elements[j]? = some e → e.validate (itemPlace CodeFile.place j) = .ok ()) ∧
    (∀ d, parse source format = .ok d → ∃ text, d.render = .ok text) ∧
    (∀ d : Document, d.HasFitIndent → d.HasFitName →
      (d.judge = .ok () ∧ ∃ text, d.render = .ok text) ∨
        d.FailsAlike servicePlace d.serviceElements.length 0 ∨
        d.FailsAlike CodeFile.place d.elements.length d.serviceElements.length) :=
  ⟨parse_eq_match source format, fun _ => objections_eq_nil_iff, fun _ => render_of_parse,
    fun _ hi hn => judge_render hi hn⟩

/-- An empty object is parsed to a document that renders, and a service with a member without a name is found
by judging and rendering alike. -/
theorem parse_judged_empty_service :
    (∃ text, (Document.mk {} none []).render = .ok text) ∧
      (Document.mk {} (some { name := "S", enumTypes := [⟨"E", [.bare ""]⟩] }) []).FailsAlike
        servicePlace 5 0 := by
  have judged := parse_judged ⟨"a.json", "\x7b\x7d"⟩ .json
  refine ⟨judged.2.2.1 _ (by with_unfolding_all rfl), ?_⟩
  rcases judged.2.2.2 (Document.mk {} (some { name := "S", enumTypes := [⟨"E", [.bare ""]⟩] }) []) (by decide)
    (by decide) with ⟨hok, -⟩ | hservice | ⟨_, _, _, _, hlt, -⟩
  · have hfound :
        Except.error (Objection.tree ⟨.enumMember, "name", "service.elements[2].members[0]"⟩) = .ok () := hok
    cases hfound
  · exact hservice
  · exact absurd hlt (Nat.not_lt_zero _)

end Document

end TypeScribe
