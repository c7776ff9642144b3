import TypeScribe.Proofs.FileRows
import TypeScribe.Proofs.Places

/-!
# Files from parts

The code of two lists of elements is the code of the first, a line feed unless its last element is a loop, and
the code of the second; a banner stands in front of the code without it. What is missing in a part is missing
in the whole, with the place counted on.

* `CodeFile.renderAt_append`: both, with their errors.
-/

namespace TypeScribe

namespace CodeFile

/-- What stands between the code of some elements and that of elements after them: nothing after a loop. -/
def gapText (es : List Element) : String :=
  match es.getLast? with
  | some (.forLoop ..) | some (.forOfLoop ..) => ""
  | _ => "\n"

/-- The comment lines of a banner, set off from the elements where there is something of both. -/
def bannerText (indent : Indent) (level : Nat) (banner : String) (es : List Element) : String :=
  String.join ((lines banner).map fun line => indent.lead level ++ "// " ++ line ++ "\n") ++
    if lines banner = [] ∨ es = [] then "" else "\n"

variable {indent : Indent} {level : Nat}

/-- The rows of the gap after some elements are written as the text between them and what follows. -/
theorem rowsText_gapAfter {es : List Element} (h : es ≠ []) : rowsText indent (gapAfter es) = gapText es := by
  rw [gapAfter, gapText, List.getLast?_eq_some_getLast h]
  cases es.getLast h <;> first | exact rowsText_bare | rfl

theorem text_append {a b : List Element} (ha : a ≠ []) (hb : b ≠ []) :
    (ofElements (a ++ b)).text indent level =
      (ofElements a).text indent level ++ gapText a ++ (ofElements b).text indent level := by
  rw [text_ofElements, elementRows_append true level a hb, rowsText_append, rowsText_append,
    rowsText_gapAfter ha, ← text_ofElements, ← text_ofElements]

/-- The rows of a banner and its gap are written as the comment lines and the line feed after them. -/
theorem rowsText_banner (banner : String) (es : List Element) :
    rowsText indent (bannerRows level (some banner) ++ bannerGap level (some banner) es) =
      bannerText indent level banner es := by
  have hempty : bannerRows level (some banner) = [] ↔ lines banner = [] := by
    rw [bannerRows_some, List.map_eq_nil_iff]
  have hlines : rowsText indent (bannerRows level (some banner)) =
      String.join ((lines banner).map fun line => indent.lead level ++ "// " ++ line ++ "\n") := by
    rw [bannerRows_some, rowsText, List.map_map]
    refine congrArg String.join (List.map_congr_left fun line _ => ?_)
    simp only [Function.comp_apply, Row.text, String.append_assoc]
  rw [rowsText_append, hlines, bannerText, bannerGap]
  simp only [hempty]
  split
  · rw [rowsText_nil]
  · rw [rowsText_bare]

theorem text_banner (banner : String) (es : List Element) :
    (CodeFile.mk (some banner) es).text indent level =
      bannerText indent level banner es ++ (ofElements es).text indent level := by
  rw [text_eq_rows, rows, rowsText_append, rowsText_banner, text_ofElements]

/-! ## Results -/

/-- Rendering composes: the code of two lists is that of the first, the gap after it and that of the second,
and its error is the error of the first list, or else that of the second with the number of the element
counted on. A banner and its gap stand in front of the code without it, and change no error. -/
theorem renderAt_append (indent : Indent) (level : Nat) :
    (∀ a b : List Element, a ≠ [] → b ≠ [] →
      (∀ s t, (ofElements a).renderAt indent level = .ok s → (ofElements b).renderAt indent level = .ok t →
        (ofElements (a ++ b)).renderAt indent level = .ok (s ++ gapText a ++ t)) ∧
      (∀ err, (ofElements a).renderAt indent level = .error err →
        (ofElements (a ++ b)).renderAt indent level = .error err) ∧
      (∀ s err, (ofElements a).renderAt indent level = .ok s →
        (ofElements b).renderAt indent level = .error err →
        (∃ i suffix, i < b.length ∧ err.path = itemPlace place i ++ suffix) ∧
        ∀ i suffix, err.path = itemPlace place i ++ suffix →
          (ofElements (a ++ b)).renderAt indent level =
            .error ⟨err.kind, err.field, itemPlace place (a.length + i) ++ suffix⟩)) ∧
    (∀ banner es, (CodeFile.mk (some banner) es).renderAt indent level =
      ((ofElements es).renderAt indent level).map (bannerText indent level banner es ++ ·)) := by
  refine ⟨fun a b ha hb => ⟨fun s t hs ht => ?_, fun err he => ?_, fun s err hs he => ?_⟩,
    fun banner es => ?_⟩
  · obtain ⟨da, rfl⟩ := renderAt_eq_ok_iff.mp hs
    obtain ⟨db, rfl⟩ := renderAt_eq_ok_iff.mp ht
    refine renderAt_eq_ok_iff.mpr ⟨?_, (text_append ha hb).symm⟩
    exact (firstDefect_append_right da b).trans (by rw [show firstDefect 0 b = none from db]; rfl)
  · obtain ⟨i, m, da, rfl⟩ := renderAt_eq_error_iff.mp he
    exact renderAt_eq_error_iff.mpr ⟨i, m, firstDefect_append_left da b, rfl⟩
  · obtain ⟨da, -⟩ := renderAt_eq_ok_iff.mp hs
    obtain ⟨i, m, db, rfl⟩ := renderAt_eq_error_iff.mp he
    refine ⟨⟨i, pathText m.steps, firstDefect_lt_length db, rfl⟩, fun j suffix hp => ?_⟩
    obtain ⟨rfl, rfl⟩ := itemPlace_inj
      (show itemPlace place i ++ pathText m.steps = itemPlace place j ++ suffix from hp)
    refine renderAt_eq_error_iff.mpr ⟨a.length + i, m, ?_, rfl⟩
    exact (firstDefect_append_right da b).trans (by rw [show firstDefect 0 b = some (i, m) from db]; rfl)
  · rw [render_eq, render_eq, text_banner]
    show (validateFrom place 0 es).map _ = ((validateFrom place 0 es).map _).map _
    cases validateFrom place 0 es <;> rfl

/-- A loop in front of an alias, and an alias in front of a constant without a name. -/
theorem renderAt_append_loop_alias :
    (ofElements [.forLoop {} [], .typeDecl { name := "Id", value := "string" }]).renderAt .tab 1 =
        .ok "\tfor (; ; ) \x7b\x7d\n\n\ttype Id = string;\n" ∧
      (ofElements [.typeDecl { name := "Id", value := "string" },
        .constDecl { name := " ", value := .object [] }]).renderAt .tab 1 =
        .error ⟨.constDecl, "name", "elements[1]"⟩ := by
  have hloop : (ofElements [.forLoop {} []]).renderAt .tab 1 = .ok "\tfor (; ; ) \x7b\x7d\n\n" := rfl
  have halias : (ofElements [.typeDecl { name := "Id", value := "string" }]).renderAt .tab 1 =
      .ok "\ttype Id = string;\n" := rfl
  have hconst : (ofElements [.constDecl { name := " ", value := .object [] }]).renderAt .tab 1 =
      .error ⟨.constDecl, "name", "elements[0]"⟩ := rfl
  have hplace : "elements[0]" = itemPlace place 0 ++ "" := rfl
  have parts := fun a b ha hb => (renderAt_append .tab 1).1 a b ha hb
  exact ⟨(parts _ _ (List.cons_ne_nil _ _) (List.cons_ne_nil _ _)).1 _ _ hloop halias,
    ((parts _ _ (List.cons_ne_nil _ _) (List.cons_ne_nil _ _)).2.2 _ _ halias hconst).2 0 "" hplace⟩

end CodeFile

end TypeScribe
