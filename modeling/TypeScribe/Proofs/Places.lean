import TypeScribe.File

/-!
# Places of defects

Elements of a list are checked in order, and the first defect stops the check. Which element it is in and what
it is does not depend on where the list stands: only the name of the list and the number of the element go
into the place that is told.

* `validateFrom_eq`: a check comes to the first defect, told under its place.
* `firstDefect_append_left`, `firstDefect_append_right`: the first defect of two lists.
* `itemPlace_inj`: a place tells the number of the element and the way below it.
-/

namespace TypeScribe

/-- The place of an item of a list under the name of the list. -/
def itemPlace (list : String) (index : Nat) : String := list ++ "[" ++ toString index ++ "]"

/-- The first defect of elements counted from an index, with the number of the element that has it. -/
def firstDefect (index : Nat) (es : List Element) : Option (Nat × MissingField) :=
  (es.zipIdx index).findSome? fun (e, i) => e.missing?.map (i, ·)

@[simp] theorem firstDefect_nil (index : Nat) : firstDefect index [] = none := rfl

theorem firstDefect_cons (index : Nat) (e : Element) (es : List Element) :
    firstDefect index (e :: es) = (e.missing?.map (index, ·)).or (firstDefect (index + 1) es) := by
  rw [firstDefect, List.zipIdx_cons, List.findSome?_cons]
  cases hm : e.missing? with
  | none => simp only [hm]; rfl
  | some m => simp only [hm]; rfl

/-- Elements are checked up to the first defect. -/
theorem validateFrom_eq (list : String) (index : Nat) (es : List Element) :
    validateFrom list index es =
      match firstDefect index es with
      | none => .ok ()
      | some (i, m) => .error (m.at (itemPlace list i)) := by
  induction es generalizing index with
  | nil => rw [validateFrom, firstDefect_nil]
  | cons e es ih =>
    rw [validateFrom, Element.validate, firstDefect_cons]
    cases e.missing? with
    | none => exact ih (index + 1)
    | some m => rfl

theorem firstDefect_append (index : Nat) (a b : List Element) :
    firstDefect index (a ++ b) = (firstDefect index a).or (firstDefect (index + a.length) b) := by
  rw [firstDefect, List.zipIdx_append, List.findSome?_append]; rfl

theorem firstDefect_shift (index by' : Nat) (es : List Element) :
    firstDefect (by' + index) es = (firstDefect index es).map fun (i, m) => (by' + i, m) := by
  induction es generalizing index with
  | nil => rfl
  | cons e es ih =>
    rw [firstDefect_cons, firstDefect_cons, Nat.add_assoc, ih]
    cases e.missing? <;> rfl

theorem firstDefect_eq_none_iff {index : Nat} {es : List Element} :
    firstDefect index es = none ↔ ∀ e ∈ es, e.missing? = none := by
  induction es generalizing index with
  | nil => simp
  | cons e es ih => rw [firstDefect_cons, Option.or_eq_none_iff, ih]; simp

/-- The element with the first defect is one of the list. -/
theorem firstDefect_bounds {index i : Nat} {m : MissingField} {es : List Element}
    (h : firstDefect index es = some (i, m)) : index ≤ i ∧ i < index + es.length := by
  induction es generalizing index with
  | nil => simp at h
  | cons e es ih =>
    rw [firstDefect_cons] at h
    rw [List.length_cons]
    cases hm : e.missing? with
    | none =>
      rw [hm] at h
      have := ih h
      omega
    | some m' =>
      rw [hm] at h
      obtain ⟨rfl, -⟩ := Prod.mk.inj (Option.some.inj h)
      omega

theorem firstDefect_lt_length {i : Nat} {m : MissingField} {es : List Element}
    (h : firstDefect 0 es = some (i, m)) : i < es.length := by
  have := (firstDefect_bounds h).2
  omega

/-- A defect in the first part is the first defect of the whole. -/
theorem firstDefect_append_left {a : List Element} {d : Nat × MissingField} (h : firstDefect 0 a = some d)
    (b : List Element) : firstDefect 0 (a ++ b) = some d := by
  rw [firstDefect_append, h, Option.some_or]

/-- After a part without a defect, the first defect of the rest is that of the whole, counted on. -/
theorem firstDefect_append_right {a : List Element} (h : firstDefect 0 a = none) (b : List Element) :
    firstDefect 0 (a ++ b) = (firstDefect 0 b).map fun (i, m) => (a.length + i, m) := by
  rw [firstDefect_append, h, Option.none_or, Nat.zero_add]
  exact firstDefect_shift 0 a.length b

theorem getElem?_length_append_cons {α : Type} (before after : List α) (a : α) :
    (before ++ a :: after)[before.length]? = some a := by
  rw [List.getElem?_append_right (Nat.le_refl _), Nat.sub_self, List.getElem?_cons_zero]

/-- After elements without a defect, the defect of an element is the first one. -/
theorem firstDefect_of_first {before : List Element} {e : Element} {m : MissingField}
    (hbefore : ∀ b ∈ before, b.missing? = none) (he : e.missing? = some m) (after : List Element) :
    firstDefect 0 (before ++ e :: after) = some (before.length, m) := by
  rw [firstDefect_append_right (firstDefect_eq_none_iff.mpr hbefore), firstDefect_cons, he]
  rfl

/-! ## Files -/

/-- A file without a defect renders to its text, at any level. -/
theorem CodeFile.renderAt_eq_ok_iff {f : CodeFile} {indent : Indent} {level : Nat} {s : String} :
    f.renderAt indent level = .ok s ↔ firstDefect 0 f.elements = none ∧ s = f.text indent level := by
  rw [render_eq, validate, validateFrom_eq]
  cases firstDefect 0 f.elements with
  | none => exact ⟨fun h => ⟨rfl, (Except.ok.inj h).symm⟩, fun h => congrArg Except.ok h.2.symm⟩
  | some d => exact ⟨fun h => (nomatch h), fun h => (nomatch h.1)⟩

/-- A file with a defect fails with the first one, at any level. -/
theorem CodeFile.renderAt_eq_error_iff {f : CodeFile} {indent : Indent} {level : Nat} {err : RenderError} :
    f.renderAt indent level = .error err ↔
      ∃ i m, firstDefect 0 f.elements = some (i, m) ∧ err = m.at (itemPlace place i) := by
  rw [render_eq, validate, validateFrom_eq]
  cases firstDefect 0 f.elements with
  | none => exact ⟨fun h => (nomatch h), fun ⟨_, _, h, _⟩ => (nomatch h)⟩
  | some d =>
    refine ⟨fun h => ⟨d.1, d.2, rfl, (Except.error.inj h).symm⟩, fun ⟨i, m, hd, he⟩ => ?_⟩
    obtain rfl := Option.some.inj hd
    exact congrArg Except.error he.symm

/-- Of the elements of a file, rendering sees their fragments and what they lack, and nothing else. -/
theorem CodeFile.renderAt_congr {f g : CodeFile} (hbanner : bannerFragments f.banner = bannerFragments g.banner)
    (hfragments : f.elements.map (Element.fragments true) = g.elements.map (Element.fragments true))
    (hmissing : f.elements.map Element.missing? = g.elements.map Element.missing?) (indent : Indent) (level : Nat) :
    f.renderAt indent level = g.renderAt indent level := by
  have hdefect : ∀ (es others : List Element) (index : Nat), es.map Element.missing? = others.map Element.missing? →
      firstDefect index es = firstDefect index others := by
    intro es
    induction es with
    | nil =>
      intro others index h
      rw [List.map_eq_nil_iff.mp h.symm]
    | cons e es ih =>
      intro others index h
      cases others with
      | nil => exact absurd h (List.cons_ne_nil _ _)
      | cons other others =>
        obtain ⟨he, hes⟩ := List.cons.inj h
        rw [firstDefect_cons, firstDefect_cons, he, ih others (index + 1) hes]
  have hwrite : ∀ (es : List Element) (w : Writer), es.foldl writeElement w =
      (es.map (Element.fragments true)).foldl (fun w fragments => w.separator.writeAll fragments) w := by
    intro es w
    rw [List.foldl_map]; rfl
  rw [render_eq, render_eq, validate, validate, validateFrom_eq, validateFrom_eq, hdefect _ _ 0 hmissing, text, text,
    hwrite, hwrite, hfragments, hbanner]

/-! ## Reading a place -/

theorem bracket_not_mem_toString (n : Nat) : ']' ∉ (toString n).toList := by
  intro h
  rw [Nat.toString_eq_repr, Nat.toList_repr] at h
  exact absurd (Nat.isDigit_of_mem_toDigits (by decide) (by decide) h) (by decide)

/-- What stands before and after the first of a mark. -/
theorem split_at_mark {mark : Char} {as bs cs ds : List Char} (ha : mark ∉ as) (hb : mark ∉ bs)
    (h : as ++ mark :: cs = bs ++ mark :: ds) : as = bs ∧ cs = ds := by
  induction as generalizing bs with
  | nil =>
    cases bs with
    | nil => exact ⟨rfl, (List.cons.inj h).2⟩
    | cons b bs => exact absurd ((List.cons.inj h).1 ▸ List.mem_cons_self) hb
  | cons a as ih =>
    cases bs with
    | nil => exact absurd ((List.cons.inj h).1 ▸ List.mem_cons_self) ha
    | cons b bs =>
      obtain ⟨rfl, htail⟩ := List.cons.inj h
      obtain ⟨rfl, rfl⟩ := ih (fun m => ha (List.mem_cons_of_mem _ m))
        (fun m => hb (List.mem_cons_of_mem _ m)) htail
      exact ⟨rfl, rfl⟩

theorem toString_inj {i j : Nat} (h : (toString i).toList = (toString j).toList) : i = j := by
  have hd : Nat.toDigits 10 i = Nat.toDigits 10 j := by
    rwa [Nat.toString_eq_repr, Nat.toString_eq_repr, Nat.toList_repr, Nat.toList_repr] at h
  rw [← Nat.ofDigitChars_ten_toDigits (n := i), hd, Nat.ofDigitChars_ten_toDigits]

theorem itemPlace_inj {list s t : String} {i j : Nat} (h : itemPlace list i ++ s = itemPlace list j ++ t) :
    i = j ∧ s = t := by
  have h' : (toString i).toList ++ ']' :: s.toList = (toString j).toList ++ ']' :: t.toList := by
    have := congrArg String.toList h
    simp only [itemPlace, String.toList_append, List.append_assoc, List.append_cancel_left_eq] at this
    exact this
  obtain ⟨hi, hs⟩ := split_at_mark (bracket_not_mem_toString i) (bracket_not_mem_toString j) h'
  exact ⟨toString_inj hi, String.toList_inj.mp hs⟩

end TypeScribe
