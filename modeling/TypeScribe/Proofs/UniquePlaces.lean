import Mathlib.Data.List.Nodup
import TypeScribe.Proofs.Canonical
import TypeScribe.Proofs.Holes

/-!
# Unambiguous places

Where a blank text is told, by its field and the path to it, no other required text of the same tree is told: the texts
of a thing stand in different fields, the parts under different lists, the items of a list under different numbers, and
the entries of an object and the types of fields under different names. A path can be read back into its steps as long
as no name in it holds one of its marks.

* `pathText_injective`: different ways are written differently.
* `Legible`, `Within`: places that differ pairwise and can be read back, and the fields and lists they stand in.
* `Element.legible`: the required texts of an element have such places.
* `validateFrom_unambiguous`: two required texts are never told alike.
-/

namespace TypeScribe

/-! ## Reading a path -/

/-- A name without the marks of a path. -/
def IsUnmarked (name : String) : Prop := '.' ∉ name.toList ∧ '[' ∉ name.toList ∧ ']' ∉ name.toList

instance (name : String) : Decidable (IsUnmarked name) := inferInstanceAs (Decidable (_ ∧ _ ∧ _))

namespace Step

/-- The name of a step: that of the list of an item, or that of the entry itself. -/
def name : Step → String
  | item field _ => field
  | key name => name

/-- How a step goes on behind its name. -/
def mark : Step → List Char
  | item _ index => '[' :: (toString index).toList ++ [']']
  | key _ => []

theorem toList_text (step : Step) : step.text.toList = '.' :: step.name.toList ++ step.mark := by
  cases step with
  | item field index =>
    simp only [text, name, mark, String.toList_append, List.append_assoc]; rfl
  | key name =>
    simp only [text, Step.name, mark, String.toList_append, List.append_nil]; rfl

end Step

theorem toList_pathText_cons (step : Step) (rest : List Step) :
    (pathText (step :: rest)).toList = '.' :: step.name.toList ++ step.mark ++ (pathText rest).toList := by
  rw [pathText, List.map_cons, String.join_cons, String.toList_append, Step.toList_text]; rfl

/-- A path and a mark behind it begin with a mark. -/
theorem pathText_mark (steps : List Step) : ∃ cs, (pathText steps).toList ++ ['.'] = '.' :: cs := by
  cases steps with
  | nil => exact ⟨_, rfl⟩
  | cons step rest => exact ⟨_, by rw [toList_pathText_cons]; rfl⟩

/-- What stands before the first of some marks, and which one it is. -/
theorem split_at_marks {p : Char → Prop} {as bs cs ds : List Char} {a b : Char} (has : ∀ c ∈ as, ¬p c)
    (hbs : ∀ c ∈ bs, ¬p c) (ha : p a) (hb : p b) (h : as ++ a :: cs = bs ++ b :: ds) :
    as = bs ∧ a :: cs = b :: ds := by
  induction as generalizing bs with
  | nil =>
    cases bs with
    | nil => exact ⟨rfl, h⟩
    | cons b' bs => exact absurd ((List.cons.inj h).1 ▸ ha) (hbs b' List.mem_cons_self)
  | cons a' as ih =>
    cases bs with
    | nil => exact absurd ((List.cons.inj h).1 ▸ hb) (has a' List.mem_cons_self)
    | cons b' bs =>
      obtain ⟨rfl, htail⟩ := List.cons.inj h
      rw [List.forall_mem_cons] at has hbs
      obtain ⟨rfl, hmarks⟩ := ih has.2 hbs.2 htail
      exact ⟨rfl, hmarks⟩

/-- The first step of a path and the rest of it, from the path and a mark behind it. -/
theorem step_cancel {s t : Step} (hs : IsUnmarked s.name) (ht : IsUnmarked t.name) {cs ds : List Char}
    (h : s.name.toList ++ (s.mark ++ '.' :: cs) = t.name.toList ++ (t.mark ++ '.' :: ds)) : s = t ∧ cs = ds := by
  have hfree : ∀ {name : String}, IsUnmarked name → ∀ c ∈ name.toList, ¬(c = '.' ∨ c = '[') := by
    rintro name hname c hc (rfl | rfl)
    · exact hname.1 hc
    · exact hname.2.1 hc
  cases s with
  | item list i =>
    cases t with
    | item other j =>
      obtain ⟨hlist, hrest⟩ := split_at_marks (hfree hs) (hfree ht) (.inr rfl) (.inr rfl) h
      obtain ⟨hindex, hcs⟩ := split_at_mark (bracket_not_mem_toString i) (bracket_not_mem_toString j)
        (by simpa [Step.mark] using (List.cons.inj hrest).2)
      obtain rfl := String.toList_inj.mp hlist
      obtain rfl := toString_inj hindex
      exact ⟨rfl, (List.cons.inj hcs).2⟩
    | key name =>
      obtain ⟨-, hrest⟩ := split_at_marks (hfree hs) (hfree ht) (.inr rfl) (.inl rfl) h
      exact absurd (List.cons.inj hrest).1 (by decide)
  | key name =>
    cases t with
    | item other j =>
      obtain ⟨-, hrest⟩ := split_at_marks (hfree hs) (hfree ht) (.inl rfl) (.inr rfl) h
      exact absurd (List.cons.inj hrest).1 (by decide)
    | key other =>
      obtain ⟨hname, hrest⟩ := split_at_marks (hfree hs) (hfree ht) (.inl rfl) (.inl rfl) h
      obtain rfl := String.toList_inj.mp hname
      exact ⟨rfl, (List.cons.inj hrest).2⟩

/-- Different ways are written differently if no name in them holds a mark. -/
theorem pathText_injective {steps others : List Step} (hsteps : ∀ s ∈ steps, IsUnmarked s.name)
    (hothers : ∀ s ∈ others, IsUnmarked s.name) (h : pathText steps = pathText others) : steps = others := by
  -- A mark behind both paths is that of a next step wherever one of them ends.
  suffices key : ∀ {steps others : List Step}, (∀ s ∈ steps, IsUnmarked s.name) → (∀ s ∈ others, IsUnmarked s.name) →
      (pathText steps).toList ++ ['.'] = (pathText others).toList ++ ['.'] → steps = others from
    key hsteps hothers (by rw [h])
  intro steps
  induction steps with
  | nil =>
    intro others _ _ h
    cases others with
    | nil => rfl
    | cons t others =>
      rw [toList_pathText_cons] at h
      simp [pathText] at h
  | cons s steps ih =>
    intro others hsteps hothers h
    rw [List.forall_mem_cons] at hsteps
    cases others with
    | nil =>
      rw [toList_pathText_cons] at h
      simp [pathText] at h
    | cons t others =>
      rw [List.forall_mem_cons] at hothers
      obtain ⟨cs, hcs⟩ := pathText_mark steps
      obtain ⟨ds, hds⟩ := pathText_mark others
      simp only [toList_pathText_cons, List.append_assoc, List.cons_append, hcs, hds] at h
      obtain ⟨rfl, rfl⟩ := step_cancel hsteps.1 hothers.1 (List.cons.inj h).2
      rw [ih hsteps.2 hothers.2 (hcs.trans hds.symm)]

/-! ## Places -/

/-- Where a text is told: in which field, and the steps to the thing that needs it. -/
structure TextPlace where
  field : String
  steps : List Step
deriving DecidableEq

/-- Where the way to a text begins: in a field of the thing itself, or below one of its lists or entries. -/
inductive Origin where
  | own (field : String)
  | below (name : String)
deriving DecidableEq

namespace TextPlace

def origin (l : TextPlace) : Origin :=
  match l.steps with
  | [] => .own l.field
  | step :: _ => .below step.name

/-- The same place, seen from one step further up. -/
def under (step : Step) (l : TextPlace) : TextPlace := ⟨l.field, step :: l.steps⟩

theorem under_injective (step : Step) : Function.Injective (under step) := by
  rintro ⟨field, steps⟩ ⟨other, others⟩ h
  obtain ⟨hfield, hsteps⟩ := TextPlace.mk.inj h
  exact congr (congrArg mk hfield) (List.cons.inj hsteps).2

end TextPlace

def MissingField.textPlace (m : MissingField) : TextPlace := ⟨m.field, m.steps⟩

section

variable {α β : Type} {part : α} {whole : β}

namespace Holes

/-- Where the required texts are told. -/
def places (holes : Holes whole) : List TextPlace := holes.map (·.missing.textPlace)

@[simp] theorem places_append (holes others : Holes whole) :
    (holes ++ others).places = holes.places ++ others.places :=
  List.map_append

@[simp] theorem places_inside (holes : Holes part) (put : α → β) (hput : Holes.Restores put part whole) :
    (holes.inside put hput).places = holes.places := by
  rw [places, inside, List.map_map]; rfl

@[simp] theorem places_under (holes : Holes part) (step : Step) :
    (holes.under step).places = holes.places.map (.under step) := by
  rw [places, under, places, List.map_map, List.map_map]; rfl

@[simp] theorem places_required (kind : Kind) (field text : String) :
    (required kind field text).places = [⟨field, []⟩] :=
  rfl

end Holes

end

/-- Places that differ pairwise, on ways that can be read back. -/
structure Legible (ls : List TextPlace) : Prop where
  nodup : ls.Nodup
  unmarked : ∀ l ∈ ls, ∀ s ∈ l.steps, IsUnmarked s.name

/-- Legible places, with the beginnings of the ways to them. -/
structure Within (origins : List Origin) (ls : List TextPlace) : Prop extends Legible ls where
  within : ∀ l ∈ ls, l.origin ∈ origins

theorem Legible.nil : Legible [] := ⟨List.nodup_nil, fun _ h => absurd h List.not_mem_nil⟩

theorem Legible.under {ls : List TextPlace} (h : Legible ls) {step : Step} (hstep : IsUnmarked step.name) :
    Within [.below step.name] (ls.map (.under step)) where
  nodup := List.Nodup.map (TextPlace.under_injective step) h.nodup
  unmarked := by
    intro l hl
    obtain ⟨l, hmem, rfl⟩ := List.mem_map.mp hl
    exact List.forall_mem_cons.mpr ⟨hstep, h.unmarked l hmem⟩
  within := by
    intro l hl
    obtain ⟨l, -, rfl⟩ := List.mem_map.mp hl
    exact List.mem_singleton_self _

namespace Within

variable {origins others : List Origin} {ls more : List TextPlace}

theorem nil : Within origins [] := ⟨.nil, fun _ h => absurd h List.not_mem_nil⟩

theorem required (kind : Kind) (field text : String) : Within [.own field] (Holes.required kind field text).places where
  nodup := List.pairwise_singleton _ _
  unmarked := List.forall_mem_singleton.mpr fun _ h => absurd h List.not_mem_nil
  within := List.forall_mem_singleton.mpr (List.mem_singleton_self _)

theorem mono (h : Within origins ls) (hsub : origins ⊆ others) : Within others ls :=
  ⟨h.toLegible, fun l hl => hsub (h.within l hl)⟩

/-- Ways that begin differently lead to different places. -/
theorem append (hdisjoint : ∀ o ∈ origins, o ∉ others) (h : Within origins ls) (hmore : Within others more) :
    Within (origins ++ others) (ls ++ more) where
  nodup := List.Nodup.append h.nodup hmore.nodup fun l hl hl' => hdisjoint _ (h.within l hl) (hmore.within l hl')
  unmarked := List.forall_mem_append.mpr ⟨h.unmarked, hmore.unmarked⟩
  within := List.forall_mem_append.mpr
    ⟨fun l hl => List.mem_append_left _ (h.within l hl), fun l hl => List.mem_append_right _ (hmore.within l hl)⟩

theorem optional (kind : Kind) (field : String) (text : Option String) :
    Within [.own field] (Holes.optional kind field text).places := by
  cases text with
  | none => exact nil
  | some text => exact required kind field text

section

variable {α β : Type} {part : α} {whole : β} {holes : Holes part} {put : α → β}

/-- The places of a part and then others. -/
theorem part_append {rest : Holes whole} (hput : Holes.Restores put part whole)
    (hdisjoint : ∀ o ∈ origins, o ∉ others) (h : Within origins holes.places) (hrest : Within others rest.places) :
    Within (origins ++ others) (holes.inside put hput ++ rest).places := by
  rw [Holes.places_append, Holes.places_inside]
  exact h.append hdisjoint hrest

/-- The places of a part that is all there is. -/
theorem last (hput : Holes.Restores put part whole) (h : Within origins holes.places) :
    Within origins (holes.inside put hput).places := by
  rwa [Holes.places_inside]

theorem under (h : Legible holes.places) (step : Step) (hstep : IsUnmarked step.name) :
    Within [.below step.name] (holes.under step).places := by
  rw [Holes.places_under]
  exact h.under hstep

end

end Within

/-! ## Numbered parts -/

/-- Places of the parts in a list, which are told under their numbers, at least an index. -/
inductive Itemized (list : String) : Nat → List TextPlace → Prop where
  | nil (index : Nat) : Itemized list index []
  | skip {index : Nat} {rest : List TextPlace} : Itemized list (index + 1) rest → Itemized list index rest
  | cons {index : Nat} {item rest : List TextPlace} : Legible item → Itemized list (index + 1) rest →
    Itemized list index (item.map (.under (.item list index)) ++ rest)

namespace Itemized

variable {list : String} {index : Nat} {ls : List TextPlace}

/-- The first step to a place goes to a part of the list. -/
theorem first_step (h : Itemized list index ls) :
    ∀ l ∈ ls, ∃ i steps, index ≤ i ∧ l.steps = .item list i :: steps := by
  induction h with
  | nil => exact fun _ h => absurd h List.not_mem_nil
  | skip _ ih =>
    intro l hl
    obtain ⟨i, steps, hi, hsteps⟩ := ih l hl
    exact ⟨i, steps, Nat.le_of_succ_le hi, hsteps⟩
  | cons _ _ ih =>
    refine List.forall_mem_append.mpr ⟨fun l hl => ?_, fun l hl => ?_⟩
    · obtain ⟨l, -, rfl⟩ := List.mem_map.mp hl
      exact ⟨_, l.steps, Nat.le_refl _, rfl⟩
    · obtain ⟨i, steps, hi, hsteps⟩ := ih l hl
      exact ⟨i, steps, Nat.le_of_succ_le hi, hsteps⟩

theorem legible (h : Itemized list index ls) (hlist : IsUnmarked list) : Legible ls := by
  induction h with
  | nil => exact .nil
  | skip _ ih => exact ih
  | @cons index _ _ hitem hrest ih =>
    have hunder := hitem.under (show IsUnmarked (Step.item list index).name from hlist)
    refine ⟨List.Nodup.append hunder.nodup ih.nodup fun l hl hl' => ?_,
      List.forall_mem_append.mpr ⟨hunder.unmarked, ih.unmarked⟩⟩
    obtain ⟨l, -, rfl⟩ := List.mem_map.mp hl
    obtain ⟨i, steps, hi, hsteps⟩ := hrest.first_step _ hl'
    obtain ⟨-, rfl⟩ := Step.item.inj (List.cons.inj hsteps).1
    exact Nat.not_succ_le_self _ hi

theorem within (h : Itemized list index ls) (hlist : IsUnmarked list) : Within [.below list] ls := by
  refine ⟨h.legible hlist, fun l hl => ?_⟩
  obtain ⟨i, steps, -, hsteps⟩ := h.first_step l hl
  rw [TextPlace.origin, hsteps]
  exact List.mem_singleton_self _

theorem numbered {α : Type} {holes : (a : α) → Holes a} {parts : List α}
    (h : ∀ a ∈ parts, Legible (holes a).places) (index : Nat) :
    Itemized list index (Holes.numbered (fun i a => (holes a).under (.item list i)) index parts).places := by
  induction parts generalizing index with
  | nil => exact .nil index
  | cons a rest ih =>
    rw [List.forall_mem_cons] at h
    rw [Holes.numbered, Holes.places_append, Holes.places_inside, Holes.places_inside, Holes.places_under]
    exact .cons h.1 (ih h.2 (index + 1))

end Itemized

/-! ## Named parts -/

/-- Names that differ pairwise and do not hold the marks of a path. -/
def AreLegible (names : List String) : Prop := names.Nodup ∧ ∀ name ∈ names, IsUnmarked name

instance (names : List String) : Decidable (AreLegible names) := inferInstanceAs (Decidable (_ ∧ _))

/-- The place of a field's name tells its number, that of its type the name. -/
theorem Fields.mem_places {kind : Kind} {list : String} {index : Nat} {fields : Fields} {l : TextPlace}
    (h : l ∈ (Holes.numbered (Field.holes kind list) index fields).places) :
    (∃ i, index ≤ i ∧ l = ⟨list, [.item list i]⟩) ∨ ∃ name ∈ fields.names, l = ⟨list, [.key list, .key name]⟩ := by
  induction fields generalizing index with
  | nil => exact absurd h List.not_mem_nil
  | cons f rest ih =>
    simp only [Holes.numbered, Field.holes, Holes.places_append, Holes.places_inside, Holes.places_under,
      Holes.places_required, List.map_cons, List.map_nil, List.cons_append, List.nil_append, List.mem_cons] at h
    obtain rfl | rfl | h := h
    · exact .inl ⟨index, Nat.le_refl _, rfl⟩
    · exact .inr ⟨f.name, List.mem_cons_self, rfl⟩
    · obtain ⟨i, hi, hl⟩ | ⟨name, hname, hl⟩ := ih h
      · exact .inl ⟨i, Nat.le_of_succ_le hi, hl⟩
      · exact .inr ⟨name, List.mem_cons_of_mem _ hname, hl⟩

theorem Fields.nodup_places {kind : Kind} {list : String} {fields : Fields} (hnames : fields.names.Nodup)
    (index : Nat) : (Holes.numbered (Field.holes kind list) index fields).places.Nodup := by
  induction fields generalizing index with
  | nil => exact List.nodup_nil
  | cons f rest ih =>
    obtain ⟨hname, hrest⟩ := List.nodup_cons.mp hnames
    simp only [Holes.numbered, Field.holes, Holes.places_append, Holes.places_inside, Holes.places_under,
      Holes.places_required, List.map_cons, List.map_nil, List.cons_append, List.nil_append]
    refine List.nodup_cons.mpr ⟨fun hmem => ?_, List.nodup_cons.mpr ⟨fun hmem => ?_, ih hrest _⟩⟩
    · obtain h | hmem := List.mem_cons.mp hmem
      · cases h
      · obtain ⟨i, hi, h⟩ | ⟨name, -, h⟩ := Fields.mem_places hmem
        · cases h
          exact Nat.not_succ_le_self _ hi
        · cases h
    · obtain ⟨i, -, h⟩ | ⟨name, hmem, h⟩ := Fields.mem_places hmem
      · cases h
      · cases h
        exact hname hmem

theorem Fields.within {kind : Kind} {list : String} {fields : Fields} (hlist : IsUnmarked list)
    (hnames : AreLegible fields.names) : Within [.below list] (fields.holes kind list).places := by
  refine ⟨⟨Fields.nodup_places hnames.1 0, fun l hl => ?_⟩, fun l hl => ?_⟩
  · obtain ⟨i, -, rfl⟩ | ⟨name, hname, rfl⟩ := Fields.mem_places hl
    · exact List.forall_mem_singleton.mpr hlist
    · exact List.forall_mem_cons.mpr ⟨hlist, List.forall_mem_singleton.mpr (hnames.2 name hname)⟩
  · obtain ⟨i, -, rfl⟩ | ⟨name, -, rfl⟩ := Fields.mem_places hl
    · exact List.mem_singleton_self _
    · exact List.mem_singleton_self _

mutual

theorem Value.legible (kind : Kind) : ∀ v : Value, (∀ o ∈ v.literals, AreLegible (o.map ObjectEntry.key)) →
    Legible (v.holes kind).places
  | .raw text, _ => by
    rw [Value.holes]
    exact (Within.last ⟨rfl⟩ (.required kind "value" text)).toLegible
  | .object entries, hkeys => by
    rw [Value.literals, List.forall_mem_cons] at hkeys
    rw [Value.holes]
    exact (Within.last ⟨rfl⟩ (ObjectLiteral.within kind entries hkeys.1 hkeys.2)).toLegible

theorem ObjectLiteral.within (kind : Kind) : ∀ entries : List ObjectEntry, AreLegible (entries.map ObjectEntry.key) →
    (∀ o ∈ ObjectLiteral.inner entries, AreLegible (o.map ObjectEntry.key)) →
    Within (entries.map fun e => .below e.key) (ObjectLiteral.holes kind entries).places
  | [], _, _ => by
    rw [ObjectLiteral.holes]
    exact .nil
  | ⟨key, value⟩ :: rest, hown, hinner => by
    rw [ObjectLiteral.inner, List.forall_mem_append] at hinner
    obtain ⟨hkey, hrest⟩ := List.nodup_cons.mp hown.1
    have hunmarked := List.forall_mem_cons.mp hown.2
    have hvalue : Within [.below key] ((value.holes kind).under (.key key)).places :=
      .under (Value.legible kind value hinner.1) (.key key) hunmarked.1
    have hothers := ObjectLiteral.within kind rest ⟨hrest, hunmarked.2⟩ hinner.2
    rw [ObjectLiteral.holes]
    refine .part_append ⟨rfl⟩ (List.forall_mem_singleton.mpr fun hmem => ?_) hvalue (.last ⟨rfl⟩ hothers)
    obtain ⟨e, he, hkey'⟩ := List.mem_map.mp hmem
    exact hkey (List.mem_map.mpr ⟨e, he, Origin.below.inj hkey'⟩)

end

/-! ## Parts of elements -/

theorem Constant.valueHoles_within {v : Value} (hkeys : ∀ o ∈ v.literals, AreLegible (o.map ObjectEntry.key)) :
    Within [.own "value", .below "value"] (Constant.valueHoles v).places := by
  cases v with
  | raw text => exact .last ⟨rfl⟩ ((Within.required .constDecl "value" text).mono (by simp))
  | object entries =>
    rw [Value.literals, List.forall_mem_cons] at hkeys
    have hentries := (ObjectLiteral.within .constDecl entries hkeys.1 hkeys.2).toLegible
    exact .last ⟨rfl⟩ ((Within.under hentries (.key "value") (by simp [IsUnmarked, Step.name])).mono
      (by simp [Step.name]))

theorem Constant.within {c : Constant} (hkeys : ∀ o ∈ c.value.literals, AreLegible (o.map ObjectEntry.key)) :
    Within [.own "name", .own "value", .below "value"] c.holes.places :=
  .part_append ⟨rfl⟩ (by simp) (.required .constDecl "name" c.name) (.last ⟨rfl⟩ (valueHoles_within hkeys))

theorem TypeAlias.within (t : TypeAlias) : Within [.own "name", .own "value"] t.holes.places :=
  .part_append ⟨rfl⟩ (by simp) (.required .typeDecl "name" t.name) (.last ⟨rfl⟩ (.required .typeDecl "value" t.value))

theorem Interface.within {i : Interface} (hnames : AreLegible i.properties.names) :
    Within [.own "name", .below "properties"] i.holes.places :=
  .part_append ⟨rfl⟩ (by simp) (.required .interfaceDecl "name" i.name) <|
    .last ⟨rfl⟩ (Fields.within (by simp [IsUnmarked]) hnames)

theorem EnumMember.within : ∀ m : EnumMember, Within [.own "name", .own "value"] m.holes.places
  | .bare name => .last ⟨rfl⟩ ((Within.required .enumMember "name" name).mono (by simp))
  | .valued name value =>
    .part_append ⟨rfl⟩ (by simp) (.required .enumMember "name" name) (.last ⟨rfl⟩ (.required .enumMember "value" value))

theorem Enumeration.within (e : Enumeration) : Within [.own "name", .below "members"] e.holes.places :=
  .part_append ⟨rfl⟩ (by simp) (.required .enumDecl "name" e.name) <| .last ⟨rfl⟩ <|
    (Itemized.numbered (fun m _ => m.within.toLegible) 0).within (by simp [IsUnmarked])

theorem ClassProperty.within (p : ClassProperty) : Within [.own "name", .own "type", .own "value"] p.holes.places :=
  .part_append ⟨rfl⟩ (by simp) (.required .property "name" p.name) <|
    .part_append ⟨rfl⟩ (by simp) (.optional .property "type" p.type) (.last ⟨rfl⟩ (.optional .property "value" p.value))

theorem Signature.within (kind : Kind) {s : Signature} (hnames : AreLegible s.args.names) :
    Within [.below "args", .own "returnType"] (s.holes kind).places :=
  .part_append ⟨rfl⟩ (by simp) (Fields.within (by simp [IsUnmarked]) hnames) <|
    .last ⟨rfl⟩ (.optional kind "returnType" s.returnType)

theorem FunctionHead.within {f : FunctionHead} (hnames : AreLegible f.signature.args.names) :
    Within [.own "name", .below "args", .own "returnType"] f.holes.places :=
  .part_append ⟨rfl⟩ (by simp) (.required .functionDecl "name" f.name) (.last ⟨rfl⟩ (Signature.within _ hnames))

theorem MethodHead.within {m : MethodHead} (hnames : AreLegible m.signature.args.names) :
    Within [.own "name", .below "args", .own "returnType"] m.holes.places := by
  unfold holes
  split
  · exact .part_append ⟨rfl⟩ (by simp) (.required .method "name" m.name)
      (.last ⟨rfl⟩ ((Fields.within (by simp [IsUnmarked]) hnames).mono (by simp)))
  · exact .part_append ⟨rfl⟩ (by simp) (.required .method "name" m.name) (.last ⟨rfl⟩ (Signature.within _ hnames))

theorem ClassHead.within (c : ClassHead) :
    Within [.own "name", .own "extends", .below "implements", .below "properties"] c.holes.places :=
  have himplements : ∀ name, Within [.own "implements"] (Holes.required .classDecl "implements" name).places :=
    .required .classDecl "implements"
  .part_append ⟨rfl⟩ (by simp) (.required .classDecl "name" c.name) <|
    .part_append ⟨rfl⟩ (by simp) (.optional .classDecl "extends" c.parent) <|
      .part_append ⟨rfl⟩ (by simp)
        ((Itemized.numbered (fun name _ => (himplements name).toLegible) 0).within (by simp [IsUnmarked])) <|
          .last ⟨rfl⟩ ((Itemized.numbered (fun p _ => p.within.toLegible) 0).within (by simp [IsUnmarked]))

/-! ## Elements -/

theorem Statement.itemized {list : String} {index : Nat} {body : List Statement}
    (h : ∀ x ∈ elementsOf body, Legible x.holes.places) :
    Itemized list index (Statement.holes list index body).places := by
  induction body generalizing index with
  | nil =>
    rw [Statement.holes]
    exact .nil index
  | cons item rest ih =>
    cases item with
    | raw text =>
      rw [elementsOf_raw] at h
      rw [Statement.holes, Holes.places_inside]
      exact .skip (ih h)
    | element e =>
      rw [elementsOf_element, List.forall_mem_cons] at h
      rw [Statement.holes, Holes.places_append, Holes.places_inside, Holes.places_inside,
        Holes.places_under]
      exact .cons h.1 (ih h.2)

/-- The places below a list of statements. -/
theorem Statement.within (list : String) {body : List Statement}
    (hlist : IsUnmarked list) (h : ∀ x ∈ elementsOf body, Legible x.holes.places) :
    Within [.below list] (Statement.holes list 0 body).places :=
  (Statement.itemized h).within hlist

theorem Method.itemized {index : Nat} {methods : List Method}
    (hnames : ∀ m ∈ methods, AreLegible m.head.signature.args.names)
    (h : ∀ body ∈ methods.map Method.body, ∀ x ∈ elementsOf body, Legible x.holes.places) :
    Itemized "methods" index (Method.holes index methods).places := by
  induction methods generalizing index with
  | nil =>
    rw [Method.holes]
    exact .nil index
  | cons m rest ih =>
    obtain ⟨head, body⟩ := m
    rw [List.forall_mem_cons] at hnames
    rw [List.map_cons, List.forall_mem_cons] at h
    simp only [Method.holes, Holes.places_append, Holes.places_inside, Holes.places_under]
    rw [← List.append_assoc, ← List.map_append]
    have hbody := Statement.within "body" (by simp [IsUnmarked]) h.1
    exact .cons ((MethodHead.within hnames.1).append (by simp) hbody).toLegible (ih hnames.2 h.2)

/-- The required texts of an element are told at places that differ pairwise and can be read back, if the names in
each ordered list of it and of the elements below it differ and hold no marks. -/
theorem Element.legible (e : Element) (hnames : ∀ x ∈ allDepths [e], ∀ names ∈ x.nameLists, AreLegible names) :
    Legible e.holes.places := by
  induction e using Element.bodies_induction with
  | step e ih =>
    have hown : ∀ names ∈ e.nameLists, AreLegible names := hnames e List.mem_cons_self
    have hbodies : ∀ body ∈ e.bodies, ∀ x ∈ elementsOf body, Legible x.holes.places := fun body hb x hx =>
      ih body hb x hx fun y hy => hnames y (allDepths_subset_of_bodies hb hx hy)
    cases e with
    | constDecl decl =>
      rw [Element.holes]
      exact (Within.last ⟨rfl⟩ (Constant.within fun o ho => hown _ (List.mem_map_of_mem ho))).toLegible
    | typeDecl decl =>
      rw [Element.holes]
      exact (Within.last ⟨rfl⟩ decl.within).toLegible
    | interfaceDecl decl =>
      rw [Element.holes]
      exact (Within.last ⟨rfl⟩ (Interface.within (hown _ (List.mem_singleton_self _)))).toLegible
    | functionDecl head body =>
      have hhead := FunctionHead.within (hown _ (List.mem_singleton_self _))
      have hbody := Statement.within "body" (by simp [IsUnmarked]) (hbodies body (List.mem_singleton_self _))
      rw [Element.holes]
      exact (hhead.part_append ⟨rfl⟩ (by simp) (hbody.last ⟨rfl⟩)).toLegible
    | arrowFunction signature body =>
      have hsignature := Signature.within .arrowFunction (hown _ (List.mem_singleton_self _))
      have hbody := Statement.within "body" (by simp [IsUnmarked]) (hbodies body (List.mem_singleton_self _))
      rw [Element.holes]
      exact (hsignature.part_append ⟨rfl⟩ (by simp) (hbody.last ⟨rfl⟩)).toLegible
    | classDecl head methods =>
      have hmethods : Within [.below "methods"] (Method.holes 0 methods).places :=
        (Method.itemized (fun m hm => hown _ (List.mem_map_of_mem hm)) hbodies).within (by simp [IsUnmarked])
      rw [Element.holes]
      exact ((ClassHead.within head).part_append ⟨rfl⟩ (by simp) (hmethods.last ⟨rfl⟩)).toLegible
    | enumDecl decl =>
      rw [Element.holes]
      exact (Within.last ⟨rfl⟩ decl.within).toLegible
    | ifElse condition body otherwise =>
      have hcondition := Within.required .ifElse "condition" condition
      have hbody := Statement.within "body" (by simp [IsUnmarked]) (hbodies body List.mem_cons_self)
      cases otherwise with
      | none =>
        rw [Element.holes]
        exact (hcondition.part_append ⟨rfl⟩ (by simp) (hbody.last ⟨rfl⟩)).toLegible
      | some others =>
        have hmem : others ∈ (Element.ifElse condition body (some others)).bodies :=
          List.mem_cons_of_mem _ (List.mem_singleton_self _)
        have hothers := Statement.within "else" (by simp [IsUnmarked]) (hbodies others hmem)
        rw [Element.holes]
        exact Within.toLegible <| .part_append ⟨rfl⟩ (by simp) hcondition <| .part_append ⟨rfl⟩ (by simp) hbody <|
          .last ⟨rfl⟩ hothers
    | forLoop clauses body =>
      have hbody := Statement.within "body" (by simp [IsUnmarked]) (hbodies body (List.mem_singleton_self _))
      rw [Element.holes]
      exact (hbody.last ⟨rfl⟩).toLegible
    | forOfLoop iteration body =>
      have hbinder := Within.required .forOfLoop "variable" iteration.binder
      have hiterable := Within.required .forOfLoop "iterable" iteration.iterable
      have hbody := Statement.within "body" (by simp [IsUnmarked]) (hbodies body (List.mem_singleton_self _))
      rw [Element.holes]
      exact Within.toLegible <| .part_append ⟨rfl⟩ (by simp) hbinder <| .part_append ⟨rfl⟩ (by simp) hiterable <|
        .last ⟨rfl⟩ hbody

theorem elements_legible {es : List Element}
    (hnames : ∀ e ∈ allDepths es, ∀ names ∈ e.nameLists, AreLegible names) : Legible (elementHoles es).places := by
  refine (Itemized.numbered (fun e he => e.legible fun x hx => hnames x ?_) 0).legible
    (by simp [IsUnmarked, CodeFile.place])
  rw [allDepths, List.flatMap_singleton] at hx
  exact List.mem_flatMap.mpr ⟨e, he, hx⟩

/-- Places are never ambiguous: if a list passes its check, and the names in each ordered list differ and hold no marks
of a path, then blanking one text and blanking another one is told at different fields or paths. -/
theorem validateFrom_unambiguous (list : String) {es : List Element} (hvalid : validateFrom list 0 es = .ok ())
    (hnames : ∀ e ∈ allDepths es, ∀ names ∈ e.nameLists, AreLegible names) {i j : Nat} (hij : i ≠ j) {h g : Hole es}
    (hi : (elementHoles es)[i]? = some h) (hj : (elementHoles es)[j]? = some g) {s t : String}
    (hs : isBlank s = true) (ht : isBlank t = true) :
    ∃ err err', validateFrom list 0 (h.fill s) = .error err ∧ validateFrom list 0 (g.fill t) = .error err' ∧
      (err.field, err.path) ≠ (err'.field, err'.path) := by
  have hh := List.mem_of_getElem? hi
  have hg := List.mem_of_getElem? hj
  obtain ⟨a, m, hm, herr⟩ := validateFrom_fill hvalid hh hs
  obtain ⟨b, n, hn, herr'⟩ := validateFrom_fill hvalid hg ht
  refine ⟨_, _, herr, herr', fun heq => hij ?_⟩
  have hlegible := elements_legible hnames
  obtain ⟨hfield, hpath⟩ := Prod.mk.inj heq
  obtain ⟨rfl, hrest⟩ := itemPlace_inj hpath
  have hunmarked : ∀ {x : Hole es} {d : MissingField}, x ∈ elementHoles es →
      x.missing = d.under (.item CodeFile.place a) → ∀ s ∈ d.steps, IsUnmarked s.name := by
    intro x d hx hd s hs
    refine hlegible.unmarked _ (List.mem_map_of_mem hx) s ?_
    rw [hd]
    exact List.mem_cons_of_mem _ hs
  have hsteps : m.steps = n.steps := pathText_injective (hunmarked hh hm) (hunmarked hg hn) hrest
  have hplace : h.missing.textPlace = g.missing.textPlace := by
    rw [hm, hn]
    show TextPlace.mk m.field (_ :: m.steps) = ⟨n.field, _ :: n.steps⟩
    rw [hsteps, show m.field = n.field from hfield]
  obtain ⟨hlt, -⟩ := List.getElem?_eq_some_iff.mp hi
  refine (List.getElem?_inj ?_ hlegible.nodup).mp ?_
  · rwa [Holes.places, List.length_map]
  · rw [Holes.places, List.getElem?_map, List.getElem?_map, hi, hj, Option.map_some, Option.map_some, hplace]

/-- The name of a parameter and its type, behind an object within an object. -/
theorem validateFrom_unambiguous_parameter :
    let es : List Element :=
      [.constDecl { name := "o", value := .object [⟨"k", .object [⟨"v", .raw "1"⟩]⟩, ⟨"v", .raw "2"⟩] },
       .functionDecl { name := "f", signature := { args := [⟨"a", "A"⟩] } } []]
    validateFrom "elements" 0 es = .ok () ∧ (∀ e ∈ allDepths es, ∀ names ∈ e.nameLists, AreLegible names) ∧
      ∃ h g : Hole es, (elementHoles es)[4]? = some h ∧ (elementHoles es)[5]? = some g ∧ h.text = "a" ∧ g.text = "A" ∧
        isBlank " " = true ∧ ∃ err err', validateFrom "elements" 0 (h.fill " ") = .error err ∧
          validateFrom "elements" 0 (g.fill " ") = .error err' ∧ (err.field, err.path) ≠ (err'.field, err'.path) := by
  intro es
  have hvalid : validateFrom "elements" 0 es = .ok () := by rfl
  have hnames : ∀ e ∈ allDepths es, ∀ names ∈ e.nameLists, AreLegible names := by decide
  have hblank : isBlank " " = true := by decide
  exact ⟨hvalid, hnames, _, _, rfl, rfl, rfl, rfl, hblank,
    validateFrom_unambiguous "elements" hvalid hnames (show 4 ≠ 5 by decide) rfl rfl hblank hblank⟩

end TypeScribe
