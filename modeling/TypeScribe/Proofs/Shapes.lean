import TypeScribe.Proofs.Nesting
import TypeScribe.Proofs.Texts

/-!
# Shapes of code

The code of an element is made up in a few ways: lines, empty lines, a body in braces after a header, and two
bodies after each other. Which characters its lines are made of depends on the texts of the element alone, and a
line of text that is blank stands only inside the braces of an object literal. What is said of the code of all
elements is proved by induction on these ways.

* `Code`: the ways in which fragments are made up, over the characters that lines may have.
* `Element.code`: the fragments of an element whose texts have such characters.
-/

namespace TypeScribe

/-! ## Characters of lines -/

/-- An ordinary character ends no line and is no brace. -/
def isOrdinary (c : Char) : Bool := c != '\n' && c != '\x7b' && c != '\x7d'

/-- Which characters may stand in a line, and which may begin one. Ordinary characters may stand in a line, and
begin it unless they are spaces. -/
structure Lettering where
  inside : Char → Prop
  first : Char → Prop
  inside_of_ordinary : ∀ {c : Char}, isOrdinary c = true → inside c
  first_of_ink : ∀ {c : Char}, isOrdinary c = true → Blank.isSpace c = false → first c

namespace Lettering

/-- A text that may stand in a line. -/
def Spells (L : Lettering) (text : String) : Prop := ∀ c ∈ text.toList, L.inside c

/-- A text that may stand in a line and begin it. -/
def Fits (L : Lettering) (text : String) : Prop := L.Spells text ∧ ∀ c ∈ text.toList.head?, L.first c

variable {L : Lettering}

theorem spells_append {s t : String} : L.Spells (s ++ t) ↔ L.Spells s ∧ L.Spells t := by
  unfold Spells
  rw [String.toList_append, List.forall_mem_append]

theorem spells_empty : L.Spells "" := fun _ h => absurd h List.not_mem_nil

theorem fits_empty : L.Fits "" := ⟨spells_empty, fun _ h => absurd h (Option.not_mem_none _)⟩

theorem spells_ordinary {t : String} (h : t.toList.all isOrdinary = true) : L.Spells t :=
  fun _ hc => L.inside_of_ordinary (List.all_eq_true.mp h _ hc)

theorem fits_ordinary {t : String} (h : t.toList.all isOrdinary = true)
    (hfirst : t.toList.head?.all (fun c => !Blank.isSpace c) = true) : L.Fits t := by
  refine ⟨spells_ordinary h, fun c hc => ?_⟩
  have hspace : Blank.isSpace c = false := by
    rw [Option.mem_def.mp hc] at hfirst
    simpa using hfirst
  exact L.first_of_ink (List.all_eq_true.mp h _ (List.mem_of_mem_head? hc)) hspace

/-- What follows a text that is not empty may be anything that may stand in a line. -/
theorem Fits.append_spells {s t : String} (hs : L.Fits s) (hne : s ≠ "") (ht : L.Spells t) :
    L.Fits (s ++ t) := by
  refine ⟨spells_append.mpr ⟨hs.1, ht⟩, ?_⟩
  cases hl : s.toList with
  | nil => exact absurd (String.toList_inj.mp hl) hne
  | cons c cs =>
    have hfirst := hs.2
    rw [hl] at hfirst
    rw [String.toList_append, hl]
    exact hfirst

theorem Fits.append {s t : String} (hs : L.Fits s) (ht : L.Fits t) : L.Fits (s ++ t) := by
  by_cases hne : s = ""
  · rw [hne, String.empty_append]; exact ht
  · exact hs.append_spells hne ht.1

end Lettering

open Lettering

/-- A text of an element whose lines may stand as they do: a word begins with a character that may begin a line,
and so does each line of a verbatim text. -/
def Part.Fits (L : Lettering) : Part → Prop
  | .word text => L.Fits text
  | .statement text | .value text | .lastValue text => ∀ line ∈ lines text, L.Fits line

/-! ## The ways in which code is made up -/

/-- Fragments as elements come to. Whether a line of text may be blank is told by the flag; that is so only
inside braces, namely those of an object literal. -/
inductive Code (L : Lettering) : Bool → List Fragment → Prop
  | nil {loose : Bool} : Code L loose []
  | append {loose : Bool} {fs gs : List Fragment} : Code L loose fs → Code L loose gs → Code L loose (fs ++ gs)
  | blank {loose : Bool} : Code L loose [.blank]
  | line {loose : Bool} {text : String} : L.Fits text → (isBlank text = true → loose = true) →
      Code L loose [.line text]
  | sequence {loose : Bool} {items : List Fragment} : Code L loose items → Code L loose [.sequence items]
  | braced {loose inner : Bool} {header suffix : String} {body : List Fragment} : L.Fits header →
      L.Spells suffix → Code L inner body → Code L loose [braced header body suffix]
  | branches {loose : Bool} {header : String} {body otherwise : List Fragment} : L.Fits header →
      Code L false body → Code L false otherwise → Code L loose (branchFragments header body otherwise)

variable {L : Lettering} {loose : Bool}

theorem Code.cons {f : Fragment} {fs : List Fragment} (hf : Code L loose [f]) (hfs : Code L loose fs) :
    Code L loose (f :: fs) :=
  hf.append hfs

/-- A line with something in it besides spaces. -/
theorem Code.ink {text : String} (h : L.Fits text) (hink : isBlank text = false) : Code L loose [.line text] :=
  .line h fun hb => absurd hb (Bool.eq_false_iff.mp hink)

theorem Code.of_forall {fs : List Fragment} (h : ∀ f ∈ fs, Code L loose [f]) : Code L loose fs := by
  induction fs with
  | nil => exact .nil
  | cons f fs ih =>
    rw [List.forall_mem_cons] at h
    exact h.1.cons (ih h.2)

theorem Code.flatMap {α : Type} {f : α → List Fragment} {xs : List α} (h : ∀ x ∈ xs, Code L loose (f x)) :
    Code L loose (xs.flatMap f) := by
  induction xs with
  | nil => exact .nil
  | cons x xs ih =>
    rw [List.forall_mem_cons] at h
    rw [List.flatMap_cons]
    exact h.1.append (ih h.2)

/-! ## Verbatim texts -/

theorem code_ofLine {line : String} (h : L.Fits line) : Code L loose [.ofLine line] := by
  unfold Fragment.ofLine
  split
  · exact .blank
  · rename_i hink
    exact .ink h (Bool.not_eq_true _ ▸ hink)

theorem code_rawFragments {text : String} (h : ∀ line ∈ lines text, L.Fits line) :
    Code L loose (rawFragments text) :=
  .of_forall <| List.forall_mem_map.mpr fun line hline => code_ofLine (h line hline)

theorem code_spliceRest {tail : String} (htail : L.Fits tail) (hloose : isBlank tail = true → loose = true) :
    ∀ texts : List String, (∀ line ∈ texts, L.Fits line) → Code L loose (spliceRest tail texts)
  | [], _ => .nil
  | [last], h => by
    rw [spliceRest]
    refine .line ((List.forall_mem_singleton.mp h).append htail) fun hblank => ?_
    rw [isBlank_append, Bool.and_eq_true] at hblank
    exact hloose hblank.2
  | text :: next :: rest, h => by
    rw [List.forall_mem_cons] at h
    rw [spliceRest]
    exact (code_ofLine h.1).cons (code_spliceRest htail hloose (next :: rest) h.2)

/-- A verbatim text after a head with ink in it; only its last line may be blank, where nothing follows it. -/
theorem code_splice {head text tail : String} (hhead : L.Fits head) (hink : isBlank head = false)
    (htext : ∀ line ∈ lines text, L.Fits line) (htail : L.Fits tail)
    (hloose : isBlank tail = true → loose = true) : Code L loose (splice head text tail) := by
  have ink : ∀ t, isBlank (head ++ t) = false := fun t => by rw [isBlank_append, hink, Bool.false_and]
  unfold splice
  split
  · exact .ink (hhead.append htail) (ink tail)
  · rename_i only hl
    rw [hl, List.forall_mem_singleton] at htext
    exact .ink ((hhead.append htext).append htail) (by rw [String.append_assoc]; exact ink _)
  · rename_i first next rest hl
    rw [hl, List.forall_mem_cons] at htext
    exact (Code.ink (hhead.append htext.1) (ink first)).cons (code_spliceRest htail hloose _ htext.2)

theorem fits_semicolon : L.Fits ";" := fits_ordinary rfl rfl

/-- A verbatim text with a semicolon after it. -/
theorem code_splice_semicolon {head text : String} (hhead : L.Fits head) (hink : isBlank head = false)
    (htext : ∀ line ∈ lines text, L.Fits line) : Code L loose (splice head text ";") :=
  code_splice hhead hink htext fits_semicolon fun h => absurd h (by decide)

/-- A text with ink in it has ink whatever stands before it. -/
theorem ink_append {t : String} (s : String) (h : isBlank t = false) : isBlank (s ++ t) = false := by
  rw [isBlank_append, h, Bool.and_false]

/-- A key of a property in front of its value or type. -/
theorem fits_key {key : String} (h : L.Fits key) : L.Fits (key ++ ": ") ∧ isBlank (key ++ ": ") = false :=
  ⟨h.append (fits_ordinary rfl rfl), ink_append key (by decide)⟩

/-! ## Values -/

mutual

theorem Value.code_entry {key comma : String} (hkey : L.Fits key) (hcomma : L.Fits comma) (isLast : Bool) :
    ∀ v : Value, (∀ p ∈ v.texts isLast, p.Fits L) → Code L true (v.entryFragments key comma)
  | .raw text => by
    intro h
    rw [Value.entryFragments]
    refine code_splice (fits_key hkey).1 (fits_key hkey).2 ?_ hcomma fun _ => rfl
    cases isLast <;> exact h _ (by rw [Value.texts]; exact List.mem_singleton_self _)
  | .object entries => by
    intro h
    rw [Value.entryFragments]
    rw [Value.texts] at h
    exact .braced (hkey.append (fits_ordinary rfl rfl)) hcomma.1 (ObjectLiteral.code entries h)

theorem ObjectLiteral.code :
    ∀ entries : List ObjectEntry, (∀ p ∈ ObjectLiteral.texts entries, p.Fits L) →
      Code L true (ObjectLiteral.fragments entries)
  | [], _ => by rw [ObjectLiteral.fragments]; exact .nil
  | [⟨key, value⟩], h => by
    rw [ObjectLiteral.texts, List.forall_mem_cons] at h
    rw [ObjectLiteral.fragments]
    exact Value.code_entry h.1 fits_empty true value h.2
  | ⟨key, value⟩ :: next :: rest, h => by
    rw [ObjectLiteral.texts, List.forall_mem_cons, List.forall_mem_append] at h
    rw [ObjectLiteral.fragments]
    exact (Value.code_entry h.1 (fits_ordinary rfl rfl) false value h.2.1).append
      (ObjectLiteral.code (next :: rest) h.2.2)

end

/-! ## Headers -/

theorem fits_exportMark (exported topLevel : Bool) : L.Fits (exportMark exported topLevel) := by
  unfold exportMark
  split
  · exact fits_ordinary rfl rfl
  · exact fits_empty

theorem fits_type {type : Option String} (h : ∀ p ∈ type.toList.map Part.word, p.Fits L) :
    L.Fits (typeMark type) := by
  cases type with
  | none => exact fits_empty
  | some type => exact (fits_ordinary rfl rfl).append (h _ (List.mem_singleton_self _))

theorem spells_intercalate {separator : String} (hs : L.Spells separator) :
    ∀ texts : List String, (∀ t ∈ texts, L.Spells t) → L.Spells (separator.intercalate texts)
  | [], _ => by rw [String.intercalate_nil]; exact spells_empty
  | [only], h => by rw [String.intercalate_singleton]; exact List.forall_mem_singleton.mp h
  | text :: next :: rest, h => by
    rw [List.forall_mem_cons] at h
    rw [String.intercalate_cons_cons, spells_append, spells_append]
    exact ⟨⟨h.1, hs⟩, spells_intercalate hs (next :: rest) h.2⟩

theorem spells_params {fields : Fields} (h : ∀ p ∈ Fields.texts fields, p.Fits L) :
    L.Spells (Fields.params fields) := by
  unfold Fields.params
  refine spells_intercalate (spells_ordinary rfl) _ (List.forall_mem_map.mpr fun f hf => ?_)
  rw [Fields.texts, List.forall_mem_flatMap] at h
  have hfield := h f hf
  rw [List.forall_mem_cons, List.forall_mem_singleton] at hfield
  have hname : L.Fits f.name := hfield.1
  have htype : L.Fits f.type := hfield.2
  exact ((hname.append (fits_ordinary rfl rfl)).append htype).1

theorem fits_arguments {fields : Fields} (h : ∀ p ∈ Fields.texts fields, p.Fits L) :
    L.Fits ("(" ++ Fields.params fields ++ ")") := by
  have hopen : L.Fits "(" := fits_ordinary rfl rfl
  exact (hopen.append_spells (by decide) (spells_params h)).append (fits_ordinary rfl rfl)

theorem fits_signature {s : Signature} (h : ∀ p ∈ s.texts, p.Fits L) : L.Fits s.text := by
  rw [Signature.texts, List.forall_mem_append] at h
  exact (fits_arguments h.1).append (fits_type h.2)

theorem fits_functionHead {f : FunctionHead} (topLevel : Bool) (hname : L.Fits f.name)
    (h : ∀ p ∈ f.signature.texts, p.Fits L) : L.Fits (f.text topLevel) :=
  (((fits_exportMark _ _).append (fits_ordinary rfl rfl)).append hname).append (fits_signature h)

theorem fits_visibilityMark (v : Option Visibility) : L.Fits (visibilityMark v) := by
  cases v with
  | none => exact fits_empty
  | some v => cases v <;> exact fits_ordinary rfl rfl

theorem fits_staticMark (isStatic : Bool) : L.Fits (staticMark isStatic) := by
  cases isStatic
  · exact fits_empty
  · exact fits_ordinary rfl rfl

theorem fits_methodHead {m : MethodHead} (h : ∀ p ∈ m.texts, p.Fits L) : L.Fits m.text := by
  rw [MethodHead.texts, List.forall_mem_cons] at h
  have hargs := h.2
  rw [Signature.texts, List.forall_mem_append] at hargs
  unfold MethodHead.text
  split
  · have hopen : L.Fits (MethodHead.constructorName ++ "(") := fits_ordinary rfl rfl
    exact (hopen.append_spells (by simp) (spells_params hargs.1)).append (fits_ordinary rfl rfl)
  · exact (((fits_visibilityMark _).append (fits_staticMark _)).append h.1).append (fits_signature h.2)

theorem fits_classHead {c : ClassHead} (topLevel : Bool) (h : ∀ p ∈ c.texts, p.Fits L) :
    L.Fits (c.text topLevel) := by
  rw [ClassHead.texts, List.forall_mem_cons, List.forall_mem_append, List.forall_mem_append] at h
  obtain ⟨hname, ⟨hparent, himplements⟩, -⟩ := h
  have hstart : L.Fits (exportMark c.exported topLevel ++ "class " ++ c.name) :=
    ((fits_exportMark _ _).append (fits_ordinary rfl rfl)).append hname
  unfold ClassHead.text
  refine (hstart.append_spells (by simp) ?_).append_spells (by simp) ?_
  · cases hc : c.parent with
    | none => exact spells_empty
    | some parent =>
      rw [hc] at hparent
      have hfits : L.Fits parent := hparent _ (List.mem_singleton_self _)
      exact spells_append.mpr ⟨spells_ordinary rfl, hfits.1⟩
  · split
    · exact spells_empty
    · refine spells_append.mpr ⟨spells_ordinary rfl, spells_intercalate (spells_ordinary rfl) _ fun t ht => ?_⟩
      have hfits : L.Fits t := himplements _ (List.mem_map_of_mem ht)
      exact hfits.1

theorem fits_branchText {condition : String} (h : L.Fits condition) : L.Fits (branchText condition) :=
  ((fits_ordinary rfl rfl).append h).append (fits_ordinary rfl rfl)

theorem fits_loopClauses {c : LoopClauses} (hi : L.Fits c.initializer) (hc : L.Fits c.condition)
    (hs : L.Fits c.incrementor) : L.Fits c.text :=
  ((((((fits_ordinary rfl rfl).append hi).append (fits_ordinary rfl rfl)).append hc).append
    (fits_ordinary rfl rfl)).append hs).append (fits_ordinary rfl rfl)

theorem fits_iteration {i : Iteration} (hb : L.Fits i.binder) (hi : L.Fits i.iterable) : L.Fits i.text := by
  have hstart : L.Fits ("for (const " ++ i.binder) := (fits_ordinary rfl rfl).append hb
  exact ((hstart.append_spells (by simp) (spells_ordinary rfl)).append hi).append (fits_ordinary rfl rfl)

/-! ## Members -/

theorem code_enumMember {m : EnumMember} (hname : m.name ≠ "") (h : ∀ p ∈ m.texts, p.Fits L) :
    Code L loose [.line m.line] := by
  cases m with
  | bare name =>
    have hfits : L.Fits name := h _ (List.mem_singleton_self _)
    exact .ink (hfits.append (fits_ordinary rfl rfl)) (ink_append name (by decide))
  | valued name value =>
    rw [EnumMember.texts, List.forall_mem_cons, List.forall_mem_singleton] at h
    have hfits : L.Fits name := h.1
    have hvalue : L.Fits value := h.2
    exact .ink (((hfits.append_spells hname (spells_ordinary rfl)).append hvalue).append
      (fits_ordinary rfl rfl)) (ink_append (name ++ " = " ++ value) (by decide))

theorem code_classProperty {p : ClassProperty} (hname : p.name ≠ "") (h : ∀ q ∈ p.texts, q.Fits L) :
    Code L loose [p.fragment] := by
  rw [ClassProperty.texts, List.forall_mem_cons, List.forall_mem_append] at h
  obtain ⟨hfits, htype, hvalue⟩ := h
  have hreadonly : L.Fits (if p.isReadonly then "readonly " else "") := by
    split
    · exact fits_ordinary rfl rfl
    · exact fits_empty
  have hhead : L.Fits p.head :=
    ((((fits_visibilityMark _).append (fits_staticMark _)).append hreadonly).append hfits).append
      (fits_type htype)
  have hne : p.head ≠ "" := by simp [ClassProperty.head, hname]
  unfold ClassProperty.fragment
  split
  · rename_i value hv
    rw [hv] at hvalue
    exact .sequence (code_splice_semicolon (hhead.append_spells hne (spells_ordinary rfl))
      (ink_append p.head (by decide)) (hvalue _ (List.mem_singleton_self _)))
  · exact .ink (hhead.append fits_semicolon) (ink_append p.head (by decide))

/-! ## Bodies -/

/-- A body is made up like that when its elements are. -/
theorem Statement.code {body : List Statement}
    (helements : ∀ x ∈ elementsOf body, Code L false (x.fragments false))
    (htexts : ∀ p ∈ statementsOf body, p.Fits L) {gap : List Fragment} (hgap : Code L false gap) :
    Code L false (Statement.fragments gap body) := by
  induction body generalizing gap with
  | nil => rw [Statement.fragments]; exact .nil
  | cons item rest ih =>
    cases item with
    | raw text =>
      rw [elementsOf_raw] at helements
      rw [statementsOf_raw, List.forall_mem_cons] at htexts
      rw [Statement.fragments]
      exact (code_rawFragments htexts.1).append (ih helements htexts.2 .nil)
    | element e =>
      rw [elementsOf_element, List.forall_mem_cons] at helements
      rw [statementsOf_element] at htexts
      rw [fragments_element]
      refine (hgap.append helements.1).append (ih helements.2 htexts ?_)
      unfold gapFragments
      split
      · exact .nil
      · exact .blank

theorem Method.code {methods : List Method} (hheads : ∀ m ∈ methods, ∀ p ∈ m.head.texts, p.Fits L)
    (hbodies : ∀ m ∈ methods, Code L false (Statement.fragments [] m.body)) (isFirst : Bool) :
    Code L false (Method.fragments isFirst methods) := by
  induction methods generalizing isFirst with
  | nil => rw [Method.fragments]; exact .nil
  | cons m rest ih =>
    obtain ⟨head, body⟩ := m
    rw [List.forall_mem_cons] at hheads hbodies
    have hgap : Code L false (if isFirst then [] else [.blank]) := by
      split
      · exact .nil
      · exact .blank
    rw [Method.fragments]
    exact hgap.append ((Code.braced (fits_methodHead hheads.1) spells_empty hbodies.1).cons
      (ih hheads.2 hbodies.2 false))

/-! ## Elements -/

/-- The fragments of an element that lacks nothing, over the characters that its texts have. -/
theorem Element.code (topLevel : Bool) (e : Element) (hvalid : e.missing? = none)
    (htexts : ∀ p ∈ texts [e], p.Fits L) : Code L false (e.fragments topLevel) := by
  induction e using Element.bodies_induction generalizing topLevel with
  | step e ih =>
  have hbody : ∀ body ∈ e.bodies, Code L false (Statement.fragments [] body) := by
    refine fun body hb => Statement.code (fun x hx => ?_) (fun p hp => ?_) .nil
    · exact ih body hb x hx false (Element.missing?_of_bodies hvalid body hb x hx)
        fun p hp => htexts p (texts_subset_of_bodies hb hx hp)
    · exact htexts p (statementsOf_subset_texts hb hp)
  have hhead : ∀ p ∈ e.headTexts, p.Fits L := fun p hp => htexts p (headTexts_subset_texts e hp)
  -- From here on only the headers differ: the bodies are settled for every kind of element at once.
  clear ih htexts
  cases e with
  | constDecl decl =>
    rw [headTexts, Constant.texts, List.forall_mem_cons] at hhead
    obtain ⟨hname, hvalue⟩ := hhead
    have hstart : L.Fits (exportMark decl.exported topLevel ++ "const " ++ decl.name ++ " =") :=
      (((fits_exportMark _ _).append (fits_ordinary rfl rfl)).append hname).append_spells (by simp)
        (spells_ordinary rfl)
    rw [fragments, Constant.fragments]
    cases hv : decl.value with
    | raw text =>
      rw [hv] at hvalue
      refine code_splice_semicolon (hstart.append_spells (by simp) (spells_ordinary rfl)) ?_
        (hvalue _ (List.mem_singleton_self _))
      rw [String.append_assoc]
      exact ink_append _ (by decide)
    | object entries =>
      rw [hv] at hvalue
      exact .braced hstart (spells_ordinary rfl) (ObjectLiteral.code entries hvalue)
  | typeDecl decl =>
    rw [headTexts, TypeAlias.texts, List.forall_mem_cons, List.forall_mem_singleton] at hhead
    obtain ⟨hname, hvalue⟩ := hhead
    have hstart : L.Fits (exportMark decl.exported topLevel ++ "type " ++ decl.name) :=
      ((fits_exportMark _ _).append (fits_ordinary rfl rfl)).append hname
    exact code_splice_semicolon (hstart.append_spells (by simp) (spells_ordinary rfl))
      (ink_append _ (by decide)) hvalue
  | interfaceDecl decl =>
    rw [headTexts, Interface.texts, List.forall_mem_cons, List.forall_mem_flatMap] at hhead
    have hproperties : Code L false (decl.properties.flatMap fun f => splice (f.name ++ ": ") f.type ";") := by
      refine .flatMap fun f hf => ?_
      have hfield := hhead.2 f hf
      rw [List.forall_mem_cons, List.forall_mem_singleton] at hfield
      exact code_splice_semicolon (fits_key hfield.1).1 (fits_key hfield.1).2 hfield.2
    exact .braced (((fits_exportMark _ _).append (fits_ordinary rfl rfl)).append hhead.1) spells_empty
      hproperties
  | functionDecl head body =>
    rw [headTexts, List.forall_mem_cons] at hhead
    exact .braced (fits_functionHead topLevel hhead.1 hhead.2) spells_empty
      (hbody body (List.mem_singleton_self _))
  | arrowFunction signature body =>
    exact .braced ((fits_signature hhead).append_spells (by simp [Signature.text]) (spells_ordinary rfl))
      (spells_ordinary rfl) (hbody body (List.mem_singleton_self _))
  | classDecl head methods =>
    rw [headTexts, List.forall_mem_append, List.forall_mem_flatMap] at hhead
    rw [missing?, Option.or_eq_none_iff] at hvalid
    have hproperties : ∀ p ∈ head.properties, ∀ q ∈ p.texts, q.Fits L :=
      fun p hp q hq => hhead.1 q (by simp [ClassHead.texts]; exact .inr (.inr (.inr ⟨p, hp, hq⟩)))
    exact .braced (fits_classHead topLevel hhead.1) spells_empty <|
      Code.append (.of_forall <| List.forall_mem_map.mpr fun p hp =>
          code_classProperty (ClassHead.property_names hvalid.1 p hp) (hproperties p hp))
        (Method.code hhead.2 (fun m hm => hbody m.body (List.mem_map_of_mem hm)) _)
  | enumDecl decl =>
    rw [headTexts, Enumeration.texts, List.forall_mem_cons, List.forall_mem_flatMap] at hhead
    have hmembers : Code L false (decl.members.map fun m => .line m.line) :=
      .of_forall <| List.forall_mem_map.mpr fun m hm =>
        code_enumMember (Enumeration.member_names hvalid m hm) (hhead.2 m hm)
    exact .braced (((fits_exportMark _ _).append (fits_ordinary rfl rfl)).append hhead.1) spells_empty hmembers
  | ifElse condition body otherwise =>
    have hheader : L.Fits (branchText condition) := fits_branchText (hhead _ (List.mem_singleton_self _))
    cases otherwise with
    | none => exact .braced hheader spells_empty (hbody body (List.mem_singleton_self _))
    | some otherwise =>
      exact .branches hheader (hbody body List.mem_cons_self)
        (hbody otherwise (List.mem_cons_of_mem _ (List.mem_singleton_self _)))
  | forLoop clauses body =>
    simp only [headTexts, List.forall_mem_cons] at hhead
    exact .sequence ((Code.braced (fits_loopClauses hhead.1 hhead.2.1 hhead.2.2.1) spells_empty
      (hbody body (List.mem_singleton_self _))).cons .blank)
  | forOfLoop iteration body =>
    simp only [headTexts, List.forall_mem_cons] at hhead
    exact .sequence ((Code.braced (fits_iteration hhead.1 hhead.2.1) spells_empty
      (hbody body (List.mem_singleton_self _))).cons .blank)

end TypeScribe
