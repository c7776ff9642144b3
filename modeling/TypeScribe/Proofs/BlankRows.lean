import TypeScribe.Proofs.WrittenLines

/-!
# Blank rows

Where the blank rows of code come from. An element makes some of its own: one after a loop, one between two
elements of a body unless the first of them is a loop, one in front of a method that is not the first member of
its class, and one for each blank line of its verbatim texts. The blank rows of an element are those that it
makes and that the elements below it make. All of them are empty, but for one kind: a blank last line of the
value that ends an object literal is written as it is.

* `Element.blankRows_perm`, `CodeFile.blankRows_perm`: the blank rows of an element, and of a file.
* `CodeFile.renderAt_blank_lines`: when every blank line of the text of a file is empty.
-/

namespace TypeScribe

/-- A blank row: an empty one, or a text of spaces only at some level. -/
inductive BlankRow where
  | empty
  | spaces (text : String)
deriving DecidableEq, Repr

/-- What a row is if it is blank. -/
def Row.blank? : Row → Option BlankRow
  | .bare => some .empty
  | .at _ text => if isBlank text then some (.spaces text) else none

/-- The blank rows among some rows. -/
def blankRows (rows : List Row) : List BlankRow := rows.filterMap Row.blank?

/-! ## Whose blank rows they are -/

/-- Elements of a body right after each other. -/
def siblingPairs : List Statement → List (Element × Element)
  | .element e :: .element next :: rest => (e, next) :: siblingPairs (.element next :: rest)
  | _ :: rest => siblingPairs rest
  | [] => []

/-- The methods of a class that are not its first member. -/
def Element.laterMethods : Element → List Method
  | .classDecl head methods => if head.properties.isEmpty then methods.tail else methods
  | _ => []

/-- The empty row between an element and the next one. -/
def Element.gapRows (e : Element) : List BlankRow := if e.isLoop then [] else [.empty]

/-- The empty rows for the blank ones among some lines. -/
def emptyRows (texts : List String) : List BlankRow := (texts.filter isBlank).map fun _ => .empty

/-- The blank rows for the lines after the first one of a text: a blank last line keeps its spaces, unless
something follows it. -/
def laterRows (texts : List String) (isLast : Bool) : List BlankRow :=
  emptyRows texts.dropLast ++ if isLast then (texts.getLast?.toList.filter isBlank).map .spaces else []

/-- The blank rows for a text. -/
def Part.blankRows : Part → List BlankRow
  | .word _ => []
  | .statement text => emptyRows (lines text)
  | .value text => laterRows (lines text).tail false
  | .lastValue text => laterRows (lines text).tail true

/-- The blank rows that an element makes itself. -/
def Element.ownBlankRows (e : Element) : List BlankRow :=
  (if e.isLoop then [.empty] else []) ++ e.laterMethods.map (fun _ => .empty) ++
    (e.bodies.flatMap siblingPairs).flatMap (fun pair => pair.1.gapRows) ++ e.ownTexts.flatMap Part.blankRows

/-! ## Lines -/

@[simp] theorem blankRows_nil : blankRows [] = [] := rfl

@[simp] theorem blankRows_append (rows more : List Row) :
    blankRows (rows ++ more) = blankRows rows ++ blankRows more :=
  List.filterMap_append

theorem blankRows_bare : blankRows [.bare] = [.empty] := rfl

/-- A text with something in it besides spaces is no blank row. -/
theorem blankRows_ink {level : Nat} {text : String} (h : isBlank text = false) :
    blankRows [.at level text] = [] := by
  rw [blankRows, List.filterMap_cons_none (by rw [Row.blank?, h]; rfl)]; rfl

theorem blankRows_cons_ink {level : Nat} {text : String} (h : isBlank text = false) (rows : List Row) :
    blankRows (.at level text :: rows) = blankRows rows := by
  rw [← List.singleton_append, blankRows_append, blankRows_ink h, List.nil_append]

theorem emptyRows_cons (text : String) (rest : List String) :
    emptyRows (text :: rest) = emptyRows [text] ++ emptyRows rest := by
  rw [emptyRows, ← List.singleton_append, List.filter_append, List.map_append]; rfl

/-- A line by itself is an empty row if it is blank. -/
theorem blankRows_ofLine (level : Nat) (line : String) :
    blankRows ((Fragment.ofLine line).rows level) = emptyRows [line] := by
  rw [Fragment.rows_ofLine, emptyRows]
  cases h : isBlank line with
  | true => rw [if_pos rfl, List.filter_cons_of_pos h]; rfl
  | false => rw [if_neg Bool.false_ne_true, blankRows_ink h, List.filter_cons_of_neg (by rw [h]; decide)]; rfl

theorem blankRows_rawFragments (level : Nat) (text : String) :
    blankRows (rowsOf level (rawFragments text)) = emptyRows (lines text) := by
  unfold rawFragments
  induction lines text with
  | nil => rw [List.map_nil, rowsOf_nil]; rfl
  | cons line rest ih =>
    rw [List.map_cons, rowsOf_cons, blankRows_append, blankRows_ofLine, ih, ← emptyRows_cons]

/-- The lines after the first one of a text, where a mark may follow the last one. -/
theorem blankRows_spliceRest (level : Nat) {tail : String} (isLast : Bool)
    (htail : if isLast then tail = "" else isBlank tail = false) :
    ∀ texts : List String, blankRows (rowsOf level (spliceRest tail texts)) = laterRows texts isLast
  | [] => by cases isLast <;> (rw [spliceRest, rowsOf_nil]; rfl)
  | [last] => by
    rw [spliceRest, rowsOf_singleton, Fragment.rows]
    cases isLast with
    | true =>
      obtain rfl : tail = "" := htail
      rw [String.append_empty]
      cases h : isBlank last with
      | true => simp [laterRows, emptyRows, blankRows, Row.blank?, h]
      | false => simp [laterRows, emptyRows, blankRows, Row.blank?, h]
    | false => rw [blankRows_ink (ink_append last htail)]; rfl
  | text :: next :: rest => by
    rw [spliceRest, rowsOf_cons, blankRows_append, blankRows_ofLine,
      blankRows_spliceRest level isLast htail (next :: rest), laterRows, laterRows,
      List.dropLast_cons_cons, List.getLast?_cons_cons,
      emptyRows_cons text (next :: rest).dropLast, List.append_assoc]

/-- A verbatim text after a head with ink in it. -/
theorem blankRows_splice (level : Nat) {head tail : String} (text : String) (isLast : Bool)
    (hink : isBlank head = false) (htail : if isLast then tail = "" else isBlank tail = false) :
    blankRows (rowsOf level (splice head text tail)) = laterRows (lines text).tail isLast := by
  have ink : ∀ t, isBlank (head ++ t) = false := fun t => by rw [isBlank_append, hink, Bool.false_and]
  -- The first line stands after the head, which has ink in it: a text of one line makes no blank row.
  have none_later : laterRows [] isLast = [] := by cases isLast <;> rfl
  unfold splice
  split
  · rename_i hl
    rw [rowsOf_singleton, Fragment.rows, blankRows_ink (ink tail), hl]
    exact none_later.symm
  · rename_i only hl
    rw [rowsOf_singleton, Fragment.rows, String.append_assoc, blankRows_ink (ink _), hl]
    exact none_later.symm
  · rename_i first next rest hl
    rw [rowsOf_cons, Fragment.rows, List.singleton_append, blankRows_cons_ink (ink first), hl]
    exact blankRows_spliceRest level isLast htail (next :: rest)

theorem blankRows_splice_semicolon (level : Nat) {head : String} (text : String) (hink : isBlank head = false) :
    blankRows (rowsOf level (splice head text ";")) = (Part.value text).blankRows :=
  blankRows_splice level text false hink (by decide)

theorem isBlank_open (header : String) : isBlank (headed header ++ openBrace) = false :=
  ink_append _ (by decide)

/-- Braces and their header have ink in them; the blank rows are those of the body. -/
theorem blankRows_braced (level : Nat) (header : String) (body : List Fragment) (suffix : String) :
    blankRows (rowsOf level [braced header body suffix]) = blankRows (rowsOf (level + 1) body) := by
  rw [rowsOf_braced]
  split
  · rename_i hbody
    have hink : isBlank (headed header ++ openBrace ++ (closeBrace ++ suffix)) = false := by
      rw [isBlank_append, isBlank_open, Bool.false_and]
    rw [hbody, rowsOf_nil, String.append_assoc, blankRows_ink hink]
    rfl
  · rw [blankRows_cons_ink (isBlank_open header), blankRows_append, blankRows_ink, List.append_nil]
    rw [isBlank_append, show isBlank closeBrace = false by decide, Bool.false_and]

theorem blankRows_branches (level : Nat) (header : String) (body otherwise : List Fragment) :
    blankRows (rowsOf level (branchFragments header body otherwise)) =
      blankRows (rowsOf (level + 1) body) ++ blankRows (rowsOf (level + 1) otherwise) := by
  rw [branchFragments_rows, blankRows_append, blankRows_ink (by decide), List.append_nil, List.cons_append,
    blankRows_cons_ink (isBlank_open header), blankRows_append, blankRows_cons_ink (by decide)]

theorem blankRows_loop (level : Nat) (header : String) (body : List Fragment) :
    blankRows (rowsOf level (loopFragments header body)) = blankRows (rowsOf (level + 1) body) ++ [.empty] := by
  rw [loopFragments_rows, blankRows_append, ← rowsOf_singleton, blankRows_braced, blankRows_bare]

/-! ## Elements apart from their bodies -/

/-- Words make no blank rows. -/
theorem blankRows_words {parts : List Part} (h : ∀ p ∈ parts, p.isWord = true) :
    parts.flatMap Part.blankRows = [] := by
  rw [List.flatMap_eq_nil_iff]
  intro p hp
  cases p with
  | word text => rfl
  | _ => exact absurd (h _ hp) Bool.false_ne_true

theorem isWord_of_mem_map (texts : List String) : ∀ p ∈ texts.map Part.word, p.isWord = true :=
  List.forall_mem_map.mpr fun _ _ => rfl

theorem Signature.isWord_texts (s : Signature) : ∀ p ∈ s.texts, p.isWord = true := by
  rw [texts, List.forall_mem_append, Fields.texts, List.forall_mem_flatMap]
  refine ⟨fun f _ => ?_, isWord_of_mem_map _⟩
  rw [List.forall_mem_cons, List.forall_mem_singleton]
  exact ⟨rfl, rfl⟩

theorem MethodHead.isWord_texts (m : MethodHead) : ∀ p ∈ m.texts, p.isWord = true :=
  List.forall_mem_cons.mpr ⟨rfl, m.signature.isWord_texts⟩

mutual

theorem Value.blankRows_entry (level : Nat) (key : String) {comma : String} (isLast : Bool)
    (hcomma : if isLast then comma = "" else isBlank comma = false) : ∀ v : Value,
    blankRows (rowsOf level (v.entryFragments key comma)) = (v.texts isLast).flatMap Part.blankRows
  | .raw text => by
    rw [Value.entryFragments, Value.texts,
      blankRows_splice level text isLast (ink_append key (by decide)) hcomma]
    cases isLast <;> exact (List.append_nil _).symm
  | .object entries => by
    rw [Value.entryFragments, blankRows_braced, ObjectLiteral.blankRows_fragments, Value.texts]

/-- The entries of an object literal make the blank rows of their values. -/
theorem ObjectLiteral.blankRows_fragments (level : Nat) : ∀ entries : List ObjectEntry,
    blankRows (rowsOf level (ObjectLiteral.fragments entries)) =
      (ObjectLiteral.texts entries).flatMap Part.blankRows
  | [] => by rw [ObjectLiteral.fragments, ObjectLiteral.texts, rowsOf_nil]; rfl
  | [⟨key, value⟩] => by
    rw [ObjectLiteral.fragments, ObjectLiteral.texts, Value.blankRows_entry level key true rfl]; rfl
  | ⟨key, value⟩ :: next :: rest => by
    rw [ObjectLiteral.fragments, ObjectLiteral.texts, rowsOf_append, blankRows_append, List.flatMap_cons,
      List.flatMap_append, Value.blankRows_entry level key false (by decide),
      ObjectLiteral.blankRows_fragments level (next :: rest)]
    rfl

end

theorem blankRows_flatMap (level : Nat) {α : Type} {f : α → List Fragment} {g : α → List Part} {xs : List α}
    (h : ∀ x ∈ xs, blankRows (rowsOf level (f x)) = (g x).flatMap Part.blankRows) :
    blankRows (rowsOf level (xs.flatMap f)) = (xs.flatMap g).flatMap Part.blankRows := by
  induction xs with
  | nil => rw [List.flatMap_nil, rowsOf_nil]; rfl
  | cons x xs ih =>
    rw [List.forall_mem_cons] at h
    rw [List.flatMap_cons, List.flatMap_cons, rowsOf_append, blankRows_append, List.flatMap_append, h.1, ih h.2]

theorem ClassProperty.blankRows_fragment (level : Nat) (p : ClassProperty) :
    blankRows (rowsOf level [p.fragment]) = p.texts.flatMap Part.blankRows := by
  have htypes : (p.type.toList.map Part.word).flatMap Part.blankRows = [] :=
    blankRows_words (isWord_of_mem_map _)
  rw [texts, List.flatMap_cons, List.flatMap_append, htypes, List.nil_append, rowsOf_singleton, fragment]
  cases p.value with
  | none =>
    rw [Fragment.rows, blankRows_ink (ink_append p.head (by decide))]; rfl
  | some value =>
    rw [Fragment.rows, blankRows_splice_semicolon level value (ink_append p.head (by decide))]
    exact (List.append_nil _).symm

/-- The properties of a class make the blank rows of their values. -/
theorem ClassHead.blankRows_properties (level : Nat) (head : ClassHead) :
    blankRows (rowsOf level (head.properties.map ClassProperty.fragment)) =
      (head.properties.flatMap ClassProperty.texts).flatMap Part.blankRows := by
  rw [← List.flatMap_singleton' (head.properties.map _), List.flatMap_map]
  exact blankRows_flatMap level fun p _ => p.blankRows_fragment level

theorem EnumMember.isBlank_line (m : EnumMember) : isBlank m.line = false := by
  cases m with
  | bare name => exact ink_append name (by decide)
  | valued name value => exact ink_append (name ++ " = " ++ value) (by decide)

/-- The members of an enum make no blank rows. -/
theorem Enumeration.blankRows_members (level : Nat) (members : List EnumMember) :
    blankRows (rowsOf level (members.map fun m => .line m.line)) = [] := by
  induction members with
  | nil => rw [List.map_nil, rowsOf_nil]; rfl
  | cons m rest ih =>
    rw [List.map_cons, rowsOf_cons, blankRows_append, ih, Fragment.rows, blankRows_ink m.isBlank_line]
    rfl

theorem EnumMember.isWord_texts (m : EnumMember) : ∀ p ∈ m.texts, p.isWord = true := by
  cases m with
  | bare name => exact List.forall_mem_singleton.mpr rfl
  | valued name value => exact List.forall_mem_cons.mpr ⟨rfl, List.forall_mem_singleton.mpr rfl⟩

/-! ## Bodies -/

/-- The blank rows of a body: between its elements, in its verbatim items, and those of its elements. -/
def bodyBlankRows (body : List Statement) : List BlankRow :=
  (siblingPairs body).flatMap (fun pair => pair.1.gapRows) ++ (statementsOf body).flatMap Part.blankRows ++
    (allDepths (elementsOf body)).flatMap Element.ownBlankRows

theorem blankRows_gap (e : Element) : blankRows e.gap = e.gapRows := by
  unfold Element.gap Element.gapRows
  split <;> rfl

/-- A gap in front of a body is written only if the body begins with an element. -/
theorem fragments_gap (gap : List Fragment) (e : Element) (rest : List Statement) :
    Statement.fragments gap (.element e :: rest) = gap ++ Statement.fragments [] (.element e :: rest) := by
  rw [fragments_element, fragments_element, List.nil_append, List.append_assoc]

/-- Wherever an element stands, its blank rows are those that it makes and that the elements below it make. -/
def Element.BlankRowsMade (e : Element) : Prop :=
  ∀ topLevel level, (blankRows (rowsOf level (e.fragments topLevel))).Perm
    ((allDepths [e]).flatMap Element.ownBlankRows)

/-- The gap after an element is written where another element follows it right away. -/
theorem blankRows_after_element (level : Nat) (e : Element) (rest : List Statement) :
    ∃ pairs, siblingPairs (.element e :: rest) = pairs ++ siblingPairs rest ∧
      blankRows (rowsOf level (Statement.fragments (gapFragments e) rest)) =
        pairs.flatMap (fun pair => pair.1.gapRows) ++
          blankRows (rowsOf level (Statement.fragments [] rest)) := by
  cases rest with
  | nil => exact ⟨[], rfl, by rw [Statement.fragments, Statement.fragments]; rfl⟩
  | cons item rest =>
    cases item with
    | raw text => exact ⟨[], rfl, by rw [fragments_raw, fragments_raw]; rfl⟩
    | element next =>
      refine ⟨[(e, next)], rfl, ?_⟩
      rw [fragments_gap, rowsOf_append, blankRows_append, rowsOf_gapFragments, blankRows_gap]
      exact congrArg (· ++ _) (List.append_nil _).symm

theorem bodyBlankRows_raw (text : String) (rest : List Statement) :
    (bodyBlankRows (.raw text :: rest)).Perm (emptyRows (lines text) ++ bodyBlankRows rest) := by
  have hpairs : siblingPairs (.raw text :: rest) = siblingPairs rest := rfl
  rw [List.perm_iff_count]
  intro a
  rw [bodyBlankRows, bodyBlankRows, hpairs, statementsOf_raw, elementsOf_raw, List.flatMap_cons, Part.blankRows]
  simp only [List.count_append]
  omega

/-- The blank rows of a body, each of whose elements has its own. -/
theorem Statement.blankRows_perm (level : Nat) {body : List Statement}
    (h : ∀ x ∈ elementsOf body, x.BlankRowsMade) :
    (blankRows (rowsOf level (Statement.fragments [] body))).Perm (bodyBlankRows body) := by
  induction body with
  | nil => rw [Statement.fragments, rowsOf_nil]; exact .refl _
  | cons item rest ih =>
    cases item with
    | raw text =>
      rw [elementsOf_raw] at h
      rw [fragments_raw, rowsOf_append, blankRows_append, blankRows_rawFragments]
      exact ((ih h).append_left _).trans (bodyBlankRows_raw text rest).symm
    | element e =>
      rw [elementsOf_element, List.forall_mem_cons] at h
      obtain ⟨pairs, hpairs, hrest⟩ := blankRows_after_element level e rest
      -- The gap stands between the rows of two elements, and among the blank rows of the body at their head:
      -- only the numbers agree.
      rw [fragments_element, List.nil_append, rowsOf_append, blankRows_append, hrest, List.perm_iff_count]
      intro a
      have he := (h.1 false level).count_eq a
      have hbody := (ih h.2).count_eq a
      rw [bodyBlankRows] at hbody ⊢
      rw [hpairs, statementsOf_element, elementsOf_element, ← List.singleton_append, allDepths_append]
      simp only [List.count_append, List.flatMap_append] at hbody ⊢
      omega

/-- The blank rows of methods: in front of all but a first member, and in their bodies. -/
theorem Method.blankRows_perm (level : Nat) (methods : List Method)
    (h : ∀ m ∈ methods,
      (blankRows (rowsOf (level + 1) (Statement.fragments [] m.body))).Perm (bodyBlankRows m.body))
    (isFirst : Bool) : (blankRows (rowsOf level (Method.fragments isFirst methods))).Perm
      ((if isFirst then methods.tail else methods).map (fun _ => .empty) ++
        (methods.map Method.body).flatMap bodyBlankRows) := by
  induction methods generalizing isFirst with
  | nil => cases isFirst <;> (rw [Method.fragments, rowsOf_nil]; exact .refl _)
  | cons m rest ih =>
    obtain ⟨head, body⟩ := m
    rw [List.forall_mem_cons] at h
    have hgap : blankRows (rowsOf level [.blank]) = [.empty] := by
      rw [rowsOf_singleton, Fragment.rows, blankRows_bare]
    rw [Method.fragments, rowsOf_append, blankRows_append, rowsOf_cons, ← rowsOf_singleton, blankRows_append,
      blankRows_braced, List.perm_iff_count]
    intro a
    have hbody : (blankRows (rowsOf (level + 1) (Statement.fragments [] body))).count a =
        (bodyBlankRows body).count a := h.1.count_eq a
    have hrest := (ih h.2 false).count_eq a
    rw [List.map_cons, List.flatMap_cons]
    cases isFirst with
    | true =>
      simp only [Bool.false_eq_true, if_true, if_false, List.tail_cons, rowsOf_nil, blankRows_nil,
        List.count_append, List.count_nil] at hrest ⊢
      omega
    | false =>
      simp only [Bool.false_eq_true, if_false, List.map_cons, hgap, List.count_append, List.count_cons,
        List.count_nil] at hrest ⊢
      omega

/-! ## Elements -/

/-- The blank rows of all bodies of an element, by where they come from. -/
theorem bodyBlankRows_flatMap (bodies : List (List Statement)) :
    (bodies.flatMap bodyBlankRows).Perm ((bodies.flatMap siblingPairs).flatMap (fun pair => pair.1.gapRows) ++
      (bodies.flatMap statementsOf).flatMap Part.blankRows ++
        (allDepths (bodies.flatMap elementsOf)).flatMap Element.ownBlankRows) := by
  induction bodies with
  | nil => exact .refl _
  | cons body rest ih =>
    rw [List.perm_iff_count]
    intro a
    have hrest := ih.count_eq a
    rw [List.flatMap_cons, bodyBlankRows]
    simp only [List.flatMap_cons, allDepths_append, List.count_append, List.flatMap_append] at hrest ⊢
    omega

/-- The blank rows of an element are those that it makes and those in its bodies. -/
theorem ownBlankRows_perm (e : Element) : ((allDepths [e]).flatMap Element.ownBlankRows).Perm
    ((if e.isLoop then [.empty] else []) ++ e.laterMethods.map (fun _ => .empty) ++
      e.headTexts.flatMap Part.blankRows ++ e.bodies.flatMap bodyBlankRows) := by
  have hbodies := bodyBlankRows_flatMap e.bodies
  rw [List.perm_iff_count]
  intro a
  have hcount := hbodies.count_eq a
  rw [allDepths_cons, e.inner_eq, Element.children]
  rw [List.flatMap_append, List.flatMap_cons, Element.ownBlankRows, Element.ownTexts]
  simp only [List.count_append, List.flatMap_append, allDepths, List.flatMap_nil, List.append_nil] at hcount ⊢
  omega

/-- An element without bodies makes the blank rows of its texts. -/
theorem Element.perm_without_bodies {e : Element} {made : List BlankRow} (hloop : e.isLoop = false)
    (hmethods : e.laterMethods = []) (hbodies : e.bodies = [])
    (hmade : made = e.headTexts.flatMap Part.blankRows) :
    made.Perm ((allDepths [e]).flatMap Element.ownBlankRows) := by
  refine List.Perm.trans (.of_eq ?_) (ownBlankRows_perm e).symm
  rw [hloop, hmethods, hbodies, hmade]
  exact (List.append_nil _).symm

/-- An element that is a body after words makes the blank rows of the body, and one more if it is a loop. -/
theorem Element.perm_around_body {e : Element} {made inner : List BlankRow} {body : List Statement}
    (hmethods : e.laterMethods = []) (hbodies : e.bodies = [body]) (hwords : ∀ p ∈ e.headTexts, p.isWord = true)
    (hinner : inner.Perm (bodyBlankRows body)) (hmade : made = inner ++ if e.isLoop then [.empty] else []) :
    made.Perm ((allDepths [e]).flatMap Element.ownBlankRows) := by
  refine List.Perm.trans ?_ (ownBlankRows_perm e).symm
  rw [hmade, hmethods, hbodies, blankRows_words hwords, List.flatMap_singleton, List.map_nil, List.append_nil,
    List.append_nil]
  exact (hinner.append_right _).trans List.perm_append_comm

/-- The texts of a class apart from those of its properties are words. -/
theorem ClassHead.blankRows_texts (head : ClassHead) (methods : List Method) :
    (Element.headTexts (.classDecl head methods)).flatMap Part.blankRows =
      (head.properties.flatMap ClassProperty.texts).flatMap Part.blankRows := by
  have hmethods : (methods.flatMap fun m => m.head.texts).flatMap Part.blankRows = [] :=
    blankRows_words (List.forall_mem_flatMap.mpr fun m _ => m.head.isWord_texts)
  rw [Element.headTexts, texts, List.flatMap_append, hmethods, List.append_nil, List.flatMap_cons,
    List.flatMap_append, List.flatMap_append, blankRows_words (isWord_of_mem_map _),
    blankRows_words (isWord_of_mem_map _)]
  rfl

/-- Every element has the blank rows that it and the elements below it make, and no others. -/
theorem Element.blankRows_perm (e : Element) : e.BlankRowsMade := by
  induction e using Element.bodies_induction with
  | step e ih =>
  intro topLevel level
  have hbody : ∀ body ∈ e.bodies, ∀ level,
      (blankRows (rowsOf level (Statement.fragments [] body))).Perm (bodyBlankRows body) :=
    fun body hb level => Statement.blankRows_perm level (ih body hb)
  clear ih
  cases e with
  | constDecl decl =>
    refine perm_without_bodies rfl rfl rfl ?_
    rw [fragments, Constant.fragments, headTexts, Constant.texts, List.flatMap_cons]
    cases decl.value with
    | raw text =>
      have hink : ∀ start, isBlank (start ++ " =" ++ " ") = false := fun start => by
        rw [String.append_assoc]
        exact ink_append _ (by decide)
      exact (blankRows_splice_semicolon level text (hink _)).trans (List.append_nil _).symm
    | object entries => exact (blankRows_braced level _ _ _).trans (ObjectLiteral.blankRows_fragments _ entries)
  | typeDecl decl =>
    refine perm_without_bodies rfl rfl rfl ?_
    rw [fragments, TypeAlias.fragments, blankRows_splice_semicolon level decl.value (ink_append _ (by decide))]
    exact (List.append_nil _).symm
  | interfaceDecl decl =>
    refine perm_without_bodies rfl rfl rfl ?_
    rw [fragments, Interface.fragments, blankRows_braced]
    refine blankRows_flatMap (level + 1) fun f _ => ?_
    rw [blankRows_splice_semicolon _ f.type (ink_append _ (by decide))]
    exact (List.append_nil _).symm
  | functionDecl head body =>
    exact perm_around_body rfl rfl (List.forall_mem_cons.mpr ⟨rfl, head.signature.isWord_texts⟩)
      (hbody body (List.mem_singleton_self _) _) ((blankRows_braced level _ _ _).trans (List.append_nil _).symm)
  | arrowFunction signature body =>
    exact perm_around_body rfl rfl signature.isWord_texts (hbody body (List.mem_singleton_self _) _)
      ((blankRows_braced level _ _ _).trans (List.append_nil _).symm)
  | classDecl head methods =>
    have hmethods := Method.blankRows_perm (level + 1) methods
      (fun m hm => hbody m.body (List.mem_map_of_mem hm) _) head.properties.isEmpty
    refine List.Perm.trans ?_ (ownBlankRows_perm _).symm
    rw [fragments, blankRows_braced, rowsOf_append, blankRows_append, head.blankRows_properties,
      ClassHead.blankRows_texts]
    rw [List.append_assoc]
    exact (hmethods.append_left _).trans (List.perm_append_comm_assoc _ _ _)
  | enumDecl decl =>
    refine perm_without_bodies rfl rfl rfl ?_
    rw [fragments, Enumeration.fragments, blankRows_braced, Enumeration.blankRows_members, headTexts,
      Enumeration.texts, blankRows_words]
    exact List.forall_mem_cons.mpr ⟨rfl, List.forall_mem_flatMap.mpr fun m _ => m.isWord_texts⟩
  | ifElse condition body otherwise =>
    cases otherwise with
    | none =>
      exact perm_around_body rfl rfl (List.forall_mem_singleton.mpr rfl)
        (hbody body (List.mem_singleton_self _) _)
        ((blankRows_braced level _ _ _).trans (List.append_nil _).symm)
    | some otherwise =>
      have hotherwise := hbody otherwise (List.mem_cons_of_mem _ (List.mem_singleton_self _)) (level + 1)
      refine List.Perm.trans ?_ (ownBlankRows_perm _).symm
      rw [fragments, blankRows_branches]
      refine ((hbody body List.mem_cons_self _).append hotherwise).trans (.of_eq ?_)
      exact (congrArg (bodyBlankRows body ++ ·) (List.append_nil _).symm)
  | forLoop clauses body =>
    have hwords : ∀ p ∈ [Part.word clauses.initializer, .word clauses.condition, .word clauses.incrementor],
        p.isWord = true := isWord_of_mem_map [_, _, _]
    exact perm_around_body rfl rfl hwords (hbody body (List.mem_singleton_self _) _) (blankRows_loop level _ _)
  | forOfLoop iteration body =>
    have hwords : ∀ p ∈ [Part.word iteration.binder, .word iteration.iterable], p.isWord = true :=
      isWord_of_mem_map [_, _]
    exact perm_around_body rfl rfl hwords (hbody body (List.mem_singleton_self _) _) (blankRows_loop level _ _)

/-! ## Files -/

/-- The blank rows of elements that follow each other: between them, and those of each. -/
theorem blankRows_elementRows_perm (topLevel : Bool) (level : Nat) : ∀ es : List Element,
    (blankRows (elementRows topLevel level es)).Perm
      ((siblingPairs (es.map .element)).flatMap (fun pair => pair.1.gapRows) ++
        (allDepths es).flatMap Element.ownBlankRows)
  | [] => by rw [elementRows_nil]; exact .refl _
  | [e] => by rw [elementRows]; exact e.blankRows_perm topLevel level
  | e :: next :: rest => by
    have hpairs : siblingPairs ((e :: next :: rest).map .element) =
        (e, next) :: siblingPairs ((next :: rest).map .element) := rfl
    have hdepths : allDepths (e :: next :: rest) = allDepths [e] ++ allDepths (next :: rest) :=
      allDepths_append [e] (next :: rest)
    rw [elementRows, blankRows_append, blankRows_append, blankRows_gap, hpairs, hdepths, List.perm_iff_count]
    intro a
    have he := (e.blankRows_perm topLevel level).count_eq a
    have hrest := (blankRows_elementRows_perm topLevel level (next :: rest)).count_eq a
    simp only [List.flatMap_cons, List.flatMap_append, List.count_append] at hrest ⊢
    omega

/-- A line of a banner is a comment, with ink in it even if the line is blank. -/
theorem blankRows_bannerRows (level : Nat) (banner : Option String) :
    blankRows (bannerRows level banner) = [] := by
  rw [blankRows, List.filterMap_eq_nil_iff]
  intro row hrow
  cases banner with
  | none => exact absurd hrow (by rw [bannerRows, CodeFile.bannerFragments, rowsOf_nil]; exact List.not_mem_nil)
  | some text =>
    rw [bannerRows_some] at hrow
    obtain ⟨line, -, rfl⟩ := List.mem_map.mp hrow
    rw [Row.blank?, isBlank_append, show isBlank "// " = false by decide]; rfl

/-- The blank rows of a file: under its banner, between its elements, and those of each element. -/
theorem CodeFile.blankRows_perm (f : CodeFile) (level : Nat) : (blankRows (f.rows level)).Perm
    (blankRows (bannerGap level f.banner f.elements) ++
      ((siblingPairs (f.elements.map .element)).flatMap (fun pair => pair.1.gapRows) ++
        (allDepths f.elements).flatMap Element.ownBlankRows)) := by
  rw [rows, blankRows_append, blankRows_append, blankRows_bannerRows, List.nil_append]
  exact (blankRows_elementRows_perm true level f.elements).append_left _

/-! ## Rows of spaces -/

theorem spaces_not_mem_emptyRows {text : String} {texts : List String} : .spaces text ∉ emptyRows texts := by
  intro h
  obtain ⟨line, -, hline⟩ := List.mem_map.mp h
  cases hline

/-- A text leaves a row of spaces only as its last line, if it ends an object literal. -/
theorem Part.spaces_mem_blankRows {p : Part} {line : String} : .spaces line ∈ p.blankRows ↔
    ∃ text, p = .lastValue text ∧ (lines text).tail.getLast? = some line ∧ isBlank line = true := by
  cases p with
  | word text => simp [blankRows]
  | statement text => simp [blankRows, spaces_not_mem_emptyRows]
  | value text => simp [blankRows, laterRows, spaces_not_mem_emptyRows]
  | lastValue text => simp [blankRows, laterRows, spaces_not_mem_emptyRows]

theorem spaces_not_mem_gapRows {text : String} (e : Element) : .spaces text ∉ e.gapRows := by
  unfold Element.gapRows
  split
  · exact List.not_mem_nil
  · exact fun h => by cases List.mem_singleton.mp h

theorem Element.spaces_mem_ownBlankRows {e : Element} {line : String} :
    .spaces line ∈ e.ownBlankRows ↔ ∃ p ∈ e.ownTexts, .spaces line ∈ p.blankRows := by
  unfold ownBlankRows
  simp [spaces_not_mem_gapRows]

/-- The rows of spaces of a file are the blank last lines of the values that end its object literals. -/
theorem CodeFile.spaces_mem_blankRows {f : CodeFile} {level : Nat} {line : String} :
    .spaces line ∈ blankRows (f.rows level) ↔ ∃ text, .lastValue text ∈ texts f.elements ∧
      (lines text).tail.getLast? = some line ∧ isBlank line = true := by
  have hbanner : .spaces line ∉ blankRows (bannerGap level f.banner f.elements) := by
    unfold bannerGap
    split
    · exact List.not_mem_nil
    · exact fun h => by cases List.mem_singleton.mp h
  have hgaps : .spaces line ∉ (siblingPairs (f.elements.map .element)).flatMap (fun pair => pair.1.gapRows) :=
    fun h => (List.mem_flatMap.mp h).elim fun pair hpair => spaces_not_mem_gapRows pair.1 hpair.2
  rw [(f.blankRows_perm level).mem_iff, List.mem_append, or_iff_right hbanner, List.mem_append,
    or_iff_right hgaps, List.mem_flatMap]
  constructor
  · rintro ⟨e, he, hline⟩
    obtain ⟨p, hp, hspaces⟩ := Element.spaces_mem_ownBlankRows.mp hline
    obtain ⟨text, rfl, hlast⟩ := Part.spaces_mem_blankRows.mp hspaces
    exact ⟨text, List.mem_flatMap.mpr ⟨e, he, hp⟩, hlast⟩
  · rintro ⟨text, htext, hlast⟩
    obtain ⟨e, he, hp⟩ := List.mem_flatMap.mp htext
    exact ⟨e, he, Element.spaces_mem_ownBlankRows.mpr ⟨_, hp, Part.spaces_mem_blankRows.mpr ⟨text, rfl, hlast⟩⟩⟩

/-! ## Blank lines of a file -/

theorem isBlank_lead (indent : Indent) (level : Nat) : isBlank (indent.lead level) = true := by
  rw [isBlank, List.all_eq_true]
  intro c hc
  rcases Indent.mem_lead hc with rfl | rfl <;> decide

/-- The line of a row of spaces that stands deeper than the code is empty exactly when its text and the units of
its level are. -/
theorem Row.line_at_blank {indent : Indent} {level depth : Nat} {text : String}
    (h : (Row.at depth text).Stands level false) (hblank : isBlank text = true) :
    (Row.at depth text).line indent = "" ↔ text = "" ∧ indent.unit = "" := by
  have hdepth : level < depth := (h.2.2 hblank).resolve_left Bool.false_ne_true
  rw [line, String.append_eq_empty_iff, Indent.lead_eq_empty_iff (Nat.zero_lt_of_lt hdepth), and_comm]

/-- A line is empty or has ink in it if its row is no row of spaces, or one of nothing at all. -/
theorem Row.line_empty_or_ink_iff {indent : Indent} {level : Nat} {row : Row} (h : row.Stands level false) :
    (row.line indent = "" ∨ isBlank (row.line indent) = false) ↔
      ∀ text, row.blank? = some (.spaces text) → text = "" ∧ indent.unit = "" := by
  cases row with
  | bare => exact ⟨fun _ _ h => (by cases h), fun _ => .inl rfl⟩
  | «at» depth text =>
    have hline : isBlank ((Row.at depth text).line indent) = isBlank text := by
      rw [line, isBlank_append, isBlank_lead, Bool.true_and]
    rw [hline, blank?]
    cases hblank : isBlank text with
    | false => exact ⟨fun _ _ h => (by cases h), fun _ => .inr rfl⟩
    | true =>
      rw [if_pos rfl, Row.line_at_blank h hblank]
      constructor
      · rintro (hempty | hink) other hother
        · obtain rfl := BlankRow.spaces.inj (Option.some.inj hother)
          exact hempty
        · cases hink
      · exact fun hall => .inl (hall text rfl)

/-- The lines of the text of a file are empty or hold something besides spaces, but for one kind: a blank last
line of several of the value that ends an object literal. That one is written after the units of its level, as
it is, so that it is empty only if both are. -/
theorem CodeFile.renderAt_blank_lines (f : CodeFile) (hvalid : f.validate = .ok ())
    (hwords : SingleLineWords f.elements) (indent : Indent) (level : Nat) :
    ∃ text, f.renderAt indent level = .ok text ∧
      ((∀ line ∈ writtenLines text, line = "" ∨ isBlank line = false) ↔
        ∀ value, .lastValue value ∈ texts f.elements → ∀ last ∈ (lines value).tail.getLast?,
          isBlank last = true → last = "" ∧ indent.unit = "") := by
  have hstands := stands hvalid hwords level
  refine ⟨f.text indent level, renderAt_of_valid hvalid indent level, ?_⟩
  rw [writtenLines_text hvalid hwords, List.forall_mem_map]
  constructor
  · intro hbare value hvalue last hlast hblank
    obtain ⟨row, hrow, hspaces⟩ : ∃ row ∈ f.rows level, row.blank? = some (.spaces last) :=
      List.mem_filterMap.mp (spaces_mem_blankRows.mpr ⟨value, hvalue, hlast, hblank⟩)
    exact (Row.line_empty_or_ink_iff (hstands row hrow)).mp (hbare row hrow) last hspaces
  · intro hlast row hrow
    refine (Row.line_empty_or_ink_iff (hstands row hrow)).mpr fun last hspaces => ?_
    obtain ⟨value, hvalue, hline, hblank⟩ :=
      spaces_mem_blankRows.mp (List.mem_filterMap.mpr ⟨row, hrow, hspaces⟩)
    exact hlast value hvalue last hline hblank

/-- A value whose last line is empty, at the end of an object: the line holds the units of its level. -/
theorem CodeFile.renderAt_blank_lines_object :
    ∃ text, (ofElements [.constDecl { name := "a", value := .object [⟨"x", .raw "1\n\n"⟩] }]).renderAt
        (.spaces 2) 0 = .ok text ∧
      text = "const a = \x7b\n  x: 1\n  \n\x7d;\n" ∧
      ¬ ∀ line ∈ writtenLines text, line = "" ∨ isBlank line = false := by
  obtain ⟨text, hrender, hlines⟩ := renderAt_blank_lines
    (ofElements [.constDecl { name := "a", value := .object [⟨"x", .raw "1\n\n"⟩] }]) rfl (by decide)
    (.spaces 2) 0
  obtain ⟨-, rfl⟩ := renderAt_eq_ok_iff.mp hrender
  refine ⟨_, hrender, by decide +kernel, fun hall => ?_⟩
  have hunit : (Indent.spaces 2).unit = "" := (hlines.mp hall "1\n\n" (by decide) "" rfl rfl).2
  exact absurd hunit (by decide)

end TypeScribe
