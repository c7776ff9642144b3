import TypeScribe.Proofs.WrittenLines

/-!
# Members of classes

A class with members is written as its header line, its members in order, properties first, and its closing
line. A member comes out as it does when it is the only one of its class, and one empty line stands in front of
a method unless it is the first member of all. Nothing else stands between the header line and the closing one.

* `rowsOf_class`: the rows of a class, member by member.
* `CodeFile.renderAt_class`: the text of a class.
-/

namespace TypeScribe

/-- A member of a class. -/
inductive Member where
  | property (decl : ClassProperty)
  | method (decl : Method)

namespace Member

/-- Whether a member is a method. -/
def isMethod : Member → Bool
  | .property _ => false
  | .method _ => true

/-- The class that has this member only. -/
def alone (head : ClassHead) : Member → Element
  | .property p => .classDecl { head with properties := [p] } []
  | .method m => .classDecl { head with properties := [] } [m]

/-- The fragment of a member. -/
def fragment : Member → Fragment
  | .property p => p.fragment
  | .method m => braced m.head.text (Statement.fragments [] m.body) ""

/-- The empty row in front of a member, which only a method has that is not the first member. -/
def gap (index : Nat) (m : Member) : List Row := if m.isMethod && index != 0 then [.bare] else []

end Member

/-- The members of a class in the order in which they are written. -/
def classMembers (head : ClassHead) (methods : List Method) : List Member :=
  head.properties.map .property ++ methods.map .method

/-- The texts of members one after the other, with a line feed in front of each method that is not the first
member. -/
def membersText (text : Member → String) (ms : List Member) : String :=
  String.join (ms.zipIdx.map fun (m, index) => (if m.isMethod && index != 0 then "\n" else "") ++ text m)

/-- The rows of members that are counted from an index, each after its gap. -/
def memberRows (level index : Nat) (ms : List Member) : List Row :=
  (ms.zipIdx index).flatMap fun (m, i) => m.gap i ++ m.fragment.rows level

variable {level : Nat}

/-! ## Rows -/

theorem memberRows_cons (index : Nat) (m : Member) (ms : List Member) :
    memberRows level index (m :: ms) = m.gap index ++ m.fragment.rows level ++ memberRows level (index + 1) ms := by
  rw [memberRows, List.zipIdx_cons, List.flatMap_cons, memberRows]

theorem memberRows_append (index : Nat) (ms more : List Member) :
    memberRows level index (ms ++ more) = memberRows level index ms ++ memberRows level (index + ms.length) more := by
  rw [memberRows, List.zipIdx_append, List.flatMap_append, memberRows, memberRows]

/-- Properties have no gaps, whatever their numbers are. -/
theorem rowsOf_properties (properties : List ClassProperty) (index : Nat) :
    rowsOf level (properties.map ClassProperty.fragment) = memberRows level index (properties.map .property) := by
  induction properties generalizing index with
  | nil => exact rowsOf_nil
  | cons p rest ih =>
    rw [List.map_cons, rowsOf_cons, ih (index + 1), List.map_cons, memberRows_cons]
    rfl

/-- Methods are written with the gaps that their numbers call for. -/
theorem rowsOf_methods (methods : List Method) (index : Nat) :
    rowsOf level (Method.fragments (index == 0) methods) = memberRows level index (methods.map .method) := by
  induction methods generalizing index with
  | nil => rw [Method.fragments]; exact rowsOf_nil
  | cons m rest ih =>
    obtain ⟨head, body⟩ := m
    have hgap : rowsOf level (if (index == 0) = true then [] else [.blank]) =
        Member.gap index (.method ⟨head, body⟩) := by
      rw [Member.gap, Member.isMethod, Bool.true_and, bne]
      cases index == 0 with
      | true => exact rowsOf_nil
      | false => rw [if_neg Bool.false_ne_true, rowsOf_singleton, Fragment.rows]; rfl
    have hlater : (index + 1 == 0) = false := rfl
    rw [Method.fragments, List.map_cons, memberRows_cons, ← ih, rowsOf_append, rowsOf_cons, hgap, hlater,
      List.append_assoc]
    rfl

/-- What stands in the braces of a class are its members. -/
theorem rowsOf_members (head : ClassHead) (methods : List Method) :
    rowsOf level (head.properties.map ClassProperty.fragment ++
      Method.fragments head.properties.isEmpty methods) = memberRows level 0 (classMembers head methods) := by
  have hfirst : head.properties.isEmpty = (head.properties.length == 0) := by
    cases head.properties <;> rfl
  rw [rowsOf_append, rowsOf_properties head.properties 0, hfirst, rowsOf_methods, classMembers, memberRows_append,
    List.length_map, Nat.zero_add]

theorem classMembers_eq_nil_iff {head : ClassHead} {methods : List Method} :
    head.properties.map ClassProperty.fragment ++ Method.fragments head.properties.isEmpty methods = [] ↔
      classMembers head methods = [] := by
  have hmethods : ∀ isFirst, Method.fragments isFirst methods = [] ↔ methods = [] := by
    intro isFirst
    cases methods with
    | nil => simp only [Method.fragments]
    | cons m rest => obtain ⟨first, body⟩ := m; simp [Method.fragments]
  simp only [classMembers, List.append_eq_nil_iff, List.map_eq_nil_iff, hmethods]

/-- A class is one row if it has no member, and else its members between two rows. -/
theorem rowsOf_class (head : ClassHead) (methods : List Method) (topLevel : Bool) :
    rowsOf level ((Element.classDecl head methods).fragments topLevel) =
      if classMembers head methods = [] then [.at level (head.text topLevel ++ " " ++ openBrace ++ closeBrace)]
      else .at level (head.text topLevel ++ " " ++ openBrace) ::
        (memberRows (level + 1) 0 (classMembers head methods) ++ [.at level closeBrace]) := by
  have hheaded : headed (head.text topLevel) = head.text topLevel ++ " " := headed_eq (by simp [ClassHead.text])
  rw [Element.fragments, rowsOf_braced, rowsOf_members, hheaded, String.append_empty, String.append_empty]
  simp only [classMembers_eq_nil_iff]

/-! ## Texts -/

/-- The text of a member of a class that stands at a level. -/
def Member.text (indent : Indent) (level : Nat) (m : Member) : String :=
  rowsText indent (m.fragment.rows (level + 1))

variable {indent : Indent}

theorem rowsText_memberRows (ms : List Member) :
    rowsText indent (memberRows (level + 1) 0 ms) = membersText (Member.text indent level) ms := by
  rw [memberRows, rowsText_flatMap, membersText]
  refine congrArg String.join (List.map_congr_left fun (m, index) _ => ?_)
  show rowsText indent (m.gap index ++ m.fragment.rows (level + 1)) = _ ++ m.text indent level
  rw [rowsText_append, Member.gap]
  split
  · rw [rowsText_bare]; rfl
  · rw [rowsText_nil]; rfl

/-- The text of a class, member by member. -/
theorem text_class (head : ClassHead) (methods : List Method) :
    (CodeFile.ofElements [.classDecl head methods]).text indent level =
      if classMembers head methods = [] then
        indent.lead level ++ head.text true ++ " " ++ openBrace ++ closeBrace ++ "\n"
      else
        indent.lead level ++ head.text true ++ " " ++ openBrace ++ "\n" ++
          membersText (Member.text indent level) (classMembers head methods) ++
            (indent.lead level ++ closeBrace ++ "\n") := by
  rw [CodeFile.text_ofElements, elementRows, rowsOf_class]
  split
  · simp only [rowsText_singleton, Row.text, String.append_assoc]
  · rw [rowsText_cons, rowsText_append, rowsText_memberRows, rowsText_singleton]
    simp only [Row.text, String.append_assoc]

/-- The only member of a class has no gap in front of it. -/
theorem membersText_singleton (text : Member → String) (m : Member) : membersText text [m] = text m := by
  rw [membersText, List.zipIdx_singleton, List.map_singleton, String.join_cons, String.join_nil, String.append_empty]
  simp

/-- The text of a class with one member. -/
theorem text_alone (head : ClassHead) (m : Member) :
    (CodeFile.ofElements [m.alone head]).text indent level =
      indent.lead level ++ head.text true ++ " " ++ openBrace ++ "\n" ++ m.text indent level ++
        (indent.lead level ++ closeBrace ++ "\n") := by
  rw [← membersText_singleton (Member.text indent level) m]
  cases m with
  | property p => exact (text_class _ _).trans (if_neg (List.cons_ne_nil _ _))
  | method m => exact (text_class _ _).trans (if_neg (List.cons_ne_nil _ _))

/-- The last line of a member is not empty. -/
theorem Member.fragment_closed (m : Member) : Closed (m.fragment.rows level) := by
  cases m with
  | property p =>
    rw [fragment, ClassProperty.fragment]
    split
    · rw [Fragment.rows]
      exact splice_closed level _ _ endsInk_semicolon
    · rw [Fragment.rows]
      exact closed_singleton (endsInk_semicolon.append _)
  | method m => exact braced_closed level _ _ endsInk_brace

/-! ## Members that lack nothing -/

/-- Each member of a class that lacks nothing makes up a class that lacks nothing. -/
theorem missing?_alone {head : ClassHead} {methods : List Method}
    (h : (Element.classDecl head methods).missing? = none) :
    ∀ m ∈ classMembers head methods, (m.alone head).missing? = none := by
  rw [Element.missing?, Option.or_eq_none_iff, ClassHead.missing?] at h
  simp only [Option.or_eq_none_iff, firstMissing_items_eq_none_iff, Method.missing?_eq_none_iff] at h
  obtain ⟨⟨hname, hparent, himplements, hproperties⟩, hmethods⟩ := h
  have hhead : ∀ properties : List ClassProperty, (∀ p ∈ properties, p.missing? = none) →
      { head with properties := properties }.missing? = none := by
    intro properties hp
    simp only [ClassHead.missing?, Option.or_eq_none_iff, firstMissing_items_eq_none_iff]
    exact ⟨hname, hparent, himplements, hp⟩
  rw [classMembers, List.forall_mem_append, List.forall_mem_map, List.forall_mem_map]
  refine ⟨fun p hp => ?_, fun m hm => ?_⟩
  · rw [Member.alone, Element.missing?, hhead [p] (List.forall_mem_singleton.mpr (hproperties p hp)),
      Method.missing?]
    rfl
  · rw [Member.alone, Element.missing?, hhead [] (fun _ h => absurd h List.not_mem_nil), Option.none_or,
      Method.missing?_eq_none_iff]
    exact List.forall_mem_singleton.mpr (hmethods m hm)

/-! ## Results -/

/-- A valid class is one line that ends in two braces if it has no member. Otherwise it is its header line, its
members in order, and its closing line: each member with the text that it has as the only member of the class,
and one line feed in front of each method that is not the first member. -/
theorem CodeFile.renderAt_class {head : ClassHead} {methods : List Method}
    (hvalid : (ofElements [.classDecl head methods]).validate = .ok ()) (indent : Indent) (level : Nat) :
    let opening := indent.lead level ++ head.text true ++ " " ++ openBrace
    let closing := indent.lead level ++ closeBrace ++ "\n"
    ∃ text : Member → String,
      (∀ m ∈ classMembers head methods,
        (ofElements [m.alone head]).renderAt indent level = .ok (opening ++ "\n" ++ text m ++ closing) ∧
          ∃ ink, text m = ink ++ "\n" ∧ EndsInk ink) ∧
      (ofElements [.classDecl head methods]).renderAt indent level =
        .ok (if classMembers head methods = [] then opening ++ closeBrace ++ "\n"
          else opening ++ "\n" ++ membersText text (classMembers head methods) ++ closing) := by
  intro opening closing
  have hcomplete : (Element.classDecl head methods).missing? = none :=
    validate_eq_ok_iff.mp hvalid _ (List.mem_singleton_self _)
  refine ⟨Member.text indent level, fun m hm => ⟨?_, m.fragment_closed.text_eq indent⟩, ?_⟩
  · have halone : (ofElements [m.alone head]).validate = .ok () :=
      validate_eq_ok_iff.mpr (List.forall_mem_singleton.mpr (missing?_alone hcomplete m hm))
    rw [renderAt_of_valid halone, text_alone]
  · rw [renderAt_of_valid hvalid, text_class]

/-- A property of two lines, a method that ends in a loop, and a method without a body. -/
theorem CodeFile.renderAt_class_table :
    (ofElements [.classDecl { name := "Table", properties := [{ name := "rows", value := some "[\n]" }] }
        [⟨{ name := "run" }, [.element (.forLoop {} [])]⟩, ⟨{ name := "stop" }, []⟩]]).validate = .ok () ∧
      ∃ text : Member → String,
        (ofElements [.classDecl { name := "Table" } [⟨{ name := "run" }, [.element (.forLoop {} [])]⟩]]).renderAt
            .tab 1 =
          .ok ("\tclass Table \x7b\n" ++ text (.method ⟨{ name := "run" }, [.element (.forLoop {} [])]⟩) ++
            "\t\x7d\n") ∧
        "\tclass Table \x7b\n\t\trows = [\n\t\t];\n\n\t\trun() \x7b\n\t\t\tfor (; ; ) \x7b\x7d\n\n\t\t\x7d\n\n" ++
            "\t\tstop() \x7b\x7d\n\t\x7d\n" =
          "\tclass Table \x7b\n" ++
            membersText text [.property { name := "rows", value := some "[\n]" },
              .method ⟨{ name := "run" }, [.element (.forLoop {} [])]⟩, .method ⟨{ name := "stop" }, []⟩] ++
              "\t\x7d\n" := by
  have hvalid : (ofElements [.classDecl { name := "Table", properties := [{ name := "rows", value := some "[\n]" }] }
      [⟨{ name := "run" }, [.element (.forLoop {} [])]⟩, ⟨{ name := "stop" }, []⟩]]).validate = .ok () := rfl
  obtain ⟨text, hmembers, htext⟩ := renderAt_class hvalid .tab 1
  have hrun := (hmembers (.method _) (List.mem_cons_of_mem _ List.mem_cons_self)).1
  exact ⟨hvalid, text, hrun, Except.ok.inj htext⟩

end TypeScribe
