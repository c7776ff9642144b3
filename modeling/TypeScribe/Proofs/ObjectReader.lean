import TypeScribe.Proofs.ObjectLines

/-!
# Reading object literals back

The lines of an object literal tell what it is. They are read one by one, with the objects that are not at their end
held in a list: a line opens an object, ends the innermost one, or holds a whole property.

* `ObjectReader.readLines_objectLines`: the lines of an object add its properties to those read so far.
* `codeOf_object_lossless`: an object is what is read from its text, and how the text is laid out.
-/

namespace TypeScribe

/-- What a line of an object literal says. -/
inductive ObjectLine where
  /-- A property begins whose value is an object with properties. -/
  | opens (key : String)
  /-- The innermost object ends. -/
  | closes
  /-- A property with its whole value. -/
  | holds (key : String) (value : Value)

namespace ObjectLine

/-- What a key with a text after it says. -/
def ofValue (key value : String) : ObjectLine :=
  if value = "\x7b" then .opens key
  else if value = "\x7b\x7d" then .holds key (.object [])
  else .holds key (.raw value)

/-- What characters say that have neither spaces in front nor a comma at the end. -/
def ofChars (cs : List Char) : Option ObjectLine :=
  if cs = ['\x7d'] then some .closes
  else
    match cs.dropWhile (· != ':') with
    | ':' :: ' ' :: value => some (ofValue (String.ofList (cs.takeWhile (· != ':'))) (String.ofList value))
    | _ => none

/-- Characters without a comma at their end. -/
def withoutComma (cs : List Char) : List Char := if cs.getLast? = some ',' then cs.dropLast else cs

/-- Reads a line. -/
def read (line : String) : Option ObjectLine := ofChars (withoutComma (line.toList.dropWhile Blank.isSpace))

end ObjectLine

/-- An object in which a property is still being read: the properties in front of it, and its key. -/
structure OpenObject where
  before : ObjectLiteral
  key : String

/-- How far lines are read: the properties of the innermost object, and the objects around it. -/
structure ObjectReader where
  current : ObjectLiteral := []
  enclosing : List OpenObject := []

namespace ObjectReader

/-- Goes on by what a line says. -/
def step (r : ObjectReader) : ObjectLine → Option ObjectReader
  | .opens key => some ⟨[], ⟨r.current, key⟩ :: r.enclosing⟩
  | .closes =>
    match r.enclosing with
    | [] => none
    | outer :: enclosing => some ⟨outer.before ++ [⟨outer.key, .object r.current⟩], enclosing⟩
  | .holds key value => some { r with current := r.current ++ [⟨key, value⟩] }

/-- Reads lines one after the other. -/
def readLines (r : ObjectReader) (lines : List String) : Option ObjectReader :=
  lines.foldlM (fun r line => (ObjectLine.read line).bind r.step) r

end ObjectReader

/-- Reads the object literal in the text of a constant from the lines between the first and the last. -/
def readConstant (text : String) : Option ObjectLiteral :=
  match ObjectReader.readLines {} (writtenLines text).tail.dropLast with
  | some ⟨o, []⟩ => some o
  | _ => none

/-! ## Lines -/

namespace ObjectLine

variable {indent : Indent} {depth : Nat} {key : String} {followed : Bool}

theorem dropWhile_lead {text : String} (h : Unindented text) :
    (indent.lead depth ++ text).toList.dropWhile Blank.isSpace = text.toList := by
  have hlead : ∀ c ∈ (indent.lead depth).toList, Blank.isSpace c = true := by
    intro c hc
    rcases Indent.mem_lead hc with rfl | rfl <;> decide
  rw [String.toList_append, List.dropWhile_append_of_pos hlead]
  unfold Unindented at h
  cases hchars : text.toList with
  | nil => rfl
  | cons c rest =>
    rw [hchars] at h
    exact List.dropWhile_cons_of_neg (by rw [h c rfl]; exact Bool.false_ne_true)

theorem withoutComma_append {cs : List Char} (h : ',' ∉ cs) : withoutComma (cs ++ (comma followed).toList) = cs := by
  cases followed with
  | true =>
    show withoutComma (cs ++ [',']) = cs
    rw [withoutComma, if_pos List.getLast?_concat, List.dropLast_concat]
  | false =>
    show withoutComma (cs ++ []) = cs
    rw [List.append_nil, withoutComma, if_neg fun hlast => h (List.mem_of_getLast? hlast)]

/-- A key, a colon and a space are read as what they are. -/
theorem ofChars_keyed {key value : List Char} (hkey : ':' ∉ key) :
    ofChars (key ++ ':' :: ' ' :: value) = some (ofValue (String.ofList key) (String.ofList value)) := by
  have hpos : ∀ c ∈ key, (c != ':') = true := fun c hc => bne_iff_ne.mpr fun h => hkey (h ▸ hc)
  have hneg : ¬ (':' != ':') = true := by decide
  have hbrace : key ++ ':' :: ' ' :: value ≠ ['\x7d'] := fun h =>
    absurd (h ▸ List.mem_append_right key List.mem_cons_self : ':' ∈ ['\x7d']) (by decide)
  rw [ofChars, if_neg hbrace, List.dropWhile_append_of_pos hpos, List.dropWhile_cons, if_neg hneg,
    List.takeWhile_append_of_pos hpos, List.takeWhile_cons, if_neg hneg, List.append_nil]
  rfl

theorem read_closes : read (indent.lead depth ++ ("\x7d" ++ comma followed)) = some .closes := by
  have hfirst : Unindented ("\x7d" ++ comma followed) := by cases followed <;> decide
  rw [read, dropWhile_lead hfirst, String.toList_append, withoutComma_append (by decide)]
  rfl

theorem unindented_key (hkey : PlainText key) (text : String) : Unindented (key ++ text) := by
  obtain ⟨first, rest, hchars⟩ := List.exists_cons_of_ne_nil fun h => hkey.1 (String.toList_eq_nil_iff.mp h)
  intro c hc
  rw [String.toList_append, hchars, List.cons_append, List.head?_cons] at hc
  obtain rfl := Option.some.inj hc
  exact (hkey.2 first (hchars ▸ List.mem_cons_self)).1

/-- A line with a key tells the key and the text after it. -/
theorem read_keyed (hkey : PlainText key) {value : String} (hvalue : ',' ∉ value.toList) :
    read (indent.lead depth ++ (key ++ ": " ++ value ++ comma followed)) = some (ofValue key value) := by
  have hchars : (key ++ ": " ++ value).toList = key.toList ++ ':' :: ' ' :: value.toList := by
    rw [String.toList_append, String.toList_append, List.append_assoc]
    rfl
  have hcomma : ',' ∉ key.toList ++ ':' :: ' ' :: value.toList := by
    simp only [List.mem_append, List.mem_cons, not_or]
    exact ⟨hkey.comma_not_mem, by decide, by decide, hvalue⟩
  have hcolon : ':' ∉ key.toList := fun hc => (hkey.2 _ hc).2 (by decide)
  have hfirst : Unindented (key ++ ": " ++ value ++ comma followed) := by
    rw [String.append_assoc, String.append_assoc]
    exact unindented_key hkey _
  rw [read, dropWhile_lead hfirst, String.toList_append, hchars, withoutComma_append hcomma, ofChars_keyed hcolon,
    String.ofList_toList, String.ofList_toList]

end ObjectLine

namespace ObjectReader

variable {indent : Indent} {depth : Nat} {key : String} {followed : Bool}

theorem readLines_append (r : ObjectReader) (a b : List String) :
    r.readLines (a ++ b) = (r.readLines a).bind fun next => next.readLines b :=
  List.foldlM_append

theorem readLines_cons {r next : ObjectReader} {line : String} {said : ObjectLine}
    (hline : ObjectLine.read line = some said) (hstep : r.step said = some next) (rest : List String) :
    r.readLines (line :: rest) = next.readLines rest := by
  rw [readLines, List.foldlM_cons, hline]
  show (r.step said).bind _ = _
  rw [hstep]
  rfl

/-- The line of a verbatim value adds its property. -/
theorem readLines_raw (hkey : PlainText key) {text : String} (htext : PlainText text) (r : ObjectReader) :
    r.readLines (entryLines indent depth key (comma followed) (.raw text)) =
      some { r with current := r.current ++ [⟨key, .raw text⟩] } := by
  have hholds : ObjectLine.ofValue key text = .holds key (.raw text) := by
    have hbraces : '\x7b' ∉ text.toList := fun hc => (htext.2 _ hc).2 (by decide)
    rw [ObjectLine.ofValue, if_neg (fun h => hbraces (by rw [h]; decide)),
      if_neg (fun h => hbraces (by rw [h]; decide))]
  rw [entryLines_raw htext]
  exact readLines_cons (ObjectLine.read_keyed hkey htext.comma_not_mem) (by rw [hholds]; rfl) []

/-- The lines of an object add its property if the lines between them add its own properties. -/
theorem readLines_object (hkey : PlainText key) {entries : ObjectLiteral}
    (hentries : ∀ r : ObjectReader, r.readLines (objectLines indent (depth + 1) entries) =
      some { r with current := r.current ++ entries }) (r : ObjectReader) :
    r.readLines (entryLines indent depth key (comma followed) (.object entries)) =
      some { r with current := r.current ++ [⟨key, .object entries⟩] } := by
  cases entries with
  | nil =>
    have hbraces : key ++ ": \x7b\x7d" = key ++ ": " ++ "\x7b\x7d" := by
      rw [String.append_assoc]
      rfl
    have hholds : r.step (ObjectLine.ofValue key "\x7b\x7d") =
        some { r with current := r.current ++ [⟨key, .object []⟩] } := rfl
    rw [entryLines_empty, hbraces, readLines_cons (ObjectLine.read_keyed hkey (by decide)) hholds]
    rfl
  | cons first more =>
    have hopen : key ++ ": \x7b" = key ++ ": " ++ "\x7b" ++ comma false := by
      rw [show comma false = "" from rfl, String.append_empty, String.append_assoc]
      rfl
    have hopens : r.step (ObjectLine.ofValue key "\x7b") = some ⟨[], ⟨r.current, key⟩ :: r.enclosing⟩ := rfl
    have hcloses : step ⟨[] ++ first :: more, ⟨r.current, key⟩ :: r.enclosing⟩ .closes =
        some { r with current := r.current ++ [⟨key, .object (first :: more)⟩] } := rfl
    rw [entryLines_object, hopen, readLines_cons (ObjectLine.read_keyed hkey (by decide)) hopens, readLines_append,
      hentries, Option.bind_some, readLines_cons ObjectLine.read_closes hcloses]
    rfl

/-- The lines of an object add its properties to those that are read. -/
theorem readLines_objectLines {o : ObjectLiteral} (h : o.IsPlain) (depth : Nat) (r : ObjectReader) :
    r.readLines (objectLines indent depth o) = some { r with current := r.current ++ o } := by
  induction h generalizing depth r with
  | nil =>
    rw [objectLines_nil, List.append_nil]
    rfl
  | raw hkey htext _ ih =>
    rw [objectLines_cons, readLines_append, readLines_raw hkey htext, Option.bind_some, ih]
    simp
  | object hkey _ _ ihentries ih =>
    rw [objectLines_cons, readLines_append, readLines_object hkey (ihentries (depth + 1)), Option.bind_some, ih]
    simp

end ObjectReader

/-! ## Constants -/

/-- The lines of a constant with a plain object, with those of its properties between a first and a last one. -/
theorem writtenLines_around {o : ObjectLiteral} {lines : List String}
    (h : lines = if o = [] then ["const x = \x7b\x7d;"]
      else "const x = \x7b" :: (objectLines .standard 1 o ++ ["\x7d;"])) :
    ∃ first after, lines = [first] ++ (objectLines .standard 1 o ++ after) ∧
      lines.tail.dropLast = objectLines .standard 1 o ∧ ',' ∉ first.toList ∧
      ∀ line ∈ after, ',' ∉ line.toList := by
  cases o with
  | nil =>
    rw [if_pos rfl] at h
    rw [h, objectLines_nil]
    exact ⟨_, [], rfl, rfl, by decide, fun _ hline => absurd hline List.not_mem_nil⟩
  | cons first more =>
    rw [if_neg (List.cons_ne_nil _ _)] at h
    rw [h]
    exact ⟨_, _, rfl, List.dropLast_concat, by decide, List.forall_mem_singleton.mpr (by decide)⟩

/-- A plain object is read back from the text of a constant, so that no other plain object has the same text. Each
property stands in its lines, an object on one line exactly when it has no properties, and commas stand at the ends of
those properties that another one of the same object follows, and nowhere else. -/
theorem codeOf_object_lossless (o : ObjectLiteral) (h : o.IsPlain) :
    ∃ text, codeOf [.constDecl { name := "x", value := .object o }] = .ok text ∧
      readConstant text = some o ∧
      (∀ other : ObjectLiteral, other.IsPlain →
        codeOf [.constDecl { name := "x", value := .object other }] = .ok text → other = o) ∧
      (writtenLines text = ["const x = \x7b\x7d;"] ↔ o = []) ∧
      (o ≠ [] → ∃ inner, writtenLines text = "const x = \x7b" :: (inner ++ ["\x7d;"]) ∧
        inner.length = ObjectLiteral.height o) ∧
      (∀ p ∈ ObjectLiteral.placed 1 1 o, p.IsWritten .standard (writtenLines text) ∧
        ∀ entries, p.entry.value = .object entries →
          ((writtenLines text)[p.first]? =
            some (Indent.standard.lead p.depth ++ (p.entry.key ++ ": \x7b\x7d" ++ comma p.followed)) ↔ entries = [])) ∧
      CommasSeparate (ObjectLiteral.placed 1 1 o) (writtenLines text) := by
  have hread : ∀ {o : ObjectLiteral} {text : String}, o.IsPlain →
      codeOf [.constDecl { name := "x", value := .object o }] = .ok text → readConstant text = some o := by
    intro o text h htext
    obtain ⟨text', htext', hlines⟩ := writtenLines_constant h
    obtain rfl := Except.ok.inj (htext.symm.trans htext')
    obtain ⟨_, _, _, hinner, -⟩ := writtenLines_around hlines
    rw [readConstant, hinner, ObjectReader.readLines_objectLines h]
    rfl
  obtain ⟨text, htext, hlines⟩ := writtenLines_constant h
  obtain ⟨first, after, haround, -, hfirst, hafter⟩ := writtenLines_around hlines
  have hwritten := h.isWritten haround
  refine ⟨text, htext, hread h htext, fun other hother hcode => ?_, ?_, fun hne => ?_, fun p hp => ?_, ?_⟩
  · exact Option.some.inj ((hread hother hcode).symm.trans (hread h htext))
  · refine ⟨fun hone => Classical.byContradiction fun hne => ?_, fun hnil => by rw [hlines, if_pos hnil]⟩
    rw [hlines, if_neg hne] at hone
    exact absurd (List.cons.inj hone).1 (by decide)
  · rw [hlines, if_neg hne]
    exact ⟨_, rfl, h.length_objectLines .standard 1⟩
  · exact ⟨hwritten p hp, fun entries hvalue => (hwritten p hp).collapsed_iff hvalue⟩
  · exact h.commasSeparate haround (List.forall_mem_singleton.mpr hfirst) hafter

/-- An object with a key twice, an object without properties and one in another. -/
theorem codeOf_object_lossless_nested :
    ∃ text, codeOf [.constDecl { name := "x", value := .object [⟨"a", .object []⟩,
          ⟨"a", .object [⟨"b", .raw "1"⟩, ⟨"c", .object [⟨"d", .raw "2"⟩]⟩]⟩] }] = .ok text ∧
      text = "const x = \x7b\n  a: \x7b\x7d,\n  a: \x7b\n    b: 1,\n" ++
        "    c: \x7b\n      d: 2\n    \x7d\n  \x7d\n\x7d;\n" ∧
      ObjectLiteral.IsPlain [⟨"a", .object []⟩,
        ⟨"a", .object [⟨"b", .raw "1"⟩, ⟨"c", .object [⟨"d", .raw "2"⟩]⟩]⟩] ∧
      readConstant text = some [⟨"a", .object []⟩,
        ⟨"a", .object [⟨"b", .raw "1"⟩, ⟨"c", .object [⟨"d", .raw "2"⟩]⟩]⟩] := by
  have hplain : ObjectLiteral.IsPlain
      [⟨"a", .object []⟩, ⟨"a", .object [⟨"b", .raw "1"⟩, ⟨"c", .object [⟨"d", .raw "2"⟩]⟩]⟩] :=
    .object (by decide) .nil (.object (by decide)
      (.raw (by decide) (by decide) (.object (by decide) (.raw (by decide) (by decide) .nil) .nil)) .nil)
  obtain ⟨text, htext, hread, -⟩ := codeOf_object_lossless _ hplain
  refine ⟨text, htext, ?_, hplain, hread⟩
  obtain rfl := Except.ok.inj htext
  decide +kernel

end TypeScribe
