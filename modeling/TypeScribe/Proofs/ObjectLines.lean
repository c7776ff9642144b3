import TypeScribe.Proofs.Braces
import TypeScribe.Proofs.Complete

/-!
# Lines of object literals

An object literal without spaces and marks in its keys and values is written with one property after the other, each
from a first line to a last line: a verbatim value or an object without properties on one line, any other object with
its own properties one level deeper between two lines.

* `PlacedEntry`, `ObjectLiteral.placed`: the properties at any depth, with the lines that they take.
* `ObjectLiteral.IsPlain.isWritten`: what stands in these lines.
* `ObjectLiteral.IsPlain.commasSeparate`: the commas in these lines.
-/

namespace TypeScribe

/-- A text within a line: not empty, and without spaces and the marks of object literals. -/
def PlainText (text : String) : Prop :=
  text ≠ "" ∧ ∀ c ∈ text.toList, Blank.isSpace c = false ∧ c ∉ ['\x7b', '\x7d', ',', ':']

-- Left to itself, the search would decide over all characters there are.
instance (text : String) : Decidable (PlainText text) :=
  have := List.decidableBAll (fun c => Blank.isSpace c = false ∧ c ∉ ['\x7b', '\x7d', ',', ':']) text.toList
  instDecidableAnd

/-- All keys and all verbatim values of an object literal, at any depth, are plain. -/
inductive ObjectLiteral.IsPlain : ObjectLiteral → Prop
  | nil : IsPlain []
  | raw {key text : String} {rest : ObjectLiteral} : PlainText key → PlainText text → IsPlain rest →
      IsPlain (⟨key, .raw text⟩ :: rest)
  | object {key : String} {entries rest : ObjectLiteral} : PlainText key → IsPlain entries → IsPlain rest →
      IsPlain (⟨key, .object entries⟩ :: rest)

/-! ## Plain texts -/

namespace PlainText

variable {text : String}

theorem newline_not_mem (h : PlainText text) : '\n' ∉ text.toList :=
  fun hc => absurd (h.2 _ hc).1 (by decide)

theorem comma_not_mem (h : PlainText text) : ',' ∉ text.toList :=
  fun hc => (h.2 _ hc).2 (by decide)

theorem not_blank (h : PlainText text) : isBlank text = false := by
  obtain ⟨hne, hchars⟩ := h
  obtain ⟨c, hc⟩ := List.exists_mem_of_ne_nil _ fun hnil => hne (String.toList_eq_nil_iff.mp hnil)
  exact List.all_eq_false.mpr ⟨c, hc, by rw [(hchars c hc).1]; exact Bool.false_ne_true⟩

end PlainText

namespace ObjectLiteral.IsPlain

variable {o : ObjectLiteral}

theorem plain_of_texts (h : o.IsPlain) : ∀ p ∈ ObjectLiteral.texts o, PlainText p.text := by
  have htexts : ∀ {key value rest}, PlainText key → (∀ p ∈ Value.texts (List.isEmpty rest) value, PlainText p.text) →
      (∀ p ∈ ObjectLiteral.texts rest, PlainText p.text) →
      ∀ p ∈ ObjectLiteral.texts (⟨key, value⟩ :: rest), PlainText p.text := by
    intro key value rest hkey hvalue hrest
    cases rest with
    | nil => rw [ObjectLiteral.texts]; exact List.forall_mem_cons.mpr ⟨hkey, hvalue⟩
    | cons next rest =>
      rw [ObjectLiteral.texts]
      exact List.forall_mem_cons.mpr ⟨hkey, List.forall_mem_append.mpr ⟨hvalue, hrest⟩⟩
  induction h with
  | nil => exact fun _ hp => absurd hp List.not_mem_nil
  | @raw _ text rest hkey htext _ ih =>
    refine htexts hkey ?_ ih
    rw [Value.texts, List.forall_mem_singleton]
    split <;> exact htext
  | object hkey _ _ ihentries ih => exact htexts hkey (by rwa [Value.texts]) ih

theorem missing?_eq_none (h : o.IsPlain) (kind : Kind) : ObjectLiteral.missing? kind o = none := by
  rw [ObjectLiteral.missing?_eq_none_iff]
  induction h with
  | nil => exact fun _ he => absurd he List.not_mem_nil
  | raw _ htext _ ih => exact List.forall_mem_cons.mpr ⟨require_eq_none_iff.mpr htext.not_blank, ih⟩
  | object _ _ _ ihentries ih => exact List.forall_mem_cons.mpr ⟨ObjectLiteral.missing?_eq_none_iff.mpr ihentries, ih⟩

end ObjectLiteral.IsPlain

/-! ## Places -/

mutual

/-- How many lines follow the first line of a property with the value. -/
def Value.linesBelow : Value → Nat
  | .raw _ => 0
  | .object [] => 0
  | .object (first :: more) => ObjectLiteral.height (first :: more) + 1

/-- How many lines the properties of an object take. -/
def ObjectLiteral.height : List ObjectEntry → Nat
  | [] => 0
  | ⟨_, value⟩ :: rest => value.linesBelow + 1 + ObjectLiteral.height rest

end

/-- A property of an object literal in a text: how deep it stands, the number of its first line, and whether another
property of the same object follows. -/
structure PlacedEntry where
  depth : Nat
  first : Nat
  entry : ObjectEntry
  followed : Bool

/-- The number of the last line of a property. -/
def PlacedEntry.last (p : PlacedEntry) : Nat := p.first + p.entry.value.linesBelow

mutual

/-- The properties in the value of a property whose first line is given. -/
def Value.placed (depth line : Nat) : Value → List PlacedEntry
  | .raw _ => []
  | .object entries => ObjectLiteral.placed (depth + 1) (line + 1) entries

/-- The properties of an object and those in their values, from a line on. -/
def ObjectLiteral.placed (depth line : Nat) : List ObjectEntry → List PlacedEntry
  | [] => []
  | ⟨key, value⟩ :: rest => ⟨depth, line, ⟨key, value⟩, !rest.isEmpty⟩ ::
      (value.placed depth line ++ ObjectLiteral.placed depth (line + value.linesBelow + 1) rest)

end

/-- What ends a property: a comma if another one follows. -/
def comma (followed : Bool) : String := if followed then "," else ""

/-- What stands in the lines of a property. -/
def PlacedEntry.IsWritten (indent : Indent) (lines : List String) (p : PlacedEntry) : Prop :=
  match p.entry.value with
  | .raw text => lines[p.first]? = some (indent.lead p.depth ++ (p.entry.key ++ ": " ++ text ++ comma p.followed))
  | .object [] => lines[p.first]? = some (indent.lead p.depth ++ (p.entry.key ++ ": \x7b\x7d" ++ comma p.followed))
  | .object (_ :: _) => lines[p.first]? = some (indent.lead p.depth ++ (p.entry.key ++ ": \x7b")) ∧
      lines[p.last]? = some (indent.lead p.depth ++ ("\x7d" ++ comma p.followed))

/-- Properties end in commas where others of the same object follow, and no other commas stand in the lines. -/
def CommasSeparate (properties : List PlacedEntry) (lines : List String) : Prop :=
  (∀ p ∈ properties, ∃ line, lines[p.last]? = some line ∧ (line.toList.getLast? = some ',' ↔ p.followed = true)) ∧
    ∀ i line, lines[i]? = some line → ',' ∈ line.toList →
      line.toList.count ',' = 1 ∧ ∃ p ∈ properties, p.last = i ∧ p.followed = true

/-! ## Lines -/

/-- The lines of the properties of an object. -/
def objectLines (indent : Indent) (depth : Nat) (o : ObjectLiteral) : List String :=
  (rowsOf depth (ObjectLiteral.fragments o)).map (Row.line indent)

/-- The lines of a property with what follows it. -/
def entryLines (indent : Indent) (depth : Nat) (key tail : String) (value : Value) : List String :=
  (rowsOf depth (value.entryFragments key tail)).map (Row.line indent)

variable {indent : Indent} {depth : Nat} {key tail : String}

theorem objectLines_nil : objectLines indent depth [] = [] := by
  rw [objectLines, ObjectLiteral.fragments, rowsOf_nil, List.map_nil]

theorem objectLines_cons (value : Value) (rest : ObjectLiteral) : objectLines indent depth (⟨key, value⟩ :: rest) =
    entryLines indent depth key (comma !rest.isEmpty) value ++ objectLines indent depth rest := by
  cases rest with
  | nil => rw [objectLines_nil, List.append_nil, objectLines, ObjectLiteral.fragments]; rfl
  | cons next rest => rw [objectLines, ObjectLiteral.fragments, rowsOf_append, List.map_append]; rfl

theorem entryLines_raw {text : String} (h : PlainText text) : entryLines indent depth key tail (.raw text) =
    [indent.lead depth ++ (key ++ ": " ++ text ++ tail)] := by
  rw [entryLines, Value.entryFragments, splice, lines_of_newline_not_mem h.newline_not_mem h.1, rowsOf_singleton]
  rfl

theorem headed_key (key : String) : headed (key ++ ":") = key ++ ": " := by
  have hne : ¬ (key ++ ":").isEmpty = true := fun h =>
    absurd (String.append_eq_empty_iff.mp (String.isEmpty_iff.mp h)).2 (by decide)
  rw [headed, if_neg hne, String.append_assoc]
  rfl

theorem entryLines_empty : entryLines indent depth key tail (.object []) =
    [indent.lead depth ++ (key ++ ": \x7b\x7d" ++ tail)] := by
  have hbraces : ": \x7b\x7d" = ": " ++ openBrace ++ closeBrace := by decide
  rw [entryLines, Value.entryFragments, ObjectLiteral.fragments, rowsOf_braced, if_pos rfl, headed_key, hbraces]
  simp only [List.map_cons, List.map_nil, Row.line, String.append_assoc]

theorem fragments_cons_ne_nil (first : ObjectEntry) (more : ObjectLiteral) :
    ObjectLiteral.fragments (first :: more) ≠ [] := by
  obtain ⟨key, value⟩ := first
  have hentry : ∀ tail, value.entryFragments key tail ≠ [] := by
    intro tail
    cases value with
    | raw text => exact splice_ne_nil _ _ _
    | object entries => exact List.cons_ne_nil _ _
  cases more with
  | nil => exact hentry ""
  | cons next more => exact List.append_ne_nil_of_left_ne_nil (hentry ",") _

theorem entryLines_object (first : ObjectEntry) (more : ObjectLiteral) :
    entryLines indent depth key tail (.object (first :: more)) = (indent.lead depth ++ (key ++ ": \x7b")) ::
      (objectLines indent (depth + 1) (first :: more) ++ [indent.lead depth ++ ("\x7d" ++ tail)]) := by
  have hopen : ": \x7b" = ": " ++ openBrace := by decide
  rw [entryLines, Value.entryFragments, rowsOf_braced, if_neg (fragments_cons_ne_nil first more),
    headed_key, hopen, List.map_cons, List.map_append]
  simp only [List.map_cons, List.map_nil, Row.line, String.append_assoc]
  rfl

theorem length_entryLines_object {entries : ObjectLiteral}
    (h : (objectLines indent (depth + 1) entries).length = ObjectLiteral.height entries) :
    (entryLines indent depth key tail (.object entries)).length = (Value.object entries).linesBelow + 1 := by
  cases entries with
  | nil => rw [entryLines_empty, Value.linesBelow]; rfl
  | cons first more => rw [entryLines_object, List.length_cons, List.length_append, h, Value.linesBelow]; rfl

variable {lines before after : List String}

theorem PlacedEntry.isWritten_raw {text : String} {followed : Bool} (htext : PlainText text)
    (hlines : lines = before ++ (entryLines indent depth key (comma followed) (.raw text) ++ after)) :
    IsWritten indent lines ⟨depth, before.length, ⟨key, .raw text⟩, followed⟩ := by
  show lines[before.length]? = _
  rw [hlines, entryLines_raw htext, List.cons_append, getElem?_length_append_cons]

/-- An object stands in the lines of its property, with its own properties from the second line on. -/
theorem PlacedEntry.isWritten_object {entries : ObjectLiteral} {followed : Bool}
    (hlength : (objectLines indent (depth + 1) entries).length = ObjectLiteral.height entries)
    (hlines : lines = before ++ (entryLines indent depth key (comma followed) (.object entries) ++ after)) :
    IsWritten indent lines ⟨depth, before.length, ⟨key, .object entries⟩, followed⟩ := by
  cases entries with
  | nil =>
    show lines[before.length]? = _
    rw [hlines, entryLines_empty, List.cons_append, getElem?_length_append_cons]
  | cons first more =>
    rw [entryLines_object] at hlines
    constructor
    · show lines[before.length]? = _
      rw [hlines, List.cons_append, getElem?_length_append_cons]
    · show lines[before.length + (Value.object (first :: more)).linesBelow]? = _
      rw [hlines, Value.linesBelow, ← hlength]
      simp

namespace ObjectLiteral.IsPlain

variable {o : ObjectLiteral}

/-- The properties of an object take as many lines as their height. -/
theorem length_objectLines (h : o.IsPlain) (indent : Indent) (depth : Nat) :
    (objectLines indent depth o).length = ObjectLiteral.height o := by
  induction h generalizing depth with
  | nil => rw [objectLines_nil, ObjectLiteral.height, List.length_nil]
  | raw _ htext _ ih =>
    rw [objectLines_cons, entryLines_raw htext, List.length_append, ih depth, ObjectLiteral.height, Value.linesBelow]
    rfl
  | object _ _ _ ihentries ih =>
    rw [objectLines_cons, List.length_append, length_entryLines_object (ihentries (depth + 1)), ih depth,
      ObjectLiteral.height]

/-- The properties of an object stand in their lines, wherever the object is written. -/
theorem isWritten (h : o.IsPlain) (hlines : lines = before ++ (objectLines indent depth o ++ after)) :
    ∀ p ∈ ObjectLiteral.placed depth before.length o, p.IsWritten indent lines := by
  induction h generalizing depth before after with
  | nil => exact fun _ hp => absurd hp List.not_mem_nil
  | @raw key text rest _ htext _ ih =>
    rw [objectLines_cons, List.append_assoc] at hlines
    have hstart : before.length + (Value.raw text).linesBelow + 1 =
        (before ++ entryLines indent depth key (comma !rest.isEmpty) (.raw text)).length := by
      rw [entryLines_raw htext, List.length_append, Value.linesBelow]
      rfl
    rw [ObjectLiteral.placed, Value.placed, List.nil_append, List.forall_mem_cons, hstart]
    exact ⟨PlacedEntry.isWritten_raw htext hlines, ih (by rw [hlines, List.append_assoc])⟩
  | @object key entries rest _ hentries _ ihentries ih =>
    rw [objectLines_cons, List.append_assoc] at hlines
    have hlength := hentries.length_objectLines indent (depth + 1)
    have hstart : before.length + (Value.object entries).linesBelow + 1 =
        (before ++ entryLines indent depth key (comma !rest.isEmpty) (.object entries)).length := by
      rw [List.length_append, length_entryLines_object hlength, Nat.add_assoc]
    rw [ObjectLiteral.placed, Value.placed, List.forall_mem_cons, List.forall_mem_append, hstart]
    refine ⟨PlacedEntry.isWritten_object hlength hlines, ?_, ih (by rw [hlines, List.append_assoc])⟩
    cases entries with
    | nil => exact fun _ hp => absurd hp List.not_mem_nil
    | cons first more =>
      rw [entryLines_object, List.cons_append, List.append_assoc, List.append_cons] at hlines
      have hinner := ihentries hlines
      rwa [List.length_append] at hinner

/-- What is known of the texts of an object literal is known of each of its properties. -/
theorem plain_of_placed (h : o.IsPlain) (depth line : Nat) : ∀ p ∈ ObjectLiteral.placed depth line o,
    PlainText p.entry.key ∧ ∀ text, p.entry.value = .raw text → PlainText text := by
  induction h generalizing depth line with
  | nil => exact fun _ hp => absurd hp List.not_mem_nil
  | raw hkey htext _ ih =>
    rw [ObjectLiteral.placed, Value.placed, List.nil_append, List.forall_mem_cons]
    exact ⟨⟨hkey, fun _ h => Value.raw.inj h ▸ htext⟩, ih _ _⟩
  | object hkey _ _ ihentries ih =>
    rw [ObjectLiteral.placed, Value.placed, List.forall_mem_cons, List.forall_mem_append]
    exact ⟨⟨hkey, fun _ h => Value.noConfusion h⟩, ihentries _ _, ih _ _⟩

/-- Every line of an object is the first or the last line of a property. -/
theorem placed_of_line (h : o.IsPlain) (depth line : Nat) {i : Nat} (hfirst : line ≤ i)
    (hlast : i < line + ObjectLiteral.height o) :
    ∃ p ∈ ObjectLiteral.placed depth line o, i = p.first ∨ i = p.last := by
  induction h generalizing depth line with
  | nil => exact absurd hlast (Nat.not_lt.mpr hfirst)
  | raw _ _ _ ih =>
    rw [ObjectLiteral.height, Value.linesBelow] at hlast
    rw [ObjectLiteral.placed, Value.placed, List.nil_append, Value.linesBelow]
    rcases Nat.eq_or_lt_of_le hfirst with rfl | hlt
    · exact ⟨_, List.mem_cons_self, .inl rfl⟩
    · obtain ⟨p, hp, hi⟩ := ih depth (line + 0 + 1) hlt (by omega)
      exact ⟨p, List.mem_cons_of_mem _ hp, hi⟩
  | @object _ entries _ _ _ _ ihentries ih =>
    rw [ObjectLiteral.height] at hlast
    rw [ObjectLiteral.placed, Value.placed]
    rcases Nat.lt_trichotomy i (line + (Value.object entries).linesBelow) with hlt | rfl | hlt
    · rcases Nat.eq_or_lt_of_le hfirst with rfl | hinside
      · exact ⟨_, List.mem_cons_self, .inl rfl⟩
      · have hinner : i < line + 1 + ObjectLiteral.height entries := by
          cases entries with
          | nil =>
            rw [Value.linesBelow] at hlt
            omega
          | cons first more =>
            rw [Value.linesBelow] at hlt
            omega
        obtain ⟨p, hp, hi⟩ := ihentries (depth + 1) (line + 1) hinside hinner
        exact ⟨p, List.mem_cons_of_mem _ (List.mem_append_left _ hp), hi⟩
    · exact ⟨_, List.mem_cons_self, .inr rfl⟩
    · obtain ⟨p, hp, hi⟩ := ih depth (line + (Value.object entries).linesBelow + 1) hlt (by omega)
      exact ⟨p, List.mem_cons_of_mem _ (List.mem_append_right _ hp), hi⟩

end ObjectLiteral.IsPlain

/-! ## Commas -/

/-- In a line without commas but at its end, the end tells. -/
theorem getLast?_append_comma {text : String} (h : ',' ∉ text.toList) (followed : Bool) :
    (text ++ comma followed).toList.getLast? = some ',' ↔ followed = true := by
  rw [String.toList_append]
  cases followed with
  | true => exact ⟨fun _ => rfl, fun _ => List.getLast?_concat⟩
  | false =>
    refine ⟨fun hlast => absurd (List.mem_of_getLast? hlast) ?_, fun hf => absurd hf Bool.false_ne_true⟩
    rwa [show (comma false).toList = [] from rfl, List.append_nil]

theorem count_append_comma {text : String} (h : ',' ∉ text.toList) {followed : Bool}
    (hc : ',' ∈ (text ++ comma followed).toList) :
    (text ++ comma followed).toList.count ',' = 1 ∧ followed = true := by
  rw [String.toList_append] at hc ⊢
  rw [List.count_append, List.count_eq_zero_of_not_mem h]
  cases followed with
  | true => exact ⟨rfl, rfl⟩
  | false => exact absurd ((List.mem_append.mp hc).resolve_left h) List.not_mem_nil

/-- A text after a key has no commas but its own. -/
theorem PlainText.comma_not_mem_entry (hkey : PlainText key) {text : String} (h : ',' ∉ text.toList)
    (indent : Indent) (depth : Nat) : ',' ∉ (indent.lead depth ++ (key ++ text)).toList := by
  rw [String.toList_append, String.toList_append, List.mem_append, List.mem_append, not_or, not_or]
  exact ⟨Indent.not_mem_lead (by decide) (by decide), hkey.comma_not_mem, h⟩

namespace PlacedEntry.IsWritten

variable {p : PlacedEntry}

/-- The last line of a property has no comma but the one that sets it off from the next. -/
theorem last_line (h : p.IsWritten indent lines) (hkey : PlainText p.entry.key)
    (hvalue : ∀ text, p.entry.value = .raw text → PlainText text) :
    ∃ text, ',' ∉ text.toList ∧ lines[p.last]? = some (text ++ comma p.followed) := by
  obtain ⟨depth, first, ⟨key, value⟩, followed⟩ := p
  match value with
  | .raw text =>
    have hline : lines[first]? = some (indent.lead depth ++ (key ++ ": " ++ text ++ comma followed)) := h
    have hcomma : ',' ∉ (": " ++ text).toList := by
      rw [String.toList_append, List.mem_append, not_or]
      exact ⟨by decide, (hvalue text rfl).comma_not_mem⟩
    refine ⟨_, hkey.comma_not_mem_entry hcomma indent depth, ?_⟩
    simp only [String.append_assoc] at hline ⊢
    exact hline
  | .object [] =>
    have hline : lines[first]? = some (indent.lead depth ++ (key ++ ": \x7b\x7d" ++ comma followed)) := h
    have hcomma : ',' ∉ ": \x7b\x7d".toList := by decide
    refine ⟨_, hkey.comma_not_mem_entry hcomma indent depth, ?_⟩
    simp only [String.append_assoc] at hline ⊢
    exact hline
  | .object (_ :: _) =>
    refine ⟨indent.lead depth ++ "\x7d", ?_, ?_⟩
    · rw [String.toList_append, List.mem_append, not_or]
      exact ⟨Indent.not_mem_lead (by decide) (by decide), by decide⟩
    · simpa only [String.append_assoc] using h.2

/-- The first line of a property has no comma unless it is also the last. -/
theorem first_line (h : p.IsWritten indent lines) (hkey : PlainText p.entry.key) :
    p.first = p.last ∨ ∃ text, ',' ∉ text.toList ∧ lines[p.first]? = some text := by
  obtain ⟨depth, first, ⟨key, value⟩, followed⟩ := p
  match value with
  | .raw _ => exact .inl rfl
  | .object [] => exact .inl rfl
  | .object (_ :: _) => exact .inr ⟨_, hkey.comma_not_mem_entry (by decide) indent depth, h.1⟩

/-- An object is written on one line exactly when it has no properties. -/
theorem collapsed_iff (h : p.IsWritten indent lines) {entries : ObjectLiteral}
    (hvalue : p.entry.value = .object entries) :
    lines[p.first]? = some (indent.lead p.depth ++ (p.entry.key ++ ": \x7b\x7d" ++ comma p.followed)) ↔
      entries = [] := by
  obtain ⟨depth, first, ⟨key, value⟩, followed⟩ := p
  obtain rfl : value = .object entries := hvalue
  match entries with
  | [] => exact ⟨fun _ => rfl, fun _ => h⟩
  | _ :: _ =>
    refine ⟨fun hline => ?_, fun hnil => absurd hnil (List.cons_ne_nil _ _)⟩
    -- The line of an object without properties is longer by a brace.
    have hlength := congrArg String.length (Option.some.inj (h.1.symm.trans hline))
    simp only [String.length_append, show ": \x7b".length = 3 by decide, show ": \x7b\x7d".length = 4 by decide]
      at hlength
    omega

end PlacedEntry.IsWritten

/-- What stands in none of the outer lists stands in the inner one. -/
theorem between_of_getElem?_eq_some {before inner after : List String} {i : Nat} {line : String}
    (h : (before ++ (inner ++ after))[i]? = some line) (hbefore : line ∉ before) (hafter : line ∉ after) :
    before.length ≤ i ∧ i < before.length + inner.length := by
  have hle : before.length ≤ i := Nat.le_of_not_lt fun hlt =>
    hbefore (List.mem_of_getElem? ((List.getElem?_append_left hlt).symm.trans h))
  rw [List.getElem?_append_right hle] at h
  refine ⟨hle, Nat.lt_of_not_le fun hend => ?_⟩
  rw [List.getElem?_append_right (by omega)] at h
  exact hafter (List.mem_of_getElem? h)

/-- Between lines without commas, the commas in the lines of an object separate its properties. -/
theorem ObjectLiteral.IsPlain.commasSeparate {o : ObjectLiteral} (h : o.IsPlain)
    (hlines : lines = before ++ (objectLines indent depth o ++ after))
    (hbefore : ∀ line ∈ before, ',' ∉ line.toList) (hafter : ∀ line ∈ after, ',' ∉ line.toList) :
    CommasSeparate (ObjectLiteral.placed depth before.length o) lines := by
  have hwritten := h.isWritten hlines
  have hplain := h.plain_of_placed depth before.length
  refine ⟨fun p hp => ?_, fun i line hi hc => ?_⟩
  · obtain ⟨text, htext, hline⟩ := (hwritten p hp).last_line (hplain p hp).1 (hplain p hp).2
    exact ⟨_, hline, getLast?_append_comma htext _⟩
  · have hlast : ∀ p ∈ ObjectLiteral.placed depth before.length o, i = p.last →
        line.toList.count ',' = 1 ∧
          ∃ q ∈ ObjectLiteral.placed depth before.length o, q.last = i ∧ q.followed = true := by
      rintro p hp rfl
      obtain ⟨text, htext, hline⟩ := (hwritten p hp).last_line (hplain p hp).1 (hplain p hp).2
      obtain rfl := Option.some.inj (hi.symm.trans hline)
      obtain ⟨hcount, hfollowed⟩ := count_append_comma htext hc
      exact ⟨hcount, p, hp, rfl, hfollowed⟩
    have hinside : before.length ≤ i ∧ i < before.length + ObjectLiteral.height o := by
      rw [← h.length_objectLines indent depth]
      exact between_of_getElem?_eq_some (hlines ▸ hi) (fun hm => hbefore _ hm hc) fun hm => hafter _ hm hc
    obtain ⟨p, hp, hfirst | hi⟩ := h.placed_of_line depth before.length hinside.1 hinside.2
    · rcases (hwritten p hp).first_line (hplain p hp).1 with heq | ⟨text, htext, hline⟩
      · exact hlast p hp (hfirst.trans heq)
      · rw [← hfirst, hi] at hline
        exact absurd hc (Option.some.inj hline ▸ htext)
    · exact hlast p hp hi

/-! ## Files -/

/-- A constant with a plain object is written between two lines with a brace each, or on one line with both. -/
theorem writtenLines_constant {o : ObjectLiteral} (h : o.IsPlain) :
    ∃ text, codeOf [.constDecl { name := "x", value := .object o }] = .ok text ∧
      writtenLines text = if o = [] then ["const x = \x7b\x7d;"]
        else "const x = \x7b" :: (objectLines .standard 1 o ++ ["\x7d;"]) := by
  have hvalid : (CodeFile.ofElements [.constDecl { name := "x", value := .object o }]).validate = .ok () := by
    refine CodeFile.validate_eq_ok_iff.mpr (List.forall_mem_singleton.mpr ?_)
    show Constant.missing? _ = none
    rw [Constant.missing?, require_eq_none_iff.mpr (show isBlank "x" = false by decide), Option.none_or]
    exact Option.map_eq_none_iff.mpr (h.missing?_eq_none _)
  have htexts : texts [.constDecl { name := "x", value := .object o }] = .word "x" :: ObjectLiteral.texts o := by
    rw [texts_singleton]
    exact (List.append_nil _).trans (List.append_nil _)
  have hwords : SingleLineWords [.constDecl { name := "x", value := .object o }] := by
    rw [SingleLineWords, htexts, List.forall_mem_cons]
    exact ⟨fun _ => by decide, fun p hp _ => (h.plain_of_texts p hp).newline_not_mem⟩
  have hhead : exportMark false true ++ "const " ++ "x" ++ " =" = "const x =" := by decide
  have hheaded : headed "const x =" = "const x = " := by decide
  have hfragments : Element.fragments true (.constDecl { name := "x", value := .object o }) =
      [braced "const x =" (ObjectLiteral.fragments o) ";"] := by
    rw [Element.fragments, Constant.fragments, hhead]
  refine ⟨_, CodeFile.renderAt_of_valid hvalid .standard 0, ?_⟩
  rw [CodeFile.writtenLines_text hvalid hwords, CodeFile.rows_ofElements, elementRows, hfragments, rowsOf_braced,
    hheaded]
  cases o with
  | nil => decide
  | cons first more =>
    rw [if_neg (fragments_cons_ne_nil first more), if_neg (List.cons_ne_nil _ _), List.map_cons, List.map_append]
    rfl

end TypeScribe
