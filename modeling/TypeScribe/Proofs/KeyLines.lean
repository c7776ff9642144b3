import TypeScribe.Proofs.Positions

/-!
# Lines that begin with a key

The place of a key in a text is that of the first line that begins with it: after spaces, in quotes or followed by an
equals sign. What is found there is the key and nothing else, wherever spaces of several bytes, other keys or line ends
of two characters stand in front of it.

* `Span.Covers`: a stretch of a text that holds a part of it, from boundary to boundary.
* `BeginsWithKey`: how a line begins with a key.
* `BeginsWithKey.front_unique`: what stands in front of the key is determined by the line.
* `findKeyFrom_eq_some`, `findKeyFrom_eq_none_iff`: what is found in lines, and when nothing is.
* `Span.IsFirstKey`: the stretch of the key in the first line that begins with it.
* `findKey_first`: what is found in a text is this stretch.
-/

namespace TypeScribe

/-- A stretch of a text holds just a part of it: as many bytes as stand in front of the part lie before the stretch, and
it has the bytes of the part. -/
def Span.Covers (span : Span) (text part : String) : Prop :=
  ∃ before after, text = before ++ part ++ after ∧ span.start = before.utf8ByteSize ∧
    span.stop = span.start + part.utf8ByteSize

/-- A line begins with a key, behind what stands in front of it: spaces, and then the opening quote if the key is in
quotes. Without quotes the key is followed by an equals sign, perhaps after spaces. -/
inductive BeginsWithKey (key : List Char) : (line front : List Char) → Prop
  | quoted {spaces rest : List Char} (hspaces : ∀ c ∈ spaces, Blank.isSpace c = true) :
    BeginsWithKey key (spaces ++ '"' :: (key ++ '"' :: rest)) (spaces ++ ['"'])
  | assigned {spaces gap rest : List Char} (hspaces : ∀ c ∈ spaces, Blank.isSpace c = true)
    (hgap : ∀ c ∈ gap, Blank.isSpace c = true) :
    BeginsWithKey key (spaces ++ (key ++ (gap ++ '=' :: rest))) spaces

/-- A stretch of a text is a key in the first line that begins with it: it starts behind the lines before and behind
what stands in front of the key, and holds just the key. -/
structure Span.IsFirstKey (span : Span) (key text : String) : Prop where
  covers : span.Covers text key
  first : ∃ before line after front, pieces text.toList = before ++ line :: after ∧
    (∀ earlier ∈ before, ∀ front, ¬ BeginsWithKey key.toList earlier front) ∧
    BeginsWithKey key.toList line front ∧ span.start = byteLength (before.flatten ++ front)

variable {key line front : List Char}

/-! ## One line -/

theorem BeginsWithKey.line_eq (h : BeginsWithKey key line front) : ∃ rest, line = front ++ key ++ rest := by
  cases h with
  | @quoted spaces rest _ => exact ⟨'"' :: rest, by simp⟩
  | @assigned spaces gap rest _ _ => exact ⟨gap ++ '=' :: rest, by simp⟩

/-- Spaces in front of a character that is none come apart from it. -/
theorem splitSpaces_ink {spaces rest : List Char} {c : Char} (hspaces : ∀ s ∈ spaces, Blank.isSpace s = true)
    (hc : Blank.isSpace c = false) : splitSpaces (spaces ++ c :: rest) = (spaces, c :: rest) := by
  have hneg : ¬ Blank.isSpace c = true := Bool.eq_false_iff.mp hc
  rw [splitSpaces, List.takeWhile_append_of_pos hspaces, List.dropWhile_append_of_pos hspaces,
    List.takeWhile_cons_of_neg hneg, List.dropWhile_cons_of_neg hneg, List.append_nil]

/-- Spaces that come apart from the front of a text are spaces, and the text goes on after them. -/
theorem splitSpaces_spec (cs : List Char) :
    cs = (splitSpaces cs).1 ++ (splitSpaces cs).2 ∧ ∀ s ∈ (splitSpaces cs).1, Blank.isSpace s = true :=
  ⟨(splitSpaces_append cs).symm, List.all_eq_true.mp List.all_takeWhile⟩

/-- A place that is found in a line is one where the line begins with the key. -/
theorem keyInLine?_eq_some {before : Nat} (h : keyInLine? key line = some before) :
    ∃ front, BeginsWithKey key line front ∧ before = byteLength front := by
  obtain ⟨hline, hspaces⟩ := splitSpaces_spec line
  rw [keyInLine?] at h
  generalize splitSpaces line = split at h hline hspaces
  obtain ⟨spaces, rest⟩ := split
  dsimp only at h hline hspaces
  split at h
  · rename_i hquoted
    obtain ⟨more, rfl⟩ := List.isPrefixOf_iff_prefix.mp hquoted
    refine ⟨spaces ++ ['"'], ?_, ?_⟩
    · rw [hline, List.append_assoc, List.cons_append, List.singleton_append]
      exact .quoted hspaces
    · rw [← Option.some.inj h, byteLength_append]; rfl
  · split at h
    · rename_i hassigned
      rw [Bool.and_eq_true, List.isPrefixOf_iff_prefix, decide_eq_true_eq] at hassigned
      obtain ⟨⟨more, rfl⟩, hequals⟩ := hassigned
      rw [List.drop_left] at hequals
      obtain ⟨hmore, hgap⟩ := splitSpaces_spec more
      obtain ⟨tail, htail⟩ := List.head?_eq_some_iff.mp hequals
      rw [htail] at hmore
      refine ⟨spaces, ?_, (Option.some.inj h).symm⟩
      rw [hline, hmore]
      exact .assigned hspaces hgap
    · cases h

/-- The spaces in front of the key come apart from the line, and the quote or the key comes right after them. -/
theorem BeginsWithKey.split (hne : key ≠ []) (hink : ∀ c ∈ key, Blank.isSpace c = false)
    (h : BeginsWithKey key line front) : ∃ spaces ahead, splitSpaces line = (spaces, ahead) ∧
      ((front = spaces ++ ['"'] ∧ ∃ rest, ahead = '"' :: (key ++ '"' :: rest)) ∨
        (front = spaces ∧ ∃ gap rest, (∀ c ∈ gap, Blank.isSpace c = true) ∧
          ahead = key ++ (gap ++ '=' :: rest))) := by
  cases h with
  | quoted hspaces => exact ⟨_, _, splitSpaces_ink hspaces (by decide), .inl ⟨rfl, _, rfl⟩⟩
  | assigned hspaces hgap =>
    obtain ⟨c, more, rfl⟩ := List.exists_cons_of_ne_nil hne
    exact ⟨_, _, splitSpaces_ink hspaces (hink c List.mem_cons_self), .inr ⟨rfl, _, _, hgap, rfl⟩⟩

/-- In a line that begins with a key, a place is found. -/
theorem BeginsWithKey.keyInLine?_ne_none (hne : key ≠ []) (hink : ∀ c ∈ key, Blank.isSpace c = false)
    (h : BeginsWithKey key line front) : keyInLine? key line ≠ none := by
  obtain ⟨spaces, ahead, hsplit, ⟨-, rest, rfl⟩ | ⟨-, gap, rest, hgap, rfl⟩⟩ := h.split hne hink
  · have hprefix : ('"' :: key ++ ['"']).isPrefixOf ('"' :: (key ++ '"' :: rest)) = true :=
      List.isPrefixOf_iff_prefix.mpr ⟨rest, by simp⟩
    rw [keyInLine?, hsplit]
    dsimp only
    rw [if_pos hprefix]
    exact Option.some_ne_none _
  · have hassigned : (key.isPrefixOf (key ++ (gap ++ '=' :: rest)) &&
        (splitSpaces ((key ++ (gap ++ '=' :: rest)).drop key.length)).2.head? = some '=') = true := by
      rw [Bool.and_eq_true, List.isPrefixOf_iff_prefix, List.drop_left, splitSpaces_ink hgap (by decide)]
      exact ⟨List.prefix_append _ _, rfl⟩
    rw [keyInLine?, hsplit]
    dsimp only
    rw [if_pos hassigned]
    split <;> exact Option.some_ne_none _

theorem keyInLine?_eq_none_iff (hne : key ≠ []) (hink : ∀ c ∈ key, Blank.isSpace c = false) :
    keyInLine? key line = none ↔ ∀ front, ¬ BeginsWithKey key line front := by
  refine ⟨fun h front hb => hb.keyInLine?_ne_none hne hink h, fun h => ?_⟩
  cases hk : keyInLine? key line with
  | none => rfl
  | some before =>
    obtain ⟨front, hb, -⟩ := keyInLine?_eq_some hk
    exact absurd hb (h front)

/-- A character in front of a list that begins the list once more also follows on it. -/
theorem head_of_cons_append_eq {c : Char} {cs more others : List Char} (h : c :: (cs ++ more) = cs ++ others) :
    ∃ tail, others = c :: tail := by
  induction cs with
  | nil => exact ⟨more, h.symm⟩
  | cons d rest ih =>
    obtain ⟨rfl, htail⟩ := List.cons.inj h
    exact ih htail

/-- A key in quotes is not one that is followed by an equals sign: the quote in front of it would follow on it too. -/
theorem quoted_ne_assigned {gap rest others : List Char} (hgap : ∀ c ∈ gap, Blank.isSpace c = true) :
    '"' :: (key ++ others) ≠ key ++ (gap ++ '=' :: rest) := by
  intro h
  obtain ⟨tail, htail⟩ := head_of_cons_append_eq h
  cases gap with
  | nil => exact absurd (List.cons.inj htail).1 (by decide)
  | cons c gap =>
    have hspace := hgap c List.mem_cons_self
    rw [(List.cons.inj htail).1] at hspace
    exact absurd hspace (by decide)

/-- What stands in front of the key is determined by the line. -/
theorem BeginsWithKey.front_unique {other : List Char} (hne : key ≠ []) (hink : ∀ c ∈ key, Blank.isSpace c = false)
    (h : BeginsWithKey key line front) (h' : BeginsWithKey key line other) : front = other := by
  obtain ⟨spaces, ahead, hsplit, hfront⟩ := h.split hne hink
  obtain ⟨spaces', ahead', hsplit', hother⟩ := h'.split hne hink
  obtain ⟨rfl, rfl⟩ := Prod.mk.inj (hsplit.symm.trans hsplit')
  rcases hfront with ⟨rfl, rest, hquoted⟩ | ⟨rfl, gap, rest, hgap, hassigned⟩ <;>
    rcases hother with ⟨rfl, rest', hquoted'⟩ | ⟨rfl, gap', rest', hgap', hassigned'⟩
  · rfl
  · exact absurd (hquoted.symm.trans hassigned') (quoted_ne_assigned hgap')
  · exact absurd (hquoted'.symm.trans hassigned) (quoted_ne_assigned hgap)
  · rfl

/-! ## Lines -/

/-- Nothing is found in lines that do not begin with the key. -/
theorem findKeyFrom_eq_none_iff (hne : key ≠ []) (hink : ∀ c ∈ key, Blank.isSpace c = false)
    {offset : Nat} {lines : List (List Char)} :
    findKeyFrom key offset lines = none ↔ ∀ line ∈ lines, ∀ front, ¬ BeginsWithKey key line front := by
  induction lines generalizing offset with
  | nil => exact ⟨fun _ _ h => absurd h List.not_mem_nil, fun _ => rfl⟩
  | cons line rest ih =>
    rw [List.forall_mem_cons, ← keyInLine?_eq_none_iff hne hink, findKeyFrom]
    cases keyInLine? key line with
    | none => exact ⟨fun h => ⟨rfl, ih.mp h⟩, fun h => ih.mpr h.2⟩
    | some before => exact ⟨fun h => (nomatch h), fun h => (nomatch h.1)⟩

/-- What is found in lines is the key in the first of them that begins with it. -/
theorem findKeyFrom_eq_some (hne : key ≠ []) (hink : ∀ c ∈ key, Blank.isSpace c = false)
    {offset : Nat} {lines : List (List Char)} {span : Span} (h : findKeyFrom key offset lines = some span) :
    ∃ before line after front, lines = before ++ line :: after ∧
      (∀ earlier ∈ before, ∀ front, ¬ BeginsWithKey key earlier front) ∧ BeginsWithKey key line front ∧
      span.start = offset + byteLength (before.flatten ++ front) ∧ span.stop = span.start + byteLength key := by
  induction lines generalizing offset with
  | nil => cases h
  | cons line rest ih =>
    rw [findKeyFrom] at h
    cases hk : keyInLine? key line with
    | some before =>
      rw [hk] at h
      obtain ⟨front, hb, rfl⟩ := keyInLine?_eq_some hk
      obtain rfl := Option.some.inj h
      exact ⟨[], line, rest, front, rfl, fun _ hm => absurd hm List.not_mem_nil, hb, rfl, rfl⟩
    | none =>
      rw [hk] at h
      dsimp only at h
      obtain ⟨before, found, after, front, rfl, hfirst, hb, hstart, hstop⟩ := ih h
      have hnot := (keyInLine?_eq_none_iff hne hink).mp hk
      refine ⟨line :: before, found, after, front, rfl, List.forall_mem_cons.mpr ⟨hnot, hfirst⟩, hb, ?_, hstop⟩
      rw [hstart, List.flatten_cons, List.append_assoc, byteLength_append line, Nat.add_assoc]

/-- The key in the first of some lines that begins with it is found. -/
theorem findKeyFrom_of_first (hne : key ≠ []) (hink : ∀ c ∈ key, Blank.isSpace c = false)
    (hb : BeginsWithKey key line front) {before : List (List Char)}
    (hfirst : ∀ earlier ∈ before, ∀ front, ¬ BeginsWithKey key earlier front) (after : List (List Char))
    (offset : Nat) :
    findKeyFrom key offset (before ++ line :: after) =
      some ⟨offset + byteLength (before.flatten ++ front),
        offset + byteLength (before.flatten ++ front) + byteLength key⟩ := by
  induction before generalizing offset with
  | nil =>
    rw [List.nil_append, findKeyFrom]
    cases hk : keyInLine? key line with
    | none => exact absurd hk (hb.keyInLine?_ne_none hne hink)
    | some found =>
      obtain ⟨other, hother, rfl⟩ := keyInLine?_eq_some hk
      rw [hb.front_unique hne hink hother]; rfl
  | cons earlier before ih =>
    rw [List.forall_mem_cons] at hfirst
    rw [List.cons_append, findKeyFrom, (keyInLine?_eq_none_iff hne hink).mpr hfirst.1]
    dsimp only
    rw [ih hfirst.2, List.flatten_cons, List.append_assoc, byteLength_append earlier, Nat.add_assoc offset]

/-! ## Texts -/

theorem byteLength_toList (text : String) : byteLength text.toList = text.utf8ByteSize := by
  rw [← length_bytesOf, ← textBytes_eq, length_textBytes]

/-- The stretch of a key in a line of a text holds just the key. -/
theorem BeginsWithKey.covers {text key : String} {line front : List Char} {before after : List (List Char)}
    {span : Span} (h : BeginsWithKey key.toList line front) (htext : pieces text.toList = before ++ line :: after)
    (hstart : span.start = byteLength (before.flatten ++ front))
    (hstop : span.stop = span.start + byteLength key.toList) : span.Covers text key := by
  obtain ⟨rest, hline⟩ := h.line_eq
  refine ⟨String.ofList (before.flatten ++ front), String.ofList (rest ++ after.flatten), ?_, ?_, ?_⟩
  · apply String.toList_inj.mp
    rw [← pieces_flatten text.toList, htext, List.flatten_append, List.flatten_cons, hline]
    simp only [String.toList_append, String.toList_ofList, List.append_assoc]
  · rw [hstart, ← byteLength_toList, String.toList_ofList]
  · rw [hstop, byteLength_toList]

section

variable {key text : String} (hne : key ≠ "") (hink : ∀ c ∈ key.toList, Blank.isSpace c = false)

include hne hink

theorem findKey_eq_none_iff : findKey key text = none ↔
    ∀ line ∈ pieces text.toList, ∀ front, ¬ BeginsWithKey key.toList line front :=
  findKeyFrom_eq_none_iff (mt String.toList_eq_nil_iff.mp hne) hink

theorem findKey_eq_some_iff {span : Span} : findKey key text = some span ↔ span.IsFirstKey key text := by
  have hnil : key.toList ≠ [] := mt String.toList_eq_nil_iff.mp hne
  refine ⟨fun h => ?_, fun ⟨⟨_, _, _, _, hstop⟩, before, line, after, front, htext, hfirst, hb, hstart⟩ => ?_⟩
  · obtain ⟨before, line, after, front, htext, hfirst, hb, hstart, hstop⟩ := findKeyFrom_eq_some hnil hink h
    rw [Nat.zero_add] at hstart
    exact ⟨hb.covers htext hstart hstop, before, line, after, front, htext, hfirst, hb, hstart⟩
  · have hfound := findKeyFrom_of_first hnil hink hb hfirst after 0
    rw [← htext, Nat.zero_add, ← hstart, byteLength_toList, ← hstop] at hfound
    exact hfound

end

/-- The place of a key in a text is found exactly when some line begins with the key, in quotes or followed by an equals
sign. It is then that of the key in the first such line: it lies in the text, from boundary to boundary, and holds just
the key, and in its line there are only spaces in front of it, and an opening quote if the key is in quotes. -/
theorem findKey_first (key text : String) (hne : key ≠ "") (hink : ∀ c ∈ key.toList, Blank.isSpace c = false) :
    ((∃ span, findKey key text = some span) ↔
      ∃ line ∈ pieces text.toList, ∃ front, BeginsWithKey key.toList line front) ∧
    ∀ span, findKey key text = some span ↔ span.IsFirstKey key text := by
  refine ⟨?_, fun span => findKey_eq_some_iff hne hink⟩
  rw [← Option.ne_none_iff_exists', Ne, findKey_eq_none_iff hne hink]
  simp only [Classical.not_forall, Classical.not_not, exists_prop]

/-- A key behind a comment that begins like it, a line end of two characters and a space of three bytes. -/
theorem findKey_first_wide_space :
    "indent" ≠ "" ∧ (∀ c ∈ "indent".toList, Blank.isSpace c = false) ∧
      Span.IsFirstKey ⟨20, 26⟩ "indent" "# indent = 1 \u00e9\r\n\u3000indent\u00a0= 0" := by
  have hne : "indent" ≠ "" := by decide
  have hall : "indent".toList.all (!Blank.isSpace ·) = true := by decide
  have hink : ∀ c ∈ "indent".toList, Blank.isSpace c = false := by simpa using hall
  exact ⟨hne, hink, ((findKey_first "indent" _ hne hink).2 _).mp (by decide)⟩

end TypeScribe
