import TypeScribe.Proofs.KeyLines
import TypeScribe.Proofs.KeySpans
import TypeScribe.Proofs.SettingKeys

/-!
# Where complaints point

A complaint is about a setting and points at the first line that begins with the key of the setting, whatever this line
belongs to. It is the place of the setting itself whenever its key stands at the front of a line in this way and no line
before begins with the key.

* `Key.Leads`: a key at the front of the first line that begins with it.
* `Key.Leads.isNameOf`: such a key of a tree is what its name is found at, in both forms.
* `Document.complaint_of_parse`: which complaints there are, and where they point.
* `Document.complaint_at_first_key`: when a complaint points at the setting that it is about.
-/

namespace TypeScribe

/-- A key stands at the front of the first line that begins with its name. -/
def Key.Leads (k : Key) (text : String) : Prop :=
  ∃ before line after front, pieces text.toList = before ++ line :: after ∧
    (∀ earlier ∈ before, ∀ front, ¬ BeginsWithKey k.name.toList earlier front) ∧
    BeginsWithKey k.name.toList line front ∧ k.span.start = byteLength (before.flatten ++ (splitSpaces line).1)

/-- A stretch of a text is that of a key, without the quotes if the key is in quotes. -/
def Span.IsNameOf (span : Span) (k : Key) : Prop :=
  span = k.span ∨ span.start = k.span.start + 1 ∧ span.stop + 1 = k.span.stop

/-! ## Keys that lead -/

/-- A text is cut at a byte in one way. -/
theorem cut_unique {before before' ahead ahead' : List Char} (h : before ++ ahead = before' ++ ahead')
    (hlength : byteLength before = byteLength before') : ahead = ahead' := by
  induction before generalizing before' with
  | nil =>
    cases before' with
    | nil => exact h
    | cons a rest =>
      have := a.utf8Size_pos
      rw [byteLength_nil, byteLength_cons] at hlength
      omega
  | cons b before ih =>
    cases before' with
    | nil =>
      have := b.utf8Size_pos
      rw [byteLength_nil, byteLength_cons] at hlength
      omega
    | cons a rest =>
      obtain ⟨rfl, htail⟩ := List.cons.inj h
      exact ih htail (Nat.add_left_cancel hlength)

/-- What lies ahead at a byte of a text. -/
theorem Cursor.IsIn.ahead_eq {c : Cursor} {before ahead : List Char} (h : c.IsIn (before ++ ahead))
    (hoffset : c.offset = byteLength before) : c.ahead = ahead := by
  obtain ⟨read, htext, hread⟩ := h
  refine (cut_unique htext ?_).symm
  rw [← hoffset, hread]
  exact Nat.zero_add _

/-- The fuel for a whole text is more than a name at its front takes. -/
theorem length_lt_fuel (key rest : List Char) : key.length < (key ++ rest).length + 1 := by
  rw [List.length_append]
  omega

section Bare

variable {key : List Char} (hkey : ∀ a ∈ key, Toml.isBare a = true)

theorem not_isSpace_of_isBare {a : Char} (h : Toml.isBare a = true) : Blank.isSpace a = false := by
  have hrange : 65 ≤ a.toNat ∧ a.toNat ≤ 122 ∨ 45 ≤ a.toNat ∧ a.toNat ≤ 57 := by
    rw [Toml.isBare, Bool.or_eq_true, Bool.or_eq_true, decide_eq_true_eq, decide_eq_true_eq] at h
    rcases h with (h | rfl) | rfl
    · have := Toml.range_of_isAlphanum h
      omega
    · decide
    · decide
  refine List.any_eq_false.mpr fun r hr => ?_
  rw [Bool.and_eq_true, decide_eq_true_eq, decide_eq_true_eq]
  have hranges : ∀ r ∈ Blank.ranges, r.2 < 45 ∨ 122 < r.1 := by decide
  have := hranges r hr
  omega

theorem not_isBare_of_isSpace {a : Char} (h : Blank.isSpace a = true) : Toml.isBare a = false :=
  Bool.eq_false_iff.mpr fun hbare => by simp [not_isSpace_of_isBare hbare] at h

include hkey

/-- A bare name is read in quotes as it is. -/
theorem Json.scanCharacters_bare {fuel : Nat} (hfuel : key.length < fuel) (done rest : List Char) (offset : Nat) :
    Json.scanCharacters fuel done ⟨offset, key ++ '"' :: rest⟩ =
      .ok (String.ofList (done.reverse ++ key), ⟨offset + byteLength key + 1, rest⟩) := by
  induction key generalizing fuel done offset with
  | nil =>
    obtain ⟨fuel, rfl⟩ := Nat.exists_eq_succ_of_ne_zero (Nat.ne_of_gt hfuel)
    rw [Json.scanCharacters, List.append_nil]
    rfl
  | cons a key ih =>
    rw [List.forall_mem_cons] at hkey
    obtain ⟨fuel, rfl⟩ := Nat.exists_eq_succ_of_ne_zero (Nat.ne_of_gt (Nat.zero_lt_of_lt hfuel))
    have hplain := Toml.isPlain_of_isBare hkey.1
    have hquote : a ≠ '"' := by rintro rfl; exact absurd hkey.1 (by decide)
    have hslash : a ≠ '\\' := by rintro rfl; exact absurd hkey.1 (by decide)
    have htab : a ≠ '\t' := by rintro rfl; exact absurd hkey.1 (by decide)
    have hcontrol : ¬ a.toNat < 0x20 := by
      simp [Toml.isPlain, htab] at hplain
      omega
    have hrest := ih hkey.2 (Nat.lt_of_succ_lt_succ hfuel) (a :: done) (offset + a.utf8Size)
    rw [Json.scanCharacters]
    split
    · rename_i heq
      cases heq
    · rename_i heq
      exact absurd (List.cons.inj heq).1 hquote
    · rename_i heq
      exact absurd (List.cons.inj heq).1 hslash
    · rename_i heq
      obtain ⟨rfl, rfl⟩ := List.cons.inj heq
      rw [if_neg hcontrol]
      refine hrest.trans ?_
      simp [Nat.add_assoc]

theorem Toml.readLineText_bare {fuel : Nat} (hfuel : key.length < fuel) (escapes : Bool) (done rest : List Char)
    (offset : Nat) : Toml.readLineText '"' escapes fuel done ⟨offset, key ++ '"' :: rest⟩ =
      some (String.ofList (done.reverse ++ key), ⟨offset + byteLength key + 1, rest⟩) := by
  induction key generalizing fuel done offset with
  | nil =>
    obtain ⟨fuel, rfl⟩ := Nat.exists_eq_succ_of_ne_zero (Nat.ne_of_gt hfuel)
    rw [Toml.readLineText, List.append_nil]
    rfl
  | cons a key ih =>
    rw [List.forall_mem_cons] at hkey
    obtain ⟨fuel, rfl⟩ := Nat.exists_eq_succ_of_ne_zero (Nat.ne_of_gt (Nat.zero_lt_of_lt hfuel))
    have hquote : a ≠ '"' := by rintro rfl; exact absurd hkey.1 (by decide)
    have hslash : (decide (a = '\\') && escapes) = false := by
      rw [decide_eq_false (by rintro rfl; exact absurd hkey.1 (by decide)), Bool.false_and]
    have hrest := ih hkey.2 (Nat.lt_of_succ_lt_succ hfuel) (a :: done) (offset + a.utf8Size)
    rw [Toml.readLineText]
    dsimp only [List.cons_append]
    rw [if_neg hquote, if_neg (Bool.eq_false_iff.mp hslash), if_pos (Toml.isPlain_of_isBare hkey.1), hrest]
    simp [Nat.add_assoc]

/-- A bare name in quotes is read as one part, with the quotes. -/
theorem Toml.readPart_quoted (offset : Nat) (rest : List Char) :
    Toml.readPart ⟨offset, '"' :: (key ++ '"' :: rest)⟩ = some (⟨String.ofList key,
      ⟨offset, offset + 1 + byteLength key + 1⟩⟩, ⟨offset + 1 + byteLength key + 1, rest⟩) := by
  have hfuel := length_lt_fuel key ('"' :: rest)
  have hread := Toml.readLineText_bare hkey hfuel true [] rest (offset + 1)
  rw [Toml.readPart]
  simp only [List.head?_cons, Option.bind_eq_bind, Option.bind_some, decide_true, Bool.true_or, if_true,
    List.length_cons, List.drop_succ_cons, List.drop_zero, hread]
  rfl

/-- A bare name without quotes is read as one part. -/
theorem Toml.readPart_bare (hne : key ≠ []) {a : Char} (ha : Toml.isBare a = false) (offset : Nat) (rest : List Char) :
    Toml.readPart ⟨offset, key ++ a :: rest⟩ = some (⟨String.ofList key, ⟨offset, offset + byteLength key⟩⟩,
      ⟨offset + byteLength key, a :: rest⟩) := by
  have hneg : ¬ Toml.isBare a = true := Bool.eq_false_iff.mp ha
  have htake : (key ++ a :: rest).takeWhile Toml.isBare = key := by
    rw [List.takeWhile_append_of_pos hkey, List.takeWhile_cons_of_neg hneg, List.append_nil]
  have hdrop : (key ++ a :: rest).dropWhile Toml.isBare = a :: rest := by
    rw [List.dropWhile_append_of_pos hkey, List.dropWhile_cons_of_neg hneg]
  obtain ⟨b, more, rfl⟩ := List.exists_cons_of_ne_nil hne
  have hquote : b ≠ '"' := by rintro rfl; exact absurd (hkey _ List.mem_cons_self) (by decide)
  have hliteral : b ≠ Toml.literalQuote := by rintro rfl; exact absurd (hkey _ List.mem_cons_self) (by decide)
  rw [List.cons_append] at htake hdrop ⊢
  rw [Toml.readPart]
  simp [hquote, hliteral, htake, hdrop, Cursor.skip]

end Bare

/-- A part of a key that was read starts where reading did. -/
theorem Toml.readPart_start {c next : Cursor} {k : Key} (h : Toml.readPart c = some (k, next)) :
    k.span.start = c.offset := by
  obtain ⟨first, -, h⟩ := Option.bind_eq_some_iff.mp h
  dsimp only at h
  split at h
  · obtain ⟨_, -, h⟩ := Option.bind_eq_some_iff.mp h
    exact (Prod.mk.inj (Option.some.inj h)).1 ▸ rfl
  · split at h
    · cases h
    · exact (Prod.mk.inj (Option.some.inj h)).1 ▸ rfl

section Places

variable {k : Key} {before rest : List Char} (hstart : k.span.start = byteLength before)
  (hbare : ∀ a ∈ k.name.toList, Toml.isBare a = true)

include hstart

/-- A key in nested objects begins with a quote. -/
theorem Json.ReadsKey.quote {a : Char} (h : Json.ReadsKey (before ++ a :: rest) k) : a = '"' := by
  obtain ⟨c, more, after, hc, hahead, -, hspan⟩ := h
  rw [hspan] at hstart
  rw [hc.ahead_eq hstart] at hahead
  exact (List.cons.inj hahead).1

include hbare

theorem Json.ReadsKey.stop_of_quoted (h : Json.ReadsKey (before ++ '"' :: (k.name.toList ++ '"' :: rest)) k) :
    k.span.stop = k.span.start + 1 + byteLength k.name.toList + 1 := by
  obtain ⟨c, more, after, hc, hahead, hscan, hspan⟩ := h
  have hoffset : c.offset = byteLength before := by rw [← hstart, hspan]
  rw [hc.ahead_eq hoffset] at hahead
  obtain ⟨-, rfl⟩ := List.cons.inj hahead
  rw [Json.scanText, Json.scanCharacters_bare hbare (length_lt_fuel _ _)] at hscan
  obtain ⟨-, rfl⟩ := Prod.mk.inj (Except.ok.inj hscan)
  rw [hspan]

theorem Toml.ReadsKey.stop_of_quoted (h : Toml.ReadsKey (before ++ '"' :: (k.name.toList ++ '"' :: rest)) k) :
    k.span.stop = k.span.start + 1 + byteLength k.name.toList + 1 := by
  obtain ⟨⟨offset, ahead⟩, next, hc, hpart⟩ := h
  have hoffset : offset = byteLength before := by rw [← hstart, Toml.readPart_start hpart]
  obtain rfl := hc.ahead_eq hoffset
  rw [Toml.readPart_quoted hbare] at hpart
  obtain ⟨hk, -⟩ := Prod.mk.inj (Option.some.inj hpart)
  rw [← hk, String.toList_ofList]

theorem Toml.ReadsKey.stop_of_assigned {a : Char} (ha : Toml.isBare a = false) (hne : k.name.toList ≠ [])
    (h : Toml.ReadsKey (before ++ (k.name.toList ++ a :: rest)) k) :
    k.span.stop = k.span.start + byteLength k.name.toList := by
  obtain ⟨⟨offset, ahead⟩, next, hc, hpart⟩ := h
  have hoffset : offset = byteLength before := by rw [← hstart, Toml.readPart_start hpart]
  obtain rfl := hc.ahead_eq hoffset
  rw [Toml.readPart_bare hbare hne ha] at hpart
  obtain ⟨hk, -⟩ := Prod.mk.inj (Option.some.inj hpart)
  rw [← hk, String.toList_ofList]

/-- A key that is followed by an equals sign was read up to its end, and not in nested objects. -/
theorem stop_of_assigned (hne : k.name.toList ≠ []) {gap : List Char} (hgap : ∀ a ∈ gap, Blank.isSpace a = true)
    (h : Json.ReadsKey (before ++ (k.name.toList ++ (gap ++ '=' :: rest))) k ∨
      Toml.ReadsKey (before ++ (k.name.toList ++ (gap ++ '=' :: rest))) k) :
    k.span.stop = k.span.start + byteLength k.name.toList := by
  rcases h with h | h
  · obtain ⟨b, more, hname⟩ := List.exists_cons_of_ne_nil hne
    rw [hname, List.cons_append] at h
    obtain rfl := h.quote hstart
    exact absurd (hbare '"' (hname ▸ List.mem_cons_self)) (by decide)
  · obtain ⟨a, tail, htail, ha⟩ : ∃ a tail, gap ++ '=' :: rest = a :: tail ∧ Toml.isBare a = false := by
      cases gap with
      | nil => exact ⟨'=', _, rfl, by decide⟩
      | cons a gap => exact ⟨a, _, rfl, not_isBare_of_isSpace (hgap a List.mem_cons_self)⟩
    rw [htail] at h
    exact h.stop_of_assigned hstart hbare ha hne

end Places

/-- A key of a tree was read from the text, in one of the two forms. -/
theorem Format.Reads.readsKey {format : Format} {text : String} {root : Node} (h : format.Reads text root) {k : Key}
    (hk : k ∈ root.keys) (hmoment : k.name ≠ Toml.momentKey) :
    Json.ReadsKey text.toList k ∨ Toml.ReadsKey text.toList k := by
  cases format with
  | json =>
    obtain ⟨next, hparse, -⟩ := h
    exact .inl (Json.parse_keys (by rw [hparse]; exact hk))
  | toml => exact .inr ((Toml.parse_keys h hk).resolve_left hmoment)

/-- A key of a tree that leads, with a bare name, is what its name is first found at. -/
theorem Key.Leads.isNameOf {format : Format} {text : String} {root : Node} {k : Key} (hroot : format.Reads text root)
    (hk : k ∈ root.keys) (hbare : ∀ a ∈ k.name.toList, Toml.isBare a = true) (hne : k.name ≠ "")
    (hmoment : k.name ≠ Toml.momentKey) (hleads : k.Leads text) {span : Span} (hspan : span.IsFirstKey k.name text) :
    span.IsNameOf k := by
  have hink : ∀ a ∈ k.name.toList, Blank.isSpace a = false := fun a ha => not_isSpace_of_isBare (hbare a ha)
  have hnil : k.name.toList ≠ [] := mt String.toList_eq_nil_iff.mp hne
  obtain ⟨before, line, after, front, htext, hfirst, hb, hstart⟩ := hleads
  -- What is found is the key in this line, as no other line is the first one.
  have hfound : span = ⟨byteLength (before.flatten ++ front), byteLength (before.flatten ++ front) +
      byteLength k.name.toList⟩ := by
    have hsame := findKeyFrom_of_first hnil hink hb hfirst after 0
    rw [← htext, Nat.zero_add] at hsame
    exact Option.some.inj (((findKey_eq_some_iff hne hink).mpr hspan).symm.trans hsame)
  obtain ⟨spaces, ahead, hsplit, hahead⟩ := hb.split hnil hink
  have hcut : text.toList = (before.flatten ++ spaces) ++ (ahead ++ after.flatten) := by
    have hline := (splitSpaces_spec line).1
    rw [hsplit] at hline
    rw [← pieces_flatten text.toList, htext, List.flatten_append, List.flatten_cons, hline]
    simp only [List.append_assoc]
  have hread := hroot.readsKey hk hmoment
  rw [hsplit] at hstart
  rcases hahead with ⟨rfl, rest, rfl⟩ | ⟨rfl, gap, rest, hgap, rfl⟩
  · rw [hcut, List.cons_append, List.append_assoc k.name.toList, List.cons_append] at hread
    have hstop := hread.elim (·.stop_of_quoted hstart hbare) (·.stop_of_quoted hstart hbare)
    right
    rw [hfound, hstop, hstart, byteLength_append, byteLength_append, byteLength_append]
    exact ⟨rfl, rfl⟩
  · rw [hcut, List.append_assoc k.name.toList, List.append_assoc gap, List.cons_append] at hread
    left
    rw [hfound, ← hstart, ← stop_of_assigned hstart hbare hnil hgap hread]

/-! ## Complaints -/

namespace Setting

/-- What is said about a setting that does not fit. -/
def complaint (d : Document) : Setting → String
  | indent => "indent must be between 1 and 8, got " ++ toString d.output.indent.toNat
  | serviceName => "service name must not be empty"

/-- The key of a setting can stand without quotes, and is not the one of a moment. -/
theorem key_bare (setting : Setting) :
    setting.key ≠ "" ∧ (∀ a ∈ setting.key.toList, Toml.isBare a = true) ∧ setting.key ≠ Toml.momentKey := by
  have hall : setting.key.toList.all Toml.isBare = true := by cases setting <;> decide
  exact ⟨by cases setting <;> decide, List.all_eq_true.mp hall, by cases setting <;> decide⟩

end Setting

/-- The key of a setting is one of the keys of the tree. -/
theorem Node.HasSetting.mem_keys {setting : Setting} {root : Node} {k : Key} (h : root.HasSetting setting k) :
    k ∈ root.keys := by
  cases h with
  | entry htable htableName hkey hkeyName =>
    exact Node.mem_entryKeys htable (.inr (Node.mem_entryKeys hkey (.inl rfl)))

theorem Node.HasSetting.name_eq {setting : Setting} {root : Node} {k : Key} (h : root.HasSetting setting k) :
    k.name = setting.key := by
  cases h with
  | entry htable htableName hkey hkeyName => exact hkeyName

namespace Document

variable {source blamed : Source} {format : Format} {message : String} {span? : Option Span} {d : Document}

/-- What was decoded was read from a tree. -/
theorem exists_reads_of_decode (h : decode source format = .ok d) :
    ∃ root, format.Reads source.text root ∧ readDocument format root = .ok d := by
  cases format with
  | toml =>
    rw [decode, Toml.decode] at h
    cases hparse : Toml.parse source.text.toList with
    | none => rw [hparse] at h; cases h
    | some root =>
      rw [hparse] at h
      refine ⟨root, hparse, ?_⟩
      cases hread : readDocument .toml root with
      | error f => simp only [hread] at h; cases h
      | ok d' => simp only [hread] at h; exact congrArg _ (Except.ok.inj h)
  | json =>
    rw [decode, Json.decode] at h
    cases hparse : Json.parse source.text.toList with
    | mk root ending =>
      rw [hparse] at h
      dsimp only at h
      cases ending with
      | error stopped => cases hread : readDocument .json root <;> simp only [hread] at h <;> cases h
      | ok next =>
        cases hread : readDocument .json root with
        | error f => simp only [hread] at h; cases h
        | ok d' =>
          simp only [hread] at h
          split at h
          · rename_i hend
            exact ⟨root, ⟨next, hparse, List.isEmpty_iff.mp hend⟩, hread.trans (congrArg _ (Except.ok.inj h))⟩
          · cases h

theorem tree_of_mem_treeObjections {list : String} {es : List Element} {o : Objection}
    (h : o ∈ treeObjections list es) : ∃ cause, o = .tree cause := by
  obtain ⟨⟨e, i⟩, -, h⟩ := List.mem_filterMap.mp h
  dsimp only at h
  unfold treeObjection? at h
  split at h
  · cases h
  · exact ⟨_, (Option.some.inj h).symm⟩

/-- The first objection to a document is to a setting that does not fit, or to an element. -/
theorem error_of_objections {o : Objection} {rest : List Objection} (h : d.objections = o :: rest) (source : Source) :
    (∃ setting : Setting, setting.IsUnfit d ∧
      o.error source = .complaint source (setting.complaint d) (findKey setting.key source.text)) ∨
    ∃ cause, o = .tree cause := by
  by_cases hi : d.HasFitIndent
  · by_cases hn : d.HasFitName
    · rw [objections, objectUnless, objectUnless, if_pos hi, if_pos hn, List.nil_append, List.nil_append] at h
      have ho : o ∈ treeObjections servicePlace d.serviceElements ++ treeObjections CodeFile.place d.elements :=
        h ▸ List.mem_cons_self
      exact .inr ((List.mem_append.mp ho).elim tree_of_mem_treeObjections tree_of_mem_treeObjections)
    · rw [objections, objectUnless, objectUnless, if_pos hi, if_neg hn] at h
      obtain rfl : Objection.namelessService = o := (List.cons.inj h).1
      exact .inl ⟨.serviceName, ⟨hi, hn⟩, rfl⟩
  · rw [objections, objectUnless, objectUnless, if_neg hi] at h
    obtain rfl : Objection.indent d.output.indent = o := (List.cons.inj h).1
    exact .inl ⟨.indent, hi, rfl⟩

/-- What is told of a document that is objected to. -/
theorem parse_eq_error {o : Objection} (hd : decode source format = .ok d) (ho : d.judge = .error o) :
    parse source format = .error (o.error source) := by
  rw [parse, hd]
  show (do d.judge.mapError (Objection.error source); return d) = _
  rw [ho]
  rfl

/-- A complaint is told only about a setting that does not fit, and points at what its key is found at. -/
theorem complaint_of_parse (h : parse source format = .error (.complaint blamed message span?)) :
    ∃ (d : Document) (setting : Setting), decode source format = .ok d ∧ setting.IsUnfit d ∧ blamed = source ∧
      message = setting.complaint d ∧ span? = findKey setting.key source.text := by
  rw [parse_eq_match] at h
  cases hd : decode source format with
  | error err =>
    rw [hd] at h
    obtain rfl := Except.error.inj h
    cases format with
    | toml =>
      rw [decode] at hd
      cases hx : Toml.decode (readDocument .toml) source.text <;> rw [hx] at hd <;> cases hd
    | json =>
      rw [decode] at hd
      cases hx : Json.decode (readDocument .json) source.text <;> rw [hx] at hd <;> cases hd
  | ok d =>
    rw [hd] at h
    dsimp only at h
    cases ho : d.objections with
    | nil => simp only [ho] at h; cases h
    | cons o rest =>
      simp only [ho] at h
      rcases error_of_objections ho source with ⟨setting, hunfit, herror⟩ | ⟨cause, rfl⟩
      · rw [herror] at h
        cases h
        exact ⟨d, setting, rfl, hunfit, rfl, rfl, rfl⟩
      · cases h

/-- A complaint is told only about a setting that does not fit: an indent, or with a fit indent the name of the service.
It points somewhere exactly when some line of the text begins with the key of this setting, and then at the key in the
first such line and at nothing else. This is the key of the setting itself whenever that one stands at the front of a
line in this way and no line before begins with it. In the tree that was read the setting has a key, unless its table or
the whole is written as a list. -/
theorem complaint_at_first_key (source blamed : Source) (format : Format) (message : String) (span? : Option Span)
    (h : parse source format = .error (.complaint blamed message span?)) :
    ∃ (d : Document) (setting : Setting) (root : Node), decode source format = .ok d ∧ setting.IsUnfit d ∧
      format.Reads source.text root ∧ blamed = source ∧ message = setting.complaint d ∧
      (root.Lists setting ∨ ∃ k, root.HasSetting setting k) ∧
      (span? = none ↔ ∀ line ∈ pieces source.text.toList, ∀ front, ¬ BeginsWithKey setting.key.toList line front) ∧
      ∀ span, span? = some span → span.IsFirstKey setting.key source.text ∧
        ∀ k, root.HasSetting setting k → k.Leads source.text → span.IsNameOf k := by
  obtain ⟨d, setting, hd, hunfit, hblamed, hmessage, hspan⟩ := complaint_of_parse h
  obtain ⟨root, hroot, hread⟩ := exists_reads_of_decode hd
  obtain ⟨hne, hbare, hmoment⟩ := setting.key_bare
  have hink : ∀ a ∈ setting.key.toList, Blank.isSpace a = false := fun a ha => not_isSpace_of_isBare (hbare a ha)
  refine ⟨d, setting, root, hd, hunfit, hroot, hblamed, hmessage, Setting.written_of_unfit hread hunfit, ?_, ?_⟩
  · rw [hspan]
    exact findKey_eq_none_iff hne hink
  · intro span hfound
    have hfirst : span.IsFirstKey setting.key source.text :=
      (findKey_eq_some_iff hne hink).mp (hspan.symm.trans hfound)
    refine ⟨hfirst, fun k hk hleads => ?_⟩
    rw [← hk.name_eq] at hbare hne hmoment hfirst
    exact hleads.isNameOf hroot hk.mem_keys hbare hne hmoment hfirst

/-- A nameless service behind a comment that looks like its name, with the key in quotes and behind spaces. -/
theorem complaint_at_first_key_quoted :
    let source : Source := ⟨"a.toml", "# name = 1\n[service]\n  \"name\" = \"\"\n"⟩
    parse source .toml = .error (.complaint source "service name must not be empty" (some ⟨24, 28⟩)) ∧
      Span.IsFirstKey ⟨24, 28⟩ "name" source.text ∧ Span.IsNameOf ⟨24, 28⟩ ⟨"name", ⟨23, 29⟩⟩ := by
  intro source
  let service : Entry := ⟨⟨"service", ⟨12, 19⟩⟩, .table ⟨11, 20⟩ [⟨⟨"name", ⟨23, 29⟩⟩, .text ⟨32, 34⟩ ""⟩] true⟩
  have hread : Format.toml.Reads source.text (.table ⟨0, 0⟩ [service] true) := by decide +kernel
  have hdecode : decode source .toml = .ok ⟨{}, some { name := "" }, []⟩ := decode_of_reads hread (by rfl)
  have hfound : findKey "name" source.text = some ⟨24, 28⟩ := by decide +kernel
  have hparse : parse source .toml =
      .error (.complaint source "service name must not be empty" (some ⟨24, 28⟩)) := by
    rw [← hfound]
    exact parse_eq_error hdecode (by rfl)
  obtain ⟨d, setting, root, hd, hunfit, hroot, -, -, -, -, hspan⟩ :=
    complaint_at_first_key source source .toml _ _ hparse
  obtain rfl := Except.ok.inj (hdecode.symm.trans hd)
  obtain rfl := Option.some.inj (Eq.trans (Eq.symm hread) hroot)
  cases setting with
  | indent => exact absurd (show Document.HasFitIndent _ by decide) hunfit
  | serviceName =>
    obtain ⟨hfirst, hkey⟩ := hspan _ rfl
    refine ⟨hparse, hfirst, hkey _ (.entry List.mem_cons_self rfl List.mem_cons_self rfl) ?_⟩
    have hink : ∀ a ∈ "name".toList, Blank.isSpace a = false :=
      fun a ha => not_isSpace_of_isBare (Setting.serviceName.key_bare.2.1 a ha)
    refine ⟨["# name = 1\n".toList, "[service]\n".toList], "  \"name\" = \"\"\n".toList, [], "  \"".toList, by decide,
      ?_, ?_, by decide⟩
    · refine List.forall_mem_cons.mpr ⟨?_, List.forall_mem_singleton.mpr ?_⟩ <;>
        exact (keyInLine?_eq_none_iff (by decide) hink).mp (by decide)
    · have hspaces : [' ', ' '].all Blank.isSpace = true := by decide
      exact .quoted (List.all_eq_true.mp hspaces)

/-- A complaint about a nameless service points at the name of an element that stands before it in the text. -/
theorem complaint_at_other_key :
    let source : Source := ⟨"a.toml",
      "[[elements]]\ntype = \"type\"\nname = \"a\"\nvalue = \"b\"\n\n[service]\nname = \"\"\n"⟩
    parse source .toml = .error (.complaint source "service name must not be empty" (some ⟨27, 31⟩)) ∧
      ∃ root, Format.toml.Reads source.text root ∧
        (∀ k, root.HasSetting .serviceName k ↔ k = ⟨"name", ⟨61, 65⟩⟩) ∧
        ¬ Span.IsNameOf ⟨27, 31⟩ ⟨"name", ⟨61, 65⟩⟩ := by
  intro source
  let element : Node := .table ⟨0, 12⟩ [⟨⟨"type", ⟨13, 17⟩⟩, .text ⟨20, 26⟩ "type"⟩,
    ⟨⟨"name", ⟨27, 31⟩⟩, .text ⟨34, 37⟩ "a"⟩, ⟨⟨"value", ⟨38, 43⟩⟩, .text ⟨46, 49⟩ "b"⟩] true
  let service : Node := .table ⟨51, 60⟩ [⟨⟨"name", ⟨61, 65⟩⟩, .text ⟨68, 70⟩ ""⟩] true
  have hread : Format.toml.Reads source.text (.table ⟨0, 0⟩ [⟨⟨"elements", ⟨2, 10⟩⟩,
      .array ⟨0, 12⟩ [element] true⟩, ⟨⟨"service", ⟨52, 59⟩⟩, service⟩] true) := by decide +kernel
  have hdecode : decode source .toml =
      .ok ⟨{}, some { name := "" }, [.typeDecl { name := "a", value := "b" }]⟩ := decode_of_reads hread (by rfl)
  have hfound : findKey "name" source.text = some ⟨27, 31⟩ := by decide +kernel
  have hparse : parse source .toml =
      .error (.complaint source "service name must not be empty" (some ⟨27, 31⟩)) := by
    rw [← hfound]
    exact parse_eq_error hdecode (by rfl)
  refine ⟨hparse, _, hread, fun k => ⟨fun hk => ?_, ?_⟩, ?_⟩
  · cases hk with
    | entry htable htableName hkey hkeyName =>
      rcases List.mem_pair.mp htable with h | h
      · cases h
      · obtain ⟨-, htable⟩ := Entry.mk.inj h
        obtain ⟨-, rfl, -⟩ := Node.table.inj htable
        exact (Entry.mk.inj (List.mem_singleton.mp hkey)).1
  · rintro rfl
    exact .entry (List.mem_cons_of_mem _ List.mem_cons_self) rfl List.mem_cons_self rfl
  · rintro (h | ⟨h, -⟩) <;> cases h

end Document

end TypeScribe
