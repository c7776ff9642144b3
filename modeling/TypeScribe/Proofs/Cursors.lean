import TypeScribe.Json.Reader
import TypeScribe.Toml.Reader

/-!
# Readers keep their place

A reader goes from one place of a text to a later one: what it took stands in the text between the two places, and its
bytes are counted. Every reader of texts, numbers and what stands between values does so, in both forms.

* `Cursor.Reaches`: a place that comes after another one.
* `Json.scanText_reaches`, `Json.scanNumber_reaches`: texts and numbers in nested objects.
* `Toml.readQuoted_reaches`, `Toml.readRun_reaches`: texts and runs in tables with headers.
-/

namespace TypeScribe

namespace Cursor

/-- Reading comes from one place to another: what lies between was read, and its bytes were counted. -/
def Reaches (c next : Cursor) : Prop :=
  ∃ read, c.ahead = read ++ next.ahead ∧ next.offset = c.offset + byteLength read

namespace Reaches

theorem refl (c : Cursor) : c.Reaches c := ⟨[], rfl, rfl⟩

theorem trans {a b c : Cursor} (h : a.Reaches b) (h' : b.Reaches c) : a.Reaches c := by
  obtain ⟨read, hahead, hoffset⟩ := h
  obtain ⟨more, hahead', hoffset'⟩ := h'
  refine ⟨read ++ more, by rw [hahead, hahead', List.append_assoc], ?_⟩
  rw [hoffset', hoffset, byteLength_append, Nat.add_assoc]

/-- Past one character. -/
theorem char {c : Cursor} {a : Char} {rest : List Char} (h : c.ahead = a :: rest) :
    c.Reaches ⟨c.offset + a.utf8Size, rest⟩ :=
  ⟨[a], h, rfl⟩

/-- Past one character of one byte. -/
theorem narrow {c : Cursor} {a : Char} {rest : List Char} (h : c.ahead = a :: rest) (ha : a.utf8Size = 1) :
    c.Reaches ⟨c.offset + 1, rest⟩ :=
  ha ▸ char h

theorem skip (p : Char → Bool) (c : Cursor) : c.Reaches (c.skip p) :=
  ⟨c.ahead.takeWhile p, List.takeWhile_append_dropWhile.symm, rfl⟩

end Reaches

end Cursor

open Cursor (Reaches)

/-! ## Characters of one byte -/

/-- A character that is not behind the small letters takes one byte. -/
theorem utf8Size_of_le {c : Char} (h : c ≤ 'z') : c.utf8Size = 1 :=
  Char.utf8Size_eq_one_iff.mpr (UInt32.le_trans h (by decide))

theorem utf8Size_of_hexValue? {c : Char} {v : Nat} (h : hexValue? c = some v) : c.utf8Size = 1 := by
  have hle : c ≤ '9' ∨ c ≤ 'f' ∨ c ≤ 'F' := by
    unfold hexValue? at h
    split at h
    · rename_i hc
      exact .inl (of_decide_eq_true (Bool.and_eq_true_iff.mp hc).2)
    · split at h
      · rename_i hc
        exact .inr (.inl (of_decide_eq_true (Bool.and_eq_true_iff.mp hc).2))
      · split at h
        · rename_i hc
          exact .inr (.inr (of_decide_eq_true (Bool.and_eq_true_iff.mp hc).2))
        · cases h
  rcases hle with hle | hle | hle <;> exact utf8Size_of_le (UInt32.le_trans hle (by decide))

theorem utf8Size_of_isDigit {c : Char} (h : c.isDigit = true) : c.utf8Size = 1 :=
  utf8Size_of_hexValue? (hexValue?_of_isDigit h)

/-- Characters of one byte each take as many bytes as they are. -/
theorem byteLength_of_narrow {cs : List Char} (h : ∀ c ∈ cs, c.utf8Size = 1) : byteLength cs = cs.length := by
  induction cs with
  | nil => rfl
  | cons c rest ih =>
    rw [List.forall_mem_cons] at h
    rw [byteLength_cons, h.1, ih h.2, List.length_cons, Nat.add_comm]

/-- Past some characters of one byte each. -/
theorem Cursor.Reaches.run {c : Cursor} (read : List Char) {rest : List Char} (h : c.ahead = read ++ rest)
    (hread : byteLength read = read.length) : c.Reaches ⟨c.offset + read.length, rest⟩ :=
  ⟨read, h, by rw [hread]⟩

/-- Past the characters of a class in front, which take one byte each. -/
theorem Cursor.Reaches.prefixOf {p : Char → Bool} (hp : ∀ a, p a = true → a.utf8Size = 1) (c : Cursor) :
    c.Reaches ⟨c.offset + (c.ahead.takeWhile p).length, c.ahead.drop (c.ahead.takeWhile p).length⟩ := by
  obtain ⟨rest, hrest⟩ := List.takeWhile_prefix (l := c.ahead) p
  have hdrop : c.ahead.drop (c.ahead.takeWhile p).length = rest :=
    (congrArg (List.drop _) hrest.symm).trans List.drop_left
  rw [hdrop]
  exact .run _ hrest.symm (byteLength_of_narrow fun a ha => hp a (List.all_eq_true.mp List.all_takeWhile a ha))

/-- What comes of two steps comes of the second one after the first one. -/
theorem bind_eq_ok {ε α β : Type} {x : Except ε α} {f : α → Except ε β} {b : β} (h : (x >>= f) = .ok b) :
    ∃ a, x = .ok a ∧ f a = .ok b := by
  cases x with
  | error err => cases h
  | ok a => exact ⟨a, rfl, h⟩

/-! ## Nested objects -/

namespace Json

theorem scanUnit_reaches {c next : Cursor} {value : Nat} (h : scanUnit c = .ok (value, next)) : c.Reaches next := by
  unfold scanUnit at h
  split at h
  · rename_i a b d e rest hahead
    split at h
    · rename_i unit hunit
      obtain ⟨-, rfl⟩ := Prod.mk.inj (Except.ok.inj h)
      simp only [unitValue?, Option.bind_eq_bind, Option.bind_eq_some_iff] at hunit
      obtain ⟨v, ha, w, hb, x, hd, y, he, -⟩ := hunit
      refine Reaches.run [a, b, d, e] hahead (byteLength_of_narrow ?_)
      simp [utf8Size_of_hexValue? ha, utf8Size_of_hexValue? hb, utf8Size_of_hexValue? hd, utf8Size_of_hexValue? he]
    · cases h
  · split at h <;> cases h

theorem scanPair_reaches {high : Nat} {c next : Cursor} {a : Char} (h : scanPair high c = .ok (a, next)) :
    c.Reaches next := by
  unfold scanPair at h
  split at h
  · cases h
  · cases h
  · rename_i rest hahead
    obtain ⟨⟨low, after⟩, hunit, h⟩ := bind_eq_ok h
    dsimp only at h
    split at h
    · obtain ⟨-, rfl⟩ := Prod.mk.inj (Except.ok.inj h)
      exact (Reaches.run ['\\', 'u'] hahead (by decide)).trans (scanUnit_reaches hunit)
    · cases h
  · cases h
  · cases h

theorem scanCodePoint_reaches {c next : Cursor} {a : Char} (h : scanCodePoint c = .ok (a, next)) :
    c.Reaches next := by
  obtain ⟨⟨value, after⟩, hunit, h⟩ := bind_eq_ok h
  dsimp only at h
  split at h
  · cases h
  · split at h
    · exact (scanUnit_reaches hunit).trans (scanPair_reaches h)
    · obtain ⟨-, rfl⟩ := Prod.mk.inj (Except.ok.inj h)
      exact scanUnit_reaches hunit

theorem scanEscape_reaches {c next : Cursor} {a : Char} (h : scanEscape c = .ok (a, next)) : c.Reaches next := by
  unfold scanEscape at h
  split at h
  · cases h
  · rename_i e rest hahead
    dsimp only at h
    split at h
    case h_9 => exact (Reaches.narrow hahead (by decide)).trans (scanCodePoint_reaches h)
    case h_10 => cases h
    all_goals
      obtain ⟨-, rfl⟩ := Prod.mk.inj (Except.ok.inj h)
      exact Reaches.narrow hahead (by decide)

theorem scanCharacters_reaches {fuel : Nat} {done : List Char} {c next : Cursor} {text : String}
    (h : scanCharacters fuel done c = .ok (text, next)) : c.Reaches next := by
  induction fuel generalizing done c with
  | zero => cases h
  | succ fuel ih =>
    rw [scanCharacters] at h
    split at h
    · cases h
    · rename_i rest hahead
      obtain ⟨-, rfl⟩ := Prod.mk.inj (Except.ok.inj h)
      exact Reaches.narrow hahead (by decide)
    · rename_i rest hahead
      obtain ⟨⟨e, after⟩, hescape, h⟩ := bind_eq_ok h
      exact ((Reaches.narrow hahead (by decide)).trans (scanEscape_reaches hescape)).trans (ih h)
    · rename_i a rest _ _ hahead
      split at h
      · cases h
      · exact (Reaches.char hahead).trans (ih h)

theorem scanText_reaches {c next : Cursor} {text : String} (h : scanText c = .ok (text, next)) : c.Reaches next :=
  scanCharacters_reaches h

theorem takeDigits_reaches (c : Cursor) : c.Reaches (takeDigits c).2 :=
  .prefixOf (fun _ => utf8Size_of_isDigit) c

theorem exponentDigits_reaches (value : Nat) {c : Cursor} :
    (∀ v next, exponentDigits value c c.ahead = .ok (v, next) → c.Reaches next) ∧
      ∀ next, exponentDigits value c c.ahead = .error next → c.Reaches next := by
  generalize hahead : c.ahead = ds
  induction ds generalizing value c with
  | nil =>
    refine ⟨fun v next h => ?_, fun next h => nomatch h⟩
    obtain ⟨-, rfl⟩ := Prod.mk.inj (Except.ok.inj h)
    exact .refl c
  | cons d rest ih =>
    simp only [exponentDigits]
    split
    · rename_i hd
      have hstep := Reaches.narrow hahead (utf8Size_of_isDigit hd)
      split
      · have hrest := ih (value * 10 + digitValue d) (c := ⟨c.offset + 1, rest⟩) rfl
        exact ⟨fun v next h => hstep.trans (hrest.1 v next h), fun next h => hstep.trans (hrest.2 next h)⟩
      · exact ⟨fun v next h => (nomatch h), fun next h => Except.error.inj h ▸ hstep⟩
    · refine ⟨fun v next h => ?_, fun next h => nomatch h⟩
      obtain ⟨-, rfl⟩ := Prod.mk.inj (Except.ok.inj h)
      exact .refl c

theorem fromDigits_place {negative : Bool} {digits : Nat} {exponent : Int} {c next : Cursor} {n : Number}
    (h : fromDigits negative digits exponent c = .ok (n, next)) : next = c := by
  unfold fromDigits at h
  split at h
  · exact ((Prod.mk.inj (Except.ok.inj h)).2).symm
  · exact ((Prod.mk.inj (Except.ok.inj h)).2).symm
  · cases h

theorem scanExponent_reaches {negative : Bool} {digits : Nat} {exponent : Int} {c next : Cursor} {n : Number}
    (h : scanExponent negative digits exponent c = .ok (n, next)) : c.Reaches next := by
  unfold scanExponent at h
  split at h
  rename_i down d hsign
  have hd : c.Reaches d := by
    split at hsign
    · rename_i rest hahead
      exact (Prod.mk.inj hsign).2 ▸ .narrow hahead (by decide)
    · rename_i rest hahead
      exact (Prod.mk.inj hsign).2 ▸ .narrow hahead (by decide)
    · exact (Prod.mk.inj hsign).2 ▸ .refl c
  split at h
  · cases h
  · split at h
    · cases h
    · split at h
      · rename_i value after hdigits
        rw [fromDigits_place h]
        exact hd.trans ((exponentDigits_reaches _).1 _ _ hdigits)
      · rename_i after hdigits
        split at h
        · cases h
        · obtain ⟨-, rfl⟩ := Prod.mk.inj (Except.ok.inj h)
          exact (hd.trans ((exponentDigits_reaches _).2 _ hdigits)).trans (takeDigits_reaches after)

theorem scanFraction_reaches {negative : Bool} {digits : Nat} {exponent : Int} {c next : Cursor} {n : Number}
    (h : scanFraction negative digits exponent c = .ok (n, next)) : c.Reaches next := by
  have hdigits := takeDigits_reaches c
  unfold scanFraction at h
  dsimp only at h
  split at h
  · cases h
  · split at h
    · rename_i rest hahead
      exact (hdigits.trans (.narrow hahead (by decide))).trans (scanExponent_reaches h)
    · rename_i rest hahead
      exact (hdigits.trans (.narrow hahead (by decide))).trans (scanExponent_reaches h)
    · rw [fromDigits_place h]
      exact hdigits

theorem scanNumber_reaches {negative : Bool} {c next : Cursor} {n : Number}
    (h : scanNumber negative c = .ok (n, next)) : c.Reaches next := by
  have hdigits := takeDigits_reaches c
  unfold scanNumber at h
  dsimp only at h
  split at h
  · split at h <;> cases h
  · cases h
  · split at h
    · rename_i rest hahead
      exact (hdigits.trans (.narrow hahead (by decide))).trans (scanFraction_reaches h)
    · rename_i rest hahead
      exact (hdigits.trans (.narrow hahead (by decide))).trans (scanExponent_reaches h)
    · rename_i rest hahead
      exact (hdigits.trans (.narrow hahead (by decide))).trans (scanExponent_reaches h)
    · split at h
      · obtain ⟨-, rfl⟩ := Prod.mk.inj (Except.ok.inj h)
        exact hdigits
      · rw [fromDigits_place h]
        exact hdigits

theorem scanWord_reaches {word : List Char} (hword : ∀ w ∈ word, w.utf8Size = 1) {c next : Cursor}
    (h : scanWord word c = .ok next) : c.Reaches next := by
  induction word generalizing c with
  | nil => exact Except.ok.inj h ▸ .refl c
  | cons w word ih =>
    rw [List.forall_mem_cons] at hword
    rw [scanWord] at h
    split at h
    · cases h
    · rename_i a rest hahead
      split at h
      · rename_i ha
        exact (Reaches.narrow hahead (ha ▸ hword.1)).trans (ih hword.2 h)
      · cases h

end Json

/-! ## Tables with headers -/

namespace Toml

theorem narrow_of_hexNumber? {cs : List Char} {value : Nat} (h : hexNumber? cs = some value) :
    ∀ c ∈ cs, c.utf8Size = 1 := by
  have folded : ∀ start, cs.foldlM (fun value c => (hexValue? c).map (value * 16 + ·)) start = some value →
      ∀ c ∈ cs, c.utf8Size = 1 := by
    clear h
    induction cs with
    | nil => exact fun _ _ _ hc => absurd hc List.not_mem_nil
    | cons c rest ih =>
      intro start h
      rw [List.foldlM_cons] at h
      obtain ⟨next, hstep, hrest⟩ := Option.bind_eq_some_iff.mp h
      obtain ⟨v, hv, -⟩ := Option.map_eq_some_iff.mp hstep
      exact List.forall_mem_cons.mpr ⟨utf8Size_of_hexValue? hv, ih next hrest⟩
  exact folded 0 h

theorem readCodePoint_reaches {count : Nat} {c next : Cursor} {a : Char}
    (h : readCodePoint count c = some (a, next)) : c.Reaches next := by
  unfold readCodePoint at h
  dsimp only at h
  split at h
  · cases h
  · rename_i hlength
    obtain ⟨value, hvalue, h⟩ := Option.bind_eq_some_iff.mp h
    split at h
    · obtain ⟨-, rfl⟩ := Prod.mk.inj (Option.some.inj h)
      have hcount : (c.ahead.take count).length = count :=
        Nat.le_antisymm (List.length_take_le count c.ahead) (Nat.le_of_not_lt hlength)
      have hrun := Reaches.run _ (List.take_append_drop count c.ahead).symm
        (byteLength_of_narrow (narrow_of_hexNumber? hvalue))
      rwa [hcount] at hrun
    · cases h

theorem readEscape_reaches {c next : Cursor} {a : Char} (h : readEscape c = some (a, next)) : c.Reaches next := by
  unfold readEscape at h
  split at h
  · cases h
  · rename_i e rest hahead
    dsimp only at h
    split at h
    case h_9 | h_10 | h_11 => exact (Reaches.narrow hahead (by decide)).trans (readCodePoint_reaches h)
    case h_12 => cases h
    all_goals
      obtain ⟨-, rfl⟩ := Prod.mk.inj (Option.some.inj h)
      exact Reaches.narrow hahead (by decide)

theorem readLineText_reaches {quote : Char} (hquote : quote.utf8Size = 1) {escapes : Bool} {fuel : Nat}
    {done : List Char} {c next : Cursor} {text : String}
    (h : readLineText quote escapes fuel done c = some (text, next)) : c.Reaches next := by
  induction fuel generalizing done c with
  | zero => cases h
  | succ fuel ih =>
    rw [readLineText] at h
    split at h
    · cases h
    · rename_i a rest hahead
      split at h
      · rename_i ha
        obtain ⟨-, rfl⟩ := Prod.mk.inj (Option.some.inj h)
        exact .narrow hahead (ha ▸ hquote)
      · split at h
        · rename_i hescape
          obtain rfl : a = '\\' := of_decide_eq_true (Bool.and_eq_true_iff.mp hescape).1
          obtain ⟨⟨e, after⟩, hread, h⟩ := Option.bind_eq_some_iff.mp h
          exact ((Reaches.narrow hahead (by decide)).trans (readEscape_reaches hread)).trans (ih h)
        · split at h
          · exact (Reaches.char hahead).trans (ih h)
          · cases h

theorem lineEnd?_reaches {c next : Cursor} (h : lineEnd? c = some next) : c.Reaches next := by
  unfold lineEnd? at h
  split at h
  · rename_i rest hahead
    exact Option.some.inj h ▸ .narrow hahead (by decide)
  · rename_i rest hahead
    exact Option.some.inj h ▸ .run ['\r', '\n'] hahead (by decide)
  · cases h

theorem skipBlanks_reaches (c : Cursor) : c.Reaches (skipBlanks c) := .skip _ c

theorem skipLines_reaches (fuel : Nat) (c : Cursor) : c.Reaches (skipLines fuel c) := by
  induction fuel generalizing c with
  | zero => exact .refl c
  | succ fuel ih =>
    rw [skipLines]
    split
    · rename_i rest hahead
      exact (Reaches.narrow hahead (by decide)).trans (ih _)
    · rename_i rest hahead
      exact (Reaches.narrow hahead (by decide)).trans (ih _)
    · split
      · rename_i after hend
        exact (lineEnd?_reaches hend).trans (ih _)
      · exact .refl c

theorem readLinesText_reaches {quote : Char} (hquote : quote.utf8Size = 1) {escapes : Bool} {fuel : Nat}
    {done : List Char} {c next : Cursor} {text : String}
    (h : readLinesText quote escapes fuel done c = some (text, next)) : c.Reaches next := by
  induction fuel generalizing done c with
  | zero => cases h
  | succ fuel ih =>
    rw [readLinesText] at h
    dsimp only at h
    split at h
    · split at h
      · obtain ⟨-, rfl⟩ := Prod.mk.inj (Option.some.inj h)
        exact Reaches.prefixOf (fun a (ha : decide (a = quote) = true) => of_decide_eq_true ha ▸ hquote) c
      · cases h
    · split at h
      · cases h
      · rename_i rest hahead
        exact (Reaches.narrow hahead (by decide)).trans (ih h)
      · rename_i rest hahead
        exact (Reaches.run ['\r', '\n'] hahead (by decide)).trans (ih h)
      · rename_i a rest _ _ hahead
        have hchar := Reaches.char hahead
        split at h
        · split at h
          case h_5 =>
            obtain ⟨⟨e, after⟩, hread, h⟩ := Option.bind_eq_some_iff.mp h
            exact (hchar.trans (readEscape_reaches hread)).trans (ih h)
          all_goals
            obtain ⟨after, hend, h⟩ := Option.bind_eq_some_iff.mp h
            exact (((hchar.trans (skipBlanks_reaches _)).trans (lineEnd?_reaches hend)).trans
              (skipLines_reaches _ _)).trans (ih h)
        · split at h
          · exact hchar.trans (ih h)
          · cases h

theorem readQuoted_reaches {quote : Char} (hquote : quote.utf8Size = 1) {escapes : Bool} {c next : Cursor}
    {rest : List Char} (hahead : c.ahead = quote :: rest) {text : String}
    (h : readQuoted quote escapes c = some (text, next)) : c.Reaches next := by
  unfold readQuoted at h
  split at h
  · rename_i hquotes
    obtain ⟨more, hmore⟩ := List.takeWhile_prefix (l := c.ahead) (· = quote)
    have htake : c.ahead.take 3 = (c.ahead.takeWhile (· = quote)).take 3 :=
      (congrArg (List.take 3) hmore.symm).trans (List.take_append_of_le_length hquotes)
    have hthree : c.Reaches ⟨c.offset + 3, c.ahead.drop 3⟩ := by
      have hlength : (c.ahead.take 3).length = 3 := by rw [htake, List.length_take_of_le hquotes]
      have hrun := Reaches.run _ (List.take_append_drop 3 c.ahead).symm <| byteLength_of_narrow fun a ha => by
        rw [htake] at ha
        have hall := List.all_eq_true.mp List.all_takeWhile a (List.mem_of_mem_take ha)
        exact of_decide_eq_true hall ▸ hquote
      rwa [hlength] at hrun
    refine hthree.trans (Reaches.trans ?_ (readLinesText_reaches hquote h))
    cases hend : lineEnd? ⟨c.offset + 3, c.ahead.drop 3⟩ with
    | none => exact .refl _
    | some after => exact lineEnd?_reaches hend
  · rw [hahead] at h
    exact (Reaches.narrow hahead hquote).trans (readLineText_reaches hquote h)

/-- The quotes that a text may begin with take one byte. -/
theorem utf8Size_of_quote {a : Char} (h : (decide (a = '"') || decide (a = literalQuote)) = true) : a.utf8Size = 1 := by
  rcases Bool.or_eq_true_iff.mp h with h | h
  · exact of_decide_eq_true h ▸ rfl
  · exact of_decide_eq_true h ▸ rfl

theorem readPart_reaches {c next : Cursor} {k : Key} (h : readPart c = some (k, next)) : c.Reaches next := by
  obtain ⟨first, hfirst, h⟩ := Option.bind_eq_some_iff.mp h
  obtain ⟨rest, hahead⟩ := List.head?_eq_some_iff.mp hfirst
  dsimp only at h
  split at h
  · rename_i hquote
    obtain ⟨⟨name, after⟩, hname, h⟩ := Option.bind_eq_some_iff.mp h
    obtain ⟨-, rfl⟩ := Prod.mk.inj (Option.some.inj h)
    rw [hahead] at hname
    exact (Reaches.narrow hahead (utf8Size_of_quote hquote)).trans
      (readLineText_reaches (utf8Size_of_quote hquote) hname)
  · split at h
    · cases h
    · exact (Prod.mk.inj (Option.some.inj h)).2 ▸ .skip isBare c

theorem skipComment_reaches (c : Cursor) : c.Reaches (skipComment c) := by
  unfold skipComment
  split
  · rename_i rest hahead
    exact (Reaches.narrow hahead (by decide)).trans (.skip isPlain _)
  · exact .refl c

theorem skipFiller_reaches (fuel : Nat) (c : Cursor) : c.Reaches (skipFiller fuel c) := by
  induction fuel generalizing c with
  | zero => exact .refl c
  | succ fuel ih =>
    have hcomment := (skipBlanks_reaches c).trans (skipComment_reaches (skipBlanks c))
    rw [skipFiller]
    split
    · rename_i after hend
      exact (hcomment.trans (lineEnd?_reaches hend)).trans (ih _)
    · exact hcomment

theorem nextPart_reaches (c : Cursor) : c.Reaches (nextPart c) := skipFiller_reaches _ c

theorem readRun_reaches {c next : Cursor} {run : List Char} (h : readRun c = (run, next)) : c.Reaches next := by
  have hrun := Reaches.skip (fun a => !endsRun a) c
  simp only [readRun] at h
  split at h
  · rename_i d rest _ hahead
    split at h
    · exact (Prod.mk.inj h).2 ▸ (hrun.trans (.narrow hahead (by decide))).trans (.skip _ _)
    · exact (Prod.mk.inj h).2 ▸ hrun
  · exact (Prod.mk.inj h).2 ▸ hrun

end Toml

end TypeScribe
