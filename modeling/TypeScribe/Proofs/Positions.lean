import TypeScribe.Document.Error
import TypeScribe.Proofs.WrittenLines

/-!
# Positions in a text

A reader that has taken some bytes of a text tells where it is as a line and a column, counted over the bytes that
it has taken: one line more than the line feeds among them, and as many columns as bytes after the last of these.
The byte that is looked up for such a position is the last one taken, unless this is a line feed or there is none:
then it is the next one. The bytes taken may end within a character, or within the line end of a carriage return
and a line feed.

* `positionFrom_bytes`: the position after some bytes is the one counted over them.
* `byteLength_lines_taken`: the lines that are finished and the column make up the bytes taken.
* `byteAt_behind`: which byte the position of a reader points at.
* `Source.spanAt_behind`: what a failure there is labelled with.
-/

namespace TypeScribe

/-- The byte of a line feed. -/
def newlineByte : UInt8 := 10

/-- The bytes of some characters in UTF-8. -/
def bytesOf (cs : List Char) : List UInt8 := cs.flatMap String.utf8EncodeChar

/-- The bytes of a text. -/
def textBytes (text : String) : List UInt8 := text.toUTF8.data.toList

/-- The position of a reader that has taken some bytes: a line for every line feed among them after the first line,
and a column for every byte after the last line feed. -/
def Position.behind (taken : List UInt8) : Position where
  line := 1 + taken.count newlineByte
  column := (taken.reverse.takeWhile (· != newlineByte)).length

/-! ## Bytes and characters -/

theorem textBytes_eq (text : String) : textBytes text = bytesOf text.toList := by
  rw [textBytes, String.toUTF8, ← String.utf8Encode_toList, List.utf8Encode, List.toList_data_toByteArray, bytesOf]

theorem bytesOf_cons (c : Char) (cs : List Char) : bytesOf (c :: cs) = String.utf8EncodeChar c ++ bytesOf cs := by
  rw [bytesOf, List.flatMap_cons, ← bytesOf]

theorem bytesOf_append (cs ds : List Char) : bytesOf (cs ++ ds) = bytesOf cs ++ bytesOf ds := by
  rw [bytesOf, List.flatMap_append, ← bytesOf, ← bytesOf]

theorem bytesOf_newline (cs : List Char) : bytesOf ('\n' :: cs) = newlineByte :: bytesOf cs := by
  rw [bytesOf_cons]; rfl

theorem length_bytesOf (cs : List Char) : (bytesOf cs).length = byteLength cs := by
  induction cs with
  | nil => rfl
  | cons c cs ih => rw [bytesOf_cons, List.length_append, ih, String.length_utf8EncodeChar, byteLength_cons]

theorem length_textBytes (text : String) : (textBytes text).length = text.utf8ByteSize := by
  rw [textBytes, Array.length_toList]; rfl

/-- No byte of a character but the line feed is the byte of a line feed. -/
theorem newlineByte_not_mem_char {c : Char} (h : c ≠ '\n') : newlineByte ∉ String.utf8EncodeChar c := by
  have hval : c.val.toNat ≠ 10 := fun hn => h (Char.ext (UInt32.toNat_inj.mp hn))
  have hbyte : ∀ n : Nat, n < 256 → n ≠ 10 → newlineByte ≠ UInt8.ofNat n := by
    intro n hlt hne heq
    have hn := congrArg UInt8.toNat heq
    rw [UInt8.toNat_ofNat', Nat.mod_eq_of_lt hlt] at hn
    exact hne hn.symm
  simp only [String.utf8EncodeChar]
  split
  · rename_i hlow
    simpa using hbyte _ (by omega) hval
  · split
    · simp only [List.mem_cons, List.not_mem_nil, or_false, not_or]
      exact ⟨hbyte _ (by omega) (by omega), hbyte _ (by omega) (by omega)⟩
    · split
      · simp only [List.mem_cons, List.not_mem_nil, or_false, not_or]
        exact ⟨hbyte _ (by omega) (by omega), hbyte _ (by omega) (by omega), hbyte _ (by omega) (by omega)⟩
      · simp only [List.mem_cons, List.not_mem_nil, or_false, not_or]
        exact ⟨hbyte _ (by omega) (by omega), hbyte _ (by omega) (by omega), hbyte _ (by omega) (by omega),
          hbyte _ (by omega) (by omega)⟩

theorem newlineByte_not_mem {cs : List Char} (h : '\n' ∉ cs) : newlineByte ∉ bytesOf cs := by
  intro hmem
  obtain ⟨c, hc, hbyte⟩ := List.mem_flatMap.mp hmem
  have hne : c ≠ '\n' := fun hn => h (hn ▸ hc)
  exact newlineByte_not_mem_char hne hbyte

/-! ## Positions counted over bytes -/

namespace Position

theorem behind_nil : behind [] = ⟨1, 0⟩ := rfl

/-- Bytes of the line that is being read move the column. -/
theorem behind_append {more : List UInt8} (taken : List UInt8) (h : newlineByte ∉ more) :
    behind (taken ++ more) = ⟨(behind taken).line, (behind taken).column + more.length⟩ := by
  have hkeep : ∀ b ∈ more.reverse, (b != newlineByte) = true := by
    intro b hb
    exact bne_iff_ne.mpr fun hn => h (hn ▸ List.mem_reverse.mp hb)
  have hcount : more.count newlineByte = 0 := List.count_eq_zero.mpr h
  simp only [behind, List.count_append, hcount, Nat.add_zero, List.reverse_append,
    List.takeWhile_append_of_pos hkeep, List.length_append, List.length_reverse, Nat.add_comm more.length]

/-- A line feed begins a line, in which the bytes before it do not count. -/
theorem behind_append_newline (taken rest : List UInt8) :
    behind (taken ++ newlineByte :: rest) = ⟨(behind taken).line + (behind rest).line, (behind rest).column⟩ := by
  have hlines : 1 + (taken ++ newlineByte :: rest).count newlineByte =
      1 + taken.count newlineByte + (1 + rest.count newlineByte) := by
    rw [List.count_append, List.count_cons_self]
    omega
  have hcolumn : (taken ++ newlineByte :: rest).reverse.takeWhile (· != newlineByte) =
      rest.reverse.takeWhile (· != newlineByte) := by
    rw [List.reverse_append, List.reverse_cons, List.append_assoc, List.takeWhile_append]
    split
    · rw [List.singleton_append, List.takeWhile_cons_of_neg (by simp), List.append_nil]
      rename_i hall
      exact (List.takeWhile_prefix _).eq_of_length hall |>.symm
    · rfl
  simp only [behind, hlines, hcolumn]

/-- The column is zero exactly when no byte was taken or the last one is a line feed. -/
theorem column_behind_eq_zero_iff (taken : List UInt8) :
    (behind taken).column = 0 ↔ taken = [] ∨ taken.getLast? = some newlineByte := by
  rcases List.eq_nil_or_concat taken with rfl | ⟨init, last, rfl⟩
  · simp [behind]
  · rw [List.concat_eq_append]
    by_cases hlast : last = newlineByte
    · simp [behind, hlast]
    · simp [behind, hlast]

/-- The column of a reader that has taken some bytes of a text is zero unless the last of them is another byte than
that of a line feed. -/
theorem column_behind_take {bytes : List UInt8} {i : Nat} (h : i ≤ bytes.length) :
    (behind (bytes.take i)).column = 0 ↔ ¬ (0 < i ∧ bytes[i - 1]? ≠ some newlineByte) := by
  rw [column_behind_eq_zero_iff, List.take_eq_nil_iff, List.getLast?_take]
  by_cases hi : i = 0
  · simp [hi]
  · have hlt : i - 1 < bytes.length := by omega
    have hne : bytes ≠ [] := List.ne_nil_of_length_pos (by omega)
    simp [hi, hne, Nat.pos_of_ne_zero hi, List.getElem?_eq_getElem hlt]

end Position

/-- A position that has been reached is not looked for any further. -/
theorem positionFrom_of_le {target offset : Nat} (line start : Nat) (h : target ≤ offset) (cs : List Char) :
    positionFrom target line start offset cs = ⟨line, target - start⟩ := by
  cases cs with
  | nil => rfl
  | cons c rest => rw [positionFrom, if_pos h]

/-- The position after a number of bytes, from one that is reached, is the one that is counted over the bytes. -/
theorem positionFrom_bytes {target : Nat} (start : Nat) (cs : List Char) (taken : List UInt8)
    (hstart : start + (Position.behind taken).column = taken.length) (hlow : taken.length ≤ target)
    (hhigh : target ≤ taken.length + byteLength cs) :
    positionFrom target (Position.behind taken).line start taken.length cs =
      .behind (taken ++ (bytesOf cs).take (target - taken.length)) := by
  induction cs generalizing taken start with
  | nil =>
    have htarget : target = taken.length := by rw [byteLength_nil] at hhigh; omega
    rw [positionFrom_of_le _ _ (Nat.le_of_eq htarget), htarget, Nat.sub_self, List.take_zero, List.append_nil]
    rw [show taken.length - start = (Position.behind taken).column by omega]
  | cons c rest ih =>
    rw [byteLength_cons] at hhigh
    by_cases hreached : target ≤ taken.length
    · have htarget : target = taken.length := Nat.le_antisymm hreached hlow
      rw [positionFrom_of_le _ _ hreached, htarget, Nat.sub_self, List.take_zero, List.append_nil]
      rw [show taken.length - start = (Position.behind taken).column by omega]
    · rw [positionFrom, if_neg hreached]
      by_cases hc : c = '\n'
      · subst hc
        have hnext := Position.behind_append_newline taken []
        have hsize : '\n'.utf8Size = 1 := rfl
        have hlength : (taken ++ [newlineByte]).length = taken.length + 1 := List.length_append
        have hih := ih (taken.length + 1) (taken ++ [newlineByte])
          (by rw [hnext, hlength]; rfl) (by omega) (by omega)
        rw [hnext, hlength] at hih
        obtain ⟨more, hmore⟩ : ∃ more, target - taken.length = more + 1 := ⟨target - taken.length - 1, by omega⟩
        rw [if_pos rfl, bytesOf_newline, hmore, List.take_succ_cons]
        rw [show target - (taken.length + 1) = more by omega, List.append_assoc] at hih
        exact hih
      · rw [if_neg hc, bytesOf_cons]
        have hfree := newlineByte_not_mem_char hc
        have hsize := String.length_utf8EncodeChar c
        by_cases hwithin : target ≤ taken.length + c.utf8Size
        · -- The position is in the character or at its end.
          have htake : newlineByte ∉ (String.utf8EncodeChar c).take (target - taken.length) :=
            fun hmem => hfree (List.mem_of_mem_take hmem)
          rw [positionFrom_of_le _ _ hwithin, List.take_append_of_le_length (by omega),
            Position.behind_append taken htake, List.length_take]
          rw [show target - start = (Position.behind taken).column +
            min (target - taken.length) (String.utf8EncodeChar c).length by omega]
        · have hnext := Position.behind_append taken hfree
          have hlength : (taken ++ String.utf8EncodeChar c).length = taken.length + c.utf8Size := by
            rw [List.length_append, hsize]
          have hih := ih start (taken ++ String.utf8EncodeChar c)
            (by rw [hnext, hlength, hsize]; show start + (_ + _) = _; omega) (by omega) (by omega)
          rw [hnext, hlength, List.append_assoc] at hih
          rw [List.take_append, List.take_of_length_le (by omega), hsize]
          rw [show target - taken.length - c.utf8Size = target - (taken.length + c.utf8Size) by omega]
          exact hih

theorem positionAfter_eq_behind (text : String) {i : Nat} (h : i ≤ text.utf8ByteSize) :
    positionAfter text.toList i = .behind ((textBytes text).take i) := by
  rw [← length_textBytes, textBytes_eq, length_bytesOf] at h
  rw [textBytes_eq]
  exact positionFrom_bytes 0 text.toList [] rfl (Nat.zero_le i) (by simpa using h)

/-! ## Bytes at positions -/

/-- As long as no line feed was taken, the column is all that was taken. -/
theorem behind_first_line {line : List Char} (h : '\n' ∉ line) (rest : List UInt8) {i : Nat}
    (hi : i ≤ byteLength line) : Position.behind ((bytesOf line ++ rest).take i) = ⟨1, i⟩ := by
  rw [← length_bytesOf] at hi
  have hfree : newlineByte ∉ (bytesOf line).take i :=
    fun hmem => newlineByte_not_mem h (List.mem_of_mem_take hmem)
  have hcolumn := Position.behind_append [] hfree
  rw [List.nil_append, List.length_take, Nat.min_eq_left hi] at hcolumn
  rw [List.take_append_of_le_length hi, hcolumn, Position.behind_nil, Nat.zero_add]

/-- The lines that are finished and the column make up the bytes that were taken. -/
theorem byteLength_lines_taken (cs : List Char) {i : Nat} (h : i ≤ byteLength cs) :
    byteLength ((pieces cs).take ((Position.behind ((bytesOf cs).take i)).line - 1)).flatten +
      (Position.behind ((bytesOf cs).take i)).column = i := by
  induction cs using lines_induction generalizing i with
  | last line hline =>
    have hfirst := behind_first_line hline [] h
    rw [List.append_nil] at hfirst
    rw [hfirst]
    exact Nat.zero_add i
  | step line rest hline ih =>
    rw [byteLength_append, byteLength_cons, show '\n'.utf8Size = 1 from rfl] at h
    rw [bytesOf_append, bytesOf_newline]
    by_cases hwithin : i ≤ byteLength line
    · rw [behind_first_line hline _ hwithin]
      exact Nat.zero_add i
    · obtain ⟨more, hmore⟩ : ∃ more, i = byteLength line + (more + 1) := ⟨i - byteLength line - 1, by omega⟩
      have htake : (bytesOf line ++ newlineByte :: bytesOf rest).take i =
          bytesOf line ++ newlineByte :: (bytesOf rest).take more := by
        rw [hmore, ← length_bytesOf, List.take_length_add_append, List.take_succ_cons]
      have hline' := behind_first_line hline [] (Nat.le_refl _)
      rw [List.append_nil, ← length_bytesOf, List.take_length] at hline'
      have hrest := ih (i := more) (by omega)
      rw [htake, Position.behind_append_newline, hline', pieces_line hline]
      -- One more line is finished, and the column is that of the rest.
      rw [show 1 + (Position.behind ((bytesOf rest).take more)).line - 1 =
        (Position.behind ((bytesOf rest).take more)).line - 1 + 1 by simp only [Position.behind]; omega]
      rw [List.take_succ_cons, List.flatten_cons, byteLength_append, byteLength_append, byteLength_cons,
        byteLength_nil, show '\n'.utf8Size = 1 from rfl]
      show _ + (Position.behind ((bytesOf rest).take more)).column = i
      omega

/-- The byte for the position of a reader is the last one taken, or, if this is a line feed or none was taken, the next
one if there is one. -/
theorem byteAt_behind (text : String) {i : Nat} (h : i ≤ text.utf8ByteSize) :
    byteAt text (.behind ((textBytes text).take i)) =
      if 0 < i ∧ (textBytes text)[i - 1]? ≠ some newlineByte then some (i - 1)
      else if i < text.utf8ByteSize then some i else none := by
  have hlength : i ≤ (textBytes text).length := by rwa [length_textBytes]
  have hlines := byteLength_lines_taken text.toList (i := i) (by rwa [← length_bytesOf, ← textBytes_eq])
  have hcolumn := Position.column_behind_take hlength
  rw [← textBytes_eq] at hlines
  have hline : (Position.behind ((textBytes text).take i)).line ≠ 0 := by
    show 1 + _ ≠ 0
    omega
  generalize Position.behind ((textBytes text).take i) = reached at *
  rw [byteAt, if_neg hline]
  dsimp only
  by_cases hlast : 0 < i ∧ (textBytes text)[i - 1]? ≠ some newlineByte
  · have hpos : reached.column ≠ 0 := mt hcolumn.mp (not_not_intro hlast)
    have hbyte : byteLength ((pieces text.toList).take (reached.line - 1)).flatten + (reached.column - 1) = i - 1 := by
      omega
    rw [if_pos hlast, hbyte, if_pos (by omega)]
  · have hzero : reached.column = 0 := hcolumn.mpr hlast
    have hbyte : byteLength ((pieces text.toList).take (reached.line - 1)).flatten + (reached.column - 1) = i := by
      omega
    rw [if_neg hlast, hbyte]

/-- A byte that is looked up lies in the text. -/
theorem byteAt_lt {text : String} {p : Position} {byte : Nat} (h : byteAt text p = some byte) :
    byte < text.utf8ByteSize := by
  unfold byteAt at h
  split at h
  · cases h
  · dsimp only at h
    split at h
    · rename_i hlt
      exact Option.some.inj h ▸ hlt
    · cases h

/-- For every number of bytes of a text, the position of a reader that has taken them has a line for each line feed
among them and a column for each byte after the last one, and points at the last byte taken, or, if this is a line
feed or none was taken, at the next byte if there is one. This is the one byte that the label of a failure there
covers. And whatever the position, a label lies in the text. -/
theorem Source.spanAt_behind (source : Source) (i : Nat) (h : i ≤ source.text.utf8ByteSize) :
    let reached := Position.behind ((textBytes source.text).take i)
    positionAfter source.text.toList i = reached ∧
      byteAt source.text reached =
        (if 0 < i ∧ (textBytes source.text)[i - 1]? ≠ some newlineByte then some (i - 1)
          else if i < source.text.utf8ByteSize then some i else none) ∧
      (∀ category message, (DocumentError.malformedJson source ⟨category, message, i⟩).labels =
        some ((byteAt source.text reached).toList.map fun byte => ⟨⟨byte, byte + 1⟩, DocumentError.parseNote⟩)) ∧
      ∀ position span, source.spanAt position = some span →
        span.start < span.stop ∧ span.stop ≤ source.text.utf8ByteSize := by
  intro reached
  have hposition : positionAfter source.text.toList i = reached := positionAfter_eq_behind source.text h
  refine ⟨hposition, byteAt_behind source.text h, fun category message => ?_, fun position span hspan => ?_⟩
  · rw [DocumentError.labels, Source.stoppedAt, hposition, Source.spanAt, Option.toList_map, List.map_map]
    rfl
  · rw [Source.spanAt, Option.map_eq_some_iff] at hspan
    obtain ⟨byte, hbyte, rfl⟩ := hspan
    exact ⟨Nat.lt_succ_self byte, byteAt_lt hbyte⟩

/-- A reader that has taken a letter of two bytes, a line end of two bytes and the first byte of the next letter. -/
theorem Source.spanAt_behind_within_letter :
    let source : Source := ⟨"tsgen.json", "\u00e9\r\n\u00e9"⟩
    5 ≤ source.text.utf8ByteSize ∧ positionAfter source.text.toList 5 = ⟨2, 1⟩ ∧
      byteAt source.text ⟨2, 1⟩ = some 4 := by
  intro source
  obtain ⟨hposition, hbyte, -, -⟩ := spanAt_behind source 5 (by decide)
  have hreached : Position.behind ((textBytes source.text).take 5) = ⟨2, 1⟩ := by decide
  rw [hreached] at hposition hbyte
  exact ⟨by decide, hposition, hbyte.trans (by decide)⟩

end TypeScribe
