import JustfileServer.Proofs.Navigation.Cursors

/-!
# Words at a client's position

A client's position is at a byte column of a line, which is decoded for it (`Justfile.IsAt`).  On
every line that there is a symbol can be looked for at the position, and one is found just when the
column touches a symbol byte.  The cursor then stands on the whole run of symbol bytes there
(`Justfile.symbolAt_exact`).
-/

namespace JustfileServer

theorem symbolAt_of_lineBytes?_eq_none {j : Justfile} {line : Int}
    (absent : j.lineBytes? line = none) (column : ClientColumn) :
    j.symbolAt (.number line) column = .ok none := by
  rw [Justfile.symbolAt, LineNumber.toInt, absent]
  rfl

namespace Justfile

variable {j : Justfile} {text : Text} {line character : Int} {bytes word : Bytes} {column : Nat}

/-- **A client's position** is at a byte column of a line of these bytes: the column in UTF-16 units
is carried over on the text of the line. -/
structure IsAt (j : Justfile) (line character : Int) (bytes : Bytes) (column : Nat) : Prop where
  found : j.lineBytes? line = some bytes
  carried : ∃ t, bytes = Utf8.encode t ∧ column = Column.utf16ToByte t character

theorem exists_isAt (h : (ofText text).lineBytes? line = some bytes) (character : Int) :
    ∃ column, (ofText text).IsAt line character bytes column := by
  obtain ⟨t, rfl⟩ := exists_text_of_lineBytes? h
  exact ⟨_, h, t, rfl, rfl⟩

namespace IsAt

variable (here : j.IsAt line character bytes column)
include here

theorem unique {bytes' : Bytes} {column' : Nat} (h : j.IsAt line character bytes' column') :
    bytes' = bytes ∧ column' = column := by
  have same := h.found
  rw [here.found, Option.some.injEq] at same
  subst same
  obtain ⟨t, rfl, rfl⟩ := here.carried
  obtain ⟨u, encoded, rfl⟩ := h.carried
  rw [Utf8.encode_injective encoded]
  exact ⟨rfl, rfl⟩

theorem le_length : column ≤ bytes.length := by
  obtain ⟨t, rfl, rfl⟩ := here.carried
  exact Column.utf16ToByte_le_length t character

/-! ## The symbol at a position -/

theorem symbolAt_eq : ∃ t, j.symbolAt (.number line) (.units character)
    = .ok ((Word.bounds? bytes (Word.snap bytes column)).map fun bounds =>
        ⟨.number line, bytes, t, column, bounds.1, bounds.2⟩) := by
  obtain ⟨t, encoded, place⟩ := here.carried
  have decodes : Utf8.decode .codePoints bytes = .ok t := by
    rw [encoded, Utf8.decode_codePoints_encode]
  refine ⟨t, ?_⟩
  rw [symbolAt, LineNumber.toInt, here.found]
  dsimp only
  rw [decodes, ok_bind, ClientColumn.toByte, ← place]
  cases Word.bounds? bytes (Word.snap bytes column) <;> rfl

theorem symbolAt_eq_none (silent : ¬ Word.TouchesSymbol bytes column) :
    j.symbolAt (.number line) (.units character) = .ok none := by
  obtain ⟨t, found⟩ := here.symbolAt_eq
  rw [found, Word.bounds?_snap_eq_none here.le_length silent]
  rfl

/-- Where a column touches a word, the cursor stands on it. -/
theorem exists_isOn {before after : Bytes} (cut : Word.Cut bytes before word after)
    (first : before.length ≤ column) (last : column ≤ before.length + word.length) :
    ∃ c, j.symbolAt (.number line) (.units character) = .ok (some c) ∧ c.bytes = bytes ∧
      c.column = column ∧ c.IsOn before word after := by
  obtain ⟨t, found⟩ := here.symbolAt_eq
  rw [cut.bounds?_snap first last] at found
  exact ⟨_, found, rfl, rfl, cut, rfl, rfl, first, last⟩

end IsAt

/-- Looking for the symbol at a position never fails. -/
theorem exists_symbolAt (text : Text) (line character : Int) :
    ∃ found, (ofText text).symbolAt (.number line) (.units character) = .ok found := by
  cases found : (ofText text).lineBytes? line with
  | none => exact ⟨none, symbolAt_of_lineBytes?_eq_none found _⟩
  | some bytes =>
      obtain ⟨column, here⟩ := exists_isAt found character
      obtain ⟨t, symbol⟩ := here.symbolAt_eq
      exact ⟨_, symbol⟩

/-- **The word at a position is found exactly.**  Looking for it never fails.  Nothing is found just
when there is no such line, or neither the byte at the column nor the one before it is a symbol byte.
Otherwise the cursor has the bounds of the run of symbol bytes that the column touches, and its word
is the ASCII text of these bytes.  On no column of a line it matters to the bounds that the cursor
is first moved onto the word. -/
theorem symbolAt_exact (text : Text) (line character : Int) :
    (∃ found, (ofText text).symbolAt (.number line) (.units character) = .ok found ∧
      (found = none ↔ (ofText text).lineBytes? line = none ∨
        ∃ bytes column, (ofText text).IsAt line character bytes column ∧
          ¬ Word.TouchesSymbol bytes column) ∧
      ∀ c, found = some c → c.line = .number line ∧
        (ofText text).IsAt line character c.bytes c.column ∧
        Word.Marks c.bytes c.column c.start c.stop ∧ (∀ p ∈ c.word, p.val < 0x80) ∧
        Utf8.encode c.word = (c.bytes.drop c.start).take (c.stop - c.start)) ∧
    ∀ (bytes : Bytes) (column : Nat), column ≤ bytes.length →
      Word.bounds? bytes (Word.snap bytes column) = Word.bounds? bytes column := by
  refine ⟨?_, fun bytes column onLine => Word.bounds?_snap onLine⟩
  cases found : (ofText text).lineBytes? line with
  | none =>
      refine ⟨none, symbolAt_of_lineBytes?_eq_none found _, iff_of_true rfl (.inl rfl), ?_⟩
      intro c other
      cases other
  | some bytes =>
      obtain ⟨column, here⟩ := exists_isAt found character
      by_cases touches : Word.TouchesSymbol bytes column
      · obtain ⟨word, before, after, cut, first, last⟩ := Word.touchesSymbol_iff_exists.1 touches
        obtain ⟨c, pointed, rfl, rfl, on⟩ := here.exists_isOn cut first last
        refine ⟨some c, pointed, iff_of_false (Option.some_ne_none c) ?_, ?_⟩
        · rintro (absent | ⟨bytes, column, there, silent⟩)
          · cases absent
          · obtain ⟨rfl, rfl⟩ := here.unique there
            exact silent touches
        · rintro c' same
          obtain rfl := Option.some.inj same
          refine ⟨(parts_of_symbolAt pointed).1, here, ?_, ?_, ?_⟩
          · rw [on.start, on.stop]
            exact cut.marks first last
          · exact on.ascii_word
          · rw [on.take_drop_eq, on.encode_word]
      · refine ⟨none, here.symbolAt_eq_none touches,
          iff_of_true rfl (.inr ⟨bytes, column, here, touches⟩), ?_⟩
        intro c other
        cases other

end Justfile

end JustfileServer
