import JustfileServer.Proofs.Justfile.Index
import JustfileServer.Proofs.Justfile.LineTexts
import JustfileServer.Proofs.Navigation.Scopes

/-!
# Cursors stand on words

A cursor is found where a position touches a word, so it stands on that word
(`Justfile.exists_isOn`).  All that is asked of it later on is settled by the word: its text, its
scope and the definitions that it can refer to do not depend on where on the word it stands
(`Justfile.eq_of_same_word`).
-/

namespace JustfileServer

/-- **A cursor stands on a word** of its line: on one of the bytes of the word, or just behind the
last of them. -/
structure Cursor.IsOn (c : Cursor) (before word after : Bytes) : Prop where
  cut : Word.Cut c.bytes before word after
  start : c.start = before.length
  stop : c.stop = before.length + word.length
  first : before.length ≤ c.column
  last : c.column ≤ before.length + word.length

namespace Cursor.IsOn

variable {c : Cursor} {before word after : Bytes} (h : c.IsOn before word after)
include h

/-- The bytes between the bounds are those of the word. -/
theorem take_drop_eq : (c.bytes.drop c.start).take (c.stop - c.start) = word := by
  rw [h.cut.eq, h.start, h.stop, List.append_assoc, List.drop_left, Nat.add_sub_cancel_left,
    List.take_left]

theorem word_eq : c.word = word.map CodePoint.ofByte := by
  rw [Cursor.word, h.take_drop_eq]

theorem ascii_word : ∀ p ∈ c.word, p.val < 0x80 := by
  intro p hp
  rw [h.word_eq] at hp
  obtain ⟨b, hb, rfl⟩ := List.mem_map.1 hp
  rw [CodePoint.val_ofByte]
  exact h.cut.ascii b hb

/-- The word is spelled by its bytes. -/
theorem encode_word : Utf8.encode c.word = word := by
  rw [h.word_eq, Utf8.encode_map_ofByte h.cut.ascii]

/-- The scope of a cursor is that of the first byte of its word. -/
theorem scope_eq : c.scope = Scope.atColumn c.bytes c.start := by
  rw [Cursor.scope, h.cut.atColumn_eq h.first h.last, h.start]

/-- The word is resolved to the definitions of its bytes that the scope admits. -/
theorem resolve_eq (j : Justfile) :
    c.scope.resolve (.ofJustfile j) c.word = j.admitted word c.scope := by
  rw [h.word_eq]
  exact Justfile.resolve_ofJustfile h.cut.filled h.cut.ascii _

end Cursor.IsOn

/-- A client's column falls on the line. -/
theorem ClientColumn.toByte_le_length (text : Text) (column : ClientColumn) :
    column.toByte text ≤ (Utf8.encode text).length := by
  cases column with
  | units n => exact Column.utf16ToByte_le_length text n
  | lineEnd => rw [toByte, Column.length_encode]

namespace Justfile

variable {text : Text} {number : LineNumber} {column column' : ClientColumn} {c c' : Cursor}

/-- A cursor that is found has the line that was asked for, and the bounds of the word that its
column touches. -/
theorem parts_of_symbolAt (h : (ofText text).symbolAt number column = .ok (some c)) :
    c.line = number ∧ (ofText text).lineBytes? number.toInt = some c.bytes ∧
      c.bytes = Utf8.encode c.text ∧ c.column = column.toByte c.text ∧
      Word.bounds? c.bytes (Word.snap c.bytes c.column) = some (c.start, c.stop) := by
  rw [symbolAt] at h
  cases found : (ofText text).lineBytes? number.toInt with
  | none => rw [found] at h; cases h
  | some bytes =>
      obtain ⟨t, rfl⟩ := exists_text_of_lineBytes? found
      rw [found] at h
      dsimp only at h
      rw [Utf8.decode_codePoints_encode, ok_bind] at h
      split at h
      · cases h
      · rename_i bounds
        cases h
        exact ⟨rfl, rfl, rfl, rfl, bounds⟩

/-- **Every cursor stands on a word.** -/
theorem exists_isOn (h : (ofText text).symbolAt number column = .ok (some c)) :
    ∃ before word after, c.IsOn before word after := by
  obtain ⟨-, -, encoded, place, bounds⟩ := parts_of_symbolAt h
  have onLine : c.column ≤ c.bytes.length := by
    rw [place, encoded]
    exact column.toByte_le_length c.text
  have touches : Word.TouchesSymbol c.bytes c.column := by
    by_contra silent
    rw [Word.bounds?_snap_eq_none onLine silent] at bounds
    cases bounds
  obtain ⟨word, before, after, cut, first, last⟩ := Word.touchesSymbol_iff_exists.1 touches
  rw [cut.bounds?_snap first last, Option.some.injEq, Prod.mk.injEq] at bounds
  exact ⟨before, word, after, cut, bounds.1.symm, bounds.2.symm, first, last⟩

/-- **Cursors on the same word of a line** agree in all but the column: in the word, in its scope
and in the stretch that it takes up. -/
theorem eq_of_same_word (h : (ofText text).symbolAt number column = .ok (some c))
    (h' : (ofText text).symbolAt number column' = .ok (some c'))
    (start : c.start = c'.start) (stop : c.stop = c'.stop) :
    c.word = c'.word ∧ c.scope = c'.scope ∧ c.range = c'.range := by
  obtain ⟨line, found, encoded, -⟩ := parts_of_symbolAt h
  obtain ⟨line', found', encoded', -⟩ := parts_of_symbolAt h'
  obtain ⟨_, _, _, on⟩ := exists_isOn h
  obtain ⟨_, _, _, on'⟩ := exists_isOn h'
  have bytes : c.bytes = c'.bytes := by
    rw [found, Option.some.injEq] at found'
    exact found'
  have text : c.text = c'.text := by
    apply Utf8.encode_injective
    rw [← encoded, ← encoded', bytes]
  refine ⟨?_, ?_, ?_⟩
  · rw [Cursor.word, Cursor.word, bytes, start, stop]
  · rw [on.scope_eq, on'.scope_eq, bytes, start]
  · rw [Cursor.range, Cursor.range, line, line', text, start, stop]

end Justfile

end JustfileServer
