import JustfileServer.Proofs.Justfile.Mentions
import JustfileServer.Proofs.Text.Columns
import JustfileServer.Proofs.Navigation.Cursors
import JustfileServer.Proofs.Navigation.LineEnds

/-!
# Texts whose lines are padded

When the lines of a text are padded with white space its definitions stay alike, so under each word
there are as many of them as before (`Justfile.forall₂_admitted`), and at the same places
(`Definition.IsAlike.isPlaceOf`).  A cursor on a word stands on the same word with the same scope and
the same range (`Cursor.IsOn.eq_of_isPadded`).
-/

namespace JustfileServer

/-- The first definition in the one text is alike the second one in the other text. -/
abbrev Text.DefineAlike (text padded : Text) (d e : Definition) : Prop :=
  Definition.IsAlike (linesOf (Utf8.encode text)) (linesOf (Utf8.encode padded)) d e

variable {text padded : Text} {d e : Definition} {word tail : Bytes}

/-- White space behind a line is text behind it. -/
theorem IsBlank.encode_append (blank : IsBlank tail) (t : Text) :
    Utf8.encode (t ++ tail.map CodePoint.ofByte) = Utf8.encode t ++ tail := by
  rw [Utf8.encode_append, Utf8.encode_map_ofByte fun b hb => lt_of_isBlank (blank b hb)]

/-- Up to the end of a line a byte column does not depend on what comes behind the line. -/
theorem Column.byteToUtf16_append {t : Text} {column : Int}
    (inside : column ≤ (Utf8.encode t).length) (rest : Text) :
    byteToUtf16 (t ++ rest) column = byteToUtf16 t column := by
  rw [length_encode] at inside
  exact carry_append inside rest

/-! ## Definitions -/

namespace Definition.IsAlike

variable (alike : text.DefineAlike padded d e)
include alike

/-- Definitions that are alike have the same bytes for names. -/
theorem bytes_eq : e.name.bytes (Justfile.ofText padded).data
    = d.name.bytes (Justfile.ofText text).data := by
  obtain ⟨line, hl, line', hl', -, before, name, named, named'⟩ := alike.named
  exact (named'.bytes_eq hl').trans (named.bytes_eq hl).symm

/-- **Definitions that are alike have the same place.** -/
theorem isPlaceOf {range : Range} (place : (Justfile.ofText text).IsPlaceOf d range) :
    (Justfile.ofText padded).IsPlaceOf e range := by
  obtain ⟨line, hl, line', hl', pad, before, name, named, named'⟩ := alike.named
  have number : e.line = d.line := by rw [named'.number, named.number, pad.number]
  have column : e.column = d.column := by rw [named'.column, named.column]
  have length : e.name.last - e.name.first + 1 = d.name.last - d.name.first + 1 := by
    rw [named'.span, named.span]
    simp only [Span.ofLength]
    omega
  have found : (Justfile.ofText text).lineBytes? d.line = some line.bytes := by
    rw [named.number]
    exact (Justfile.isLine_iff.2 hl).bytes
  have found' : (Justfile.ofText padded).lineBytes? d.line = some line'.bytes := by
    rw [← number, named'.number]
    exact (Justfile.isLine_iff.2 hl').bytes
  obtain ⟨t, encoded⟩ := Justfile.exists_text_of_lineBytes? found
  obtain ⟨tail, blank, bytes⟩ := pad.bytes
  rw [encoded, ← blank.encode_append] at bytes
  -- the name ends on the line as it was before
  have inside : d.column + (d.name.last - d.name.first + 1) ≤ ((Utf8.encode t).length : Int) := by
    obtain ⟨after, rest, -, whole⟩ := named.exists_eq
    rw [← encoded, whole, named.column, named.span]
    simp only [Span.ofLength, List.length_append, List.length_cons]
    omega
  have filled : 0 < d.name.last - d.name.first + 1 := by
    have positive := List.length_pos_iff.2 named.filled
    rw [named.span]
    simp only [Span.ofLength]
    omega
  refine ⟨?_, by rw [number, place.start], by rw [number, place.stop]⟩
  have ranged := place.eq
  rw [Justfile.definitionRange, found, Option.getD_some, encoded, Utf8.decode_codePoints_encode,
    ok_bind] at ranged
  rw [Justfile.definitionRange, number, found', Option.getD_some, bytes,
    Utf8.decode_codePoints_encode, ok_bind, column, length]
  dsimp only
  rw [Column.byteToUtf16_append (by omega), Column.byteToUtf16_append inside]
  exact ranged

end Definition.IsAlike

namespace Justfile

variable (pads : text.IsPadded padded)
include pads

theorem forall₂_named (kind : DefinitionKind) (word : Bytes) :
    List.Forall₂ (text.DefineAlike padded) ((ofText text).named kind word)
      ((ofText padded).named kind word) := by
  refine List.rel_filter (fun d e alike => ?_) (Outline.forall₂_definitions pads)
  dsimp only
  rw [decide_eq_true_iff, decide_eq_true_iff, alike.kind, alike.bytes_eq]

/-- **A word has as many definitions as before**, in the same order, each like the one before. -/
theorem forall₂_admitted (word : Bytes) (scope : Scope) :
    List.Forall₂ (text.DefineAlike padded) ((ofText text).admitted word scope)
      ((ofText padded).admitted word scope) := by
  match scope with
  | .variables => exact forall₂_named pads .assignment word
  | .recipes => exact forall₂_named pads .recipe word
  | .any =>
      have recipes := forall₂_named pads .recipe word
      have none : (ofText text).named .recipe word = [] ↔
          (ofText padded).named .recipe word = [] := by
        rw [← List.length_eq_zero_iff, recipes.length_eq, List.length_eq_zero_iff]
      rw [admitted, admitted]
      simp only [none]
      split
      · exact forall₂_named pads .assignment word
      · exact recipes

end Justfile

/-! ## Cursors -/

/-- **A cursor on a padded line** has the word, the scope and the range of a cursor at the same
column of the line as it was before. -/
theorem Cursor.IsOn.eq_of_isPadded {c c' : Cursor} {before after : Bytes}
    (on : c.IsOn before word after) (on' : c'.IsOn before word (after ++ tail))
    (blank : IsBlank tail) (line : c'.line = c.line) (column : c'.column = c.column)
    (encoded : c.bytes = Utf8.encode c.text) (encoded' : c'.bytes = Utf8.encode c'.text) :
    c'.word = c.word ∧ c'.scope = c.scope ∧ c'.range = c.range := by
  have bytes : c'.bytes = c.bytes ++ tail := by
    rw [on'.cut.eq, on.cut.eq, List.append_assoc, List.append_assoc, List.append_assoc]
  have onLine : c.start ≤ c.bytes.length ∧ c.stop ≤ c.bytes.length := by
    rw [on.cut.eq, on.start, on.stop, List.length_append, List.length_append]
    omega
  have text : c'.text = c.text ++ tail.map CodePoint.ofByte := by
    apply Utf8.encode_injective
    rw [← encoded', bytes, encoded, blank.encode_append]
  have start : c'.start = c.start := on'.start.trans on.start.symm
  have stop : c'.stop = c.stop := on'.stop.trans on.stop.symm
  refine ⟨?_, ?_, ?_⟩
  · rw [on'.word_eq, on.word_eq]
  · have inside : c.column ≤ c.bytes.length := by
      have last := on.last
      rw [← on.stop] at last
      omega
    rw [Cursor.scope, Cursor.scope, bytes, column, Scope.atColumn_append blank inside]
  · rw [encoded] at onLine
    rw [Cursor.range, Cursor.range, line, text, start, stop,
      Column.byteToUtf16_append (by omega), Column.byteToUtf16_append (by omega)]

end JustfileServer
