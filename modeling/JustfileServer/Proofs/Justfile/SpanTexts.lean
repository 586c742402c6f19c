import JustfileServer.Proofs.Justfile.Dependencies

/-!
# The texts of spans

A justfile is cut at newlines, colons and white space only.  So every span that a line has is set
off on it by ASCII bytes (`LineForm.exists_setsOff`): a name or a dependency by white space or the
colon, a value by the equals sign in front of it, and a command is the whole line.  ASCII bytes are
not part of longer code points, so a span begins and ends between two code points of the text and
covers a piece of it, which is read back from the bytes (`Justfile.spans_read_back`).
-/

namespace JustfileServer

/-- **A boundary of a text** lies between two of its code points, or at an end: what stands before
it has so many bytes. -/
def Utf8.IsBoundary (text : Text) (offset : Int) : Prop :=
  ∃ before after, text = before ++ after ∧ offset = (encode before).length

/-! ## Spans of lines -/

namespace LineForm

variable {line : Line} {d : Definition} {s : Span}

/-- A command is the whole line. -/
theorem setsOff_of_command (h : ofLine line = .command s) :
    line.SetsOff s [] line.bytes [] where
  eq := by simp
  filled := by
    obtain rfl := eq_span_of_command h
    exact bytes_ne_nil_of_command h
  span := eq_span_of_command h
  ends b hb := by cases hb
  starts b hb := by cases hb

/-- A value begins behind the sign of the assignment and goes on to the end of the line. -/
theorem exists_setsOff_of_value (h : ofLine line = .definition d)
    (value : d.detail = .assignment (some s)) :
    ∃ before piece, line.SetsOff s before piece [] := by
  rcases definition_cases h with ⟨head, rest, cut, form⟩ | ⟨head, rest, cut, form⟩
  · obtain ⟨name, column, -, rfl⟩ := eq_of_assignment form
    cases rest with
    | nil => cases value
    | cons b rest =>
        cases value
        refine ⟨head ++ [Byte.colon, Byte.equals], b :: rest, ?_, List.cons_ne_nil b rest, ?_, ?_,
          by simp⟩
        · simp [cut.eq]
        · rw [List.length_append, ← Nat.add_assoc]
          rfl
        · intro b hb
          rw [List.getLast?_append_cons] at hb
          cases hb
          decide
  · obtain ⟨name, column, -, rfl⟩ := eq_of_header form
    cases value

/-- **Every span of a line is set off on it.** -/
theorem exists_setsOff (h : s ∈ (ofLine line).spans) :
    ∃ before piece after, line.SetsOff s before piece after := by
  cases form : ofLine line with
  | ignored => rw [form] at h; cases h
  | problem cause => rw [form] at h; cases h
  | command span =>
      rw [form] at h
      obtain rfl := List.mem_singleton.1 h
      exact ⟨_, _, _, setsOff_of_command form⟩
  | definition d =>
      rw [form, spans, Definition.spans, commands_of_definition form, List.append_nil,
        Definition.lineSpans] at h
      obtain ⟨before, name, named⟩ := exists_hasName form
      obtain ⟨after, setsOff⟩ := named.exists_setsOff
      cases detail : d.detail with
      | assignment value =>
          rw [detail] at h
          rcases List.mem_cons.1 h with rfl | h
          · exact ⟨_, _, _, setsOff⟩
          · obtain rfl := Option.mem_toList.1 h
            obtain ⟨before, piece, setsOff⟩ := exists_setsOff_of_value form detail
            exact ⟨_, _, _, setsOff⟩
      | recipe dependencies body =>
          rw [detail] at h
          rcases List.mem_cons.1 h with rfl | h
          · exact ⟨_, _, _, setsOff⟩
          · obtain ⟨head, lead, token, tail, dependency⟩ := exists_hasDependency form detail h
            exact ⟨_, _, _, dependency.setsOff⟩

end LineForm

/-! ## Spans of a text -/

namespace Span.Covers

variable {s : Span} {text piece : Text} (h : s.Covers text piece)
include h

/-- A span that covers a piece begins and ends at boundaries. -/
theorem isBoundary : Utf8.IsBoundary text s.first ∧ Utf8.IsBoundary text (s.last + 1) := by
  obtain ⟨above, below, rfl, rfl⟩ := h
  constructor
  · exact ⟨above, piece ++ below, List.append_assoc .., rfl⟩
  · refine ⟨above ++ piece, below, rfl, ?_⟩
    rw [Utf8.encode_append, List.length_append, ofLength]
    dsimp only
    omega

/-- What stands in a piece stands in the text. -/
theorem subset : piece ⊆ text := by
  obtain ⟨above, below, rfl, -⟩ := h
  intro c hc
  simp [hc]

end Span.Covers

namespace Justfile

variable {text : Text} {s : Span}

/-- A span of a justfile is a span of one of its lines. -/
theorem exists_line_of_mem_spans (h : s ∈ (ofText text).spans) :
    ∃ line ∈ linesOf (Utf8.encode text), s ∈ (LineForm.ofLine line).spans := by
  have listed : s ∈ (Outline.ofLines (linesOf (Utf8.encode text))).spans :=
    List.mem_append_right _ h
  exact List.mem_flatMap.1 ((Outline.spans_ofLines_sublist _).subset listed)

/-- **No span splits a character.**  Every span that a justfile records, that of a name, a value, a
dependency or a command, begins and ends at boundaries of the text.  It covers a piece of the text,
which is not empty, and its bytes are the encoding of the piece.  When no surrogate is in the piece,
the text of the span is the piece; so it has no replacement character that the text does not
have. -/
theorem spans_read_back (hs : s ∈ (ofText text).spans) :
    Utf8.IsBoundary text s.first ∧ Utf8.IsBoundary text (s.last + 1) ∧
    ∃ piece, s.Covers text piece ∧ piece ≠ [] ∧
      s.bytes (ofText text).data = Utf8.encode piece ∧
      ((∀ c ∈ piece, c.isSurrogate = false) → s.text (ofText text).data = piece ∧
        (.replacement ∈ s.text (ofText text).data → .replacement ∈ text)) := by
  obtain ⟨line, onLine, spoken⟩ := exists_line_of_mem_spans hs
  obtain ⟨before, bytes, after, setsOff⟩ := LineForm.exists_setsOff spoken
  obtain ⟨front, piece, rest, -, -, rfl, -, covers⟩ := setsOff.exists_pieces onLine
  have covered : s.bytes (ofText text).data = Utf8.encode piece := setsOff.bytes_eq onLine
  obtain ⟨first, last⟩ := covers.isBoundary
  refine ⟨first, last, piece, covers, ?_, covered, ?_⟩
  · rintro rfl
    exact setsOff.filled rfl
  · intro scalars
    have same : s.text (ofText text).data = piece := by
      rw [Span.text, covered, Utf8.decodeReplacing_encode scalars]
    refine ⟨same, ?_⟩
    intro replaced
    rw [same] at replaced
    exact covers.subset replaced

/-- The dependency is one code point of four bytes; its span is the first and the last of them. -/
theorem spans_read_back_beyond : (⟨2, 5⟩ : Span) ∈ (ofText "a:😀").spans ∧
    (⟨2, 5⟩ : Span).text (ofText "a:😀").data = "😀" := by
  have recorded : (⟨2, 5⟩ : Span) ∈ (ofText "a:😀").spans := by decide
  obtain ⟨-, -, piece, -, -, bytes, reads⟩ := spans_read_back recorded
  obtain rfl : piece = "😀" := Utf8.encode_injective (bytes.symm.trans (by decide))
  exact ⟨recorded, (reads (by decide)).1⟩

end Justfile

end JustfileServer
