import JustfileServer.Proofs.Justfile.Mentions
import JustfileServer.Proofs.Justfile.Names

/-!
# Spans in order

The spans that a justfile records lie in its bytes, and those that a definition has on its own line
lie in that line.  Read from the first definition to the last, and in each of them the name first,
they come one behind the other (`spans_in_order`).

An outline lists the spans of its lines in the order of the lines, leaving out the commands that are
stray (`spans_ofLines_sublist`).  So it is enough that the spans of each line are in order, which is
shown for every form of a line (`LineForm.pairwise_spans`), and that the lines are.
-/

namespace JustfileServer

namespace Span

/-- One span ends before another one starts. -/
def Before (s t : Span) : Prop := s.last < t.first

/-- A span covers at least one byte, and it lies between two offsets, of which the second one is
behind its last byte. -/
structure LiesIn (s : Span) (start stop : Nat) : Prop where
  first : start ≤ s.first
  ordered : s.first ≤ s.last
  last : s.last < stop

theorem LiesIn.mono {s : Span} {start stop start' stop' : Nat} (h : s.LiesIn start stop)
    (first : start' ≤ start) (last : stop ≤ stop') : s.LiesIn start' stop' := by
  obtain ⟨lower, ordered, upper⟩ := h
  exact ⟨by omega, ordered, by omega⟩

theorem LiesIn.before {s t : Span} {start stop start' stop' : Nat} (h : s.LiesIn start stop)
    (h' : t.LiesIn start' stop') (apart : stop ≤ start') : s.Before t := by
  have upper := h.last
  have lower := h'.first
  simp only [Before]
  omega

theorem liesIn_ofLength {start length : Nat} (filled : 0 < length) :
    (ofLength start length).LiesIn start (start + length) := by
  constructor <;> simp only [ofLength] <;> omega

end Span

/-! ## Tokens -/

/-- White space in front holds no tokens. -/
theorem tokens_append_left {space : Bytes} (blank : IsBlank space) (offset : Nat) (rest : Bytes) :
    tokens offset (space ++ rest) = tokens (offset + space.length) rest := by
  induction space generalizing offset with
  | nil => rfl
  | cons b space ih =>
      rw [List.cons_append, tokens, if_pos (blank b (List.mem_cons_self ..)),
        ih (fun c hc => blank c (List.mem_cons_of_mem _ hc)), List.length_cons]
      congr 1
      omega

theorem liesIn_of_mem_tokens {offset : Nat} {bytes : Bytes} {t : Span}
    (h : t ∈ tokens offset bytes) : t.LiesIn offset (offset + bytes.length) := by
  induction bytes generalizing offset t with
  | nil => cases h
  | cons b bytes ih =>
      have size : (b :: bytes).length = bytes.length + 1 := List.length_cons
      have here : (⟨offset, offset⟩ : Span).LiesIn offset (offset + (b :: bytes).length) := by
        constructor <;> dsimp only <;> omega
      have later {t : Span} (h : t ∈ tokens (offset + 1) bytes) :
          t.LiesIn offset (offset + (b :: bytes).length) := by
        refine (ih h).mono (by omega) ?_
        rw [List.length_cons]
        omega
      rw [tokens] at h
      split at h
      · exact later h
      · split at h
        · rw [List.mem_singleton.1 h]
          exact here
        · rename_i u us cut
          have first := later (t := u) (by simp [cut])
          split at h
          · rcases List.mem_cons.1 h with rfl | h
            · exact ⟨by simp, Int.le_trans first.first first.ordered, first.last⟩
            · exact later (by simp [cut, h])
          · rcases List.mem_cons.1 h with rfl | h
            · exact here
            · exact later (by rw [cut]; exact h)

/-- Between two tokens there is white space, so they come one behind the other. -/
theorem pairwise_tokens (offset : Nat) (bytes : Bytes) :
    (tokens offset bytes).Pairwise Span.Before := by
  induction bytes generalizing offset with
  | nil => exact .nil
  | cons b bytes ih =>
      have later := ih (offset + 1)
      rw [tokens]
      split
      · exact later
      · cases cut : tokens (offset + 1) bytes with
        | nil => exact List.pairwise_singleton ..
        | cons t ts =>
            rw [cut] at later
            obtain ⟨behind, others⟩ := List.pairwise_cons.1 later
            dsimp only
            split
            · exact .cons behind others
            · refine .cons ?_ later
              intro u hu
              have place : u.LiesIn (offset + 1) (offset + 1 + bytes.length) :=
                liesIn_of_mem_tokens (by rw [cut]; exact hu)
              have lower := place.first
              simp only [Span.Before]
              omega

/-! ## What is recorded -/

/-- The spans of a definition on its own line: its name, and behind it its value or its
dependencies. -/
def Definition.lineSpans (d : Definition) : List Span :=
  match d.detail with
  | .assignment value => d.name :: value.toList
  | .recipe dependencies _ => d.name :: dependencies

/-- The spans of a definition: those on its own line, and behind them its commands. -/
def Definition.spans (d : Definition) : List Span := d.lineSpans ++ d.commands

/-- All spans that a justfile records, definition by definition. -/
def Justfile.spans (j : Justfile) : List Span := j.definitions.flatMap Definition.spans

/-- The spans in what a line says. -/
def LineForm.spans : LineForm → List Span
  | .ignored => []
  | .definition d => d.spans
  | .command span => [span]
  | .problem _ => []

/-- The spans of an outline: its leading commands, and behind them those of its definitions. -/
def Outline.spans (o : Outline) : List Span :=
  o.leading.map Prod.snd ++ o.definitions.flatMap Definition.spans

@[simp] theorem Definition.lineSpans_addCommands (d : Definition) (commands : List Span) :
    (d.addCommands commands).lineSpans = d.lineSpans := by
  obtain ⟨name, line, column, detail⟩ := d
  cases detail <;> rfl

theorem Definition.spans_addCommands {d : Definition} (h : d.kind = .recipe)
    (commands : List Span) : (d.addCommands commands).spans = d.spans ++ commands := by
  rw [spans, spans, lineSpans_addCommands, commands_addCommands h, List.append_assoc]

/-! ## One line -/

namespace LineForm

variable {line : Line} {d : Definition}

theorem liesIn_of_nameBefore? {start column : Nat} {head : Bytes} {span : Span}
    (h : nameBefore? start head = some (span, column)) :
    span.LiesIn start (start + head.length) := by
  obtain ⟨before, name, after, cut, rfl, rfl⟩ := exists_nameCut_of_nameBefore? h
  refine (Span.liesIn_ofLength (List.length_pos_iff.2 cut.filled)).mono (by omega) ?_
  rw [cut.eq, List.length_append, List.length_append]
  omega

/-- The name stands before the colon; what stands behind the colon comes after it. -/
theorem lineSpans_of_cut {head rest : Bytes} {name : Span} {spans : List Span}
    (cut : CutAtColon line.bytes head rest)
    (named : name.LiesIn line.start (line.start + head.length))
    (behind : ∀ s ∈ spans, s.LiesIn (line.start + head.length + 1) line.stop)
    (ordered : spans.Pairwise Span.Before) :
    (∀ s ∈ name :: spans, s.LiesIn line.start line.stop) ∧
      (name :: spans).Pairwise Span.Before := by
  have size : line.stop = line.start + head.length + 1 + rest.length := by
    rw [Line.stop, cut.eq, List.length_append, List.length_cons]
    omega
  constructor
  · intro s hs
    rcases List.mem_cons.1 hs with rfl | hs
    · exact named.mono (Nat.le_refl _) (by omega)
    · exact (behind s hs).mono (by omega) (Nat.le_refl _)
  · refine .cons ?_ ordered
    intro s hs
    exact named.before (behind s hs) (Nat.le_succ _)

/-- The spans that a definition has on its line lie in it, in order. -/
theorem lineSpans_of_definition (h : ofLine line = .definition d) :
    (∀ s ∈ d.lineSpans, s.LiesIn line.start line.stop) ∧ d.lineSpans.Pairwise Span.Before := by
  rcases definition_cases h with ⟨head, value, cut, form⟩ | ⟨head, rest, cut, form⟩
  · obtain ⟨name, column, found, rfl⟩ := eq_of_assignment form
    have size : line.start + head.length + 2 + value.length = line.stop := by
      rw [Line.stop, cut.eq, List.length_append, List.length_cons, List.length_cons]
      omega
    refine lineSpans_of_cut cut (liesIn_of_nameBefore? found) ?_ ?_
    · intro s hs
      cases value with
      | nil => cases hs
      | cons b value =>
          obtain rfl := List.mem_singleton.1 hs
          exact (Span.liesIn_ofLength (Nat.succ_pos _)).mono (Nat.le_succ _) (Nat.le_of_eq size)
    · cases value with
      | nil => exact .nil
      | cons b value => exact List.pairwise_singleton ..
  · obtain ⟨name, column, found, rfl⟩ := eq_of_header form
    have size : line.start + head.length + 1 + rest.length = line.stop := by
      rw [Line.stop, cut.eq, List.length_append, List.length_cons]
      omega
    refine lineSpans_of_cut cut (liesIn_of_nameBefore? found) ?_ (pairwise_tokens ..)
    intro s hs
    rw [← size]
    exact liesIn_of_mem_tokens hs

/-- The spans of a line lie in it. -/
theorem liesIn_of_mem_spans {s : Span} (h : s ∈ (ofLine line).spans) :
    s.LiesIn line.start line.stop := by
  cases form : ofLine line with
  | ignored => rw [form] at h; cases h
  | problem cause => rw [form] at h; cases h
  | command span =>
      obtain rfl := eq_span_of_command form
      rw [form] at h
      obtain rfl := List.mem_singleton.1 h
      exact Span.liesIn_ofLength (List.length_pos_iff.2 (bytes_ne_nil_of_command form))
  | definition d =>
      rw [form, spans, Definition.spans, commands_of_definition form, List.append_nil] at h
      exact (lineSpans_of_definition form).1 s h

/-- The spans of a line come one behind the other. -/
theorem pairwise_spans (line : Line) : (ofLine line).spans.Pairwise Span.Before := by
  cases form : ofLine line with
  | ignored => exact .nil
  | problem cause => exact .nil
  | command span => exact List.pairwise_singleton ..
  | definition d =>
      rw [spans, Definition.spans, commands_of_definition form, List.append_nil]
      exact (lineSpans_of_definition form).2

end LineForm

/-! ## All lines -/

namespace Outline

theorem spans_addLine_sublist (number : Nat) (form : LineForm) (o : Outline) :
    (o.addLine number form).spans.Sublist (form.spans ++ o.spans) := by
  cases form with
  | ignored => exact List.Sublist.refl _
  | command span => exact List.Sublist.refl _
  | problem cause => exact List.sublist_append_right ..
  | definition d =>
      cases kind : d.kind with
      | recipe => simp [addLine, kind, spans, LineForm.spans, Definition.spans_addCommands kind]
      | assignment => simp [addLine, kind, spans, LineForm.spans]

/-- **An outline lists the spans of its lines** in the order of the lines. -/
theorem spans_ofLines_sublist (lines : List Line) :
    (ofLines lines).spans.Sublist (lines.flatMap fun line => (LineForm.ofLine line).spans) := by
  induction lines with
  | nil => exact List.Sublist.refl _
  | cons line lines ih =>
      rw [ofLines_cons, List.flatMap_cons]
      exact (spans_addLine_sublist ..).trans (ih.append_left _)

theorem pairwise_spans {lines : List Line} (ordered : lines.Pairwise Line.Precedes) :
    (ofLines lines).spans.Pairwise Span.Before := by
  refine List.Pairwise.sublist (spans_ofLines_sublist lines) (List.pairwise_flatMap.2 ⟨?_, ?_⟩)
  · intro line _
    exact LineForm.pairwise_spans line
  · refine ordered.imp fun {a b} precedes s hs t ht => ?_
    have apart := precedes.start
    exact (LineForm.liesIn_of_mem_spans hs).before (LineForm.liesIn_of_mem_spans ht)
      (Nat.le_of_lt apart)

theorem exists_line_of_mem_spans {lines : List Line} {s : Span} (h : s ∈ (ofLines lines).spans) :
    ∃ line ∈ lines, s.LiesIn line.start line.stop := by
  obtain ⟨line, hl, hs⟩ := List.mem_flatMap.1 ((spans_ofLines_sublist lines).subset h)
  exact ⟨line, hl, LineForm.liesIn_of_mem_spans hs⟩

end Outline

/-- Bytes that may be the name of a definition. -/
structure IsName (bytes : Bytes) : Prop where
  filled : bytes ≠ []
  starts : ∀ b, bytes.head? = some b → Byte.isBlank b = false
  ends : ∀ b, bytes.getLast? = some b → Byte.isBlank b = false
  colon : Byte.colon ∉ bytes
  newline : Byte.newline ∉ bytes

theorem HasName.isName {line : Line} {d : Definition} {before name : Bytes}
    (h : HasName line d before name) (clean : Byte.newline ∉ line.bytes) : IsName name := by
  obtain ⟨after, rest, -, bytes⟩ := h.exists_eq
  obtain ⟨_, _, _, _, around⟩ := h.cut
  refine ⟨h.filled, around.starts, around.ends, h.colon_notMem, ?_⟩
  intro inside
  exact clean (by simp [bytes, inside])

namespace Justfile

variable {text : Text} {d : Definition}

/-- Every definition is read from a line, on which it has its name. -/
theorem exists_line_of_mem_definitions (h : d ∈ (ofText text).definitions) :
    ∃ line, (ofText text).IsLine line ∧ (∃ before name, HasName line d before name) ∧
      ∀ s ∈ d.lineSpans, s.LiesIn line.start line.stop := by
  obtain ⟨line, hl, e, commands, form, rfl⟩ := Outline.exists_of_mem_definitions h
  obtain ⟨before, name, named⟩ := LineForm.exists_hasName form
  refine ⟨line, isLine_iff.2 hl, ⟨before, name, named.addCommands commands⟩, ?_⟩
  rw [Definition.lineSpans_addCommands]
  exact (LineForm.lineSpans_of_definition form).1

/-- **Spans are valid and in order.**  All of them lie in the bytes of the justfile; those on the
line of a definition lie in that line, its name at its column; a name has no white space at its ends
and neither a colon nor a newline in it; and every span ends before the next one starts. -/
theorem spans_in_order (text : Text) :
    (∀ s ∈ (ofText text).spans, 0 ≤ s.first ∧ s.first ≤ s.last ∧
      s.last < (ofText text).data.length) ∧
    (∀ d ∈ (ofText text).definitions, ∃ start stop : Nat,
      (ofText text).lineStarts[d.line]? = some start ∧
      (ofText text).lineBounds? d.line = some (start, stop) ∧
      d.name.first = start + d.column ∧
      (∀ s ∈ d.lineSpans, start ≤ s.first ∧ s.last < stop) ∧
      IsName (d.name.bytes (ofText text).data)) ∧
    (ofText text).spans.Pairwise fun s t => s.last < t.first := by
  have ordered := pairwise_precedes_linesOf (Utf8.encode text)
  refine ⟨?_, ?_, ?_⟩
  · intro s hs
    have listed : s ∈ (Outline.ofLines (linesOf (Utf8.encode text))).spans :=
      List.mem_append_right _ hs
    obtain ⟨line, hl, place⟩ := Outline.exists_line_of_mem_spans listed
    have inside := place.mono (Nat.zero_le _) (stop_le_of_mem_linesOf hl)
    exact ⟨inside.first, inside.ordered, inside.last⟩
  · intro d hd
    obtain ⟨line, isLine, ⟨before, name, named⟩, places⟩ := exists_line_of_mem_definitions hd
    have onLine := isLine_iff.1 isLine
    refine ⟨line.start, line.stop, ?_, ?_, ?_, ?_, ?_⟩
    · show (JustfileServer.lineStarts _)[d.line]? = _
      rw [lineStarts_eq, List.getElem?_map, named.number, getElem?_number_of_mem onLine]
      rfl
    · rw [named.number, isLine.bounds]
    · rw [named.span, named.column, Span.ofLength, Int.natCast_add]
    · intro s hs
      exact ⟨(places s hs).first, (places s hs).last⟩
    · show IsName (d.name.bytes (Utf8.encode text))
      rw [named.bytes_eq onLine]
      exact named.isName (newline_notMem_of_mem_splitLines (mem_of_mem_placeLines onLine))
  · have all := Outline.pairwise_spans ordered
    exact all.sublist (List.sublist_append_right ..)

end Justfile

end JustfileServer
