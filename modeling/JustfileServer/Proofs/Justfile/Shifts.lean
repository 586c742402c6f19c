import JustfileServer.Proofs.Justfile.Runs

/-!
# Lines further down

A line reads the same wherever it stands: only the spans and the numbers in what it says tell its
place.  When a run of lines is moved down, the outline of the run is moved with them
(`ofLines_shift`).  The lines of a buffer that follow those of another one, with a newline in
between, are moved in this way (`linesOf_append_newline`).
-/

namespace JustfileServer

/-- How far something is moved down: the lines and the bytes that come in front of it. -/
structure Shift where
  lines : Nat
  bytes : Nat

/-! ## Moving -/

/-- A span so many bytes further down. -/
def Span.shift (m : Shift) (s : Span) : Span := ⟨s.first + m.bytes, s.last + m.bytes⟩

/-- A line so many lines and bytes further down. -/
def Line.shift (m : Shift) (line : Line) : Line :=
  ⟨line.number + m.lines, line.start + m.bytes, line.bytes⟩

/-- What a definition has beside its name, further down. -/
def Detail.shift (m : Shift) : Detail → Detail
  | .assignment value => .assignment (value.map (·.shift m))
  | .recipe dependencies body => .recipe (dependencies.map (·.shift m)) (body.map (·.shift m))

/-- A definition further down; its column stays. -/
def Definition.shift (m : Shift) (d : Definition) : Definition :=
  ⟨d.name.shift m, d.line + m.lines, d.column, d.detail.shift m⟩

/-- A problem further down; its column stays. -/
def Problem.shift (m : Shift) (p : Problem) : Problem := ⟨p.line + m.lines, p.column, p.cause⟩

/-- What a line says, further down. -/
def LineForm.shift (m : Shift) : LineForm → LineForm
  | .ignored => .ignored
  | .definition d => .definition (d.shift m)
  | .command span => .command (span.shift m)
  | .problem cause => .problem cause

/-- What a run of lines amounts to, further down. -/
def Outline.shift (m : Shift) (o : Outline) : Outline :=
  ⟨o.leading.map fun command => (command.1 + m.lines, command.2.shift m),
    o.definitions.map (·.shift m), o.problems.map (·.shift m)⟩

variable {m : Shift}

theorem Span.shift_ofLength (m : Shift) (start length : Nat) :
    (ofLength start length).shift m = ofLength (start + m.bytes) length := by
  simp only [ofLength, shift, Span.mk.injEq]
  omega

@[simp] theorem Line.span_shift (m : Shift) (line : Line) :
    (line.shift m).span = line.span.shift m := (Span.shift_ofLength ..).symm

@[simp] theorem Definition.kind_shift (m : Shift) (d : Definition) :
    (d.shift m).kind = d.kind := by
  obtain ⟨name, line, column, detail⟩ := d
  cases detail <;> rfl

theorem Definition.shift_addCommands (m : Shift) (d : Definition) (commands : List Span) :
    (d.addCommands commands).shift m = (d.shift m).addCommands (commands.map (·.shift m)) := by
  obtain ⟨name, line, column, detail⟩ := d
  cases detail with
  | assignment value => rfl
  | recipe dependencies body =>
      simp [addCommands, shift, Detail.shift]

/-! ## One line -/

theorem tokens_shift (m : Shift) (offset : Nat) (bytes : Bytes) :
    tokens (offset + m.bytes) bytes = (tokens offset bytes).map (·.shift m) := by
  induction bytes generalizing offset with
  | nil => rfl
  | cons b bytes ih =>
      have later := ih (offset + 1)
      rw [Nat.add_right_comm] at later
      rw [tokens, tokens, later]
      cases tokens (offset + 1) bytes with
      | nil =>
          split
          · rfl
          · simp [Span.shift]
      | cons t ts =>
          have touches : (t.shift m).first = ((offset + m.bytes : Nat) : Int) + 1 ↔
              t.first = (offset : Int) + 1 := by
            simp only [Span.shift]
            omega
          split
          · rfl
          · simp only [List.map_cons, touches]
            split <;> simp [Span.shift]

theorem nameBefore?_shift (m : Shift) (start : Nat) (head : Bytes) :
    nameBefore? (start + m.bytes) head
      = (nameBefore? start head).map fun name => (name.1.shift m, name.2) := by
  unfold nameBefore?
  dsimp only
  split
  · rfl
  · rw [Option.map_some, Span.shift_ofLength, Nat.add_right_comm]

namespace LineForm

theorem assignment_shift (m : Shift) (line : Line) (head value : Bytes) :
    assignment (line.shift m) head value = (assignment line head value).shift m := by
  have value_shift (length : Nat) :
      Span.ofLength (line.start + m.bytes + head.length + 2) length
        = (Span.ofLength (line.start + head.length + 2) length).shift m := by
    rw [Span.shift_ofLength]
    congr 1
    omega
  simp only [assignment, Line.shift, nameBefore?_shift, value_shift]
  cases nameBefore? line.start head with
  | none => rfl
  | some name => cases value <;> rfl

theorem header_shift (m : Shift) (line : Line) (head rest : Bytes) :
    header (line.shift m) head rest = (header line head rest).shift m := by
  have behind : line.start + m.bytes + head.length + 1
      = line.start + head.length + 1 + m.bytes := by omega
  simp only [header, Line.shift, nameBefore?_shift, behind, tokens_shift]
  cases nameBefore? line.start head <;> rfl

theorem plain_shift (m : Shift) (line : Line) : plain (line.shift m) = (plain line).shift m := by
  obtain ⟨number, start, bytes⟩ := line
  cases bytes with
  | nil => rfl
  | cons b bytes =>
      simp only [plain, Line.shift, ← Span.shift_ofLength]
      split <;> rfl

/-- **A line reads the same further down.** -/
theorem ofLine_shift (m : Shift) (line : Line) : ofLine (line.shift m) = (ofLine line).shift m := by
  have bytes : (line.shift m).bytes = line.bytes := rfl
  rw [ofLine, ofLine, bytes]
  split
  · rfl
  · dsimp only
    split
    · exact plain_shift m line
    · exact header_shift m line _ _
    · split
      · exact assignment_shift m line _ _
      · exact header_shift m line _ _

end LineForm

/-! ## Runs of lines -/

namespace Outline

theorem allProblems_shift (m : Shift) (o : Outline) :
    (o.shift m).allProblems = o.allProblems.map (·.shift m) := by
  simp [allProblems, shift, stray, Problem.shift]

theorem addLine_shift (m : Shift) (number : Nat) (form : LineForm) (o : Outline) :
    (o.shift m).addLine (number + m.lines) (form.shift m) = (o.addLine number form).shift m := by
  cases form with
  | ignored => rfl
  | command span => rfl
  | problem cause =>
      simp only [addLine, LineForm.shift, allProblems_shift]
      rfl
  | definition d =>
      simp only [addLine, LineForm.shift, Definition.kind_shift]
      cases d.kind with
      | recipe =>
          simp only [shift, List.map_cons, List.map_nil, Definition.shift_addCommands,
            List.map_map]
          rfl
      | assignment =>
          simp only [allProblems_shift]
          rfl

/-- **A run of lines amounts to the same further down.** -/
theorem ofLines_shift (m : Shift) (lines : List Line) :
    ofLines (lines.map (·.shift m)) = (ofLines lines).shift m := by
  induction lines with
  | nil => rfl
  | cons line lines ih =>
      rw [List.map_cons, ofLines_cons, ofLines_cons, ih, LineForm.ofLine_shift]
      exact addLine_shift m line.number _ _

end Outline

/-! ## Lines of two buffers -/

theorem placeLines_shift (m : Shift) (number start : Nat) (parts : List Bytes) :
    placeLines (number + m.lines) (start + m.bytes) parts
      = (placeLines number start parts).map (·.shift m) := by
  induction parts generalizing number start with
  | nil => rfl
  | cons bytes parts ih =>
      have later := ih (number + 1) (start + bytes.length + 1)
      rw [placeLines, placeLines, List.map_cons, ← later]
      congr 2 <;> omega

/-- Behind the lines of a buffer and a newline there come further lines. -/
theorem placeLines_append (a : Bytes) (parts : List Bytes) (number start : Nat) :
    placeLines number start (splitLines a ++ parts)
      = placeLines number start (splitLines a)
        ++ placeLines (number + (splitLines a).length) (start + a.length + 1) parts := by
  induction a using Bytes.by_lines generalizing number start with
  | last line clean =>
      rw [splitLines_of_notMem clean]
      rfl
  | more line rest clean ih =>
      have lines : number + 1 + (splitLines rest).length
          = number + (line :: splitLines rest).length := by
        rw [List.length_cons]
        omega
      have bytes : start + line.length + 1 + rest.length
          = start + (line ++ Byte.newline :: rest).length := by
        rw [List.length_append, List.length_cons]
        omega
      have later := ih (number + 1) (start + line.length + 1)
      rw [lines, bytes] at later
      rw [splitLines_append_newline, splitLines_of_notMem clean, List.singleton_append,
        List.cons_append, placeLines, placeLines, List.cons_append, later]

/-- **The lines of two buffers with a newline between them** are those of the first one, and behind
them those of the second one. -/
theorem linesOf_append_newline (a b : Bytes) :
    linesOf (a ++ Byte.newline :: b)
      = linesOf a ++ (linesOf b).map (·.shift ⟨(linesOf a).length, a.length + 1⟩) := by
  have behind := placeLines_shift ⟨(linesOf a).length, a.length + 1⟩ 0 0 (splitLines b)
  have count : (linesOf a).length = (splitLines a).length := length_placeLines ..
  simp only [Nat.zero_add, count] at behind
  rw [linesOf, splitLines_append_newline, placeLines_append, count, linesOf, linesOf, ← behind]
  simp only [Nat.zero_add]

end JustfileServer
