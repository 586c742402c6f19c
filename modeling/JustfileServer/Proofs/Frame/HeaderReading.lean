import JustfileServer.Proofs.Frame.Blocks

/-!
# Reading a header line by line

A header block is taken off the stream as a whole, and the last of its lines for the length decides
about it.  A reader that goes on line by line keeps less than that: the length that counts so far, a
mark when the last line for the length gave no number, and what it has reported (`HeaderState`).

This is enough.  A line for the length takes the place of all before it, so the state is the one
that belongs to the lines so far (`addLine_ofLines`), and at the blank line it is judged as the
whole block is (`judge_ofLines`).  So reading line by line gives the length and the reports of the
block and stops where the block does (`readHeader_start`).
-/

namespace JustfileServer

/-! ## Lengths and what there is to report about them -/

namespace LengthField

/-- The number that is given, if any. -/
def number? : LengthField → Option Int
  | .number n => some n
  | .invalid _ => none

/-- The report about a length that is no number. -/
def report? : LengthField → Option Diagnostic
  | .number _ => none
  | .invalid line => some (.invalidLength line)

end LengthField

/-- What there is to report about a number as the length. -/
def lengthComplaint? (n : Int) : Option Diagnostic :=
  if n ≤ 0 then some (.nonPositiveLength n)
  else if (maxBodyLength : Int) < n then some (.excessiveLength n)
  else none

namespace HeaderBlock

theorem lineDiagnostics_eq (block : HeaderBlock) :
    block.lineDiagnostics = block.fields.filterMap LengthField.report? := by
  unfold lineDiagnostics
  congr 1
  funext field
  cases field <;> rfl

/-- A number that there is nothing to report about is a length that can be used, and no other. -/
theorem length?_of_number {block : HeaderBlock} {n : Int} (ended : block.ended = true)
    (last : block.fields.getLast? = some (.number n)) :
    block.length? = (if (lengthComplaint? n).isSome then none else some n.toNat) ∧
      block.blockDiagnostics = (lengthComplaint? n).toList := by
  simp only [length?, blockDiagnostics, ended, last, lengthComplaint?]
  by_cases pos : n ≤ 0
  · have notPos : ¬ 0 < n := by omega
    simp [pos, notPos]
  by_cases most : (maxBodyLength : Int) < n
  · have notMost : ¬ n ≤ maxBodyLength := by omega
    simp [pos, most, notMost]
  · have small : n ≤ maxBodyLength := by omega
    simp [pos, most, small]

end HeaderBlock

/-! ## The state -/

/-- What is known of a header while its lines are read. -/
structure HeaderState where
  /-- The length that counts, if a number has been given. -/
  length : Option Int
  /-- Is the last length that was given no number? -/
  invalid : Bool
  reported : List Diagnostic

namespace HeaderState

/-- No line has been read. -/
def start : HeaderState := ⟨none, false, []⟩

/-- Takes note of a length. -/
def addField (s : HeaderState) : LengthField → HeaderState
  | .number n => ⟨some n, false, s.reported⟩
  | .invalid line => ⟨none, true, s.reported ++ [.invalidLength line]⟩

/-- Reads one more line, which is not blank. -/
def addLine (s : HeaderState) (line : Text) : HeaderState :=
  match lengthField? line with
  | none => s
  | some field => s.addField field

/-- The length of the body and all reports, once a blank line is reached. -/
def judge (s : HeaderState) : Option Nat × List Diagnostic :=
  if s.invalid then (none, s.reported)
  else
    match s.length with
    | none => (none, s.reported ++ [.missingLength])
    | some n =>
        match lengthComplaint? n with
        | some complaint => (none, s.reported ++ [complaint])
        | none => (some n.toNat, s.reported)

/-- The state behind lines that give these lengths: the last one counts, and each one that is no
number has been reported. -/
def ofFields (fields : List LengthField) : HeaderState where
  length := fields.getLast?.bind LengthField.number?
  invalid := (fields.getLast?.bind LengthField.report?).isSome
  reported := fields.filterMap LengthField.report?

/-- The state behind these lines. -/
def ofLines (lines : List Text) : HeaderState := ofFields (lines.filterMap lengthField?)

/-! ## The lines -/

/-- A length takes the place of those before it. -/
theorem addField_ofFields (fields : List LengthField) (field : LengthField) :
    (ofFields fields).addField field = ofFields (fields ++ [field]) := by
  cases field with
  | number n => simp [ofFields, addField, LengthField.number?, LengthField.report?]
  | invalid line => simp [ofFields, addField, LengthField.number?, LengthField.report?]

/-- **One line** that is read is one line more. -/
theorem addLine_ofLines (lines : List Text) (line : Text) :
    (ofLines lines).addLine line = ofLines (lines ++ [line]) := by
  rw [ofLines, ofLines, List.filterMap_append, addLine]
  cases gives : lengthField? line with
  | none => simp [gives]
  | some field => simp [gives, addField_ofFields]

/-! ## The blank line -/

/-- **The state is judged as the block is**, when the block has ended. -/
theorem judge_ofLines {block : HeaderBlock} (ended : block.ended = true) :
    (ofLines block.lines).judge = (block.length?, block.diagnostics) := by
  rw [HeaderBlock.diagnostics, HeaderBlock.lineDiagnostics_eq, ofLines, ← HeaderBlock.fields]
  generalize reports : block.fields.filterMap LengthField.report? = reported
  cases last : block.fields.getLast? with
  | none =>
      have state : ofFields block.fields = ⟨none, false, reported⟩ := by
        rw [ofFields, last, reports]
        rfl
      simp [state, judge, HeaderBlock.length?, HeaderBlock.blockDiagnostics, ended, last]
  | some field =>
      cases field with
      | invalid line =>
          have state : ofFields block.fields = ⟨none, true, reported⟩ := by
            rw [ofFields, last, reports]
            rfl
          simp [state, judge, HeaderBlock.length?, HeaderBlock.blockDiagnostics, ended, last]
      | number n =>
          have state : ofFields block.fields = ⟨some n, false, reported⟩ := by
            rw [ofFields, last, reports]
            rfl
          obtain ⟨usable, complaint⟩ := HeaderBlock.length?_of_number ended last
          simp only [state, judge, usable, complaint, Bool.false_eq_true, if_false]
          cases lengthComplaint? n with
          | none => simp
          | some d => simp

end HeaderState

/-! ## The whole header -/

/-- What reading a header gives: the length of the body, the reports, whether a blank line was
reached, and the bytes behind it. -/
structure HeaderReading where
  length? : Option Nat
  reported : List Diagnostic
  ended : Bool
  rest : Bytes

/-- Reads header lines from a state on, up to a blank one or the end. -/
def readHeader (s : HeaderState) : Bytes → HeaderReading
  | [] => ⟨none, s.reported, false, []⟩
  | b :: rest =>
      let line := headerText (cutLine (b :: rest)).1
      let after := (cutLine (b :: rest)).2
      if line.isEmpty then ⟨s.judge.1, s.judge.2, true, after⟩
      else readHeader (s.addLine line) after
termination_by data => data.length
decreasing_by exact length_cutLine_snd_lt

/-- What a block comes to. -/
def HeaderBlock.reading (block : HeaderBlock) : HeaderReading :=
  ⟨block.length?, block.diagnostics, block.ended, block.rest⟩

namespace HeaderBlock

variable (lines : List Text) (rest : Bytes)

theorem reading_of_open : (⟨lines, false, rest⟩ : HeaderBlock).reading
    = ⟨none, (HeaderState.ofLines lines).reported, false, rest⟩ := by
  have reported := lineDiagnostics_eq ⟨lines, false, rest⟩
  have nothing : (⟨lines, false, rest⟩ : HeaderBlock).blockDiagnostics = [] := rfl
  rw [reading, diagnostics, reported, nothing, List.append_nil]
  rfl

theorem reading_of_ended : (⟨lines, true, rest⟩ : HeaderBlock).reading
    = ⟨(HeaderState.ofLines lines).judge.1, (HeaderState.ofLines lines).judge.2, true, rest⟩ := by
  have ended : (⟨lines, true, rest⟩ : HeaderBlock).ended = true := rfl
  rw [HeaderState.judge_ofLines ended, reading]

end HeaderBlock

/-- **Reading on** behind some lines gives what the block with these lines on top says. -/
theorem readHeader_ofLines (lines : List Text) (data : Bytes) :
    readHeader (.ofLines lines) data
      = { takeBlock data with lines := lines ++ (takeBlock data).lines : HeaderBlock }.reading := by
  fun_induction takeBlock data generalizing lines with
  | case1 => rw [readHeader, List.append_nil, HeaderBlock.reading_of_open]
  | case2 b rest line after blank =>
      rw [readHeader, List.append_nil, HeaderBlock.reading_of_ended]
      exact if_pos blank
  | case3 b rest line after filled block ih =>
      have onward := ih (lines ++ [line])
      rw [List.append_assoc, List.singleton_append] at onward
      rw [← onward, ← HeaderState.addLine_ofLines, readHeader]
      exact if_neg filled

/-- **Reading line by line gives what the block says.** -/
theorem readHeader_start (data : Bytes) : readHeader .start data = (takeBlock data).reading :=
  readHeader_ofLines [] data

end JustfileServer
