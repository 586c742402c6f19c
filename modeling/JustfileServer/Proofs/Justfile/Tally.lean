import Mathlib.Algebra.GroupWithZero.Nat
import JustfileServer.Proofs.Justfile.Pieces
import JustfileServer.Proofs.Justfile.Runs

/-!
# Nothing is lost and nothing is made up

Every line that says something ends up in just one place: as a definition, as a command of a recipe,
or as a problem.  Going from the last line to the first, a line that is not ignored makes an outline
larger by one (`Outline.size_addLine`); what it does to the leading commands only moves them.  So
the definitions, their commands and the problems of a justfile are together as many as its lines
that are neither blank nor comments (`tally_ofText`).
-/

namespace JustfileServer

instance : DecidablePred SaysNothing := fun bytes =>
  inferInstanceAs (Decidable (Bytes.trim bytes = [] ∨ (Bytes.trim bytes).head? = some Byte.hash))

namespace Outline

/-- All that is in an outline: the leading commands, the definitions with their commands, and the
problems. -/
def size (o : Outline) : Nat :=
  o.leading.length + o.definitions.length + (o.definitions.map (·.commands.length)).sum
    + o.problems.length

theorem length_allProblems (o : Outline) :
    o.allProblems.length = o.leading.length + o.problems.length := by
  simp [allProblems]

/-- **One more line** makes an outline larger by one, unless it says nothing. -/
theorem size_addLine (o : Outline) (line : Line) :
    (o.addLine line.number (.ofLine line)).size
      = o.size + if SaysNothing line.bytes then 0 else 1 := by
  have silent : SaysNothing line.bytes ↔ .ignored = (LineForm.ofLine line).role := by
    rw [← hasRole_iff]
    constructor
    · exact .ignored
    · intro role
      cases role
      assumption
  cases form : LineForm.ofLine line with
  | ignored =>
      rw [if_pos (silent.2 (by rw [form]; rfl))]
      rfl
  | command span =>
      rw [if_neg (by rw [silent, form]; simp [LineForm.role])]
      simp only [addLine, size, List.length_cons]
      omega
  | problem cause =>
      rw [if_neg (by rw [silent, form]; simp [LineForm.role])]
      simp only [addLine, size, List.length_cons, length_allProblems, List.length_nil]
      omega
  | definition d =>
      have none := LineForm.commands_of_definition form
      rw [if_neg (by rw [silent, form]; simp [LineForm.role])]
      unfold addLine
      dsimp only
      cases kind : d.kind with
      | recipe =>
          -- the leading commands become those of the recipe
          have taken : (d.addCommands (o.leading.map Prod.snd)).commands.length
              = o.leading.length := by
            rw [Definition.commands_addCommands kind, none, List.nil_append, List.length_map]
          simp only [size, List.length_cons, List.map_cons, List.sum_cons, taken, List.length_nil]
          omega
      | assignment =>
          simp only [size, List.length_cons, List.map_cons, List.sum_cons, none,
            length_allProblems, List.length_nil]
          omega

/-- **A run of lines** is as large as the number of those that say something. -/
theorem size_ofLines (lines : List Line) :
    (ofLines lines).size = lines.countP fun line => ¬ SaysNothing line.bytes := by
  induction lines with
  | nil => rfl
  | cons line lines ih =>
      rw [ofLines_cons, size_addLine, ih, List.countP_cons]
      by_cases silent : SaysNothing line.bytes <;> simp [silent]

end Outline

namespace Justfile

/-- Lines in their places speak as often as they do anywhere. -/
theorem countP_linesOf (text : Text) :
    ((linesOf (Utf8.encode text)).countP fun line => ¬ SaysNothing line.bytes)
      = (text.splitOn .newline).countP fun line => ¬ SaysNothing (Utf8.encode line) := by
  have bytes : (linesOf (Utf8.encode text)).map Line.bytes
      = (text.splitOn .newline).map Utf8.encode := by
    rw [linesOf, map_bytes_placeLines, splitLines_encode]
  have counted := congrArg (List.countP fun bytes => ¬ SaysNothing bytes) bytes
  rwa [List.countP_map, List.countP_map] at counted

/-- **The definitions, their commands and the problems** of a justfile are as many as its lines that
are neither blank nor comments. -/
theorem tally_ofText (text : Text) :
    (ofText text).definitions.length + ((ofText text).definitions.map (·.commands.length)).sum
        + (ofText text).problems.length
      = (text.splitOn .newline).countP fun line => ¬ SaysNothing (Utf8.encode line) := by
  rw [← countP_linesOf, ← Outline.size_ofLines, Outline.size]
  show _ + _ + (Outline.allProblems _).length = _
  rw [Outline.length_allProblems]
  show (Outline.ofLines _).definitions.length + ((Outline.ofLines _).definitions.map _).sum + _ = _
  omega

end Justfile

end JustfileServer
