import JustfileServer.Proofs.Justfile.Ownership
import JustfileServer.Proofs.Justfile.Shifts
import JustfileServer.Proofs.Text.AsciiBytes

/-!
# One text below another

A text with another one below it, on a line of its own, has the lines, the definitions and the
problems of both: those of the second text are moved down, and nothing else happens to them
(`ofText_append_newline`).  There is one exception, at the seam.  When the upper text ends under a
recipe, the commands at the top of the lower text belong to this recipe; they are stray when the
lower text stands alone.

Outlines are put together from the last line to the first, so the upper text finds the outline of
the lower one below it.  Only the last of its lines that is not passed over decides what becomes of
the commands there (`under_of_last`).
-/

namespace JustfileServer

theorem Definition.addCommands_append (d : Definition) (commands more : List Span) :
    d.addCommands (commands ++ more) = (d.addCommands commands).addCommands more := by
  obtain ⟨name, line, column, detail⟩ := d
  cases detail with
  | assignment value => rfl
  | recipe dependencies body => simp [addCommands]

namespace Outline

variable {o : Outline} {before between : List Line} {owner : Line}

/-- An outline with further commands in front of the leading ones. -/
def lead (commands : List (Nat × Span)) (o : Outline) : Outline :=
  { o with leading := commands ++ o.leading }

/-- An outline whose leading commands are stray, because nothing above takes them. -/
def settle (o : Outline) : Outline := ⟨[], o.definitions, o.allProblems⟩

theorem under_append (lines more : List Line) (o : Outline) :
    under (lines ++ more) o = under lines (under more o) := by
  simp [under]

/-! ## The last line that is not passed over -/

/-- The last line that is not passed over meets all leading commands, those behind it and those of
the outline below. -/
theorem under_of_last (stops : ¬ owner.IsPassedOver) (passed : ∀ l ∈ between, l.IsPassedOver)
    (o : Outline) :
    under (before ++ owner :: between) o
      = (ofLines before).append
          ((o.lead (ofLines between).leading).addLine owner.number (.ofLine owner)) := by
  have behind : under (owner :: between) o
      = (o.lead (ofLines between).leading).addLine owner.number (.ofLine owner) := by
    rw [lead, ← under_of_passedOver o passed]
    rfl
  rw [under_append, behind]
  exact under_of_leading_eq_nil before (leading_addLine stops _)

/-- **Under a recipe** the leading commands of the outline below go to the recipe, which is the last
definition above. -/
theorem under_of_header (before : List Line) (header : HasRole owner.bytes (.definition .recipe))
    (passed : ∀ l ∈ between, l.IsPassedOver) :
    ∃ recipe : Definition, recipe.kind = .recipe ∧ recipe.line = owner.number ∧ ∀ o,
      under (before ++ owner :: between) o
        = ⟨(ofLines before).leading,
            (ofLines before).definitions
              ++ recipe.addCommands (o.leading.map Prod.snd) :: o.definitions,
            (ofLines before).problems ++ o.problems⟩ := by
  obtain ⟨d, form, kind⟩ := LineForm.exists_definition header
  have stops : ¬ owner.IsPassedOver := by
    simp [Line.isPassedOver_iff, form]
  refine ⟨d.addCommands ((ofLines between).leading.map Prod.snd), by simp [kind],
    by simp [LineForm.line_of_definition form], ?_⟩
  intro o
  rw [under_of_last stops passed, form]
  simp [addLine, kind, append, lead, Definition.addCommands_append]

/-- An assignment or a problem leaves the commands below stray, as if nothing were above. -/
theorem addLine_lead (stops : ¬ owner.IsPassedOver)
    (barren : ¬ HasRole owner.bytes (.definition .recipe)) (commands : List (Nat × Span))
    (o : Outline) :
    (o.lead commands).addLine owner.number (.ofLine owner)
      = ((empty.lead commands).addLine owner.number (.ofLine owner)).append o.settle := by
  rw [Line.isPassedOver_iff] at stops
  rw [hasRole_iff] at barren
  cases form : LineForm.ofLine owner with
  | ignored => exact absurd (.inl form) stops
  | command span =>
      obtain rfl := LineForm.eq_span_of_command form
      exact absurd (.inr form) stops
  | problem cause => simp [addLine, lead, append, settle, empty, allProblems]
  | definition d =>
      cases kind : d.kind with
      | assignment => simp [addLine, kind, lead, append, settle, empty, allProblems]
      | recipe =>
          rw [form, LineForm.role, kind] at barren
          exact absurd rfl barren

/-- **Under anything else** the leading commands of the outline below are stray. -/
theorem settle_under (lines : List Line)
    (unowned : ∀ before owner between, lines = before ++ owner :: between →
      (∀ l ∈ between, l.IsPassedOver) → ¬ HasRole owner.bytes (.definition .recipe))
    (o : Outline) : (under lines o).settle = (ofLines lines).settle.append o.settle := by
  rcases Line.split_at_last lines with passed | ⟨before, owner, between, rfl, stops, passed⟩
  · have alone := under_of_passedOver empty passed
    rw [under_of_passedOver o passed, show ofLines lines = under lines empty from rfl, alone]
    simp [settle, append, empty, allProblems]
  · have barren := unowned before owner between rfl passed
    have alone : ofLines (before ++ owner :: between)
        = (ofLines before).append
          ((empty.lead (ofLines between).leading).addLine owner.number (.ofLine owner)) :=
      under_of_last stops passed empty
    rw [under_of_last stops passed, addLine_lead stops barren, alone]
    simp [settle, append, allProblems]

/-! ## Leading commands -/

/-- The leading commands are the commands before the first line that is not passed over. -/
theorem leading_ofLines (lines : List Line) :
    (ofLines lines).leading
      = (((lines.takeWhile (·.IsPassedOver)).filter fun l => HasRole l.bytes .command).map
          fun l => (l.number, l.span)) := by
  induction lines with
  | nil => rfl
  | cons line lines ih =>
      rw [ofLines_cons]
      by_cases passed : line.IsPassedOver
      · rw [List.takeWhile_cons_of_pos (by simpa using passed)]
        rcases Line.isPassedOver_iff.1 passed with form | form
        · have other : ¬ HasRole line.bytes .command := by
            simp [hasRole_iff, form, LineForm.role]
          rw [form, List.filter_cons_of_neg (by simpa using other), ← ih]
          rfl
        · have command : HasRole line.bytes .command := by
            simp [hasRole_iff, form, LineForm.role]
          rw [form, List.filter_cons_of_pos (by simpa using command), List.map_cons, ← ih]
          rfl
      · rw [leading_addLine passed, List.takeWhile_cons_of_neg (by simpa using passed)]
        rfl

/-- Without the stray leading commands the other problems are left. -/
theorem filter_allProblems (distinct : o.allProblems.Nodup) :
    o.allProblems.filter (fun p => p ∉ o.leading.map stray) = o.problems := by
  obtain ⟨-, -, apart⟩ := List.nodup_append.1 distinct
  have gone : (o.leading.map stray).filter (fun p => p ∉ o.leading.map stray) = [] := by
    rw [List.filter_eq_nil_iff]
    intro p hp
    simpa using hp
  have stay : o.problems.filter (fun p => p ∉ o.leading.map stray) = o.problems := by
    rw [List.filter_eq_self]
    intro p hp
    exact decide_eq_true fun listed => apart p listed p hp rfl
  rw [allProblems, List.filter_append, gone, stay, List.nil_append]

end Outline

namespace Justfile

/-- The commands at the top of a justfile, before its first line that is not passed over. -/
def leadingCommands (j : Justfile) : List Line :=
  ((linesOf j.data).takeWhile (·.IsPassedOver)).filter fun l => HasRole l.bytes .command

/-- A justfile ends under a recipe: of its lines that are not passed over, the last one is the
header of the recipe. -/
structure EndsUnder (j : Justfile) (owner : Line) : Prop where
  isLine : j.IsLine owner
  header : HasRole owner.bytes (.definition .recipe)
  behind : ∀ l, j.IsLine l → owner.number < l.number → l.IsPassedOver

variable {text : Text} {owner : Line}

theorem leading_outline (text : Text) :
    (Outline.ofLines (linesOf (Utf8.encode text))).leading
      = (ofText text).leadingCommands.map fun l => (l.number, l.span) :=
  Outline.leading_ofLines _

theorem EndsUnder.exists_cut (h : (ofText text).EndsUnder owner) :
    ∃ before between, linesOf (Utf8.encode text) = before ++ owner :: between ∧
      ∀ l ∈ between, l.IsPassedOver := by
  obtain ⟨before, between, cut, -, below⟩ := exists_cut_of_mem_linesOf (isLine_iff.1 h.isLine)
  refine ⟨before, between, cut, ?_⟩
  intro l hl
  have isLine : (ofText text).IsLine l := isLine_iff.2 (by simp [cut, hl])
  exact h.behind l isLine (below l hl).number

theorem endsUnder_of_cut {before between : List Line}
    (cut : linesOf (Utf8.encode text) = before ++ owner :: between)
    (passed : ∀ l ∈ between, l.IsPassedOver)
    (header : HasRole owner.bytes (.definition .recipe)) : (ofText text).EndsUnder owner := by
  refine ⟨isLine_iff.2 (by simp [cut]), header, ?_⟩
  intro l isLine behind
  rw [isLine_iff, cut, List.mem_append, List.mem_cons] at isLine
  rcases isLine with h | rfl | h
  · have lower := ((precedes_of_cut cut).1 l h).number
    omega
  · exact absurd behind (Nat.lt_irrefl _)
  · exact passed l h

theorem encode_append_newline (a b : Text) :
    Utf8.encode (a ++ Text.ofString "\n" ++ b)
      = Utf8.encode a ++ Byte.newline :: Utf8.encode b := by
  have newline : Utf8.encode (Text.ofString "\n") = [Byte.newline] := by decide
  rw [Utf8.encode, List.flatMap_append, List.flatMap_append, ← Utf8.encode, ← Utf8.encode,
    ← Utf8.encode, newline]
  simp

theorem nodup_problems (text : Text) : (ofText text).problems.Nodup := by
  refine List.Nodup.of_map Problem.line ?_
  exact (pairwise_problems text).imp Nat.ne_of_lt

theorem filter_problems (text : Text) :
    ((ofText text).problems.filter fun p => ∀ l ∈ (ofText text).leadingCommands,
        p ≠ ⟨l.number, 0, .strayCommand⟩)
      = (Outline.ofLines (linesOf (Utf8.encode text))).problems := by
  rw [← Outline.filter_allProblems (nodup_problems text), leading_outline]
  refine List.filter_congr fun p _ => ?_
  simp [Outline.stray, eq_comm]

/-- Below the lines of a text its outline is that of the lower text, moved down. -/
theorem outline_append_newline (a b : Text) :
    Outline.ofLines (linesOf (Utf8.encode (a ++ Text.ofString "\n" ++ b)))
      = .under (linesOf (Utf8.encode a)) ((Outline.ofLines (linesOf (Utf8.encode b))).shift
          ⟨(ofText a).lineStarts.length, (ofText a).data.length + 1⟩) := by
  have count : (ofText a).lineStarts.length = (linesOf (Utf8.encode a)).length := by
    show (JustfileServer.lineStarts (Utf8.encode a)).length = _
    rw [lineStarts_eq, List.length_map]
  rw [encode_append_newline, linesOf_append_newline, Outline.ofLines_append,
    Outline.ofLines_shift, count]
  rfl

theorem lineStarts_append_newline (a b : Text) :
    (ofText (a ++ Text.ofString "\n" ++ b)).lineStarts
      = (ofText a).lineStarts ++ (ofText b).lineStarts.map (· + ((ofText a).data.length + 1)) := by
  have starts (text : Text) :
      (ofText text).lineStarts = (linesOf (Utf8.encode text)).map Line.start := lineStarts_eq _
  rw [starts, starts, starts, encode_append_newline, linesOf_append_newline, List.map_append,
    List.map_map, List.map_map]
  rfl

/-- **One text below another.**  The lines of the lower text come behind those of the upper one, and
so do its definitions and its problems, moved down by the lines and the bytes above them.  When the
upper text ends under a recipe, this recipe is the last definition of the upper text, the commands
at the top of the lower text are added to its body, and they are not stray any more. -/
theorem ofText_append_newline (a b : Text) :
    let above := ofText a
    let below := ofText b
    let whole := ofText (a ++ Text.ofString "\n" ++ b)
    let m : Shift := ⟨above.lineStarts.length, above.data.length + 1⟩
    whole.data = above.data ++ Byte.newline :: below.data ∧
    whole.lineStarts = above.lineStarts ++ below.lineStarts.map (· + m.bytes) ∧
    ((¬ ∃ owner, above.EndsUnder owner) →
      whole.definitions = above.definitions ++ below.definitions.map (·.shift m) ∧
      whole.problems = above.problems ++ below.problems.map (·.shift m)) ∧
    ∀ owner, above.EndsUnder owner → ∃ others recipe,
      above.definitions = others ++ [recipe] ∧
      recipe.kind = .recipe ∧ recipe.line = owner.number ∧
      whole.definitions = others
        ++ recipe.addCommands (below.leadingCommands.map fun l => l.span.shift m)
          :: below.definitions.map (·.shift m) ∧
      whole.problems = above.problems
        ++ (below.problems.filter fun p => ∀ l ∈ below.leadingCommands,
            p ≠ ⟨l.number, 0, .strayCommand⟩).map (·.shift m) := by
  intro above below whole m
  have outline := outline_append_newline a b
  refine ⟨encode_append_newline a b, lineStarts_append_newline a b, ?_, ?_⟩
  · intro unowned
    have settled := Outline.settle_under (linesOf (Utf8.encode a))
      (fun before owner between cut passed header =>
        unowned ⟨owner, endsUnder_of_cut cut passed header⟩)
      ((Outline.ofLines (linesOf (Utf8.encode b))).shift m)
    rw [← outline, Outline.settle, Outline.settle, Outline.settle, Outline.append,
      Outline.allProblems_shift] at settled
    constructor
    · exact congrArg Outline.definitions settled
    · exact congrArg Outline.problems settled
  · intro owner h
    obtain ⟨before, between, cut, passed⟩ := h.exists_cut
    obtain ⟨recipe, kind, line, joined⟩ := Outline.under_of_header before h.header passed
    have alone := joined .empty
    have together := joined ((Outline.ofLines (linesOf (Utf8.encode b))).shift m)
    rw [← cut] at alone together
    rw [← outline] at together
    have definitions : above.definitions = (Outline.ofLines before).definitions ++ [recipe] := by
      refine (congrArg Outline.definitions alone).trans ?_
      simp [Outline.empty]
    have problems : above.problems = (Outline.ofLines before).allProblems := by
      refine (congrArg Outline.allProblems alone).trans ?_
      simp [Outline.empty, Outline.allProblems]
    refine ⟨(Outline.ofLines before).definitions, recipe, definitions, kind, line, ?_, ?_⟩
    · refine (congrArg Outline.definitions together).trans ?_
      rw [Outline.shift, leading_outline, List.map_map, List.map_map]
      rfl
    · refine (congrArg Outline.allProblems together).trans ?_
      rw [problems, filter_problems]
      simp [Outline.allProblems, Outline.shift]

end Justfile

end JustfileServer
