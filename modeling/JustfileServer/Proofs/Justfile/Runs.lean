import JustfileServer.Proofs.Justfile.Extent
import JustfileServer.Proofs.Justfile.Roles

/-!
# Runs of lines

What an outline lists comes from its lines, in their order (`isAbout_ofLines`).  A run of lines put
in front of an outline adds what it amounts to by itself, as long as the outline has no leading
commands (`under_of_leading_eq_nil`); leading commands pass through ignored lines and other commands
(`under_of_passedOver`) up to the first line of another form.
-/

namespace JustfileServer

/-- The command lines of a definition; only a recipe has any. -/
def Definition.commands (d : Definition) : List Span :=
  match d.detail with
  | .assignment _ => []
  | .recipe _ body => body

namespace Definition

@[simp] theorem line_addCommands (d : Definition) (cs : List Span) :
    (d.addCommands cs).line = d.line := by
  obtain ⟨name, line, column, detail⟩ := d
  cases detail <;> rfl

@[simp] theorem kind_addCommands (d : Definition) (cs : List Span) :
    (d.addCommands cs).kind = d.kind := by
  obtain ⟨name, line, column, detail⟩ := d
  cases detail <;> rfl

theorem commands_addCommands {d : Definition} (h : d.kind = .recipe) (cs : List Span) :
    (d.addCommands cs).commands = d.commands ++ cs := by
  obtain ⟨name, line, column, detail⟩ := d
  cases detail with
  | assignment => cases h
  | recipe => rfl

end Definition

namespace LineForm

theorem eq_span_of_command {line : Line} {span : Span} (h : ofLine line = .command span) :
    span = line.span := by
  rcases ofLine_cases line with form | form | ⟨head, value, form⟩ | ⟨head, rest, form⟩ <;>
    rw [form] at h
  · cases h
  · unfold plain at h
    split at h
    · cases h
    · split at h <;> cases h
      rfl
  · unfold assignment at h
    split at h <;> cases h
  · unfold header at h
    split at h <;> cases h

/-- A command is read as the span of its line. -/
theorem eq_command_of_hasRole {line : Line} (h : HasRole line.bytes .command) :
    ofLine line = .command line.span := by
  have role := hasRole_iff.1 h
  cases form : ofLine line with
  | command span => rw [eq_span_of_command form]
  | ignored => rw [form] at role; cases role
  | definition d => rw [form] at role; cases role
  | problem cause => rw [form] at role; cases role

/-- A line by itself gives a definition without commands. -/
theorem commands_of_definition {line : Line} {d : Definition} (h : ofLine line = .definition d) :
    d.commands = [] := by
  rcases ofLine_cases line with form | form | ⟨head, value, form⟩ | ⟨head, rest, form⟩ <;>
    rw [form] at h
  · cases h
  · unfold plain at h
    split at h
    · cases h
    · split at h <;> cases h
  · unfold assignment at h
    split at h <;> cases h
    rfl
  · unfold header at h
    split at h <;> cases h
    rfl

end LineForm

namespace Line

/-- The line is blank, a comment or a command: the recipe above it goes on behind it. -/
def IsPassedOver (line : Line) : Prop :=
  HasRole line.bytes .ignored ∨ HasRole line.bytes .command

instance (line : Line) : Decidable line.IsPassedOver := inferInstanceAs (Decidable (_ ∨ _))

theorem isPassedOver_iff {line : Line} : line.IsPassedOver ↔
    LineForm.ofLine line = .ignored ∨ LineForm.ofLine line = .command line.span := by
  rw [IsPassedOver, hasRole_iff, hasRole_iff]
  cases form : LineForm.ofLine line with
  | ignored => simp [LineForm.role]
  | command span =>
      obtain rfl := LineForm.eq_span_of_command form
      simp [LineForm.role]
  | definition d => simp [LineForm.role]
  | problem cause => simp [LineForm.role]

/-- In any run, either all lines are passed over or there is a last one that is not. -/
theorem split_at_last (lines : List Line) :
    (∀ line ∈ lines, line.IsPassedOver) ∨ ∃ before owner between,
      lines = before ++ owner :: between ∧ ¬ owner.IsPassedOver ∧
        ∀ line ∈ between, line.IsPassedOver := by
  induction lines with
  | nil => exact .inl (by simp)
  | cons line lines ih =>
      rcases ih with all | ⟨before, owner, between, rfl, stops, all⟩
      · by_cases passed : line.IsPassedOver
        · exact .inl (by simpa [passed] using all)
        · exact .inr ⟨[], line, lines, rfl, passed, all⟩
      · exact .inr ⟨line :: before, owner, between, rfl, stops, all⟩

end Line

namespace Outline

variable {o : Outline} {lines : List Line}

/-! ## Runs in front of an outline -/

/-- An outline with a run of lines put in front. -/
def under (lines : List Line) (o : Outline) : Outline :=
  lines.foldr (fun line o => o.addLine line.number (.ofLine line)) o

theorem ofLines_append (before after : List Line) :
    ofLines (before ++ after) = under before (ofLines after) := by
  rw [ofLines, List.foldr_append, ← ofLines, under]

theorem ofLines_cons (line : Line) (lines : List Line) :
    ofLines (line :: lines) = (ofLines lines).addLine line.number (.ofLine line) := rfl

@[simp] theorem allProblems_nil (ds : List Definition) (ps : List Problem) :
    (⟨[], ds, ps⟩ : Outline).allProblems = ps := rfl

/-- What two runs amount to, when the second one has no leading commands. -/
def append (a b : Outline) : Outline :=
  ⟨a.leading, a.definitions ++ b.definitions, a.problems ++ b.problems⟩

theorem allProblems_append (a b : Outline) :
    (a.append b).allProblems = a.allProblems ++ b.problems := (List.append_assoc ..).symm

theorem addLine_append (number : Nat) (form : LineForm) (a b : Outline) :
    (a.append b).addLine number form = (a.addLine number form).append b := by
  cases form with
  | ignored => rfl
  | command span => rfl
  | problem cause =>
      show (⟨[], _, ⟨number, 0, cause⟩ :: (a.append b).allProblems⟩ : Outline) = _
      rw [allProblems_append]
      rfl
  | definition d =>
      unfold addLine
      dsimp only
      cases d.kind with
      | recipe => rfl
      | assignment => rw [allProblems_append]; rfl

/-- **A run in front of an outline without leading commands** adds what it amounts to by itself. -/
theorem under_of_leading_eq_nil (lines : List Line) (h : o.leading = []) :
    under lines o = (ofLines lines).append o := by
  induction lines with
  | nil =>
      obtain ⟨leading, definitions, problems⟩ := o
      obtain rfl : leading = [] := h
      rfl
  | cons line lines ih =>
      rw [under, List.foldr_cons, ← under, ih, addLine_append, ofLines_cons]

/-- **Lines that are passed over** only put their commands in front of the leading ones. -/
theorem under_of_passedOver (o : Outline) (h : ∀ line ∈ lines, line.IsPassedOver) :
    under lines o = { o with leading := (ofLines lines).leading ++ o.leading } := by
  induction lines with
  | nil => rfl
  | cons line lines ih =>
      have passed := h line (List.mem_cons_self ..)
      rw [under, List.foldr_cons, ← under, ih fun l hl => h l (List.mem_cons_of_mem _ hl),
        ofLines_cons]
      rcases Line.isPassedOver_iff.1 passed with form | form <;> rw [form] <;> rfl

/-- A line that is not passed over leaves no leading commands. -/
theorem leading_addLine {line : Line} (h : ¬ line.IsPassedOver) (o : Outline) :
    (o.addLine line.number (.ofLine line)).leading = [] := by
  rw [Line.isPassedOver_iff] at h
  cases form : LineForm.ofLine line with
  | ignored => exact absurd (.inl form) h
  | command span =>
      obtain rfl := LineForm.eq_span_of_command form
      exact absurd (.inr form) h
  | problem cause => rfl
  | definition d =>
      unfold addLine
      dsimp only
      split <;> rfl

/-! ## What an outline is about -/

/-- The commands of a run of lines. -/
def commandsIn (lines : List Line) : List Line :=
  lines.filter fun line => (LineForm.ofLine line).role = .command

theorem mem_commandsIn {line : Line} :
    line ∈ commandsIn lines ↔ line ∈ lines ∧ HasRole line.bytes .command := by
  rw [commandsIn, List.mem_filter, decide_eq_true_iff, hasRole_iff, eq_comm (a := LineRole.command)]

theorem commandsIn_sublist_cons (line : Line) (lines : List Line) :
    ((commandsIn lines).map Line.span).Sublist ((commandsIn (line :: lines)).map Line.span) :=
  ((List.sublist_cons_self line lines).filter _).map _

theorem commandsIn_cons {line : Line} (form : LineForm.ofLine line = .command line.span)
    (lines : List Line) : commandsIn (line :: lines) = line :: commandsIn lines :=
  List.filter_cons_of_pos (by rw [form]; rfl)

/-- Everything that an outline lists comes from the given lines, in their order. -/
structure IsAbout (o : Outline) (lines : List Line) : Prop where
  leading : (o.leading.map Prod.snd).Sublist ((commandsIn lines).map Line.span)
  definitions : (o.definitions.map Definition.line).Sublist (lines.map Line.number)
  commands : ∀ d ∈ o.definitions, d.commands.Sublist ((commandsIn lines).map Line.span)
  problems : (o.allProblems.map Problem.line).Sublist (lines.map Line.number)

namespace IsAbout

variable {line : Line}

/-- An outline is about its lines also when there are more of them. -/
theorem cons (h : o.IsAbout lines) (line : Line) : o.IsAbout (line :: lines) where
  leading := h.leading.trans (commandsIn_sublist_cons line lines)
  definitions := h.definitions.cons _
  commands d hd := (h.commands d hd).trans (commandsIn_sublist_cons line lines)
  problems := h.problems.cons _

theorem addCommand (h : o.IsAbout lines) (form : LineForm.ofLine line = .command line.span) :
    (o.addLine line.number (.command line.span)).IsAbout (line :: lines) where
  leading := by
    rw [commandsIn_cons form]
    exact h.leading.cons_cons _
  definitions := h.definitions.cons _
  commands d hd := (h.commands d hd).trans (commandsIn_sublist_cons line lines)
  problems := h.problems.cons_cons _

theorem addProblem (h : o.IsAbout lines) (line : Line) (cause : ProblemCause) :
    (o.addLine line.number (.problem cause)).IsAbout (line :: lines) where
  leading := List.nil_sublist _
  definitions := h.definitions.cons _
  commands d hd := (h.commands d hd).trans (commandsIn_sublist_cons line lines)
  problems := h.problems.cons_cons _

/-- A definition takes over the leading commands, or leaves them stray. -/
theorem addDefinition (h : o.IsAbout lines) {d : Definition}
    (form : LineForm.ofLine line = .definition d) :
    (o.addLine line.number (.definition d)).IsAbout (line :: lines) := by
  have number := LineForm.line_of_definition form
  have none := LineForm.commands_of_definition form
  unfold addLine
  dsimp only
  cases kind : d.kind with
  | recipe =>
      refine ⟨List.nil_sublist _, ?_, ?_, ?_⟩
      · dsimp only
        rw [List.map_cons, Definition.line_addCommands, number]
        exact h.definitions.cons_cons _
      · intro e he
        rcases List.mem_cons.1 he with rfl | he
        · rw [Definition.commands_addCommands kind, none, List.nil_append]
          exact h.leading.trans (commandsIn_sublist_cons line lines)
        · exact (h.commands e he).trans (commandsIn_sublist_cons line lines)
      · have fewer : (o.problems.map Problem.line).Sublist (o.allProblems.map Problem.line) :=
          (List.sublist_append_right _ _).map _
        exact (fewer.trans h.problems).cons _
  | assignment =>
      refine ⟨List.nil_sublist _, ?_, ?_, h.problems.cons _⟩
      · dsimp only
        rw [List.map_cons, number]
        exact h.definitions.cons_cons _
      · intro e he
        rcases List.mem_cons.1 he with rfl | he
        · rw [none]
          exact List.nil_sublist _
        · exact (h.commands e he).trans (commandsIn_sublist_cons line lines)

end IsAbout

/-- **An outline is about its lines.** -/
theorem isAbout_ofLines (lines : List Line) : (ofLines lines).IsAbout lines := by
  induction lines with
  | nil => exact ⟨.slnil, .slnil, by simp [ofLines, empty], .slnil⟩
  | cons line lines ih =>
      rw [ofLines_cons]
      cases form : LineForm.ofLine line with
      | ignored => exact ih.cons line
      | command span =>
          obtain rfl := LineForm.eq_span_of_command form
          exact ih.addCommand form
      | problem cause => exact ih.addProblem line cause
      | definition d => exact ih.addDefinition form

end Outline

end JustfileServer
