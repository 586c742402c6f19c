import JustfileServer.Proofs.Justfile.Joining

/-!
# Reading a justfile from the top

An outline is put together from the last line to the first, so that a header finds the commands
under it complete.  A reader that goes through the lines from the top comes to the header before
its commands, and has to remember where they go: `Reading.current` is the place of the open recipe
among the definitions so far, and a command is added to what stands at that place.

Lines that have been read and lines that remain come to the same wherever the cut between them is
(`above_addLine`).  So reading all lines from the top gives what their outline says
(`addLines_start`, `Justfile.ofText_eq_addLines`).  What the reader remembers when it comes to a
line is the recipe that is found by looking back from there (`Justfile.current_at_line`).
-/

namespace JustfileServer

/-- How far the lines have been read: what they define, their problems, and the place of the open
recipe among the definitions, if there is one. -/
structure Reading where
  definitions : List Definition
  problems : List Problem
  current : Option Nat

namespace Reading

/-- Nothing has been read. -/
def start : Reading := ⟨[], [], none⟩

/-- Reads some commands, each with the number of its line: they go to the body of the open recipe,
or are stray when there is none. -/
def addCommands (r : Reading) (commands : List (Nat × Span)) : Reading :=
  match r.current with
  | some i =>
      { r with definitions := r.definitions.modify i (·.addCommands (commands.map Prod.snd)) }
  | none => { r with problems := r.problems ++ commands.map Outline.stray }

/-- Reads one more line, of the given number and form. -/
def addLine (number : Nat) (form : LineForm) (r : Reading) : Reading :=
  match form with
  | .ignored => r
  | .command span => r.addCommands [(number, span)]
  | .problem cause => ⟨r.definitions, r.problems ++ [⟨number, 0, cause⟩], none⟩
  | .definition d =>
      match d.kind with
      | .recipe => ⟨r.definitions ++ [d], r.problems, some r.definitions.length⟩
      | .assignment => ⟨r.definitions ++ [d], r.problems, none⟩

/-- Reads a run of lines from the top. -/
def addLines (r : Reading) (lines : List Line) : Reading :=
  lines.foldl (fun r line => r.addLine line.number (.ofLine line)) r

variable {r : Reading} {line header : Line} {lines : List Line}

theorem addLines_cons (r : Reading) (line : Line) (lines : List Line) :
    r.addLines (line :: lines) = (r.addLine line.number (.ofLine line)).addLines lines := rfl

theorem addLines_append (r : Reading) (before after : List Line) :
    r.addLines (before ++ after) = (r.addLines before).addLines after := List.foldl_append ..

/-! ## Commands -/

/-- Without an open recipe all commands are stray. -/
theorem addCommands_none (ds : List Definition) (ps : List Problem)
    (commands : List (Nat × Span)) :
    (⟨ds, ps, none⟩ : Reading).addCommands commands
      = ⟨ds, ps ++ commands.map Outline.stray, none⟩ := rfl

/-- Commands go to the last definition when the open recipe is that one. -/
theorem addCommands_last (ds : List Definition) (d : Definition) (ps : List Problem)
    (commands : List (Nat × Span)) :
    (⟨ds ++ [d], ps, some ds.length⟩ : Reading).addCommands commands
      = ⟨ds ++ [d.addCommands (commands.map Prod.snd)], ps, some ds.length⟩ := by
  have last : (ds ++ [d]).modify ds.length (·.addCommands (commands.map Prod.snd))
      = ds ++ [d.addCommands (commands.map Prod.snd)] :=
    List.modifyTailIdx_add _ 0 ds [d]
  simp only [addCommands, last]

theorem addCommands_nil (r : Reading) : r.addCommands [] = r := by
  obtain ⟨ds, ps, current⟩ := r
  cases current with
  | none => rw [addCommands_none, List.map_nil, List.append_nil]
  | some i =>
      have same : (fun d : Definition => d.addCommands []) = id := funext Definition.addCommands_nil
      show (⟨ds.modify i (fun d => d.addCommands []), ps, some i⟩ : Reading) = _
      rw [same, List.modify_id]

theorem addCommands_append (r : Reading) (first later : List (Nat × Span)) :
    r.addCommands (first ++ later) = (r.addCommands first).addCommands later := by
  obtain ⟨ds, ps, current⟩ := r
  cases current with
  | none => simp only [addCommands_none, List.map_append, List.append_assoc]
  | some i =>
      have both : (fun d : Definition => d.addCommands ((first ++ later).map Prod.snd))
          = (·.addCommands (later.map Prod.snd)) ∘ (·.addCommands (first.map Prod.snd)) := by
        funext d
        rw [List.map_append, Definition.addCommands_append]
        rfl
      simp only [addCommands, both, List.modify_modify_eq]

/-! ## From the top and from the bottom -/

/-- All definitions and problems, when lines of this outline remain below what has been read. -/
def above (r : Reading) (o : Outline) : List Definition × List Problem :=
  ((r.addCommands o.leading).definitions ++ o.definitions,
    (r.addCommands o.leading).problems ++ o.problems)

theorem above_of_nil (r : Reading) (ds : List Definition) (ps : List Problem) :
    r.above ⟨[], ds, ps⟩ = (r.definitions ++ ds, r.problems ++ ps) := by
  simp only [above, addCommands_nil]

theorem above_none (ds : List Definition) (ps : List Problem) (o : Outline) :
    (⟨ds, ps, none⟩ : Reading).above o = (ds ++ o.definitions, ps ++ o.allProblems) := by
  rw [above, addCommands_none, Outline.allProblems, List.append_assoc]

/-- **A line counts the same** among those that have been read and among those that remain. -/
theorem above_addLine (number : Nat) (form : LineForm) (r : Reading) (o : Outline) :
    (r.addLine number form).above o = r.above (o.addLine number form) := by
  cases form with
  | ignored => rfl
  | command span =>
      show (r.addCommands [(number, span)]).above o
        = r.above { o with leading := (number, span) :: o.leading }
      simp only [above]
      rw [← addCommands_append, List.singleton_append]
  | problem cause =>
      show (⟨r.definitions, r.problems ++ [⟨number, 0, cause⟩], none⟩ : Reading).above o
        = r.above ⟨[], o.definitions, ⟨number, 0, cause⟩ :: o.allProblems⟩
      rw [above_none, above_of_nil, List.append_assoc, List.singleton_append]
  | definition d =>
      unfold addLine Outline.addLine
      dsimp only
      cases d.kind with
      | recipe =>
          -- read from the top, the recipe is reached at the place where it has just been put
          dsimp only
          rw [above, addCommands_last, above_of_nil, List.append_assoc, List.singleton_append]
      | assignment =>
          dsimp only
          rw [above_none, above_of_nil, List.append_assoc, List.singleton_append]

theorem above_addLines (r : Reading) (lines : List Line) (o : Outline) :
    (r.addLines lines).above o = r.above (Outline.under lines o) := by
  induction lines generalizing r with
  | nil => rfl
  | cons line lines ih =>
      rw [addLines_cons, ih, above_addLine]
      rfl

/-- **Reading from the top gives what the outline says.** -/
theorem addLines_start (lines : List Line) :
    (start.addLines lines).definitions = (Outline.ofLines lines).definitions ∧
      (start.addLines lines).problems = (Outline.ofLines lines).allProblems := by
  have same := above_addLines start lines Outline.empty
  rw [Outline.empty, above_of_nil, List.append_nil, List.append_nil, start, above_none] at same
  exact Prod.mk.inj same

/-! ## The open recipe -/

/-- The recipe of this header is open: it is the last definition, and commands go to its place. -/
def HasOpen (r : Reading) (header : Line) : Prop :=
  ∃ ds d, r.definitions = ds ++ [d] ∧ r.current = some ds.length ∧ d.kind = .recipe ∧
    d.line = header.number

theorem current_addCommands (r : Reading) (commands : List (Nat × Span)) :
    (r.addCommands commands).current = r.current := by
  obtain ⟨ds, ps, current⟩ := r
  cases current <;> rfl

/-- The header of a recipe opens it. -/
theorem hasOpen_addLine (r : Reading) (role : HasRole header.bytes (.definition .recipe)) :
    (r.addLine header.number (.ofLine header)).HasOpen header := by
  obtain ⟨d, form, kind⟩ := LineForm.exists_definition role
  refine ⟨r.definitions, d, ?_, ?_, kind, LineForm.line_of_definition form⟩
  · simp only [form, addLine, kind]
  · simp only [form, addLine, kind]

/-- Any other line that is not passed over closes what was open. -/
theorem current_addLine_eq_none (r : Reading) (stops : ¬ line.IsPassedOver)
    (barren : ¬ HasRole line.bytes (.definition .recipe)) :
    (r.addLine line.number (.ofLine line)).current = none := by
  rw [Line.isPassedOver_iff] at stops
  rw [hasRole_iff] at barren
  cases form : LineForm.ofLine line with
  | ignored => exact absurd (.inl form) stops
  | command span =>
      obtain rfl := LineForm.eq_span_of_command form
      exact absurd (.inr form) stops
  | problem cause => rfl
  | definition d =>
      cases kind : d.kind with
      | recipe => exact absurd (by rw [form, LineForm.role, kind]) barren
      | assignment => simp only [addLine, kind]

theorem current_addLine_of_isPassedOver (r : Reading) (passed : line.IsPassedOver) :
    (r.addLine line.number (.ofLine line)).current = r.current := by
  rcases Line.isPassedOver_iff.1 passed with form | form
  · rw [form]
    rfl
  · rw [form]
    exact current_addCommands ..

/-- An open recipe stays open while lines are passed over; at most its body grows. -/
theorem HasOpen.addLine (h : r.HasOpen header) (passed : line.IsPassedOver) :
    (r.addLine line.number (.ofLine line)).HasOpen header := by
  rcases Line.isPassedOver_iff.1 passed with form | form
  · rw [form]
    exact h
  · obtain ⟨ds, ps, current⟩ := r
    obtain ⟨others, d, rfl, rfl, recipe, number⟩ := h
    rw [form]
    show ((⟨others ++ [d], ps, some others.length⟩ : Reading).addCommands _).HasOpen header
    rw [addCommands_last]
    exact ⟨others, _, rfl, rfl, by simpa using recipe, by simpa using number⟩

theorem current_addLines_of_isPassedOver (r : Reading)
    (passed : ∀ line ∈ lines, line.IsPassedOver) : (r.addLines lines).current = r.current := by
  induction lines generalizing r with
  | nil => rfl
  | cons line lines ih =>
      rw [List.forall_mem_cons] at passed
      rw [addLines_cons, ih _ passed.2, current_addLine_of_isPassedOver r passed.1]

theorem HasOpen.addLines (h : r.HasOpen header) (passed : ∀ line ∈ lines, line.IsPassedOver) :
    (r.addLines lines).HasOpen header := by
  induction lines generalizing r with
  | nil => exact h
  | cons line lines ih =>
      rw [List.forall_mem_cons] at passed
      exact ih (h.addLine passed.1) passed.2

end Reading

namespace Justfile

/-- **A justfile is what is read from the top of its text.** -/
theorem ofText_eq_addLines (text : Text) :
    let r := Reading.start.addLines (linesOf (Utf8.encode text))
    (ofText text).definitions = r.definitions ∧ (ofText text).problems = r.problems := by
  obtain ⟨definitions, problems⟩ := Reading.addLines_start (linesOf (Utf8.encode text))
  exact ⟨definitions.symm, problems.symm⟩

/-- **What is open when the reading comes to a line** is the recipe that heads the line, and nothing
is open when none does. -/
theorem current_at_line {text : Text} {line : Line} {before after : List Line}
    (cut : linesOf (Utf8.encode text) = before ++ line :: after) :
    (∀ owner, (ofText text).Heads owner line → (Reading.start.addLines before).HasOpen owner) ∧
      ((¬ ∃ owner, (ofText text).Heads owner line) →
        (Reading.start.addLines before).current = none) := by
  obtain ⟨above, below⟩ := precedes_of_cut cut
  rcases Line.split_at_last before with passed | ⟨top, nearest, between, rfl, stops, passed⟩
  · constructor
    · intro owner heads
      exact absurd heads.nearest (not_nearest cut above below passed)
    · intro _
      exact Reading.current_addLines_of_isPassedOver _ passed
  have found := nearest_of_cut cut above below stops passed
  rw [Reading.addLines_append, Reading.addLines_cons]
  constructor
  · intro owner heads
    obtain rfl := heads.nearest.unique found
    exact (Reading.hasOpen_addLine _ heads.header).addLines passed
  · intro unowned
    have barren : ¬ HasRole nearest.bytes (.definition .recipe) := by
      intro header
      exact unowned ⟨nearest, found, header⟩
    rw [Reading.current_addLines_of_isPassedOver _ passed]
    exact Reading.current_addLine_eq_none _ stops barren

end Justfile

end JustfileServer
