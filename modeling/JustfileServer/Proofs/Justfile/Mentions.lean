import JustfileServer.Proofs.Justfile.Runs

/-!
# What a justfile lists for a line

A line is mentioned by the definitions and problems that have its number, and by the commands that
share a place with it.  Every line is accounted for exactly once (`mentions_each_line`): an ignored
line is not mentioned at all, and any other line has a single mention, which is of the kind that
its role asks for.

The proof cuts the lines at the one in question.  Lines above and below mention others only
(`IsAbout.isQuiet`), so the single mention is what the line itself adds to the outline, or for a
command what becomes of it above.
-/

namespace JustfileServer

/-- Something that a justfile lists for a line. -/
inductive Mention
  /-- A definition, which has the number of the line. -/
  | definition (d : Definition)
  /-- One of the command lines of a recipe. -/
  | command (owner : Definition) (span : Span)
  /-- A problem, which has the number of the line. -/
  | problem (p : Problem)

/-- Does a span share a place with a line?  The newline behind the line is one of its places. -/
def Span.meets (s : Span) (line : Line) : Bool := s.first ≤ line.stop && line.start ≤ s.last

/-- The mentions of a line in a definition. -/
def Definition.mentions (d : Definition) (line : Line) : List Mention :=
  (if d.line = line.number then [.definition d] else []) ++
    (d.commands.filter (·.meets line)).map (.command d)

/-- The mentions of a line in a problem. -/
def Problem.mentions (p : Problem) (line : Line) : List Mention :=
  if p.line = line.number then [.problem p] else []

/-- All mentions of a line, those in definitions first. -/
def Justfile.mentions (j : Justfile) (line : Line) : List Mention :=
  j.definitions.flatMap (·.mentions line) ++ j.problems.flatMap (·.mentions line)

/-- A justfile has a line of this number in this place, with these bytes. -/
structure Justfile.IsLine (j : Justfile) (line : Line) : Prop where
  bounds : j.lineBounds? line.number = some (line.start, line.stop)
  bytes : j.lineBytes? line.number = some line.bytes

/-- **What is listed for a line of a role.**  A command is listed as the whole line. -/
def LineRole.Listed (line : Line) (mentions : List Mention) : LineRole → Prop
  | .ignored => mentions = []
  | .definition kind =>
      ∃ d, d.kind = kind ∧ d.line = line.number ∧ mentions = [.definition d]
  | .command =>
      (∃ d, d.kind = .recipe ∧ mentions = [.command d ⟨line.start, line.stop - 1⟩]) ∨
        mentions = [.problem ⟨line.number, 0, .strayCommand⟩]
  | .problem cause => mentions = [.problem ⟨line.number, 0, cause⟩]

variable {line : Line}

/-! ## Spans of lines -/

theorem Line.span_eq (line : Line) : line.span = ⟨line.start, line.stop - 1⟩ := by
  simp [span, stop, Span.ofLength]

/-- Lines that come one after the other have no place in common. -/
theorem Line.Precedes.meets_eq_false {a b : Line} (h : a.Precedes b ∨ b.Precedes a) :
    a.span.meets b = false := by
  rw [span_eq, Span.meets, Bool.and_eq_false_iff, decide_eq_false_iff_not, decide_eq_false_iff_not]
  dsimp only
  rcases h with before | behind
  · have := before.start
    omega
  · have := behind.start
    omega

/-- A line that is not empty shares its places with itself. -/
theorem Line.meets_span (h : line.bytes ≠ []) : line.span.meets line = true := by
  have filled : 0 < line.bytes.length := List.length_pos_iff.2 h
  rw [span_eq, Span.meets, Bool.and_eq_true, decide_eq_true_iff, decide_eq_true_iff]
  dsimp only [Line.stop]
  omega

/-- A command is not an empty line. -/
theorem LineForm.bytes_ne_nil_of_command (h : LineForm.ofLine line = .command line.span) :
    line.bytes ≠ [] := by
  intro empty
  have silent : SaysNothing line.bytes := by
    rw [empty]
    exact .inl rfl
  rw [LineForm.ofLine, if_pos (LineForm.isIgnored_iff.2 silent)] at h
  cases h

/-- A line whose role is to define something is read as a definition of it. -/
theorem LineForm.exists_definition {kind : DefinitionKind}
    (h : HasRole line.bytes (.definition kind)) :
    ∃ d, LineForm.ofLine line = .definition d ∧ d.kind = kind := by
  have role := hasRole_iff.1 h
  cases form : LineForm.ofLine line with
  | definition d =>
      rw [form] at role
      exact ⟨d, rfl, by cases role; rfl⟩
  | ignored => rw [form] at role; cases role
  | command span => rw [form] at role; cases role
  | problem cause => rw [form] at role; cases role

/-! ## Outlines of other lines -/

namespace Outline

variable {o : Outline} {lines before after : List Line}

/-- All mentions of a line in an outline that nothing stands above. -/
def mentions (o : Outline) (line : Line) : List Mention :=
  o.definitions.flatMap (·.mentions line) ++ o.allProblems.flatMap (·.mentions line)

/-- Nothing in an outline mentions the line, and its leading commands do not either. -/
structure IsQuiet (o : Outline) (line : Line) : Prop where
  definitions : o.definitions.flatMap (·.mentions line) = []
  commands : (o.leading.map Prod.snd).filter (·.meets line) = []
  stray : (o.leading.map stray).flatMap (·.mentions line) = []
  problems : o.problems.flatMap (·.mentions line) = []

theorem IsQuiet.allProblems (h : o.IsQuiet line) :
    o.allProblems.flatMap (·.mentions line) = [] := by
  rw [Outline.allProblems, List.flatMap_append, h.stray, h.problems]
  rfl

/-- The outline of lines before and behind a line does not mention it. -/
theorem IsAbout.isQuiet (about : o.IsAbout lines)
    (apart : ∀ l ∈ lines, l.Precedes line ∨ line.Precedes l) : o.IsQuiet line := by
  have numbers {n : Nat} (h : n ∈ lines.map Line.number) : n ≠ line.number := by
    obtain ⟨l, hl, rfl⟩ := List.mem_map.1 h
    rcases apart l hl with before | behind
    · exact Nat.ne_of_lt before.number
    · exact Nat.ne_of_gt behind.number
  have spans {cs : List Span} (h : cs.Sublist ((commandsIn lines).map Line.span)) :
      cs.filter (·.meets line) = [] := by
    rw [List.filter_eq_nil_iff]
    intro s hs
    obtain ⟨l, hl, rfl⟩ := List.mem_map.1 (h.subset hs)
    rw [Line.Precedes.meets_eq_false (apart l (mem_commandsIn.1 hl).1)]
    exact Bool.false_ne_true
  have problem {p : Problem} (h : p ∈ o.allProblems) : p.mentions line = [] :=
    if_neg (numbers (about.problems.subset (List.mem_map_of_mem h)))
  refine ⟨?_, spans about.leading, ?_, ?_⟩
  · rw [List.flatMap_eq_nil_iff]
    intro d hd
    rw [Definition.mentions, spans (about.commands d hd),
      if_neg (numbers (about.definitions.subset (List.mem_map_of_mem hd)))]
    rfl
  · exact List.flatMap_eq_nil_iff.2 fun p hp => problem (List.mem_append_left _ hp)
  · exact List.flatMap_eq_nil_iff.2 fun p hp => problem (List.mem_append_right _ hp)

theorem isQuiet_ofLines (line : Line) (apart : ∀ l ∈ lines, l.Precedes line ∨ line.Precedes l) :
    (ofLines lines).IsQuiet line := (isAbout_ofLines lines).isQuiet apart

/-- Lines above do not matter to what mentions a line, once nothing leads any more. -/
theorem mentions_under (above : ∀ l ∈ before, l.Precedes line) (h : o.leading = []) :
    (under before o).mentions line = o.mentions line := by
  have quiet := isQuiet_ofLines line fun l hl => .inl (above l hl)
  have whole : o.allProblems = o.problems := by
    rw [allProblems, h]
    rfl
  rw [under_of_leading_eq_nil before h, mentions, mentions, allProblems_append, append,
    List.flatMap_append, List.flatMap_append, quiet.definitions, quiet.allProblems, whole]
  rfl

/-! ## The line in question -/

/-- **An ignored line** is not mentioned. -/
theorem mentions_ignored (form : LineForm.ofLine line = .ignored)
    (above : ∀ l ∈ before, l.Precedes line) (below : ∀ l ∈ after, line.Precedes l) :
    (ofLines (before ++ line :: after)).mentions line = [] := by
  have quiet : (ofLines (before ++ after)).IsQuiet line := by
    refine isQuiet_ofLines line fun l hl => ?_
    exact (List.mem_append.1 hl).imp (above l) (below l)
  rw [ofLines_append, ofLines_cons, form]
  show (under before (ofLines after)).mentions line = []
  rw [← ofLines_append, mentions, quiet.definitions, quiet.allProblems]
  rfl

/-- **A definition** is what mentions its line. -/
theorem mentions_definition {d : Definition} (form : LineForm.ofLine line = .definition d)
    (above : ∀ l ∈ before, l.Precedes line) (below : ∀ l ∈ after, line.Precedes l) :
    ∃ e, e.kind = d.kind ∧ e.line = line.number ∧
      (ofLines (before ++ line :: after)).mentions line = [.definition e] := by
  have quiet := isQuiet_ofLines line fun l hl => .inr (below l hl)
  have number := LineForm.line_of_definition form
  have none := LineForm.commands_of_definition form
  have stops : ¬ line.IsPassedOver := by
    rw [Line.isPassedOver_iff, form]
    simp
  rw [ofLines_append, ofLines_cons, mentions_under above (leading_addLine stops _), form]
  unfold addLine
  dsimp only
  cases kind : d.kind with
  | recipe =>
      refine ⟨d.addCommands ((ofLines after).leading.map Prod.snd), by simp [kind],
        by simp [number], ?_⟩
      have commands := Definition.commands_addCommands kind ((ofLines after).leading.map Prod.snd)
      rw [none, List.nil_append] at commands
      rw [mentions, allProblems_nil, quiet.problems, List.flatMap_cons, quiet.definitions,
        Definition.mentions, commands, quiet.commands, Definition.line_addCommands, if_pos number]
      rfl
  | assignment =>
      refine ⟨d, kind, number, ?_⟩
      rw [mentions, allProblems_nil, quiet.allProblems, List.flatMap_cons, quiet.definitions,
        Definition.mentions, none, if_pos number]
      rfl

/-- **A problem** of a line by itself is what mentions it. -/
theorem mentions_problem {cause : ProblemCause} (form : LineForm.ofLine line = .problem cause)
    (above : ∀ l ∈ before, l.Precedes line) (below : ∀ l ∈ after, line.Precedes l) :
    (ofLines (before ++ line :: after)).mentions line = [.problem ⟨line.number, 0, cause⟩] := by
  have quiet := isQuiet_ofLines line fun l hl => .inr (below l hl)
  have stops : ¬ line.IsPassedOver := by
    rw [Line.isPassedOver_iff, form]
    simp
  rw [ofLines_append, ofLines_cons, mentions_under above (leading_addLine stops _), form]
  unfold addLine
  dsimp only
  rw [mentions, allProblems_nil, quiet.definitions, List.flatMap_cons, quiet.allProblems,
    Problem.mentions, if_pos rfl]
  rfl

/-! ## Commands -/

/-- Around a command only it is the line, of all leading commands. -/
theorem stray_leading {m z : Outline} (hm : m.IsQuiet line) (hz : z.IsQuiet line) :
    ((m.leading ++ (line.number, line.span) :: z.leading).map stray).flatMap (·.mentions line)
      = [.problem ⟨line.number, 0, .strayCommand⟩] := by
  have here : (stray (line.number, line.span)).mentions line
      = [.problem ⟨line.number, 0, .strayCommand⟩] := if_pos rfl
  rw [List.map_append, List.map_cons, List.flatMap_append, List.flatMap_cons, hm.stray, hz.stray,
    here]
  rfl

theorem commands_leading {m z : Outline} (hm : m.IsQuiet line) (hz : z.IsQuiet line)
    (filled : line.bytes ≠ []) :
    ((m.leading ++ (line.number, line.span) :: z.leading).map Prod.snd).filter (·.meets line)
      = [line.span] := by
  rw [List.map_append, List.map_cons, List.filter_append, List.filter_cons,
    if_pos (Line.meets_span filled), hm.commands, hz.commands]
  rfl

/-- A command under lines that are passed over is one of the leading commands. -/
theorem ofLines_command (form : LineForm.ofLine line = .command line.span)
    (passed : ∀ l ∈ before, l.IsPassedOver) :
    ofLines (before ++ line :: after)
      = ⟨(ofLines before).leading ++ (line.number, line.span) :: (ofLines after).leading,
          (ofLines after).definitions, (ofLines after).problems⟩ := by
  rw [ofLines_append, under_of_passedOver _ passed, ofLines_cons, form]
  rfl

/-- **A command with nothing above it** that is not passed over is stray. -/
theorem mentions_command_alone (form : LineForm.ofLine line = .command line.span)
    (passed : ∀ l ∈ before, l.IsPassedOver) (above : ∀ l ∈ before, l.Precedes line)
    (below : ∀ l ∈ after, line.Precedes l) :
    (ofLines (before ++ line :: after)).mentions line
      = [.problem ⟨line.number, 0, .strayCommand⟩] := by
  have quietAbove := isQuiet_ofLines line fun l hl => .inl (above l hl)
  have quietBelow := isQuiet_ofLines line fun l hl => .inr (below l hl)
  rw [ofLines_command form passed, mentions, allProblems, List.flatMap_append,
    quietBelow.definitions, stray_leading quietAbove quietBelow, quietBelow.problems]
  rfl

section Under

variable {top between : List Line} {owner : Line}

/-- What mentions a command is settled by the line above it that is not passed over. -/
theorem mentions_command_under (stops : ¬ owner.IsPassedOver)
    (above : ∀ l ∈ top ++ owner :: between, l.Precedes line) :
    (ofLines ((top ++ owner :: between) ++ line :: after)).mentions line
      = ((ofLines (between ++ line :: after)).addLine owner.number (.ofLine owner)).mentions
          line := by
  rw [List.append_assoc, ofLines_append, List.cons_append, ofLines_cons,
    mentions_under (fun l hl => above l (List.mem_append_left _ hl)) (leading_addLine stops _)]

/-- **A command under a recipe** is in the body of the recipe. -/
theorem mentions_command_owned {d : Definition} (form : LineForm.ofLine line = .command line.span)
    (heads : LineForm.ofLine owner = .definition d) (recipe : d.kind = .recipe)
    (passed : ∀ l ∈ between, l.IsPassedOver)
    (above : ∀ l ∈ top ++ owner :: between, l.Precedes line)
    (below : ∀ l ∈ after, line.Precedes l) :
    ∃ e, e.kind = .recipe ∧ e.line = owner.number ∧
      (ofLines ((top ++ owner :: between) ++ line :: after)).mentions line
        = [.command e ⟨line.start, line.stop - 1⟩] := by
  have quietAbove : (ofLines between).IsQuiet line :=
    isQuiet_ofLines line fun l hl => .inl (above l (by simp [hl]))
  have quietBelow := isQuiet_ofLines line fun l hl => .inr (below l hl)
  have stops : ¬ owner.IsPassedOver := by
    rw [Line.isPassedOver_iff, heads]
    simp
  have number := LineForm.line_of_definition heads
  have elsewhere : owner.number ≠ line.number := Nat.ne_of_lt (above owner (by simp)).number
  let body :=
    ((ofLines between).leading ++ (line.number, line.span) :: (ofLines after).leading).map Prod.snd
  have commands : (d.addCommands body).commands.filter (·.meets line) = [line.span] := by
    rw [Definition.commands_addCommands recipe, LineForm.commands_of_definition heads,
      List.nil_append]
    exact commands_leading quietAbove quietBelow (LineForm.bytes_ne_nil_of_command form)
  refine ⟨d.addCommands body, by simp [recipe], by simp [number], ?_⟩
  rw [mentions_command_under stops above, ofLines_command form passed, heads]
  unfold addLine
  dsimp only
  rw [recipe]
  dsimp only
  rw [mentions, allProblems_nil, quietBelow.problems, List.flatMap_cons, quietBelow.definitions,
    Definition.mentions, commands, Definition.line_addCommands, number, if_neg elsewhere,
    Line.span_eq]
  rfl

/-- **A command under any other line** is stray: assignments and problems have no commands. -/
theorem mentions_command_unowned (form : LineForm.ofLine line = .command line.span)
    (stops : ¬ owner.IsPassedOver) (barren : ¬ HasRole owner.bytes (.definition .recipe))
    (passed : ∀ l ∈ between, l.IsPassedOver)
    (above : ∀ l ∈ top ++ owner :: between, l.Precedes line)
    (below : ∀ l ∈ after, line.Precedes l) :
    (ofLines ((top ++ owner :: between) ++ line :: after)).mentions line
      = [.problem ⟨line.number, 0, .strayCommand⟩] := by
  have quietAbove : (ofLines between).IsQuiet line :=
    isQuiet_ofLines line fun l hl => .inl (above l (by simp [hl]))
  have quietBelow := isQuiet_ofLines line fun l hl => .inr (below l hl)
  have elsewhere : owner.number ≠ line.number := Nat.ne_of_lt (above owner (by simp)).number
  have stray := stray_leading quietAbove quietBelow
  rw [hasRole_iff] at barren
  rw [mentions_command_under stops above, ofLines_command form passed]
  rw [Line.isPassedOver_iff] at stops
  cases heads : LineForm.ofLine owner with
  | ignored => exact absurd (.inl heads) stops
  | command s =>
      obtain rfl := LineForm.eq_span_of_command heads
      exact absurd (.inr heads) stops
  | definition d =>
      have number := LineForm.line_of_definition heads
      have none := LineForm.commands_of_definition heads
      have assignment : d.kind = .assignment := by
        cases kind : d.kind with
        | assignment => rfl
        | recipe =>
            rw [heads, LineForm.role, kind] at barren
            exact absurd rfl barren
      unfold addLine
      dsimp only
      rw [assignment]
      dsimp only
      rw [mentions, allProblems_nil, allProblems, List.flatMap_append, stray, quietBelow.problems,
        List.flatMap_cons, quietBelow.definitions, Definition.mentions, none, number,
        if_neg elsewhere]
      rfl
  | problem cause =>
      unfold addLine
      dsimp only
      rw [mentions, allProblems_nil, List.flatMap_cons, allProblems, List.flatMap_append, stray,
        quietBelow.problems, quietBelow.definitions, Problem.mentions, if_neg elsewhere]
      rfl

end Under

/-- What mentions a command, whatever stands above it. -/
theorem listed_command (form : LineForm.ofLine line = .command line.span)
    (above : ∀ l ∈ before, l.Precedes line) (below : ∀ l ∈ after, line.Precedes l) :
    LineRole.command.Listed line ((ofLines (before ++ line :: after)).mentions line) := by
  rcases Line.split_at_last before with passed | ⟨top, owner, between, rfl, stops, passed⟩
  · exact .inr (mentions_command_alone form passed above below)
  by_cases heads : HasRole owner.bytes (.definition .recipe)
  · obtain ⟨d, ownerForm, recipe⟩ := LineForm.exists_definition heads
    obtain ⟨e, kind, -, mentions⟩ :=
      mentions_command_owned form ownerForm recipe passed above below
    exact .inl ⟨e, kind, mentions⟩
  · exact .inr (mentions_command_unowned form stops heads passed above below)

/-- What mentions a line of any form is what its role asks for. -/
theorem listed_role (above : ∀ l ∈ before, l.Precedes line) (below : ∀ l ∈ after, line.Precedes l) :
    (LineForm.ofLine line).role.Listed line
      ((ofLines (before ++ line :: after)).mentions line) := by
  cases form : LineForm.ofLine line with
  | ignored => exact mentions_ignored form above below
  | definition d =>
      obtain ⟨e, kind, number, mentions⟩ := mentions_definition form above below
      exact ⟨e, kind, number, mentions⟩
  | command span =>
      obtain rfl := LineForm.eq_span_of_command form
      exact listed_command form above below
  | problem cause => exact mentions_problem form above below

end Outline

/-! ## Lines of a justfile -/

/-- Where a buffer is cut at one of its lines, the others are before it or behind it. -/
theorem precedes_of_cut {data : Bytes} {before after : List Line}
    (cut : linesOf data = before ++ line :: after) :
    (∀ l ∈ before, l.Precedes line) ∧ ∀ l ∈ after, line.Precedes l := by
  have ordered := pairwise_precedes_linesOf data
  rw [cut, List.pairwise_append, List.pairwise_cons] at ordered
  obtain ⟨-, ⟨below, -⟩, above⟩ := ordered
  exact ⟨fun l hl => above l hl line (List.mem_cons_self ..), below⟩

theorem exists_cut_of_mem_linesOf {data : Bytes} (h : line ∈ linesOf data) :
    ∃ before after, linesOf data = before ++ line :: after ∧
      (∀ l ∈ before, l.Precedes line) ∧ ∀ l ∈ after, line.Precedes l := by
  obtain ⟨before, after, cut⟩ := List.append_of_mem h
  exact ⟨before, after, cut, precedes_of_cut cut⟩

namespace Justfile

variable {text : Text}

/-- The lines of a justfile are those at which its bytes are cut. -/
theorem isLine_iff : (ofText text).IsLine line ↔ line ∈ linesOf (Utf8.encode text) := by
  have table : (ofText text).lineBounds? line.number
      = (linesOf (Utf8.encode text))[line.number]?.map fun l => (l.start, l.stop) :=
    lineBounds?_eq ..
  have contents : (ofText text).lineBytes? line.number
      = (linesOf (Utf8.encode text))[line.number]?.map Line.bytes := lineBytes?_eq ..
  constructor
  · rintro ⟨bounds, bytes⟩
    rw [table] at bounds
    rw [contents] at bytes
    obtain ⟨l, found, here⟩ := Option.map_eq_some_iff.1 bounds
    rw [found, Option.map_some, Option.some.injEq] at bytes
    have same : l = line := by
      obtain ⟨number, start, rest⟩ := line
      obtain ⟨otherNumber, otherStart, otherRest⟩ := l
      obtain rfl : otherNumber = number := number_of_linesOf found
      obtain rfl : otherStart = start := congrArg Prod.fst here
      obtain rfl : otherRest = rest := bytes
      rfl
    exact same ▸ List.mem_of_getElem? found
  · intro h
    have found := getElem?_number_of_mem h
    exact ⟨by rw [table, found]; rfl, by rw [contents, found]; rfl⟩

/-- There is a line for each entry of the table, and for no other number. -/
theorem exists_isLine_iff {i : Nat} :
    (∃ line, line.number = i ∧ (ofText text).IsLine line) ↔ i < (ofText text).lineStarts.length := by
  have length : (ofText text).lineStarts.length = (linesOf (Utf8.encode text)).length := by
    show (JustfileServer.lineStarts _).length = _
    rw [lineStarts_eq, List.length_map]
  rw [length]
  constructor
  · rintro ⟨line, rfl, h⟩
    exact (List.getElem?_eq_some_iff.1 (getElem?_number_of_mem (isLine_iff.1 h))).1
  · intro h
    have found := List.getElem?_eq_getElem h
    exact ⟨_, number_of_linesOf found, isLine_iff.2 (List.mem_of_getElem? found)⟩

theorem pairwise_definitions (text : Text) :
    ((ofText text).definitions.map Definition.line).Pairwise (· < ·) :=
  (pairwise_number_linesOf _).sublist (Outline.isAbout_ofLines _).definitions

theorem pairwise_problems (text : Text) :
    ((ofText text).problems.map Problem.line).Pairwise (· < ·) :=
  (pairwise_number_linesOf _).sublist (Outline.isAbout_ofLines _).problems

/-- **Every line is accounted for exactly once.**  A line has one role, and the only mention of it
is what that role asks for; definitions and problems are listed from the top down. -/
theorem mentions_each_line (text : Text) :
    (∀ i < (ofText text).lineStarts.length, ∃ line role,
      line.number = i ∧ (ofText text).IsLine line ∧
      (∀ other, HasRole line.bytes other ↔ other = role) ∧
      role.Listed line ((ofText text).mentions line)) ∧
    ((ofText text).definitions.map Definition.line).Pairwise (· < ·) ∧
    ((ofText text).problems.map Problem.line).Pairwise (· < ·) := by
  refine ⟨?_, pairwise_definitions text, pairwise_problems text⟩
  intro i hi
  obtain ⟨line, number, isLine⟩ := exists_isLine_iff.2 hi
  obtain ⟨before, after, cut, above, below⟩ := exists_cut_of_mem_linesOf (isLine_iff.1 isLine)
  have listed := Outline.listed_role above below
  rw [← cut] at listed
  exact ⟨line, _, number, isLine, fun _ => hasRole_iff, listed⟩

end Justfile

end JustfileServer
