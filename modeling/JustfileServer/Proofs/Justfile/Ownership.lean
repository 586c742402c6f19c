import Mathlib.Data.List.Nodup
import JustfileServer.Proofs.Justfile.Mentions

/-!
# The recipe that a command belongs to

A recipe is put together while the lines are gone through, but which recipe a command belongs to can
be said by looking back from the command alone: it is the one whose header is the nearest line above
that is not blank, a comment or another command.  When that line is no header of a recipe, or there
is none, the command is stray (`commands_belong`).
-/

namespace JustfileServer

namespace Justfile

/-- The nearest line above another one that is not passed over. -/
structure Nearest (j : Justfile) (owner line : Line) : Prop where
  isLine : j.IsLine owner
  above : owner.number < line.number
  stops : ¬ owner.IsPassedOver
  between : ∀ l, j.IsLine l → owner.number < l.number → l.number < line.number → l.IsPassedOver

/-- The nearest line above that is not passed over is the header of a recipe. -/
structure Heads (j : Justfile) (owner line : Line) : Prop where
  nearest : j.Nearest owner line
  header : HasRole owner.bytes (.definition .recipe)

variable {j : Justfile} {text : Text} {line owner other : Line} {d e : Definition}

/-! ## The nearest line -/

theorem Nearest.number_unique (a : j.Nearest owner line) (b : j.Nearest other line) :
    owner.number = other.number := by
  rcases Nat.lt_trichotomy owner.number other.number with lower | same | higher
  · exact absurd (a.between other b.isLine lower b.above) b.stops
  · exact same
  · exact absurd (b.between owner a.isLine higher a.above) a.stops

theorem Nearest.unique (a : (ofText text).Nearest owner line)
    (b : (ofText text).Nearest other line) : owner = other := by
  have here := getElem?_number_of_mem (isLine_iff.1 a.isLine)
  rw [a.number_unique b, getElem?_number_of_mem (isLine_iff.1 b.isLine)] at here
  exact (Option.some.inj here).symm

section Cut

variable {before after between : List Line}

/-- The lines with a smaller number are those above. -/
theorem mem_before_iff (cut : linesOf (Utf8.encode text) = before ++ line :: after)
    (above : ∀ l ∈ before, l.Precedes line) (below : ∀ l ∈ after, line.Precedes l) (l : Line) :
    l ∈ before ↔ (ofText text).IsLine l ∧ l.number < line.number := by
  rw [isLine_iff, cut]
  constructor
  · exact fun h => ⟨List.mem_append_left _ h, (above l h).number⟩
  · rintro ⟨h, lower⟩
    rcases List.mem_append.1 h with h | h
    · exact h
    rcases List.mem_cons.1 h with rfl | h
    · exact absurd lower (Nat.lt_irrefl _)
    · exact absurd lower (Nat.lt_asymm (below l h).number)

theorem not_nearest (cut : linesOf (Utf8.encode text) = before ++ line :: after)
    (above : ∀ l ∈ before, l.Precedes line) (below : ∀ l ∈ after, line.Precedes l)
    (passed : ∀ l ∈ before, l.IsPassedOver) : ¬ (ofText text).Nearest owner line := fun h =>
  h.stops (passed owner ((mem_before_iff cut above below owner).2 ⟨h.isLine, h.above⟩))

theorem nearest_of_cut
    (cut : linesOf (Utf8.encode text) = (before ++ owner :: between) ++ line :: after)
    (above : ∀ l ∈ before ++ owner :: between, l.Precedes line)
    (below : ∀ l ∈ after, line.Precedes l) (stops : ¬ owner.IsPassedOver)
    (passed : ∀ l ∈ between, l.IsPassedOver) : (ofText text).Nearest owner line := by
  have ordered := pairwise_precedes_linesOf (Utf8.encode text)
  rw [cut, List.append_assoc, List.cons_append, List.pairwise_append] at ordered
  obtain ⟨-, -, apart⟩ := ordered
  have member := mem_before_iff cut above below
  obtain ⟨isLine, lower⟩ := (member owner).1 (by simp)
  refine ⟨isLine, lower, stops, fun l hl behind front => ?_⟩
  rcases List.mem_append.1 ((member l).2 ⟨hl, front⟩) with h | h
  · have := (apart l h owner (by simp)).number
    omega
  rcases List.mem_cons.1 h with rfl | h
  · exact absurd behind (Nat.lt_irrefl _)
  · exact passed l h

end Cut

/-! ## Mentions and lists -/

theorem command_mem_mentions_iff {s : Span} :
    .command d s ∈ j.mentions line ↔
      d ∈ j.definitions ∧ s ∈ d.commands ∧ s.meets line = true := by
  have inDefinition (e : Definition) : .command d s ∈ e.mentions line ↔
      e = d ∧ s ∈ e.commands ∧ s.meets line = true := by
    rw [Definition.mentions]
    split <;> simp [List.mem_filter] <;> tauto
  have inProblem (p : Problem) : .command d s ∉ p.mentions line := by
    rw [Problem.mentions]
    split <;> simp
  simp [Justfile.mentions, inDefinition, inProblem]

theorem problem_mem_mentions_iff {p : Problem} (h : p.line = line.number) :
    .problem p ∈ j.mentions line ↔ p ∈ j.problems := by
  have inDefinition (e : Definition) : .problem p ∉ e.mentions line := by
    rw [Definition.mentions]
    split <;> simp
  have inProblem (q : Problem) : .problem p ∈ q.mentions line ↔ q = p ∧ q.line = line.number := by
    rw [Problem.mentions]
    split <;> simp_all [eq_comm]
  simp only [Justfile.mentions, List.mem_append, List.mem_flatMap, inDefinition, inProblem]
  constructor
  · rintro (⟨e, -, no⟩ | ⟨q, hq, rfl, -⟩)
    · exact no.elim
    · exact hq
  · exact fun hp => .inr ⟨p, hp, rfl, h⟩

theorem stray_mem_problems_iff : ⟨line.number, 0, .strayCommand⟩ ∈ j.problems ↔
    .problem ⟨line.number, 0, .strayCommand⟩ ∈ j.mentions line :=
  (problem_mem_mentions_iff rfl).symm

/-! ## Bodies -/

/-- There is one definition in a line. -/
theorem eq_of_line_eq (hd : d ∈ (ofText text).definitions) (he : e ∈ (ofText text).definitions)
    (same : d.line = e.line) : d = e := by
  have distinct : ((ofText text).definitions.map Definition.line).Nodup :=
    (pairwise_definitions text).imp Nat.ne_of_lt
  exact List.inj_on_of_nodup_map distinct hd he same

/-- The body of a recipe is made of command lines, from the top down. -/
theorem exists_owned (hd : d ∈ (ofText text).definitions) :
    ∃ owned : List Line, d.commands = owned.map Line.span ∧
      (∀ l ∈ owned, (ofText text).IsLine l ∧ HasRole l.bytes .command) ∧
      (owned.map Line.number).Pairwise (· < ·) := by
  have about := Outline.isAbout_ofLines (linesOf (Utf8.encode text))
  obtain ⟨owned, part, commands⟩ := List.sublist_map_iff.1 (about.commands d hd)
  refine ⟨owned, commands, ?_, ?_⟩
  · intro l hl
    obtain ⟨hl, role⟩ := Outline.mem_commandsIn.1 (part.subset hl)
    exact ⟨isLine_iff.2 hl, role⟩
  · have all : owned.Sublist (linesOf (Utf8.encode text)) := part.trans List.filter_sublist
    exact List.pairwise_map.2 (((pairwise_precedes_linesOf _).sublist all).imp Line.Precedes.number)

section Mentioned

variable (filled : line.bytes ≠ [])
include filled

/-- A command that is mentioned in the body of a recipe is in this body only. -/
theorem mem_commands_of_mentions
    (mentions : (ofText text).mentions line = [.command e line.span]) :
    e ∈ (ofText text).definitions ∧
      (∀ d ∈ (ofText text).definitions, line.span ∈ d.commands ↔ d = e) ∧
      ⟨line.number, 0, .strayCommand⟩ ∉ (ofText text).problems := by
  have body (d : Definition) : (d ∈ (ofText text).definitions ∧ line.span ∈ d.commands) ↔ d = e := by
    have listed : .command d line.span ∈ (ofText text).mentions line ↔ _ :=
      command_mem_mentions_iff
    rw [mentions] at listed
    simpa [Line.meets_span filled, eq_comm] using listed.symm
  refine ⟨((body e).2 rfl).1, fun d hd => by simpa [hd] using body d, ?_⟩
  rw [stray_mem_problems_iff, mentions]
  simp

/-- A command that is mentioned as stray is in no body. -/
theorem notMem_commands_of_mentions
    (mentions : (ofText text).mentions line = [.problem ⟨line.number, 0, .strayCommand⟩]) :
    (∀ d ∈ (ofText text).definitions, line.span ∉ d.commands) ∧
      ⟨line.number, 0, .strayCommand⟩ ∈ (ofText text).problems := by
  constructor
  · intro d hd inside
    have listed := command_mem_mentions_iff.2 ⟨hd, inside, Line.meets_span filled⟩
    rw [mentions] at listed
    simp at listed
  · rw [stray_mem_problems_iff, mentions]
    simp

end Mentioned

/-- A command under the header of a recipe is in the body of this recipe. -/
theorem mentions_of_heads (isLine : (ofText text).IsLine line)
    (form : LineForm.ofLine line = .command line.span) (heads : (ofText text).Heads owner line) :
    ∃ e, e.line = owner.number ∧ (ofText text).mentions line = [.command e line.span] := by
  obtain ⟨before, after, cut, above, below⟩ := exists_cut_of_mem_linesOf (isLine_iff.1 isLine)
  rcases Line.split_at_last before with passed | ⟨top, nearest, between, rfl, stops, passed⟩
  · exact absurd heads.nearest (not_nearest cut above below passed)
  obtain rfl := heads.nearest.unique (nearest_of_cut cut above below stops passed)
  obtain ⟨d, ownerForm, recipe⟩ := LineForm.exists_definition heads.header
  obtain ⟨e, -, number, mentions⟩ :=
    Outline.mentions_command_owned form ownerForm recipe passed above below
  rw [← cut, ← Line.span_eq] at mentions
  exact ⟨e, number, mentions⟩

/-- A command under no header of a recipe is stray. -/
theorem mentions_of_not_heads (isLine : (ofText text).IsLine line)
    (form : LineForm.ofLine line = .command line.span)
    (unowned : ¬ ∃ owner, (ofText text).Heads owner line) :
    (ofText text).mentions line = [.problem ⟨line.number, 0, .strayCommand⟩] := by
  obtain ⟨before, after, cut, above, below⟩ := exists_cut_of_mem_linesOf (isLine_iff.1 isLine)
  show (Outline.ofLines (linesOf _)).mentions line = _
  rw [cut]
  rcases Line.split_at_last before with passed | ⟨top, nearest, between, rfl, stops, passed⟩
  · exact Outline.mentions_command_alone form passed above below
  · have barren : ¬ HasRole nearest.bytes (.definition .recipe) := by
      intro header
      exact unowned ⟨nearest, nearest_of_cut cut above below stops passed, header⟩
    exact Outline.mentions_command_unowned form stops barren passed above below

/-- **Commands belong to the recipe above them.**  A command is in the body of the recipe whose
header is the nearest line above that is not passed over, and in no other; it is stray when there is
no such header.  A body is made of command lines from the top down. -/
theorem commands_belong (text : Text) :
    (∀ line, (ofText text).IsLine line → HasRole line.bytes .command →
      (∀ d ∈ (ofText text).definitions, line.span ∈ d.commands ↔
        ∃ owner, (ofText text).Heads owner line ∧ d.line = owner.number) ∧
      ((∃ d ∈ (ofText text).definitions, line.span ∈ d.commands) ↔
        ∃ owner, (ofText text).Heads owner line) ∧
      (⟨line.number, 0, .strayCommand⟩ ∈ (ofText text).problems ↔
        ¬ ∃ owner, (ofText text).Heads owner line)) ∧
    ∀ d ∈ (ofText text).definitions, ∃ owned : List Line, d.commands = owned.map Line.span ∧
      (∀ l ∈ owned, (ofText text).IsLine l ∧ HasRole l.bytes .command) ∧
      (owned.map Line.number).Pairwise (· < ·) := by
  refine ⟨fun line isLine role => ?_, fun d hd => exists_owned hd⟩
  have form := LineForm.eq_command_of_hasRole role
  have filled := LineForm.bytes_ne_nil_of_command form
  by_cases owned : ∃ owner, (ofText text).Heads owner line
  · obtain ⟨owner, heads⟩ := id owned
    obtain ⟨e, number, mentions⟩ := mentions_of_heads isLine form heads
    obtain ⟨he, body, notStray⟩ := mem_commands_of_mentions filled mentions
    have only {other : Line} (h : (ofText text).Heads other line) : other = owner :=
      h.nearest.unique heads.nearest
    refine ⟨fun d hd => ?_, iff_of_true ⟨e, he, (body e he).2 rfl⟩ owned,
      iff_of_false notStray (not_not_intro owned)⟩
    rw [body d hd]
    constructor
    · rintro rfl
      exact ⟨owner, heads, number⟩
    · rintro ⟨other, under, here⟩
      rw [only under, ← number] at here
      exact eq_of_line_eq hd he here
  · have mentions := mentions_of_not_heads isLine form owned
    obtain ⟨nowhere, stray⟩ := notMem_commands_of_mentions filled mentions
    refine ⟨fun d hd => iff_of_false (nowhere d hd) ?_, iff_of_false ?_ owned,
      iff_of_true stray owned⟩
    · rintro ⟨owner, heads, -⟩
      exact owned ⟨owner, heads⟩
    · rintro ⟨d, hd, inside⟩
      exact nowhere d hd inside

end Justfile

end JustfileServer
