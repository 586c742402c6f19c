import JustfileServer.Command.Report
import JustfileServer.Proofs.Justfile.Ownership
import JustfileServer.Proofs.Justfile.SpanTexts
import JustfileServer.Proofs.Justfile.Tally
import JustfileServer.Proofs.Text.Numerals
import JustfileServer.Proofs.Text.Trimming

/-!
# A report is a faithful account

The report on a file has one line for an assignment, two for a recipe and one for a problem, each
closed by a newline and with no other newline in it: what is shown of the file are texts of spans,
and no span goes beyond its line (`newline_notMem_text`).  Trimming a line takes nothing of its
fixed parts away, for the colon behind the name of a recipe is visible (`trimEnd_header`).

`IsAccount` says all that is promised of a report, with the lines that it is made of given by
`DescribedBy` and `problemLine`, and every report on a text is one (`isAccount_ofFile`).
-/

namespace JustfileServer

/-- The text has a line of this role under this number. -/
def HasLine (text : Text) (number : Nat) (role : LineRole) : Prop :=
  ∃ line, (text.splitOn .newline)[number]? = some line ∧ HasRole (Utf8.encode line) role

namespace Report

/-- **The lines about a definition.**  An assignment is shown with its value, without the white space
around it, and a recipe with its dependencies and the number of its commands. -/
inductive DescribedBy (path : Text) (data : Bytes) (d : Definition) : List Text → Prop
  | assignment {value : Option Span} : d.detail = .assignment value →
      DescribedBy path data d
        [place path d.line d.column ++ Text.ofString ": variable " ++ d.name.text data
          ++ Text.ofString " := " ++ (value.map fun s => Text.trim (s.text data)).getD []]
  | recipe {dependencies body : List Span} : d.detail = .recipe dependencies body →
      DescribedBy path data d
        [place path d.line d.column ++ Text.ofString ": recipe " ++ d.name.text data
          ++ .ofChar ':' ::
            Text.trimEnd (.ofChar ' ' :: Text.join " " (dependencies.map fun s => s.text data)),
          Text.ofString "    " ++ Numeral.decimal d.commands.length
            ++ Text.ofString " command line(s)"]

/-- The line about a problem. -/
def problemLine (path : Text) (p : Problem) : Text :=
  place path p.line p.column ++ Text.ofString ": error: " ++ p.cause.message

/-- **A faithful account of a text**: what a report on it shows, and how it ends. -/
structure IsAccount (path text : Text) (result : CommandResult) : Prop where
  /-- The definitions are shown in their order, each in its lines. -/
  output : ∃ blocks,
    List.Forall₂ (DescribedBy path (Justfile.ofText text).data) (Justfile.ofText text).definitions
      blocks ∧
    result.output.splitOn .newline = blocks.flatten ++ [[]]
  /-- The problems are shown in their order, each in one line. -/
  errors : result.errors.splitOn .newline
    = (Justfile.ofText text).problems.map (problemLine path) ++ [[]]
  /-- The order is that of the lines of the text. -/
  ordered : ((Justfile.ofText text).definitions.map Definition.line).Pairwise (· < ·) ∧
    ((Justfile.ofText text).problems.map Problem.line).Pairwise (· < ·)
  /-- A definition is on a line that is there to define it. -/
  definitions : ∀ d ∈ (Justfile.ofText text).definitions, HasLine text d.line (.definition d.kind)
  /-- A problem is on a line that is one, or on a command that no recipe has. -/
  problems : ∀ p ∈ (Justfile.ofText text).problems, HasLine text p.line (.problem p.cause) ∨
    p.cause = .strayCommand ∧ HasLine text p.line .command
  /-- The exit code tells whether there are problems. -/
  ending : result.ending = .ok (if (Justfile.ofText text).problems = [] then 0 else 1)
  /-- Every line that is neither blank nor a comment is counted once. -/
  complete : (Justfile.ofText text).definitions.length
      + ((Justfile.ofText text).definitions.map (·.commands.length)).sum
      + (Justfile.ofText text).problems.length
    = (text.splitOn .newline).countP fun line => ¬ SaysNothing (Utf8.encode line)

end Report

/-! ## One line each -/

section OneLine

variable {text path : Text} {s : Span} {d : Definition}

/-- No span of a justfile goes beyond its line. -/
theorem newline_notMem_bytes (h : s ∈ (Justfile.ofText text).spans) :
    Byte.newline ∉ s.bytes (Justfile.ofText text).data := by
  obtain ⟨line, onLine, spoken⟩ := Justfile.exists_line_of_mem_spans h
  obtain ⟨before, piece, after, setsOff⟩ := LineForm.exists_setsOff spoken
  have covered : s.bytes (Justfile.ofText text).data = piece := setsOff.bytes_eq onLine
  have cut : line.bytes ∈ splitLines (Utf8.encode text) := by
    rw [← map_bytes_placeLines 0 0 (splitLines _), ← linesOf]
    exact List.mem_map_of_mem onLine
  have clean := newline_notMem_of_mem_splitLines cut
  rw [covered]
  intro inside
  exact clean (by simp [setsOff.eq, inside])

/-- **No text of a span has a newline**, whatever the file holds. -/
theorem newline_notMem_text (h : s ∈ (Justfile.ofText text).spans) :
    CodePoint.newline ∉ s.text (Justfile.ofText text).data := by
  intro inside
  obtain ⟨b, here, same⟩ := Utf8.exists_byte_of_mem_decodeReplacing (by decide) inside
  obtain rfl : Byte.newline = b := CodePoint.ofByte_injective same
  exact newline_notMem_bytes h here

theorem newline_notMem_decimal (n : Nat) : CodePoint.newline ∉ Numeral.decimal n := by
  intro inside
  exact (Numeral.ascii_of_isDigit (Numeral.isDigit_of_mem_decimal inside)).2.2 rfl

theorem newline_notMem_message (cause : ProblemCause) : CodePoint.newline ∉ cause.message := by
  cases cause <;> decide

namespace Report

theorem newline_notMem_place (clean : CodePoint.newline ∉ path) (line column : Nat) :
    CodePoint.newline ∉ place path line column := by
  have colon : CodePoint.newline ∉ Text.ofString ":" := by decide
  simp [place, clean, colon, newline_notMem_decimal]

/-- The white space at the end of a header's line is taken away behind the colon only. -/
theorem trimEnd_header (start names : Text) :
    Text.trimEnd (start ++ Text.ofString ": " ++ names)
      = start ++ .ofChar ':' :: Text.trimEnd (.ofChar ' ' :: names) := by
  have colon : Text.ofString ": " = [.ofChar ':', .ofChar ' '] := rfl
  rw [List.append_assoc, colon]
  exact Text.trimEnd_append_cons (by decide) ..

/-- **What is said about a definition** is its lines, each closed by a newline. -/
theorem exists_describedBy (path : Text) (data : Bytes) (d : Definition) :
    ∃ block, DescribedBy path data d block ∧ definition path data d = block.flatMap outputLine := by
  obtain ⟨name, line, column, detail⟩ := d
  cases detail with
  | assignment value =>
      refine ⟨_, .assignment rfl, ?_⟩
      have label : Text.ofString ": variable " = Text.ofString ": "
          ++ DefinitionKind.assignment.label ++ Text.ofString " " := rfl
      simp [definition, Definition.kind, label]
  | recipe dependencies body =>
      refine ⟨_, .recipe rfl, ?_⟩
      have label : Text.ofString ": recipe " = Text.ofString ": "
          ++ DefinitionKind.recipe.label ++ Text.ofString " " := rfl
      simp only [definition, trimEnd_header]
      simp [Definition.kind, Definition.commands, label]

/-- No line about a definition has a newline in it. -/
theorem DescribedBy.newline_notMem {block : List Text} (clean : CodePoint.newline ∉ path)
    (h : d ∈ (Justfile.ofText text).definitions)
    (described : DescribedBy path (Justfile.ofText text).data d block) :
    ∀ line ∈ block, CodePoint.newline ∉ line := by
  have recorded {s : Span} (hs : s ∈ d.lineSpans) :
      CodePoint.newline ∉ s.text (Justfile.ofText text).data :=
    newline_notMem_text (List.mem_flatMap.2 ⟨d, h, List.mem_append_left _ hs⟩)
  have place := newline_notMem_place clean d.line d.column
  cases described with
  | @assignment value detail =>
      have name := recorded (s := d.name) (by simp [Definition.lineSpans, detail])
      have shown : CodePoint.newline
          ∉ (value.map fun s => Text.trim (s.text (Justfile.ofText text).data)).getD [] := by
        cases value with
        | none => simp
        | some s =>
            have value := recorded (s := s) (by simp [Definition.lineSpans, detail])
            exact fun inside => value (Text.mem_of_mem_trim inside)
      have labels : CodePoint.newline ∉ Text.ofString ": variable " ∧
          CodePoint.newline ∉ Text.ofString " := " := by
        decide
      simp [place, name, shown, labels]
  | @recipe dependencies body detail =>
      have name := recorded (s := d.name) (by simp [Definition.lineSpans, detail])
      have names : CodePoint.newline ∉ Text.join " "
          (dependencies.map fun s => s.text (Justfile.ofText text).data) := by
        intro inside
        rcases Text.mem_join inside with blank | ⟨t, ht, inside⟩
        · exact absurd blank (by decide)
        · obtain ⟨s, hs, rfl⟩ := List.mem_map.1 ht
          exact recorded (s := s) (by simp [Definition.lineSpans, detail, hs]) inside
      have shown : CodePoint.newline ∉ Text.trimEnd (.ofChar ' ' :: Text.join " "
          (dependencies.map fun s => s.text (Justfile.ofText text).data)) := by
        intro inside
        rcases List.mem_cons.1 (Text.mem_of_mem_trimEnd inside) with blank | inside
        · exact absurd blank (by decide)
        · exact names inside
      have labels : CodePoint.newline ∉ Text.ofString ": recipe " ∧
          CodePoint.newline ∉ Text.ofString "    " ∧
          CodePoint.newline ∉ Text.ofString " command line(s)" ∧
          CodePoint.newline ≠ .ofChar ':' := by
        decide
      simp [place, name, shown, labels, newline_notMem_decimal]

end Report

end OneLine

/-! ## The report as lines -/

namespace Report

variable {path text : Text}

/-- Lines that are closed by newlines are read back from the whole. -/
theorem splitOn_flatMap_outputLine {lines : List Text}
    (clean : ∀ line ∈ lines, CodePoint.newline ∉ line) :
    (lines.flatMap outputLine).splitOn .newline = lines ++ [[]] := by
  have joined : lines.flatMap outputLine = [CodePoint.newline].intercalate (lines ++ [[]]) := by
    clear clean
    induction lines with
    | nil => simp
    | cons line lines ih =>
        obtain ⟨next, others, rest⟩ := List.exists_cons_of_ne_nil
          (List.append_ne_nil_of_right_ne_nil lines (List.cons_ne_nil ([] : Text) []))
        rw [List.flatMap_cons, ih, List.cons_append, rest, List.intercalate_cons_cons]
        rfl
  rw [joined]
  refine List.splitOn_intercalate _ ?_ (by simp)
  intro line h
  rcases List.mem_append.1 h with h | h
  · exact clean line h
  · rw [List.mem_singleton.1 h]
    exact List.not_mem_nil

/-- Definitions are shown one after the other, in the lines about them. -/
theorem exists_blocks (path : Text) (data : Bytes) (ds : List Definition) :
    ∃ blocks, List.Forall₂ (DescribedBy path data) ds blocks ∧
      (∀ block ∈ blocks, ∃ d ∈ ds, DescribedBy path data d block) ∧
      ds.flatMap (definition path data) = blocks.flatten.flatMap outputLine := by
  induction ds with
  | nil => exact ⟨[], .nil, by simp, rfl⟩
  | cons d ds ih =>
      obtain ⟨blocks, described, each, shown⟩ := ih
      obtain ⟨block, first, shows⟩ := exists_describedBy path data d
      refine ⟨block :: blocks, .cons first described, ?_, ?_⟩
      · intro other h
        rcases List.mem_cons.1 h with rfl | h
        · exact ⟨d, List.mem_cons_self .., first⟩
        · obtain ⟨e, he, own⟩ := each other h
          exact ⟨e, List.mem_cons_of_mem _ he, own⟩
      · rw [List.flatMap_cons, shows, shown, List.flatten_cons, List.flatMap_append]

/-- **The output** is the lines about the definitions. -/
theorem splitOn_output (clean : CodePoint.newline ∉ path) (text : Text) :
    ∃ blocks, List.Forall₂ (DescribedBy path (Justfile.ofText text).data)
        (Justfile.ofText text).definitions blocks ∧
      ((Justfile.ofText text).definitions.flatMap
        (definition path (Justfile.ofText text).data)).splitOn .newline
        = blocks.flatten ++ [[]] := by
  obtain ⟨blocks, described, each, shown⟩ :=
    exists_blocks path (Justfile.ofText text).data (Justfile.ofText text).definitions
  refine ⟨blocks, described, ?_⟩
  rw [shown]
  apply splitOn_flatMap_outputLine
  intro line h
  obtain ⟨block, hb, hl⟩ := List.mem_flatten.1 h
  obtain ⟨d, hd, own⟩ := each block hb
  exact own.newline_notMem clean hd line hl

/-- **The error output** is the lines about the problems. -/
theorem splitOn_errors (clean : CodePoint.newline ∉ path) (problems : List Problem) :
    (problems.flatMap (problem path)).splitOn .newline
      = problems.map (problemLine path) ++ [[]] := by
  have shown : problems.flatMap (problem path)
      = (problems.map (problemLine path)).flatMap outputLine := by
    rw [List.flatMap_map]
    rfl
  rw [shown]
  apply splitOn_flatMap_outputLine
  intro line h
  obtain ⟨p, hp, rfl⟩ := List.mem_map.1 h
  have place := newline_notMem_place clean p.line p.column
  have label : CodePoint.newline ∉ Text.ofString ": error: " := by decide
  simp [problemLine, place, label, newline_notMem_message]

end Report

/-! ## The lines of definitions and problems -/

namespace Justfile

variable {text : Text} {line : Line} {d : Definition} {p : Problem}

theorem IsLine.hasLine {role : LineRole} (h : (ofText text).IsLine line)
    (hasRole : HasRole line.bytes role) : HasLine text line.number role := by
  obtain ⟨i, t, number, found, bytes⟩ := exists_line_of_lineBytes? h.bytes
  rw [bytes] at hasRole
  rw [Int.natCast_inj.1 number]
  exact ⟨t, found, hasRole⟩

/-- A definition is on a line that is there to define it. -/
theorem hasLine_of_mem_definitions (h : d ∈ (ofText text).definitions) :
    HasLine text d.line (.definition d.kind) := by
  obtain ⟨line, onLine, e, commands, form, rfl⟩ := Outline.exists_of_mem_definitions h
  rw [Definition.line_addCommands, LineForm.line_of_definition form, Definition.kind_addCommands]
  exact (isLine_iff.2 onLine).hasLine (hasRole_iff.2 (by rw [form]; rfl))

/-- A problem is on a line that is one, or on a stray command. -/
theorem hasLine_of_mem_problems (h : p ∈ (ofText text).problems) :
    HasLine text p.line (.problem p.cause) ∨
      p.cause = .strayCommand ∧ HasLine text p.line .command := by
  have numbered : p.line ∈ (linesOf (Utf8.encode text)).map Line.number :=
    (Outline.isAbout_ofLines _).problems.subset (List.mem_map_of_mem h)
  obtain ⟨line, onLine, number⟩ := List.mem_map.1 numbered
  have isLine := isLine_iff.2 onLine
  obtain ⟨before, after, cut, above, below⟩ := exists_cut_of_mem_linesOf onLine
  have listed := Outline.listed_role above below
  rw [← cut] at listed
  change LineRole.Listed line ((ofText text).mentions line) _ at listed
  have mentioned := (problem_mem_mentions_iff number.symm).2 h
  have hasLine := isLine.hasLine (hasRole_iff.2 rfl)
  rw [← number]
  generalize (LineForm.ofLine line).role = role at listed hasLine
  cases role with
  | ignored =>
      rw [LineRole.Listed] at listed
      rw [listed] at mentioned
      cases mentioned
  | definition kind =>
      obtain ⟨d, -, -, mentions⟩ := listed
      rw [mentions] at mentioned
      simp at mentioned
  | command =>
      rcases listed with ⟨d, -, mentions⟩ | mentions
      · rw [mentions] at mentioned
        simp at mentioned
      · rw [mentions, List.mem_singleton] at mentioned
        cases mentioned
        exact .inr ⟨rfl, hasLine⟩
  | problem cause =>
      rw [LineRole.Listed] at listed
      rw [listed, List.mem_singleton] at mentioned
      cases mentioned
      exact .inl hasLine

end Justfile

/-! ## Whole reports -/

namespace Report

variable {path : Text} {contents : Bytes} {t : Text}

/-- A path without surrogates and without a NUL is a path to a file. -/
theorem pathFault?_eq_none (scalars : ∀ c ∈ path, c.isSurrogate = false)
    (named : .ofNat 0 ∉ path) : pathFault? path = none := by
  have all : path.takeWhile (fun c => !c.isSurrogate || c.isEscapedByte) = path := by
    rw [List.takeWhile_eq_self_iff]
    intro c hc
    simp [scalars c hc]
  simp [pathFault?, all, named]

theorem ofFile_eq (decoded : Utf8.decode .scalars contents = .ok t)
    (scalars : ∀ c ∈ path, c.isSurrogate = false) (named : .ofNat 0 ∉ path) :
    ofFile path (.ok contents) =
      let j := Justfile.ofText (plainNewlines t)
      ⟨.ok (if j.problems = [] then 0 else 1), j.definitions.flatMap (definition path j.data),
        j.problems.flatMap (problem path)⟩ := by
  rw [ofFile, pathFault?_eq_none scalars named]
  dsimp only
  rw [ofContents, decoded]
  dsimp only
  rw [ofJustfile, Utf8.encodeStrict_eq_ok scalars]
  simp [List.isEmpty_iff]

/-- **Every report is a faithful account**: of a file whose contents are UTF-8, at a path of one line
and without surrogates.  No file has a path with a NUL in it.  What is reported on is the text of
the file with each way to end a line read as a newline. -/
theorem isAccount_ofFile (decoded : Utf8.decode .scalars contents = .ok t)
    (oneLine : CodePoint.newline ∉ path) (scalars : ∀ c ∈ path, c.isSurrogate = false)
    (named : .ofNat 0 ∉ path) :
    IsAccount path (plainNewlines t) (ofFile path (.ok contents)) := by
  rw [ofFile_eq decoded scalars named]
  exact {
    output := splitOn_output oneLine _
    errors := splitOn_errors oneLine _
    ordered := ⟨Justfile.pairwise_definitions _, Justfile.pairwise_problems _⟩
    definitions := fun _ h => Justfile.hasLine_of_mem_definitions h
    problems := fun _ h => Justfile.hasLine_of_mem_problems h
    ending := rfl
    complete := Justfile.tally_ofText _
  }

/-- A variable, a recipe with one command, a comment and a line that is neither, the lines ended in
all three ways. -/
theorem isAccount_ofFile_returns :
    let t : Text := "x := 1\r\na: b\r\techo\n# c\n="
    let contents := Utf8.encode t
    let path : Text := "justfile"
    let text : Text := "x := 1\na: b\n\techo\n# c\n="
    Utf8.decode .scalars contents = .ok t ∧ CodePoint.newline ∉ path ∧
      (∀ c ∈ path, c.isSurrogate = false) ∧ .ofNat 0 ∉ path ∧
      IsAccount path text (ofFile path (.ok contents)) ∧
      (ofFile path (.ok contents)).ending = .ok 1 ∧
      (ofFile path (.ok contents)).errors.splitOn .newline
        = [Text.ofString "justfile:5:0: error: unrecognized line", []] := by
  intro t contents path text
  have decoded : Utf8.decode .scalars contents = .ok t := Utf8.decode_encode (by decide)
  have oneLine : CodePoint.newline ∉ path := by decide
  have scalars : ∀ c ∈ path, c.isSurrogate = false := by decide
  have named : .ofNat 0 ∉ path := by decide
  have account := isAccount_ofFile decoded oneLine scalars named
  rw [show plainNewlines t = text by decide] at account
  refine ⟨decoded, oneLine, scalars, named, account, ?_, ?_⟩
  · exact account.ending.trans (congrArg Except.ok (by decide))
  · exact account.errors.trans (by decide)

end Report

end JustfileServer
