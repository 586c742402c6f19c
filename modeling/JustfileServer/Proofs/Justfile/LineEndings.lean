import JustfileServer.Command.Report
import JustfileServer.Proofs.Justfile.Index
import JustfileServer.Proofs.Justfile.Ownership
import JustfileServer.Proofs.Justfile.Shifts
import JustfileServer.Proofs.Justfile.Spans
import JustfileServer.Proofs.Justfile.Terminators

/-!
# Two kinds of line ends

With a carriage return before each newline every span behind the first line is at another place, so
two readings are compared by the bytes that their spans cover.  A carriage return is white space: it
is seen only by what goes up to the end of its line, a value or a command.

`LineForm.readsAs_ofLine` compares what two lines say, `Outline.readsAs_ofLines` what runs of them
amount to.  The tables of names are filled with the definitions in their order and are compared by
the places of these in the list of all definitions (`SymbolIndex.matches_ofDefinitions`).
-/

namespace JustfileServer

/-! ## Readings -/

/-- The bytes of a value, none when there is no value. -/
def valueBytes (data : Bytes) (value : Option Span) : Bytes :=
  (value.map (·.bytes data)).getD []

/-- What two definitions have beside their names: values that are equal up to a carriage return, or
the same dependencies and, up to a carriage return for each, the same commands. -/
inductive Detail.ReadsAs (data data' : Bytes) : Detail → Detail → Prop
  | assignment {value value' : Option Span} :
      Bytes.UpToReturn (valueBytes data value) (valueBytes data' value') →
      ReadsAs data data' (.assignment value) (.assignment value')
  | recipe {dependencies dependencies' body body' : List Span} :
      dependencies'.map (·.bytes data') = dependencies.map (·.bytes data) →
      List.Forall₂ Bytes.UpToReturn (body.map (·.bytes data)) (body'.map (·.bytes data')) →
      ReadsAs data data' (.recipe dependencies body) (.recipe dependencies' body')

/-- **Two definitions read the same**, each in its buffer: they are of one kind and have one name at
one place, and only carriage returns tell the rest of them apart. -/
structure Definition.ReadsAs (data data' : Bytes) (d e : Definition) : Prop where
  kind : e.kind = d.kind
  line : e.line = d.line
  column : e.column = d.column
  name : e.name.bytes data' = d.name.bytes data
  detail : d.detail.ReadsAs data data' e.detail

/-- The names in a table, and for each the places that its definitions have among all of them. -/
def NameTable.places (definitions : List Definition) (table : NameTable) : List (Text × List Nat) :=
  table.map fun entry => (entry.1, entry.2.map definitions.idxOf)

/-- **Two justfiles read the same**: their definitions do, one by one, they have the same problems,
and the index of names has the same places under the same names. -/
structure Justfile.ReadsAs (j k : Justfile) : Prop where
  definitions : List.Forall₂ (Definition.ReadsAs j.data k.data) j.definitions k.definitions
  problems : k.problems = j.problems
  recipes : (SymbolIndex.ofJustfile k).recipes.places k.definitions
    = (SymbolIndex.ofJustfile j).recipes.places j.definitions
  assignments : (SymbolIndex.ofJustfile k).assignments.places k.definitions
    = (SymbolIndex.ofJustfile j).assignments.places j.definitions

variable {data data' : Bytes}

/-! ## Bytes of a line -/

theorem Line.bytes_span {line : Line} (onLine : line ∈ linesOf data) (filled : line.bytes ≠ []) :
    line.span.bytes data = line.bytes := by
  have whole : line.bytes = [] ++ line.bytes ++ [] := by simp
  exact Line.bytes_ofLength onLine whole filled

theorem Span.fits_of_liesIn {s : Span} {size : Nat} (h : s.LiesIn 0 size) : s.fits size = true := by
  have first := h.first
  have ordered := h.ordered
  have last := h.last
  rw [fits, Bool.and_eq_true, Bool.and_eq_true, decide_eq_true_iff, decide_eq_true_iff,
    decide_eq_true_iff]
  omega

/-- A span covers the same in a part as in the whole, where it is further down. -/
theorem Span.bytes_shift {s : Span} {above part below : Bytes} (h : s.LiesIn 0 part.length)
    {m : Shift} (place : m.bytes = above.length) :
    (s.shift m).bytes (above ++ part ++ below) = s.bytes part := by
  have first := h.first
  have ordered := h.ordered
  have last := h.last
  have moved : (s.shift m).LiesIn 0 (above ++ part ++ below).length := by
    constructor <;> simp only [shift, List.length_append] <;> omega
  have start : (s.first + above.length).toNat = above.length + s.first.toNat := by omega
  have size : (s.last + above.length - (s.first + above.length) + 1).toNat
      = (s.last - s.first + 1).toNat := by omega
  have inside : (s.last - s.first + 1).toNat ≤ (part.drop s.first.toNat).length := by
    rw [List.length_drop]
    omega
  rw [bytes, bytes, if_pos (fits_of_liesIn moved), if_pos (fits_of_liesIn h), shift, place, start,
    size, List.append_assoc, List.drop_length_add_append, List.drop_append_of_le_length (by omega),
    List.take_append_of_le_length inside]

/-- White space at the end adds no tokens. -/
theorem tokens_append (offset : Nat) (bytes : Bytes) {tail : Bytes} (blank : IsBlank tail) :
    tokens offset (bytes ++ tail) = tokens offset bytes := by
  induction bytes generalizing offset with
  | nil =>
      have nothing := tokens_append_left blank offset []
      rwa [List.append_nil] at nothing
  | cons b bytes ih => rw [List.cons_append, tokens, tokens, ih]

/-- The bytes of the tokens are those of the part that they were read from. -/
theorem map_bytes_tokens {above part below : Bytes} (whole : data = above ++ part ++ below) :
    (tokens above.length part).map (·.bytes data) = (tokens 0 part).map (·.bytes part) := by
  have moved := tokens_shift ⟨0, above.length⟩ 0 part
  rw [Nat.zero_add] at moved
  rw [moved, List.map_map]
  refine List.map_congr_left fun t ht => ?_
  have inside := liesIn_of_mem_tokens ht
  rw [Nat.zero_add] at inside
  rw [whole]
  exact Span.bytes_shift inside rfl

/-! ## One line -/

/-- The second line is the first one, or this with a carriage return at the end; each of them is a
line of its buffer. -/
structure Line.IsReturned (data data' : Bytes) (line line' : Line) : Prop where
  number : line'.number = line.number
  onLine : line ∈ linesOf data
  onLine' : line' ∈ linesOf data'
  bytes : Bytes.UpToReturn line.bytes line'.bytes

/-- What two lines say reads the same. -/
inductive LineForm.ReadsAs (data data' : Bytes) : LineForm → LineForm → Prop
  | ignored : ReadsAs data data' .ignored .ignored
  | definition {d e : Definition} :
      d.ReadsAs data data' e → ReadsAs data data' (.definition d) (.definition e)
  | command {span span' : Span} : Bytes.UpToReturn (span.bytes data) (span'.bytes data') →
      ReadsAs data data' (.command span) (.command span')
  | problem (cause : ProblemCause) : ReadsAs data data' (.problem cause) (.problem cause)

/-- Where a name is found does not depend on where its line starts. -/
theorem exists_nameBefore? {head : Bytes} (named : ¬ IsBlank head) :
    ∃ before name after, NameCut head before name after ∧ ∀ start,
      nameBefore? start head = some (.ofLength (start + before.length) name.length,
        before.length) := by
  rw [← Bytes.trim_eq_nil_iff] at named
  obtain ⟨after, cut⟩ := exists_nameCut named
  refine ⟨_, _, after, cut, fun start => ?_⟩
  rw [nameBefore?]
  exact if_neg (by simpa using named)

/-- The value of an assignment is what is behind its sign. -/
theorem valueBytes_eq {line : Line} {head value : Bytes} (onLine : line ∈ linesOf data)
    (cut : CutAtColon line.bytes head (Byte.equals :: value)) :
    valueBytes data (if value.isEmpty then none
      else some (.ofLength (line.start + head.length + 2) value.length)) = value := by
  cases value with
  | nil => rfl
  | cons b value =>
      have whole : line.bytes = (head ++ [Byte.colon, Byte.equals]) ++ (b :: value) ++ [] := by
        rw [cut.eq]
        simp
      have covered := Line.bytes_ofLength onLine whole (List.cons_ne_nil _ _)
      rwa [List.length_append, ← Nat.add_assoc] at covered

/-- The dependencies of a recipe are read from what is behind the colon. -/
theorem map_bytes_tokens_of_cut {line : Line} {head rest : Bytes} (onLine : line ∈ linesOf data)
    (cut : CutAtColon line.bytes head rest) :
    (tokens (line.start + head.length + 1) rest).map (·.bytes data)
      = (tokens 0 rest).map (·.bytes rest) := by
  obtain ⟨above, below, whole, start⟩ := exists_append_of_mem_placeLines onLine
  have place : line.start + head.length + 1 = (above ++ (head ++ [Byte.colon])).length := by
    simp only [start, List.length_append, List.length_singleton]
    omega
  have around : data = (above ++ (head ++ [Byte.colon])) ++ rest ++ below := by
    rw [whole, cut.eq]
    simp
  rw [place, map_bytes_tokens around]

/-- Further white space does not change the bytes of the tokens. -/
theorem map_bytes_tokens_append (bytes : Bytes) {tail : Bytes} (blank : IsBlank tail) :
    (tokens 0 (bytes ++ tail)).map (·.bytes (bytes ++ tail))
      = (tokens 0 bytes).map (·.bytes bytes) := by
  have whole : bytes ++ tail = [] ++ bytes ++ tail := rfl
  rw [tokens_append 0 bytes blank]
  exact map_bytes_tokens whole

theorem Detail.ReadsAs.kind {name name' : Span} {line line' column column' : Nat}
    {detail detail' : Detail} (h : detail.ReadsAs data data' detail') :
    Definition.kind ⟨name', line', column', detail'⟩
      = Definition.kind ⟨name, line, column, detail⟩ := by
  cases h <;> rfl

variable {line line' : Line}

/-- A name that is cut out of the bytes before the colon is the same on both lines. -/
theorem Definition.readsAs_of_nameCut {head rest before name after : Bytes}
    {detail detail' : Detail} (h : line.IsReturned data data' line')
    (cut : CutAtColon line.bytes head rest) (around : NameCut head before name after)
    (details : detail.ReadsAs data data' detail') :
    ReadsAs data data'
      ⟨.ofLength (line.start + before.length) name.length, line.number, before.length, detail⟩
      ⟨.ofLength (line'.start + before.length) name.length, line'.number, before.length,
        detail'⟩ := by
  obtain ⟨tail, -, bytes, -⟩ := h.bytes.exists_tail
  refine ⟨details.kind, h.number, rfl, ?_, details⟩
  have whole : line.bytes = before ++ name ++ (after ++ Byte.colon :: rest) := by
    simp [cut.eq, around.eq]
  have whole' : line'.bytes = before ++ name ++ (after ++ Byte.colon :: rest ++ tail) := by
    simp [bytes, whole]
  dsimp only
  rw [Line.bytes_ofLength h.onLine whole around.filled,
    Line.bytes_ofLength h.onLine' whole' around.filled]

namespace LineForm

theorem eq_ignored_of_role {form : LineForm} (h : form.role = .ignored) : form = .ignored := by
  cases form <;> cases h
  rfl

theorem eq_problem_of_role {form : LineForm} {cause : ProblemCause}
    (h : form.role = .problem cause) : form = .problem cause := by
  cases form <;> cases h
  rfl

/-- Two lines that define something define the same, but for a carriage return. -/
theorem readsAs_of_definition {kind : DefinitionKind} (h : line.IsReturned data data' line')
    (role : HasRole line.bytes (.definition kind)) :
    ReadsAs data data' (ofLine line) (ofLine line') := by
  obtain ⟨tail, blank, bytes, upTo⟩ := h.bytes.exists_tail
  have speaks' : ¬ SaysNothing line.bytes → ¬ SaysNothing line'.bytes := by
    rw [bytes]
    exact mt (saysNothing_append_iff blank).1
  have cut' {head rest : Bytes} (cut : CutAtColon line.bytes head rest) :
      CutAtColon line'.bytes head (rest ++ tail) := bytes ▸ cut.append tail
  cases role with
  | @assignment head value speaks cut named =>
      obtain ⟨before, name, after, around, found⟩ := exists_nameBefore? named
      rw [ofLine_assignment speaks cut, ofLine_assignment (speaks' speaks) (cut' cut), assignment,
        assignment, found, found]
      refine .definition (Definition.readsAs_of_nameCut h cut around (.assignment ?_))
      rw [valueBytes_eq h.onLine cut, valueBytes_eq h.onLine' (cut' cut)]
      exact upTo value
  | @recipe head rest speaks cut sign named =>
      have sign' := mt (head?_append_eq_equals_iff blank).1 sign
      obtain ⟨before, name, after, around, found⟩ := exists_nameBefore? named
      rw [ofLine_header speaks cut sign, ofLine_header (speaks' speaks) (cut' cut) sign', header,
        header, found, found]
      refine .definition (Definition.readsAs_of_nameCut h cut around (.recipe ?_ .nil))
      rw [map_bytes_tokens_of_cut h.onLine cut, map_bytes_tokens_of_cut h.onLine' (cut' cut),
        map_bytes_tokens_append rest blank]

/-- **Two lines that only a carriage return tells apart** read the same. -/
theorem readsAs_ofLine (h : line.IsReturned data data' line') :
    ReadsAs data data' (ofLine line) (ofLine line') := by
  obtain ⟨tail, blank, bytes, -⟩ := h.bytes.exists_tail
  have role : HasRole line.bytes (ofLine line).role := hasRole_iff.2 rfl
  have role' : HasRole line'.bytes (ofLine line).role := by
    rw [bytes]
    exact role.append blank
  cases form : ofLine line with
  | ignored =>
      rw [form] at role'
      rw [eq_ignored_of_role role'.role_ofLine]
      exact .ignored
  | definition d =>
      rw [form] at role
      rw [← form]
      exact readsAs_of_definition h role
  | command span =>
      rw [form] at role'
      have form' := eq_command_of_hasRole role'
      obtain rfl := eq_span_of_command form
      rw [form']
      refine .command ?_
      rw [Line.bytes_span h.onLine (bytes_ne_nil_of_command form),
        Line.bytes_span h.onLine' (bytes_ne_nil_of_command form')]
      exact h.bytes
  | problem cause =>
      rw [form] at role'
      rw [eq_problem_of_role role'.role_ofLine]
      exact .problem cause

end LineForm

/-! ## Runs of lines -/

/-- Two outlines read the same: their leading commands, their definitions and their problems. -/
structure Outline.ReadsAs (data data' : Bytes) (o o' : Outline) : Prop where
  numbers : o'.leading.map Prod.fst = o.leading.map Prod.fst
  leading : List.Forall₂ Bytes.UpToReturn ((o.leading.map Prod.snd).map (·.bytes data))
    ((o'.leading.map Prod.snd).map (·.bytes data'))
  definitions : List.Forall₂ (Definition.ReadsAs data data') o.definitions o'.definitions
  problems : o'.problems = o.problems

/-- Commands that read the same are added to definitions that do. -/
theorem Definition.ReadsAs.addCommands {d e : Definition} (h : d.ReadsAs data data' e)
    {commands commands' : List Span} (more : List.Forall₂ Bytes.UpToReturn
      (commands.map (·.bytes data)) (commands'.map (·.bytes data'))) :
    (d.addCommands commands).ReadsAs data data' (e.addCommands commands') := by
  obtain ⟨name, line, column, detail⟩ := d
  obtain ⟨name', line', column', detail'⟩ := e
  obtain ⟨-, number, place, named, details⟩ := h
  cases details with
  | assignment values => exact ⟨rfl, number, place, named, .assignment values⟩
  | recipe dependencies body =>
      refine ⟨rfl, number, place, named, .recipe dependencies ?_⟩
      rw [List.map_append, List.map_append]
      exact List.rel_append body more

namespace Outline

variable {o o' : Outline}

theorem ReadsAs.allProblems (h : o.ReadsAs data data' o') : o'.allProblems = o.allProblems := by
  have strays (o : Outline) : o.leading.map stray
      = (o.leading.map Prod.fst).map fun number => ⟨number, 0, .strayCommand⟩ := by
    rw [List.map_map]
    rfl
  rw [Outline.allProblems, Outline.allProblems, strays, strays, h.numbers, h.problems]

/-- Lines that read the same, in front of outlines that do, give outlines that do. -/
theorem ReadsAs.addLine {form form' : LineForm} (h : o.ReadsAs data data' o')
    (forms : form.ReadsAs data data' form') (number : Nat) :
    (o.addLine number form).ReadsAs data data' (o'.addLine number form') := by
  cases forms with
  | ignored => exact h
  | command bytes =>
      exact ⟨congrArg (number :: ·) h.numbers, .cons bytes h.leading, h.definitions, h.problems⟩
  | problem cause =>
      exact ⟨rfl, .nil, h.definitions, congrArg (List.cons _) h.allProblems⟩
  | @definition d e same =>
      unfold Outline.addLine
      dsimp only
      rw [same.kind]
      cases d.kind with
      | recipe => exact ⟨rfl, .nil, .cons (same.addCommands h.leading) h.definitions, h.problems⟩
      | assignment => exact ⟨rfl, .nil, .cons same h.definitions, h.allProblems⟩

/-- **Runs of lines that only carriage returns tell apart** read the same. -/
theorem readsAs_ofLines {lines lines' : List Line}
    (h : List.Forall₂ (Line.IsReturned data data') lines lines') :
    (ofLines lines).ReadsAs data data' (ofLines lines') := by
  induction h with
  | nil => exact ⟨rfl, .nil, .nil, rfl⟩
  | cons line _ ih =>
      rw [ofLines_cons, ofLines_cons, line.number]
      exact ih.addLine (LineForm.readsAs_ofLine line) _

end Outline

/-! ## Tables of names -/

/-- Two tables match: they have the same names, and under each of them related definitions. -/
def NameTable.Matches (R : Definition → Definition → Prop) (table table' : NameTable) : Prop :=
  List.Forall₂ (fun entry entry' => entry'.1 = entry.1 ∧ List.Forall₂ R entry.2 entry'.2)
    table table'

theorem NameTable.Matches.add {R : Definition → Definition → Prop} {table table' : NameTable}
    (h : table.Matches R table') {d e : Definition} (related : R d e) (name : Text) :
    (table.add name d).Matches R (table'.add name e) := by
  induction h with
  | nil => exact .cons ⟨rfl, .cons related .nil⟩ .nil
  | @cons entry entry' table table' same others ih =>
      obtain ⟨n, ds⟩ := entry
      obtain ⟨n', es⟩ := entry'
      obtain ⟨rfl, listed⟩ : n' = n ∧ List.Forall₂ R ds es := same
      rw [NameTable.add, NameTable.add]
      split
      · exact .cons ⟨rfl, List.rel_append listed (.cons related .nil)⟩ others
      · exact .cons ⟨rfl, listed⟩ ih

/-- Tables that match at the places of their definitions have the same places. -/
theorem NameTable.Matches.places {definitions definitions' : List Definition}
    {table table' : NameTable}
    (h : table.Matches (fun d e => definitions.idxOf d = definitions'.idxOf e) table') :
    table'.places definitions' = table.places definitions := by
  have same : List.Forall₂ Eq (table.places definitions) (table'.places definitions') := by
    rw [NameTable.places, NameTable.places, List.forall₂_map_left_iff, List.forall₂_map_right_iff]
    refine h.imp ?_
    intro entry entry' same
    obtain ⟨name, listed⟩ := same
    have places : List.Forall₂ Eq (entry.2.map definitions.idxOf)
        (entry'.2.map definitions'.idxOf) := by
      rwa [List.forall₂_map_left_iff, List.forall₂_map_right_iff]
    rw [List.forall₂_eq_eq_eq] at places
    rw [name, places]
  rw [List.forall₂_eq_eq_eq] at same
  exact same.symm

namespace SymbolIndex

/-- Two indices match: their tables do. -/
structure Matches (R : Definition → Definition → Prop) (index index' : SymbolIndex) : Prop where
  recipes : index.recipes.Matches R index'.recipes
  assignments : index.assignments.Matches R index'.assignments

theorem Matches.add {R : Definition → Definition → Prop} {index index' : SymbolIndex}
    (h : index.Matches R index') {d e : Definition} (related : R d e) (kind : e.kind = d.kind)
    (name : Text) : (index.add name d).Matches R (index'.add name e) := by
  unfold SymbolIndex.add
  rw [kind]
  cases d.kind with
  | recipe => exact ⟨h.recipes.add related name, h.assignments⟩
  | assignment => exact ⟨h.recipes, h.assignments.add related name⟩

/-- **Indices match** that are built from related definitions, as long as these are of the same
kinds and have the same names. -/
theorem matches_ofDefinitions {R : Definition → Definition → Prop} {ds es : List Definition}
    (h : List.Forall₂ (fun d e => R d e ∧ e.kind = d.kind ∧ e.name.bytes data' = d.name.bytes data)
      ds es) : (ofDefinitions data ds).Matches R (ofDefinitions data' es) := by
  have start : empty.Matches R empty := ⟨.nil, .nil⟩
  refine List.rel_foldl (P := Matches R) ?_ start h
  rintro index index' matched d e ⟨related, kind, name⟩
  have text : e.name.text data' = d.name.text data := by rw [Span.text, name, Span.text]
  dsimp only
  rw [text]
  split
  · exact matched
  · exact matched.add related kind _

end SymbolIndex

/-! ## Texts -/

/-- Definitions that read the same have the same place in the lists of all definitions. -/
theorem Justfile.forall₂_idxOf {R : Definition → Definition → Prop} {text text' : Text}
    (h : List.Forall₂ R (ofText text).definitions (ofText text').definitions) :
    List.Forall₂
      (fun d e => (ofText text).definitions.idxOf d = (ofText text').definitions.idxOf e ∧ R d e)
      (ofText text).definitions (ofText text').definitions := by
  have distinct (text : Text) : (ofText text).definitions.Nodup :=
    List.Nodup.of_map Definition.line ((pairwise_definitions text).imp Nat.ne_of_lt)
  obtain ⟨length, related⟩ := List.forall₂_iff_get.1 h
  refine List.forall₂_iff_get.2 ⟨length, fun i hi hi' => ⟨?_, related i hi hi'⟩⟩
  rw [List.get_eq_getElem, List.get_eq_getElem, (distinct text).idxOf_getElem,
    (distinct text').idxOf_getElem]

theorem Text.forall₂_isReturned_withReturns (text : Text) :
    List.Forall₂ (Line.IsReturned (Utf8.encode text) (Utf8.encode text.withReturns))
      (linesOf (Utf8.encode text)) (linesOf (Utf8.encode text.withReturns)) := by
  have lines := forall₂_upToReturn_addReturns 0 0 0 (splitLines (Utf8.encode text))
  rw [← splitLines_withReturns, ← linesOf, ← linesOf] at lines
  obtain ⟨length, same⟩ := List.forall₂_iff_get.1 lines
  refine List.forall₂_iff_get.2 ⟨length, fun i hi hi' => ?_⟩
  obtain ⟨number, bytes⟩ := same i hi hi'
  exact ⟨number, List.get_mem _ _, List.get_mem _ _, bytes⟩

namespace Report

theorem plainNewlines_cons {c : CodePoint} (other : c ≠ .carriageReturn) (t : Text) :
    plainNewlines (c :: t) = c :: plainNewlines t := by
  cases t with
  | nil => exact if_neg other
  | cons d t => exact if_neg other

/-- A text without carriage returns is left as it is. -/
theorem plainNewlines_of_notMem {text : Text} (plain : .carriageReturn ∉ text) :
    plainNewlines text = text := by
  induction text with
  | nil => rfl
  | cons c text ih =>
      rw [List.mem_cons, not_or] at plain
      rw [plainNewlines_cons (Ne.symm plain.1), ih plain.2]

/-- **Carriage returns before newlines** are taken out again. -/
theorem plainNewlines_withReturns {text : Text} (plain : .carriageReturn ∉ text) :
    plainNewlines text.withReturns = text := by
  induction text with
  | nil => rfl
  | cons c text ih =>
      rw [List.mem_cons, not_or] at plain
      have later := ih plain.2
      by_cases ends : c = .newline
      · subst ends
        have taken : plainNewlines (.carriageReturn :: .newline :: Text.withReturns text)
            = .newline :: plainNewlines (Text.withReturns text) := rfl
        rw [Text.withReturns_cons_newline, taken, later]
      · rw [Text.withReturns_cons_of_ne ends, plainNewlines_cons (Ne.symm plain.1), later]

end Report

namespace Justfile

/-- **Reading does not depend on the line ends.**  A text without carriage returns is what the
report on a file makes of it, and of the text with a carriage return before each newline.  Both read
the same: the definitions correspond one by one, in kind, line, column, name and dependencies, and
values and commands differ at most in a carriage return at the end; the problems are equal, and the
index lists the definitions at the same places under the same names. -/
theorem readsAs_withReturns {text : Text} (plain : .carriageReturn ∉ text) :
    Report.plainNewlines text = text ∧ Report.plainNewlines text.withReturns = text ∧
      (ofText text).ReadsAs (ofText text.withReturns) := by
  refine ⟨Report.plainNewlines_of_notMem plain, Report.plainNewlines_withReturns plain, ?_⟩
  have outlines := Outline.readsAs_ofLines text.forall₂_isReturned_withReturns
  have indices : (SymbolIndex.ofJustfile (ofText text)).Matches _
      (SymbolIndex.ofJustfile (ofText text.withReturns)) :=
    SymbolIndex.matches_ofDefinitions
      ((forall₂_idxOf outlines.definitions).imp fun d e h => ⟨h.1, h.2.kind, h.2.name⟩)
  exact ⟨outlines.definitions, outlines.allProblems, indices.recipes.places,
    indices.assignments.places⟩

/-- Among the lines are an empty one, an empty value, and commands of a recipe and stray ones. -/
theorem readsAs_withReturns_mixed :
    let text := Text.ofString " stray\nv:=\n\na: b c \n \n\tx\nw:=1"
    .carriageReturn ∉ text ∧ (ofText text).ReadsAs (ofText text.withReturns) := by
  have plain : .carriageReturn ∉ Text.ofString " stray\nv:=\n\na: b c \n \n\tx\nw:=1" := by
    decide
  exact ⟨plain, (readsAs_withReturns plain).2.2⟩

end Justfile

end JustfileServer
