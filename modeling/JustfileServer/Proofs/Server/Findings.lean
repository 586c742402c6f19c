import JustfileServer.Proofs.Navigation.Ranges
import JustfileServer.Proofs.Server.Occurrences

/-!
# What is found at a place

A request for definitions and one for a hover text that point at the same place of an open document
are both served (`exists_finds`).  Where a word is found there, the definitions are those that its
scope admits, while the hover text is told from the word alone (`exists_finds_word`), by its kind:
that of the recipes of the name, or that of its variables when there is no recipe
(`kindOf?_eq_some_iff`).  So the two may only differ where the scope is a narrow one
(`hover_agrees`).
-/

namespace JustfileServer

namespace Server

variable {s : Server} {params : Json} {key : DocumentKey} {name version : Json} {text : Text}
  {line character : Int} {word : Bytes} {j : Justfile} {kind : DefinitionKind} {c : Cursor}

/-- **A request finds** these definitions and this hover text at the place that it points at. -/
structure Finds (params : Json) (s : Server) (definitions description : Json) : Prop where
  definitions : Serves findDefinitions params s definitions
  description : Serves describeWord params s description

/-! ## The kind of a word -/

/-- A word in ASCII is described by its recipes, or by its variables when there is no recipe. -/
theorem kindOf?_ofJustfile (filled : word ≠ []) (ascii : ∀ b ∈ word, b.toNat < 0x80) :
    kindOf? (.ofJustfile j) (word.map CodePoint.ofByte)
      = if j.named .recipe word ≠ [] then some .recipe
        else if j.named .assignment word ≠ [] then some .assignment else none := by
  have recipes : (SymbolIndex.ofJustfile j).recipesNamed (word.map CodePoint.ofByte)
      = j.named .recipe word := Justfile.listed_ofJustfile filled ascii .recipe
  have assignments : (SymbolIndex.ofJustfile j).assignmentsNamed (word.map CodePoint.ofByte)
      = j.named .assignment word := Justfile.listed_ofJustfile filled ascii .assignment
  rw [kindOf?, recipes, assignments]
  simp

/-- A word has no kind just when nothing is defined by its name. -/
theorem kindOf?_eq_none_iff (filled : word ≠ []) (ascii : ∀ b ∈ word, b.toNat < 0x80) :
    kindOf? (.ofJustfile j) (word.map CodePoint.ofByte) = none ↔
      ∀ kind, j.named kind word = [] := by
  rw [kindOf?_ofJustfile filled ascii]
  constructor
  · intro none kind
    by_cases recipes : j.named .recipe word = []
    · by_cases assignments : j.named .assignment word = []
      · cases kind with
        | assignment => exact assignments
        | recipe => exact recipes
      · rw [if_neg (not_not_intro recipes), if_pos assignments] at none
        cases none
    · rw [if_pos recipes] at none
      cases none
  · intro none
    simp [none]

/-- The kind of a word is that of definitions of its name, of recipes when there are any. -/
theorem named_of_kindOf? (filled : word ≠ []) (ascii : ∀ b ∈ word, b.toNat < 0x80)
    (h : kindOf? (.ofJustfile j) (word.map CodePoint.ofByte) = some kind) :
    j.named kind word ≠ [] ∧ (kind = .recipe ↔ j.named .recipe word ≠ []) := by
  rw [kindOf?_ofJustfile filled ascii] at h
  by_cases recipes : j.named .recipe word = []
  · rw [if_neg (not_not_intro recipes)] at h
    by_cases assignments : j.named .assignment word = []
    · rw [if_neg (not_not_intro assignments)] at h
      cases h
    · rw [if_pos assignments] at h
      cases h
      exact ⟨assignments, iff_of_false (by decide) (not_not_intro recipes)⟩
  · rw [if_pos recipes] at h
    cases h
    exact ⟨recipes, iff_of_true rfl recipes⟩

/-- Where its scope is not narrow a word refers to the definitions that have its kind. -/
theorem admitted_any_of_kind (filled : j.named kind word ≠ [])
    (recipe : kind = .recipe ↔ j.named .recipe word ≠ []) :
    j.admitted word .any = j.named kind word := by
  cases kind with
  | assignment =>
      have none : j.named .recipe word = [] := by
        by_contra some
        cases recipe.2 some
      rw [Justfile.admitted, if_pos none]
  | recipe => rw [Justfile.admitted, if_neg filled]

/-! ## The word at a place -/

/-- Where there is no word, nothing is found. -/
theorem finds_nothing (points : Params.PointsTo params key (.int line) (.int character))
    (isOpen : s.documents.find? key = some (.ofText name text version))
    (nowhere : (Justfile.ofText text).symbolAt (.number line) (.units character) = .ok none) :
    Finds params s .null .null := by
  have aimed := perform_target points isOpen (cursorAt_of_symbolAt nowhere)
  refine ⟨⟨s.journal, perform_findDefinitions_none aimed⟩, s.journal, ?_⟩
  rw [describeWord, Action.perform_bind_ok aimed]
  rfl

/-- At a word, the definitions that its scope admits are found, and its hover text. -/
theorem exists_finds_word (points : Params.PointsTo params key (.int line) (.int character))
    (isOpen : s.documents.find? key = some (.ofText name text version))
    (found : (Justfile.ofText text).symbolAt (.number line) (.units character) = .ok (some c)) :
    ∃ definitions,
      Finds params s definitions (hover (.ofJustfile (.ofText text)) c.word c.range) ∧
      (Justfile.ofText text).Lists name
        ((Justfile.ofText text).admitted (Utf8.encode c.word) c.scope) definitions := by
  obtain ⟨before, word, after, on⟩ := Justfile.exists_isOn found
  have aimed := perform_target points isOpen (cursorAt_of_symbolAt found)
  obtain ⟨definitions, served, lists⟩ := exists_serves_findDefinitions aimed
  rw [on.resolve_eq, ← on.encode_word] at lists
  exact ⟨definitions, ⟨served, serves_describeWord aimed⟩, lists⟩

/-- Requests at any place of an open document are served. -/
theorem exists_finds (points : Params.PointsTo params key (.int line) (.int character))
    (isOpen : s.documents.find? key = some (.ofText name text version)) :
    ∃ definitions description, Finds params s definitions description := by
  obtain ⟨found, symbol⟩ := Justfile.exists_symbolAt text line character
  cases found with
  | none => exact ⟨_, _, finds_nothing points isOpen symbol⟩
  | some c =>
      obtain ⟨definitions, finds, -⟩ := exists_finds_word points isOpen symbol
      exact ⟨definitions, _, finds⟩

/-! ## Hover texts and definitions -/

variable (key name version text)

/-- **A hover text describes the word under a cursor** as one of a kind: there are definitions of
this kind by its name, and it is only a recipe when some recipe has the name.  The range that comes
with the text is on the line of the cursor and selects the word there, and a request at any column
of the range, its end included, is served with the same hover text. -/
structure Describes (line : Int) (c : Cursor) (kind : DefinitionKind) (description : Json) :
    Prop where
  eq : description
    = hoverJson (kind.label ++ Text.ofString ": " ++ c.word) (some c.range) plainText
  defined : (Justfile.ofText text).named kind (Utf8.encode c.word) ≠ []
  recipe : kind = .recipe ↔ (Justfile.ofText text).named .recipe (Utf8.encode c.word) ≠ []
  start : c.range.start.line = .number line
  stop : c.range.stop.line = .number line
  selects : ∃ (i : Nat) (t : Text), line = i ∧ (text.splitOn .newline)[i]? = some t ∧
    c.range.Selects t c.word
  again : ∀ s params, s.documents.find? key = some (.ofText name text version) →
    Params.PointsInto params key c.range → Serves describeWord params s description

variable {key name version text}

/-- A word has a hover text just when something is defined by its name. -/
theorem hover_ne_null_iff {before after : Bytes} (on : c.IsOn before word after) (range : Range) :
    hover (.ofJustfile j) c.word range ≠ .null ↔ ∃ kind, j.named kind word ≠ [] := by
  rw [← not_forall_not]
  simp only [not_not]
  rw [← kindOf?_eq_none_iff on.cut.filled on.cut.ascii, ← on.word_eq, not_iff_not, hover]
  cases kindOf? (.ofJustfile j) c.word with
  | none => exact iff_of_true rfl rfl
  | some kind => exact iff_of_false (by intro null; cases null) (Option.some_ne_none kind)

/-- A hover text that is given for a word describes it. -/
theorem exists_describes (key : DocumentKey) (name version : Json) {column : ClientColumn}
    (found : (Justfile.ofText text).symbolAt (.number line) column = .ok (some c))
    (given : hover (.ofJustfile (.ofText text)) c.word c.range ≠ .null) :
    ∃ kind, Describes key name version text line c kind
      (hover (.ofJustfile (.ofText text)) c.word c.range) := by
  obtain ⟨number, bytes, decoded, -⟩ := Justfile.parts_of_symbolAt found
  obtain ⟨before, word, after, on⟩ := Justfile.exists_isOn found
  cases kinded : kindOf? (.ofJustfile (.ofText text)) c.word with
  | none =>
      rw [hover, kinded] at given
      exact absurd rfl given
  | some kind =>
      have spelled := kinded
      rw [on.word_eq] at spelled
      obtain ⟨defined, recipe⟩ := named_of_kindOf? on.cut.filled on.cut.ascii spelled
      rw [← on.encode_word] at defined recipe
      refine ⟨kind, ?_, defined, recipe, number, number, ?_, ?_⟩
      · rw [hover, kinded]
      · obtain ⟨i, t, rfl, lineText, encoded⟩ := Justfile.exists_line_of_lineBytes? bytes
        refine ⟨i, t, rfl, lineText, ?_⟩
        rw [← Utf8.encode_injective (decoded.symm.trans encoded)]
        exact on.range_selects decoded
      · intro s params isOpen into
        obtain ⟨line', character, points, same, first, last⟩ := into
        obtain rfl : line = line' := LineNumber.number.inj (number.symm.trans same)
        obtain ⟨c', found', word', range'⟩ := Justfile.exists_symbolAt_in_range found first last
        obtain ⟨_, finds, _⟩ := exists_finds_word points isOpen found'
        rw [word', range'] at finds
        exact finds.description

/-- **Hover texts and definitions agree.**  Requests for both that point at any place of an open
document are served.  There is a hover text just when a word is found at the place by whose name
there is a recipe or a variable, and there is one wherever there are definitions.  Where the scope
of the word is not narrow the converse holds too, and the definitions are those by the name of the
word that have the kind in the hover text. -/
theorem hover_agrees (points : Params.PointsTo params key (.int line) (.int character))
    (isOpen : s.documents.find? key = some (.ofText name text version)) :
    ∃ found definitions description,
      (Justfile.ofText text).symbolAt (.number line) (.units character) = .ok found ∧
      Finds params s definitions description ∧
      (description ≠ .null ↔ ∃ c, found = some c ∧
        ∃ kind, (Justfile.ofText text).named kind (Utf8.encode c.word) ≠ []) ∧
      (definitions ≠ .null → description ≠ .null) ∧
      ∀ c, found = some c → (c.scope = .any → (definitions ≠ .null ↔ description ≠ .null)) ∧
        (description ≠ .null → ∃ kind, Describes key name version text line c kind description ∧
          (c.scope = .any → (Justfile.ofText text).Lists name
            ((Justfile.ofText text).named kind (Utf8.encode c.word)) definitions)) := by
  obtain ⟨found, symbol⟩ := Justfile.exists_symbolAt text line character
  cases found with
  | none =>
      refine ⟨none, .null, .null, symbol, finds_nothing points isOpen symbol, ?_, ?_, ?_⟩
      · refine iff_of_false (not_not_intro rfl) ?_
        rintro ⟨c, other, -⟩
        cases other
      · exact fun other => absurd rfl other
      · intro c other
        cases other
  | some c =>
      obtain ⟨before, word, after, on⟩ := Justfile.exists_isOn symbol
      obtain ⟨definitions, finds, lists⟩ := exists_finds_word points isOpen symbol
      have defined := hover_ne_null_iff (j := .ofText text) on c.range
      rw [← on.encode_word] at defined
      have implied : definitions ≠ .null →
          hover (.ofJustfile (.ofText text)) c.word c.range ≠ .null := by
        intro given
        obtain ⟨kind, same⟩ :=
          (Justfile.ofText text).exists_admitted_eq (Utf8.encode c.word) c.scope
        rw [ne_eq, lists.eq_null_iff, same] at given
        exact defined.2 ⟨kind, given⟩
      have described : hover (.ofJustfile (.ofText text)) c.word c.range ≠ .null →
          ∃ kind, Describes key name version text line c kind
              (hover (.ofJustfile (.ofText text)) c.word c.range) ∧
            (c.scope = .any → (Justfile.ofText text).Lists name
              ((Justfile.ofText text).named kind (Utf8.encode c.word)) definitions) := by
        intro given
        obtain ⟨kind, describes⟩ := exists_describes key name version symbol given
        refine ⟨kind, describes, fun any => ?_⟩
        rwa [any, admitted_any_of_kind describes.defined describes.recipe] at lists
      refine ⟨some c, definitions, _, symbol, finds, ?_, implied, ?_⟩
      · rw [defined]
        constructor
        · intro named
          exact ⟨c, rfl, named⟩
        · rintro ⟨c', same, named⟩
          obtain rfl := Option.some.inj same
          exact named
      · rintro c' same
        obtain rfl := Option.some.inj same
        refine ⟨fun any => ⟨implied, fun given => ?_⟩, described⟩
        obtain ⟨kind, describes, lists'⟩ := described given
        rw [ne_eq, (lists' any).eq_null_iff]
        exact describes.defined

/-- The hover text of the reference in braces is about the recipe of its name, although it asks for
variables only.  At the name of the recipe the two requests agree. -/
theorem hover_agrees_at_reference :
    (∃ definitions description c, Finds (pointing 2 5) interpolating definitions description ∧
      c.scope = .variables ∧ Describes (.text "file:///justfile") (.str "file:///justfile") (.int 1)
        interpolated 2 c .recipe description) ∧
    ∃ definitions description, Finds (pointing 1 0) interpolating definitions description ∧
      definitions ≠ .null ∧ description ≠ .null := by
  have defined : (Justfile.ofText interpolated).named .recipe (Utf8.encode "a") ≠ [] := by decide
  constructor
  · obtain ⟨c, found, bytes, column, on⟩ :=
      isAt_reference.exists_isOn cut_reference (by decide) (by decide)
    have inside : c.scope = .variables := by
      rw [Cursor.scope, bytes, column]
      decide
    obtain ⟨_, definitions, description, symbol, finds, given, -, agree⟩ :=
      hover_agrees (pointsTo_pointing 2 5) isOpen_interpolated
    obtain rfl := Except.ok.inj (found.symm.trans symbol)
    rw [← on.encode_word] at defined
    obtain ⟨kind, describes, -⟩ := (agree c rfl).2 (given.2 ⟨c, rfl, .recipe, defined⟩)
    obtain rfl : kind = .recipe := describes.recipe.2 defined
    exact ⟨definitions, description, c, finds, inside, describes⟩
  · have here : (Justfile.ofText interpolated).IsAt 1 0 (Utf8.encode "a:") 0 :=
      ⟨by decide, "a:", rfl, by decide⟩
    have cut : Word.Cut (Utf8.encode "a:") [] (Utf8.encode "a") (Utf8.encode ":") :=
      .of_tests (by decide) (by decide) (by decide) (by decide) (by decide)
    obtain ⟨c, found, bytes, column, on⟩ := here.exists_isOn cut (by decide) (by decide)
    have anything : c.scope = .any := by
      rw [Cursor.scope, bytes, column]
      decide
    obtain ⟨_, definitions, description, symbol, finds, given, -, agree⟩ :=
      hover_agrees (pointsTo_pointing 1 0) isOpen_interpolated
    obtain rfl := Except.ok.inj (found.symm.trans symbol)
    rw [← on.encode_word] at defined
    have described := given.2 ⟨c, rfl, .recipe, defined⟩
    exact ⟨definitions, description, finds, ((agree c rfl).1 anything).2 described, described⟩

end Server

end JustfileServer
