import JustfileServer.Proofs.Navigation.Positions
import JustfileServer.Proofs.Server.Containment

/-!
# Where the definitions of a word are

A request for definitions that points at an open document is always served.  The answer is null
when there is no such line, no word at the position, or no definition that the scope of the word
admits; otherwise it lists the places of all the definitions that are admitted, from the top down
(`definitions_found`).

The layers in between agree because the lines of a document decode, a word is ASCII, and the index
lists definitions by their names.
-/

namespace JustfileServer

/-- The parameters of a request point at a place in a document; what is left out has its default. -/
structure Params.PointsAt (params uri : Json) (line character : Int) : Prop where
  document : ∃ d, Params.document params = .ok d ∧ Params.documentName d = .ok uri
  position : ∃ p, Params.member params "position" (.obj []) = .ok p ∧
    Params.member p "line" (.int 0) = .ok (.int line) ∧
    Params.member p "character" (.int 0) = .ok (.int character)

/-- The parameters of a request point at a place in the document that has a key, whatever the line
and the character are. -/
structure Params.PointsTo (params : Json) (key : DocumentKey) (line character : Json) : Prop where
  document : ∃ d uri, Params.document params = .ok d ∧ Params.documentName d = .ok uri ∧
    DocumentKey.ofJson uri = .ok key
  position : ∃ p, Params.member params "position" (.obj []) = .ok p ∧
    Params.member p "line" (.int 0) = .ok line ∧
    Params.member p "character" (.int 0) = .ok character

/-- The parameters of a request point at a column of a stretch of the document that has a key; the
end of the stretch is such a column too. -/
def Params.PointsInto (params : Json) (key : DocumentKey) (range : Range) : Prop :=
  ∃ line character : Int, Params.PointsTo params key (.int line) (.int character) ∧
    range.start.line = .number line ∧ range.start.character ≤ character ∧
    character ≤ range.stop.character

theorem Params.PointsAt.pointsTo {params uri : Json} {line character : Int} {key : DocumentKey}
    (points : PointsAt params uri line character) (known : DocumentKey.ofJson uri = .ok key) :
    PointsTo params key (.int line) (.int character) := by
  obtain ⟨d, document, name⟩ := points.document
  exact ⟨⟨d, uri, document, name, known⟩, points.position⟩

namespace Server

variable {s : Server} {params uri : Json} {line character : Int} {key : DocumentKey} {d : Document}
  {text : Text}

/-! ## The cursor -/

/-- An integer position is looked up as it is; on an empty line any column would do. -/
theorem cursorAt_int (hd : d.justfile = .ofText text) (line character : Int) :
    cursorAt d (.int line) (.int character)
      = decoded (d.justfile.symbolAt (.number line) (.units character)) := by
  have table : d.justfile.lineBytes? line = none ↔
      line < 0 ∨ (d.justfile.lineStarts.length : Int) ≤ line := by
    rw [hd]
    exact lineBytes?_eq_none_iff
  rw [cursorAt, Params.line?]
  cases bytes : d.justfile.lineBytes? line with
  | none =>
      have beyond := table.1 bytes
      rw [if_pos (by simpa using beyond), Justfile.symbolAt, LineNumber.toInt, bytes]
      rfl
  | some bytes' =>
      have inside : ¬ (line < 0 ∨ (d.justfile.lineStarts.length : Int) ≤ line) := by
        rw [← table, bytes]
        exact Option.some_ne_none _
      rw [if_neg (by simpa using inside), ok_bind]
      dsimp only
      rw [LineNumber.toInt, bytes]
      cases bytes' with
      | cons b bytes' => rfl
      | nil =>
          show decoded (d.justfile.symbolAt (.number line) (.units 0)) = _
          have empty : Utf8.decode .codePoints [] = .ok [] := Utf8.decode_codePoints_encode []
          rw [Justfile.symbolAt, Justfile.symbolAt, LineNumber.toInt, bytes]
          dsimp only
          rw [empty]
          rfl

theorem cursorAt_of_symbolAt {name version : Json} {found : Option Cursor}
    (h : (Justfile.ofText text).symbolAt (.number line) (.units character) = .ok found) :
    cursorAt (.ofText name text version) (.int line) (.int character) = .ok found := by
  rw [cursorAt_int rfl]
  show decoded ((Justfile.ofText text).symbolAt _ _) = _
  rw [h]
  rfl

theorem perform_liftM_ok {α : Type} {e : Except Fault α} {v : α} (h : e = .ok v) :
    (liftM e : Action Server α).perform s = (.ok v, s) := by
  rw [h]
  rfl

/-- A request that points at an open document looks for the symbol at the position. -/
theorem perform_target_eq {line character : Json}
    (points : Params.PointsTo params key line character)
    (isOpen : s.documents.find? key = some d) :
    (target params).perform s
      = ((cursorAt d line character).map fun found => found.map fun c => (d, c), s) := by
  obtain ⟨document, uri, hasDocument, name, known⟩ := points.document
  obtain ⟨position, hasPosition, hasLine, hasCharacter⟩ := points.position
  have present : (get : Action Server Server).perform s = (.ok s, s) := rfl
  rw [target, Action.perform_bind_ok (perform_liftM_ok hasDocument),
    Action.perform_bind_ok (perform_liftM_ok name),
    Action.perform_bind_ok (perform_liftM_ok hasPosition),
    Action.perform_bind_ok (perform_liftM_ok hasLine),
    Action.perform_bind_ok (perform_liftM_ok hasCharacter),
    Action.perform_bind_ok (perform_liftM_ok known), Action.perform_bind_ok present]
  rw [isOpen]
  dsimp only
  cases cursorAt d line character with
  | error f => rfl
  | ok found => cases found <;> rfl

/-- What a request points at is the open document and the symbol at the position. -/
theorem perform_target {line character : Json} {found : Option Cursor}
    (points : Params.PointsTo params key line character)
    (isOpen : s.documents.find? key = some d) (h : cursorAt d line character = .ok found) :
    (target params).perform s = (.ok (found.map fun c => (d, c)), s) := by
  rw [perform_target_eq points isOpen, h]
  rfl

/-! ## The answer -/

theorem perform_findDefinitions_none (h : (target params).perform s = (.ok none, s)) :
    (findDefinitions params).perform s = (.ok (.ok .null), s) := by
  rw [findDefinitions, Action.perform_bind_ok h]
  rfl

/-- Where a word is found, the places of its definitions are given; the line in the journal is about
the word, so it is always entered. -/
theorem perform_findDefinitions_some {c : Cursor} {ranges : List Range}
    (h : (target params).perform s = (.ok (some (d, c)), s))
    (located : (c.scope.resolve d.index c.word).mapM d.justfile.definitionRange = .ok ranges) :
    ∃ journal, (findDefinitions params).perform s
      = (.ok (.ok (if c.scope.resolve d.index c.word = [] then .null
          else .arr (ranges.map (locationJson d.uri)))), { s with journal := journal }) := by
  have label : c.scope.label.hasSurrogate = false := by cases c.scope <;> decide
  have scalar : Text.hasSurrogate (Text.ofString "Definition requested for: " ++ c.word
      ++ Text.ofString " (" ++ c.scope.label ++ Text.ofString ")") = false := by
    simp [hasSurrogate_word, label]
  obtain ⟨journal, logged⟩ := exists_perform_log scalar s
  refine ⟨journal, ?_⟩
  rw [findDefinitions, Action.perform_bind_ok h]
  dsimp only
  rw [Action.perform_bind_ok logged]
  cases definitions : c.scope.resolve d.index c.word with
  | nil => rfl
  | cons e es =>
      have places : decoded ((e :: es).mapM d.justfile.definitionRange) = .ok ranges := by
        rw [← definitions, located]
        rfl
      dsimp only
      rw [Action.perform_bind_ok (perform_liftM_ok places)]
      rfl

/-- Every definition of a document has a place, so the places are always found. -/
theorem exists_places {name version : Json} {text : Text} {c : Cursor}
    (h : (target params).perform s = (.ok (some (.ofText name text version, c)), s)) :
    ∃ ranges journal,
      List.Forall₂ (Justfile.ofText text).IsPlaceOf
        (c.scope.resolve (.ofJustfile (.ofText text)) c.word) ranges ∧
      (findDefinitions params).perform s
        = (.ok (.ok (if c.scope.resolve (.ofJustfile (.ofText text)) c.word = []
            then .null else .arr (ranges.map (locationJson name)))),
          { s with journal := journal }) := by
  obtain ⟨ranges, located, places⟩ := exists_mapM_eq_ok
    fun d (_ : d ∈ c.scope.resolve (.ofJustfile (.ofText text)) c.word) =>
      Justfile.exists_isPlaceOf text d
  obtain ⟨journal, performed⟩ := perform_findDefinitions_some h located
  exact ⟨ranges, journal, places, performed⟩

theorem perform_findDefinitions_nowhere {name version : Json} {text : Text}
    (points : Params.PointsAt params uri line character) (known : DocumentKey.ofJson uri = .ok key)
    (isOpen : s.documents.find? key = some (.ofText name text version))
    (nowhere : (Justfile.ofText text).symbolAt (.number line) (.units character) = .ok none) :
    (findDefinitions params).perform s = (.ok (.ok .null), s) :=
  perform_findDefinitions_none
    (perform_target (points.pointsTo known) isOpen (cursorAt_of_symbolAt nowhere))

/-- A position that touches a word is answered with the places of what is admitted. -/
theorem perform_findDefinitions_touched {name version : Json} {text : Text} {bytes word : Bytes}
    {column : Nat} (points : Params.PointsAt params uri line character)
    (known : DocumentKey.ofJson uri = .ok key)
    (isOpen : s.documents.find? key = some (.ofText name text version))
    (here : (Justfile.ofText text).IsAt line character bytes column)
    (touched : Word.IsTouched bytes column word) :
    ∃ ranges journal,
      List.Forall₂ (Justfile.ofText text).IsPlaceOf
        ((Justfile.ofText text).admitted word (Scope.atColumn bytes column)) ranges ∧
      (findDefinitions params).perform s
        = (.ok (.ok (if (Justfile.ofText text).admitted word (Scope.atColumn bytes column) = []
            then .null else .arr (ranges.map (locationJson name)))),
          { s with journal := journal }) := by
  obtain ⟨before, after, cut, first, last⟩ := touched
  obtain ⟨c, pointed, rfl, rfl, on⟩ := here.exists_isOn cut first last
  have aimed := perform_target (points.pointsTo known) isOpen (cursorAt_of_symbolAt pointed)
  obtain ⟨ranges, journal, places, performed⟩ := exists_places aimed
  rw [on.resolve_eq] at places performed
  exact ⟨ranges, journal, places, performed⟩

/-- **Definitions are found, all of them.**  A request that points at an open document is served.
The answer is null when the line does not exist, or there is no symbol byte at the column or just
before it, or no definition of the word is admitted; otherwise it lists, from top to bottom, the place
of each definition that is admitted, on the line of the definition. -/
theorem definitions_found {name version : Json} {text : Text}
    (points : Params.PointsAt params uri line character) (known : DocumentKey.ofJson uri = .ok key)
    (isOpen : s.documents.find? key = some (.ofText name text version)) :
    ∃ result journal,
      (findDefinitions params).perform s = (.ok (.ok result), { s with journal := journal }) ∧
      (result = .null ↔ (Justfile.ofText text).lineBytes? line = none ∨
        ∃ bytes column, (Justfile.ofText text).IsAt line character bytes column ∧
          (¬ Word.TouchesSymbol bytes column ∨ ∃ word, Word.IsTouched bytes column word ∧
            (Justfile.ofText text).admitted word (Scope.atColumn bytes column) = [])) ∧
      (result ≠ .null → ∃ bytes column word ranges,
        (Justfile.ofText text).IsAt line character bytes column ∧
        Word.IsTouched bytes column word ∧
        List.Forall₂ (Justfile.ofText text).IsPlaceOf
          ((Justfile.ofText text).admitted word (Scope.atColumn bytes column)) ranges ∧
        result = .arr (ranges.map (locationJson name))) := by
  cases found : (Justfile.ofText text).lineBytes? line with
  | none =>
      have nowhere : (Justfile.ofText text).symbolAt (.number line) (.units character)
          = .ok none := by
        rw [Justfile.symbolAt, LineNumber.toInt, found]
        rfl
      exact ⟨.null, s.journal, perform_findDefinitions_nowhere points known isOpen nowhere,
        iff_of_true rfl (.inl rfl), fun other => absurd rfl other⟩
  | some bytes =>
      obtain ⟨column, here⟩ := Justfile.exists_isAt found character
      by_cases touches : Word.TouchesSymbol bytes column
      · obtain ⟨word, touched⟩ := Word.touchesSymbol_iff_exists.1 touches
        obtain ⟨ranges, journal, places, performed⟩ :=
          perform_findDefinitions_touched points known isOpen here touched
        by_cases none : (Justfile.ofText text).admitted word (Scope.atColumn bytes column) = []
        · rw [if_pos none] at performed
          exact ⟨.null, journal, performed,
            iff_of_true rfl (.inr ⟨bytes, column, here, .inr ⟨word, touched, none⟩⟩),
            fun other => absurd rfl other⟩
        · rw [if_neg none] at performed
          refine ⟨_, journal, performed, iff_of_false (by intro null; cases null) ?_,
            fun _ => ⟨bytes, column, word, ranges, here, touched, places, rfl⟩⟩
          -- the position has one line and one word, which has been found to have definitions
          rintro (absent | ⟨bytes', column', there, silent | ⟨other, otherTouched, noneOther⟩⟩)
          · cases absent
          · obtain ⟨rfl, rfl⟩ := here.unique there
            exact silent touches
          · obtain ⟨rfl, rfl⟩ := here.unique there
            rw [touched.unique otherTouched] at none
            exact none noneOther
      · exact ⟨.null, s.journal,
          perform_findDefinitions_nowhere points known isOpen (here.symbolAt_eq_none touches),
          iff_of_true rfl (.inr ⟨bytes, column, here, .inl touches⟩),
          fun other => absurd rfl other⟩

/-- A document of two assignments, of which the second one refers to the first one. -/
def twoAssignments : Text := "a := 1\nb := a"

/-- A server with the document open. -/
def assigned : Server :=
  { initial false with
    documents := DocumentTable.put [] (.text "file:///justfile")
      (.ofText (.str "file:///justfile") twoAssignments (.int 1)) }

/-- The parameters of a request that points at the reference. -/
def atReference : Json :=
  .obj [("textDocument", .obj [("uri", .str "file:///justfile")]),
    ("position", .obj [("line", .int 1), ("character", .int 5)])]

/-- The definition of a variable is found from where it is referred to. -/
theorem definitions_found_at_reference :
    ∃ result journal, (findDefinitions atReference).perform assigned
        = (.ok (.ok result), { assigned with journal := journal }) ∧ result ≠ .null := by
  have points : Params.PointsAt atReference (.str "file:///justfile") 1 5 :=
    ⟨⟨_, rfl, rfl⟩, _, rfl, rfl, rfl⟩
  have isOpen : assigned.documents.find? (.text "file:///justfile")
      = some (.ofText (.str "file:///justfile") twoAssignments (.int 1)) := rfl
  obtain ⟨result, journal, performed, null, -⟩ := definitions_found points rfl isOpen
  refine ⟨result, journal, performed, ?_⟩
  intro h
  rcases null.1 h with absent | ⟨bytes, column, here, answered⟩
  · exact absurd absent (by decide)
  have place : (Justfile.ofText twoAssignments).IsAt 1 5 (Utf8.encode "b := a") 5 :=
    ⟨by decide, "b := a", rfl, by decide⟩
  obtain ⟨rfl, rfl⟩ := place.unique here
  have cut : Word.Cut (Utf8.encode "b := a") (Utf8.encode "b := ") (Utf8.encode "a") [] := by
    have letter : Utf8.encode "a" = [0x61] := by decide
    have blank : (Utf8.encode "b := ").getLast? = some 0x20 := by decide
    refine ⟨by decide, fun b hb => ?_, by decide, fun b hb => ?_, fun b hb => by cases hb⟩
    · rw [letter, List.mem_singleton] at hb
      rw [hb]
      decide
    · rw [blank] at hb
      cases hb
      decide
  have touched : Word.IsTouched (Utf8.encode "b := a") 5 (Utf8.encode "a") :=
    ⟨_, _, cut, by decide, by decide⟩
  rcases answered with silent | ⟨word, same, none⟩
  · exact silent (Word.touchesSymbol_iff_exists.2 ⟨_, touched⟩)
  · rw [← touched.unique same] at none
    exact absurd none (by decide)

end Server

end JustfileServer
