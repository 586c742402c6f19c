import JustfileServer.Proofs.Server.Definitions

/-!
# One answer for a word

A request that points at a word of an open document is always served, for definitions
(`exists_serves_findDefinitions`) as well as for a hover text (`serves_describeWord`), and the
result is told from the word, its scope and the stretch that it takes up.  These are the same
wherever on the word the request points, so the answer is the same too (`same_answer_on_word`).
-/

namespace JustfileServer

/-- **A result lists definitions**: it has their places, from top to bottom, or is null when there
are none. -/
def Justfile.Lists (j : Justfile) (uri : Json) (definitions : List Definition) (result : Json) :
    Prop :=
  ∃ ranges, List.Forall₂ j.IsPlaceOf definitions ranges ∧
    result = if definitions = [] then .null else .arr (ranges.map (locationJson uri))

/-- Definitions are listed in one way only. -/
theorem Justfile.Lists.unique {j : Justfile} {uri result other : Json}
    {definitions : List Definition} (h : j.Lists uri definitions result)
    (h' : j.Lists uri definitions other) : result = other := by
  obtain ⟨ranges, places, rfl⟩ := h
  obtain ⟨ranges', places', rfl⟩ := h'
  have functional : Relator.RightUnique j.IsPlaceOf := fun _ _ _ place place' =>
    place.unique place'
  rw [functional.forall₂ places places']

/-- A list is null just when there are no definitions. -/
theorem Justfile.Lists.eq_null_iff {j : Justfile} {uri result : Json}
    {definitions : List Definition} (h : j.Lists uri definitions result) :
    result = .null ↔ definitions = [] := by
  obtain ⟨ranges, -, rfl⟩ := h
  by_cases none : definitions = []
  · simp [none]
  · simp [none]

/-- Among definitions that are listed each one has its place. -/
theorem Justfile.Lists.exists_location {j : Justfile} {uri result : Json}
    {definitions : List Definition} (h : j.Lists uri definitions result) {d : Definition}
    (hd : d ∈ definitions) {range : Range} (place : j.IsPlaceOf d range) :
    ∃ locations, result = .arr locations ∧ locationJson uri range ∈ locations := by
  obtain ⟨ranges, places, rfl⟩ := h
  obtain ⟨range', listed, place'⟩ := exists_of_mem_forall₂ places.flip hd
  rw [if_neg (List.ne_nil_of_mem hd), place.unique place']
  exact ⟨_, rfl, List.mem_map_of_mem listed⟩

/-- No two lines are sent alike. -/
theorem LineNumber.toJson_injective : Function.Injective LineNumber.toJson := by
  intro a b h
  cases a <;> cases b <;> cases h <;> rfl

namespace Server

variable {s s' : Server} {handler : RequestHandler Server} {params params' : Json}
  {key : DocumentKey} {d : Document} {name version : Json} {text : Text}
  {line character character' : Json} {c c' : Cursor}

/-- **A request is served** with a result; nothing but the journal is changed. -/
def Serves (handler : RequestHandler Server) (params : Json) (s : Server) (result : Json) : Prop :=
  ∃ journal, (handler params).perform s = (.ok (.ok result), { s with journal := journal })

/-- A request is served with one result only. -/
theorem Serves.unique {result other : Json} (h : Serves handler params s result)
    (h' : Serves handler params s other) : result = other := by
  obtain ⟨journal, performed⟩ := h
  obtain ⟨journal', performed'⟩ := h'
  rw [performed, Prod.mk.injEq, Except.ok.injEq, Outcome.ok.injEq] at performed'
  exact performed'.1

/-! ## Requests on a word -/

/-- The request for definitions of a word is served with those that it is resolved to. -/
theorem exists_serves_findDefinitions
    (h : (target params).perform s = (.ok (some (.ofText name text version, c)), s)) :
    ∃ result, Serves findDefinitions params s result ∧ (Justfile.ofText text).Lists name
      (c.scope.resolve (.ofJustfile (.ofText text)) c.word) result := by
  obtain ⟨ranges, journal, places, performed⟩ := exists_places h
  exact ⟨_, ⟨journal, performed⟩, ranges, places, rfl⟩

/-- The hover text of a word, on the stretch that it takes up; there is none for a word that is not
defined. -/
def hover (index : SymbolIndex) (word : Text) (range : Range) : Json :=
  match kindOf? index word with
  | none => .null
  | some kind => hoverJson (kind.label ++ Text.ofString ": " ++ word) (some range) plainText

/-- The request for a hover text is served with that of the word; the line in the journal is about
the word, so it is always entered. -/
theorem serves_describeWord (h : (target params).perform s = (.ok (some (d, c)), s)) :
    Serves describeWord params s (hover d.index c.word c.range) := by
  have scalar : Text.hasSurrogate (Text.ofString "Hover requested for: " ++ c.word) = false := by
    simp [hasSurrogate_word]
  obtain ⟨journal, logged⟩ := exists_perform_log scalar s
  refine ⟨journal, ?_⟩
  rw [describeWord, Action.perform_bind_ok h]
  dsimp only
  rw [Action.perform_bind_ok logged, hover]
  cases kindOf? d.index c.word with
  | none => rfl
  | some kind => rfl

/-! ## Two requests on one word -/

/-- **A word has one answer.**  Two requests point at the same line of an open document, and the
word that is found there takes up the same bytes of the line.  Then both are served with the same
definitions, those that the word is resolved to in its scope, and with the same hover text, wherever
on the word each of them points and however its column is given. -/
theorem same_answer_on_word (points : Params.PointsTo params key line character)
    (points' : Params.PointsTo params' key line character')
    (isOpen : s.documents.find? key = some (.ofText name text version))
    (isOpen' : s'.documents.find? key = some (.ofText name text version))
    (found : cursorAt (.ofText name text version) line character = .ok (some c))
    (found' : cursorAt (.ofText name text version) line character' = .ok (some c'))
    (start : c.start = c'.start) (stop : c.stop = c'.stop) :
    (∃ result, Serves findDefinitions params s result ∧ Serves findDefinitions params' s' result ∧
      (Justfile.ofText text).Lists name
        (c.scope.resolve (.ofJustfile (.ofText text)) c.word) result) ∧
    Serves describeWord params s (hover (.ofJustfile (.ofText text)) c.word c.range) ∧
    Serves describeWord params' s' (hover (.ofJustfile (.ofText text)) c.word c.range) := by
  obtain ⟨number, column, sent, pointed⟩ := symbolAt_of_cursorAt found
  obtain ⟨number', column', sent', pointed'⟩ := symbolAt_of_cursorAt found'
  obtain rfl : number = number' := LineNumber.toJson_injective (sent.trans sent'.symm)
  obtain ⟨word, scope, range⟩ := Justfile.eq_of_same_word pointed pointed' start stop
  have aimed := perform_target points isOpen found
  have aimed' := perform_target points' isOpen' found'
  have index : (Document.ofText name text version).index = .ofJustfile (.ofText text) := rfl
  refine ⟨?_, ?_, ?_⟩
  · obtain ⟨result, served, lists⟩ := exists_serves_findDefinitions aimed
    obtain ⟨result', served', lists'⟩ := exists_serves_findDefinitions aimed'
    rw [← word, ← scope] at lists'
    rw [lists'.unique lists] at served'
    exact ⟨result, served, served', lists⟩
  · rw [← index]
    exact serves_describeWord aimed
  · rw [word, range, ← index]
    exact serves_describeWord aimed'

/-- A command that refers to a variable.  An emoji before the reference makes UTF-16 units and bytes
differ. -/
def reference : Text := "\t😀\x7b\x7ba\x7d\x7d"

/-- A variable and a recipe of one name, the variable being referred to in the recipe. -/
def interpolated : Text := Text.ofString "a := 1\na:\n" ++ reference

/-- A server with the document open. -/
def interpolating : Server :=
  { initial false with
    documents := DocumentTable.put [] (.text "file:///justfile")
      (.ofText (.str "file:///justfile") interpolated (.int 1)) }

theorem isOpen_interpolated : interpolating.documents.find? (.text "file:///justfile")
    = some (.ofText (.str "file:///justfile") interpolated (.int 1)) := rfl

/-- The parameters of a request that points at a place in the document. -/
def pointing (line character : Int) : Json :=
  .obj [("textDocument", .obj [("uri", .str "file:///justfile")]),
    ("position", .obj [("line", .int line), ("character", .int character)])]

theorem pointsTo_pointing (line character : Int) :
    Params.PointsTo (pointing line character) (.text "file:///justfile") (.int line)
      (.int character) :=
  ⟨⟨_, _, rfl, rfl, rfl⟩, _, rfl, rfl, rfl⟩

theorem cut_reference :
    Word.Cut (Utf8.encode reference) ((Utf8.encode reference).take 7) (Utf8.encode "a")
      ((Utf8.encode reference).drop 8) :=
  .of_tests (by decide) (by decide) (by decide) (by decide) (by decide)

/-- The reference begins five UTF-16 units into its line, which are seven bytes. -/
theorem isAt_reference : (Justfile.ofText interpolated).IsAt 2 5 (Utf8.encode reference) 7 :=
  ⟨by decide, reference, rfl, by decide⟩

theorem isAt_behind_reference :
    (Justfile.ofText interpolated).IsAt 2 6 (Utf8.encode reference) 8 :=
  ⟨by decide, reference, rfl, by decide⟩

/-- The variable is found from the only byte of the reference, and from behind it, where the braces
are closed. -/
theorem same_answer_on_reference :
    (∃ result, Serves findDefinitions (pointing 2 5) interpolating result ∧
      Serves findDefinitions (pointing 2 6) interpolating result ∧ result ≠ .null) ∧
    ∃ result, Serves describeWord (pointing 2 5) interpolating result ∧
      Serves describeWord (pointing 2 6) interpolating result := by
  obtain ⟨c, found, bytes, column, on⟩ :=
    isAt_reference.exists_isOn cut_reference (by decide) (by decide)
  obtain ⟨c', found', -, -, on'⟩ :=
    isAt_behind_reference.exists_isOn cut_reference (by decide) (by decide)
  have inside : c.scope = .variables := by
    rw [Cursor.scope, bytes, column]
    decide
  obtain ⟨⟨result, here, behind, lists⟩, hovers, hovers'⟩ :=
    same_answer_on_word (pointsTo_pointing 2 5) (pointsTo_pointing 2 6) isOpen_interpolated
      isOpen_interpolated (cursorAt_of_symbolAt found) (cursorAt_of_symbolAt found')
      (on.start.trans on'.start.symm) (on.stop.trans on'.stop.symm)
  refine ⟨⟨result, here, behind, ?_⟩, _, hovers, hovers'⟩
  obtain ⟨ranges, -, listed⟩ := lists
  rw [on.resolve_eq, inside, if_neg (by decide)] at listed
  rw [listed]
  intro null
  cases null

end Server

end JustfileServer
