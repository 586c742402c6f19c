import Mathlib.Logic.Relation
import JustfileServer.Frame.Writer
import JustfileServer.Proofs.Frame.HeaderLines

/-!
# The last length counts

Of several lines for the length the last one alone decides whether a header block announces a body,
and how long it is (`LastGives`).  So the other lines may be taken away, added and moved, and any
further lines for the length may be put in front of the last one: `HeaderEdit` is one such change,
and no number of them is seen in the announced length (`last_length_counts`).
-/

namespace JustfileServer

/-- **The last line for the length gives this number.** -/
def LastGives (lines : List Bytes) (n : Int) : Prop :=
  ∃ before line after, lines = before ++ line :: after ∧ GivesLength line n ∧
    ∀ later ∈ after, ¬ ConcernsLength later

/-- A change of header lines that leaves the last line for the length alone. -/
inductive HeaderEdit : List Bytes → List Bytes → Prop
  | insert (front : List Bytes) {line : Bytes} (back : List Bytes) : ¬ ConcernsLength line →
      HeaderEdit (front ++ back) (front ++ line :: back)
  | remove (front : List Bytes) {line : Bytes} (back : List Bytes) : ¬ ConcernsLength line →
      HeaderEdit (front ++ line :: back) (front ++ back)
  /-- Neighbours change places, unless both are for the length. -/
  | swap (front : List Bytes) {first second : Bytes} (back : List Bytes) :
      ¬ ConcernsLength first ∨ ¬ ConcernsLength second →
      HeaderEdit (front ++ first :: second :: back) (front ++ second :: first :: back)
  /-- Any line is put in before one for the length. -/
  | before (front : List Bytes) (line : Bytes) (back : List Bytes) {later : Bytes} :
      later ∈ back → ConcernsLength later → HeaderEdit (front ++ back) (front ++ line :: back)

variable {data line : Bytes} {lines lines' : List Bytes} {n : Nat}

/-- What a header line gives, if it is for the length. -/
def lineField? (line : Bytes) : Option LengthField := lengthField? (headerText line)

theorem filterMap_lineField? (lines : List Bytes) :
    (lines.map headerText).filterMap lengthField? = lines.filterMap lineField? :=
  List.filterMap_map ..

theorem lineField?_eq_none_iff : lineField? line = none ↔ ¬ ConcernsLength line :=
  lengthField?_eq_none_iff

/-! ## The last field -/

/-- The last field comes from a line behind which there is none for the length. -/
theorem getLast?_fields_eq_some_iff {field : LengthField} :
    (lines.filterMap lineField?).getLast? = some field ↔
      ∃ before line after, lines = before ++ line :: after ∧ lineField? line = some field ∧
        ∀ later ∈ after, ¬ ConcernsLength later := by
  rw [List.getLast?_filterMap, List.findSome?_eq_some_iff]
  constructor
  · rintro ⟨after, line, before, reversed, gives, none⟩
    refine ⟨before.reverse, line, after.reverse, ?_, gives, ?_⟩
    · simpa using congrArg List.reverse reversed
    · intro later h
      exact lineField?_eq_none_iff.1 (none later (by simpa using h))
  · rintro ⟨before, line, after, rfl, gives, none⟩
    refine ⟨after.reverse, line, before.reverse, by simp, gives, ?_⟩
    intro later h
    exact lineField?_eq_none_iff.2 (none later (by simpa using h))

theorem lastGives_iff {n : Int} :
    LastGives lines n ↔ (lines.filterMap lineField?).getLast? = some (.number n) := by
  rw [getLast?_fields_eq_some_iff]
  simp only [lineField?, lengthField?_eq_number_iff]
  rfl

/-- The lengths that a block gives have a part in what it announces by the last of them only. -/
theorem length?_congr {block block' : HeaderBlock} (ended : block.ended = block'.ended)
    (last : block.fields.getLast? = block'.fields.getLast?) : block.length? = block'.length? := by
  rw [HeaderBlock.length?, HeaderBlock.length?, ended, last]

/-! ## Changes of header lines -/

/-- One change leaves the last field as it is. -/
theorem HeaderEdit.getLast?_fields (h : HeaderEdit lines lines') :
    (lines'.filterMap lineField?).getLast? = (lines.filterMap lineField?).getLast? := by
  cases h with
  | insert front back other =>
      simp [lineField?_eq_none_iff.2 other]
  | remove front back other =>
      simp [lineField?_eq_none_iff.2 other]
  | @swap front first second back other =>
      rcases other with other | other
      · simp [List.filterMap_cons, lineField?_eq_none_iff.2 other]
      · simp [List.filterMap_cons, lineField?_eq_none_iff.2 other]
  | @before front line back later inside concerns =>
      -- the fields behind the new line are not empty, so the last one is among them
      obtain ⟨field, gives⟩ : ∃ field, lineField? later = some field := by
        rw [← Option.ne_none_iff_exists']
        exact fun none => lineField?_eq_none_iff.1 none concerns
      have some : back.filterMap lineField? ≠ [] :=
        List.ne_nil_of_mem (List.mem_filterMap.2 ⟨later, inside, gives⟩)
      have last : ∀ fields, (fields ++ back.filterMap lineField?).getLast?
          = (back.filterMap lineField?).getLast? := by
        intro fields
        rw [List.getLast?_append, Option.or_of_isSome]
        rwa [List.getLast?_isSome]
      have before : (front ++ back).filterMap lineField?
          = front.filterMap lineField? ++ back.filterMap lineField? := List.filterMap_append ..
      rw [← List.singleton_append, ← List.append_assoc, List.filterMap_append, before, last, last]

/-- No number of changes is seen in the last field. -/
theorem getLast?_fields_of_edits (h : Relation.ReflTransGen HeaderEdit lines lines') :
    (lines'.filterMap lineField?).getLast? = (lines.filterMap lineField?).getLast? := by
  induction h with
  | refl => rfl
  | tail _ step ih => exact step.getLast?_fields.trans ih

/-! ## Announced lengths -/

/-- **The last line for the length counts**, of any bytes.

Where they begin with header lines and a blank line, just these are taken off, and the announced
length is the number that the last line for the length gives, if it is positive and not beyond all
reason; in all other cases none is announced.  Where no line is blank, everything is taken off and
no length is announced.  What is announced stays the same when header lines are changed that are not
for the length, and when any lines are put in before the last one that is. -/
theorem last_length_counts (data : Bytes) :
    (∀ lines blank rest, IsHeaded data lines blank rest →
      (takeBlock data).rest = rest ∧
        ∀ n, (takeBlock data).length? = some n ↔
          LastGives lines n ∧ 1 ≤ n ∧ n ≤ 64 * 1024 * 1024) ∧
    ((¬ ∃ lines blank rest, IsHeaded data lines blank rest) →
      (takeBlock data).rest = [] ∧ (takeBlock data).length? = none) ∧
    (∀ lines lines' tail, data = lines.flatten ++ tail → (∀ line ∈ lines, IsHeaderLine line) →
      (∀ line ∈ lines', IsHeaderLine line) → Relation.ReflTransGen HeaderEdit lines lines' →
      (takeBlock (lines'.flatten ++ tail)).rest = (takeBlock data).rest ∧
        (takeBlock (lines'.flatten ++ tail)).length? = (takeBlock data).length?) := by
  refine ⟨?_, ?_, ?_⟩
  · intro lines blank rest headed
    rw [headed.takeBlock_eq]
    refine ⟨rfl, ?_⟩
    intro n
    rw [length?_eq_some_iff, lastGives_iff, ← filterMap_lineField?]
    constructor
    · rintro ⟨-, pos, most, last⟩
      exact ⟨last, pos, most⟩
    · rintro ⟨last, pos, most⟩
      exact ⟨rfl, pos, most, last⟩
  · intro none
    obtain ⟨rest, opened⟩ := rest_of_not_headed none
    exact ⟨rest, by simp [HeaderBlock.length?, opened]⟩
  · rintro lines lines' tail rfl all all' edits
    rw [takeBlock_lines all, takeBlock_lines all']
    refine ⟨rfl, length?_congr rfl ?_⟩
    simp only [HeaderBlock.fields, List.filterMap_append, filterMap_lineField?,
      List.getLast?_append, getLast?_fields_of_edits edits]

/-- Of two lines for the length the second counts, with its sign and its underscore, and so it does
when a line that gives no number is put in between them.  Without a blank line none counts. -/
theorem last_length_counts_signed :
    let first := Frame.ascii "Content-Length: 7\n"
    let invalid := Frame.ascii "Content-Length: :\n"
    let last := Frame.ascii "\t content-LENGTH : +1_0 \r\n"
    let data := [first, last].flatten ++ Frame.ascii "\r\n\x7b\x7d"
    IsHeaded data [first, last] (Frame.ascii "\r\n") (Frame.ascii "\x7b\x7d") ∧
      (takeBlock data).rest = Frame.ascii "\x7b\x7d" ∧ (takeBlock data).length? = some 10 ∧
      (takeBlock ([first, invalid, last].flatten ++ Frame.ascii "\r\n\x7b\x7d")).length? = some 10 ∧
      (takeBlock first).rest = [] ∧ (takeBlock first).length? = none := by
  intro first invalid last data
  have headed : IsHeaded data [first, last] (Frame.ascii "\r\n") (Frame.ascii "\x7b\x7d") := by
    decide
  have concerns : IsLengthLine last (Text.ofString "\t content-LENGTH ")
      (Text.ofString " +1_0 \r\n") := ⟨by decide, by decide, by decide⟩
  have gives : LastGives [first, last] 10 :=
    ⟨[first], last, [], rfl, ⟨_, _, concerns, Numeral.integer?_eq_some_iff.1 (by decide)⟩, by simp⟩
  have edit : HeaderEdit [first, last] [first, invalid, last] :=
    .before [first] invalid [last] (List.mem_singleton.2 rfl) ⟨_, _, concerns⟩
  have opened : ¬ ∃ lines blank rest, IsHeaded first lines blank rest := by
    rintro ⟨lines, blank, rest, headed⟩
    have taken := takeBlock_lines (show ∀ line ∈ [first], IsHeaderLine line by decide) []
    rw [List.flatten_singleton, List.append_nil, headed.takeBlock_eq, takeBlock] at taken
    cases congrArg HeaderBlock.ended taken
  obtain ⟨taken, -, stays⟩ := last_length_counts data
  obtain ⟨rest, announced⟩ := taken _ _ _ headed
  have ten := (announced 10).2 ⟨gives, by decide, by decide⟩
  obtain ⟨-, same⟩ := stays _ _ _ rfl headed.lines (by decide) (.single edit)
  exact ⟨headed, rest, ten, same.trans ten, (last_length_counts first).2.1 opened⟩

end JustfileServer
