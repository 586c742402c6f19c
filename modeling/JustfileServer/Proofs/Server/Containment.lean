import JustfileServer.Proofs.Justfile.Index
import JustfileServer.Proofs.Rpc.Actions
import JustfileServer.Proofs.Rpc.Faults
import JustfileServer.Proofs.Server.Readable
import JustfileServer.Server.Session

/-!
# What the handlers keep

While the server is serving, no handler but the two that end the session makes it stop, and every
fault that a handler ends with is in the program's own words.  `Contained` says this of an action,
together with what is known about its result; there is one rule for each way in which actions are
put together, and one lemma for each handler.
-/

namespace JustfileServer

/-- A line is entered in both places, or in none when the file cannot take it. -/
theorem Journal.perform_enter (line : Text) (j : Journal) :
    (enter line).perform j =
      if j.keepsFile then
        match Utf8.encodeStrict (line ++ Text.ofString "\n") with
        | .error f => (.error (.unencodable f), j)
        | .ok _ => (.ok (), ⟨j.keepsFile, j.filed ++ [line], j.shown ++ [line]⟩)
      else (.ok (), ⟨j.keepsFile, j.filed, j.shown ++ [line]⟩) := by
  have present : (get : Action Journal Journal).perform j = (.ok j, j) := rfl
  rw [enter, Action.perform_bind_ok present]
  cases hk : j.keepsFile with
  | false => simp only [Bool.false_eq_true, if_false]; rw [← hk]; rfl
  | true =>
      simp only [if_true]
      cases he : Utf8.encodeStrict (line ++ Text.ofString "\n") with
      | error f => rfl
      | ok bytes => rw [← hk]; rfl

/-- A document as it can be opened by a message. -/
structure Document.IsModest (d : Document) : Prop where
  shortName : d.uri.hasLongInteger = false
  text : ∃ t, t.length ≤ maxBodyLength ∧ d.justfile = .ofText t
  index : d.index = .ofJustfile d.justfile

namespace Server

/-- The server is not shutting down, and its documents came in frames. -/
structure IsServing (s : Server) : Prop where
  goesOn : s.isShuttingDown = false
  documents : ∀ e ∈ s.documents, e.document.IsModest

/-- Entering a line changes only the journal, and fails only for a line that has no encoding. -/
theorem perform_log (line : Text) (s : Server) :
    ∃ result journal, (log line).perform s = (result, { s with journal := journal }) ∧
      (∀ f, result = .error f → f.isForeign = false) ∧
      (line.hasSurrogate = false → result = .ok ()) := by
  refine ⟨((Journal.enter line).perform s.journal).1, ((Journal.enter line).perform s.journal).2,
    rfl, ?_, ?_⟩
  · intro f hf
    rw [Journal.perform_enter] at hf
    split at hf
    · split at hf <;> cases hf
      rfl
    · cases hf
  · intro scalar
    have encodes : Utf8.encodeStrict (line ++ Text.ofString "\n")
        = .ok (Utf8.encode (line ++ Text.ofString "\n")) := by
      refine Utf8.encodeStrict_eq_ok (Text.hasSurrogate_eq_false_iff.1 ?_)
      simp [scalar]
    rw [Journal.perform_enter, encodes]
    split <;> rfl

/-- A line without a surrogate is always entered. -/
theorem exists_perform_log {line : Text} (scalar : line.hasSurrogate = false) (s : Server) :
    ∃ journal, (log line).perform s = (.ok (), { s with journal := journal }) := by
  obtain ⟨result, journal, performed, -, entered⟩ := perform_log line s
  rw [entered scalar] at performed
  exact ⟨journal, performed⟩

/-- An action keeps the server serving; its result is as said, and its fault is in the program's own
words. -/
def Contained {α : Type} (a : Action Server α) (s : Server) (Q : α → Prop) : Prop :=
  match a.perform s with
  | (.ok v, s') => s'.IsServing ∧ Q v
  | (.error f, s') => s'.IsServing ∧ f.isForeign = false

namespace Contained

variable {α β : Type} {s : Server} {P Q : α → Prop}

theorem pure {v : α} (serving : s.IsServing) (h : Q v) : Contained (pure v) s Q := ⟨serving, h⟩

theorem bind {a : Action Server α} {g : α → Action Server β} {R : β → Prop}
    (h : Contained a s P) (hg : ∀ v s', s'.IsServing → P v → Contained (g v) s' R) :
    Contained (a >>= g) s R := by
  unfold Contained at h ⊢
  rw [Action.perform_bind]
  rcases result : a.perform s with ⟨f | v, s'⟩
  · rwa [result] at h
  · rw [result] at h
    exact hg v s' h.1 h.2

theorem mono {a : Action Server α} (h : Contained a s P) (hq : ∀ v, P v → Q v) :
    Contained a s Q := by
  unfold Contained at h ⊢
  rcases result : a.perform s with ⟨f | v, s'⟩
  · rwa [result] at h
  · rw [result] at h
    exact ⟨h.1, hq v h.2⟩

theorem lift {e : Except Fault α} (serving : s.IsServing) (value : ∀ v, e = .ok v → Q v)
    (fault : ∀ f, e = .error f → f.isForeign = false) :
    Contained (liftM e : Action Server α) s Q := by
  cases e with
  | ok v => exact ⟨serving, value v rfl⟩
  | error f => exact ⟨serving, fault f rfl⟩

theorem get (serving : s.IsServing) : Contained get s IsServing := ⟨serving, serving⟩

theorem modify {f : Server → Server} (h : (f s).IsServing) :
    Contained (modify f) s fun _ => True := ⟨h, trivial⟩

theorem log (serving : s.IsServing) (line : Text) :
    Contained (Server.log line) s fun _ => True := by
  obtain ⟨result, journal, performed, own, -⟩ := perform_log line s
  unfold Contained
  rw [performed]
  have same : ({ s with journal := journal } : Server).IsServing :=
    ⟨serving.goesOn, serving.documents⟩
  cases result with
  | ok _ => exact ⟨same, trivial⟩
  | error f => exact ⟨same, own f rfl⟩

/-! ## Parameters -/

theorem member {v default : Json} (serving : s.IsServing) (hv : v.IsReadable)
    (hd : default.IsReadable) (name : Text) :
    Contained (liftM (Params.member v name default) : Action Server Json) s Json.IsReadable := by
  refine lift serving ?_ ?_
  · intro w hw
    unfold Params.member at hw
    split at hw
    · cases hw
      rename_i members
      cases hm : Json.member? members name with
      | none => exact hd
      | some w => exact hv.member? hm
    · cases hw
  · intro f hf
    unfold Params.member at hf
    split at hf <;> cases hf
    rfl

theorem text {v : Json} (serving : s.IsServing) (hv : v.IsReadable) :
    Contained (liftM (Params.text v) : Action Server Text) s
      fun t => t.length ≤ maxBodyLength := by
  refine lift serving ?_ ?_
  · intro t ht
    unfold Params.text at ht
    split at ht <;> cases ht
    exact hv.length_le
  · intro f hf
    unfold Params.text at hf
    split at hf <;> cases hf
    rfl

theorem firstChange {v : Json} (serving : s.IsServing) (hv : v.IsReadable) :
    Contained (liftM (Params.firstChange v) : Action Server Json) s Json.IsReadable := by
  refine lift serving ?_ ?_
  · intro w hw
    unfold Params.firstChange at hw
    split at hw <;> cases hw
    · exact hv.element (List.mem_cons_self ..)
    · intro p hp
      simp only [Json.parts, List.mem_singleton] at hp
      subst hp
      show 1 ≤ maxBodyLength
      decide
  · intro f hf
    unfold Params.firstChange at hf
    split at hf <;> cases hf <;> rfl

theorem key (name : Json) (serving : s.IsServing) :
    Contained (liftM (DocumentKey.ofJson name) : Action Server DocumentKey) s fun _ => True := by
  refine lift serving (fun _ _ => trivial) ?_
  intro f hf
  unfold DocumentKey.ofJson at hf
  split at hf
  case h_4 => split at hf <;> cases hf
  all_goals cases hf <;> rfl

end Contained

/-! ## The handlers -/

variable {s : Server} {params : Json}

theorem contained_ready (serving : s.IsServing) : Contained (advance .ready) s fun _ => True := by
  refine .bind (.get serving) fun t s' serving _ => ?_
  dsimp only
  split
  · refine .bind (.log serving _) fun _ s' serving _ => .modify ⟨rfl, serving.documents⟩
  · exact .pure serving trivial

theorem contained_greet (serving : s.IsServing) :
    Contained (greet params) s fun outcome => outcome = .ok capabilities :=
  .bind (.log serving _) fun _ _ serving _ =>
    .bind (contained_ready serving) fun _ _ serving _ => .pure serving rfl

theorem contained_confirm (serving : s.IsServing) :
    Contained (confirm params) s fun _ => True := .log serving _

/-- The entries of a table in which a document was put are its own, but for that document. -/
theorem mem_put {table : DocumentTable} {key : DocumentKey} {d : Document} {e : DocumentEntry}
    (h : e ∈ table.put key d) : e.document = d ∨ ∃ f ∈ table, f.document = e.document := by
  fun_induction DocumentTable.put table key d with
  | case1 =>
      obtain rfl := List.mem_singleton.1 h
      exact .inl rfl
  | case2 f rest same =>
      rcases List.mem_cons.1 h with rfl | h
      · exact .inl rfl
      · exact .inr ⟨e, List.mem_cons_of_mem _ h, rfl⟩
  | case3 f rest other ih =>
      rcases List.mem_cons.1 h with rfl | h
      · exact .inr ⟨e, List.mem_cons_self .., rfl⟩
      · rcases ih h with h | ⟨g, hg, same⟩
        · exact .inl h
        · exact .inr ⟨g, List.mem_cons_of_mem _ hg, same⟩

theorem contained_store {d : Document} (modest : d.IsModest) (serving : s.IsServing) :
    Contained (store d) s fun _ => True := by
  refine .bind (.key _ serving) fun key s' serving _ => ?_
  refine .bind (.modify ⟨serving.goesOn, ?_⟩) fun _ s' serving _ => ?_
  · intro e he
    rcases mem_put he with same | ⟨f, hf, same⟩
    · rwa [same]
    · rw [← same]
      exact serving.documents f hf
  · split
    · exact .pure serving trivial
    · exact .log serving _

theorem isModest_ofText {uri version : Json} {t : Text} (hu : uri.IsReadable)
    (fits : t.length ≤ maxBodyLength) : (Document.ofText uri t version).IsModest :=
  ⟨hu.hasLongInteger, ⟨t, fits, rfl⟩, rfl⟩

theorem contained_openDocument (serving : s.IsServing) (hp : params.IsReadable) :
    Contained (openDocument params) s fun _ => True := by
  refine .bind (.member serving hp Json.isReadable_obj_nil _) fun document s' serving hd => ?_
  refine .bind (.member serving hd Json.isReadable_str_nil _) fun uri s' serving hu => ?_
  refine .bind (.member serving hd Json.isReadable_zero _) fun version s' serving _ => ?_
  refine .bind (.member serving hd Json.isReadable_str_nil _) fun content s' serving hc => ?_
  refine .bind (.log serving _) fun _ s' serving _ => ?_
  refine .bind (.text serving hc) fun t s' serving fits => ?_
  exact contained_store (isModest_ofText hu fits) serving

theorem contained_changeDocument (serving : s.IsServing) (hp : params.IsReadable) :
    Contained (changeDocument params) s fun _ => True := by
  have change (uri version changes : Json) (hu : uri.IsReadable) (hc : changes.IsReadable)
      {s : Server} (serving : s.IsServing) : Contained (do
        let content ← Params.content (← Params.firstChange changes)
        store (.ofText uri (← Params.text content) version)) s fun _ => True := by
    refine .bind (.firstChange serving hc) fun first s' serving hf => ?_
    refine .bind (.member serving hf Json.isReadable_str_nil _) fun content s' serving hc => ?_
    refine .bind (.text serving hc) fun t s' serving fits => ?_
    exact contained_store (isModest_ofText hu fits) serving
  refine .bind (.member serving hp Json.isReadable_obj_nil _) fun document s' serving hd => ?_
  refine .bind (.member serving hd Json.isReadable_str_nil _) fun uri s' serving hu => ?_
  refine .bind (.member serving hd Json.isReadable_zero _) fun version s' serving _ => ?_
  refine .bind (.member serving hp Json.isReadable_arr_nil _) fun changes s' serving hc => ?_
  split
  · refine .bind (.key _ serving) fun key s' serving _ => ?_
    refine .bind (.get serving) fun t s' serving _ => ?_
    dsimp only
    split
    · exact .bind (.log serving _) fun _ s' serving _ => change uri version changes hu hc serving
    · exact change uri version changes hu hc serving
  · exact .pure serving trivial

theorem contained_closeDocument (serving : s.IsServing) (hp : params.IsReadable) :
    Contained (closeDocument params) s fun _ => True := by
  refine .bind (.member serving hp Json.isReadable_obj_nil _) fun document s' serving hd => ?_
  refine .bind (.member serving hd Json.isReadable_str_nil _) fun uri s' serving _ => ?_
  refine .bind (.log serving _) fun _ s' serving _ => ?_
  refine .bind (.get serving) fun t s' serving _ => ?_
  split
  · refine .bind (.key _ serving) fun key s' serving _ => ?_
    refine .modify ⟨serving.goesOn, fun e he => serving.documents e ?_⟩
    exact List.mem_of_mem_filter he
  · exact .pure serving trivial

/-! ## Navigation -/

/-- The object of a range whose columns lie in a document of a frame can be written. -/
theorem hasLongInteger_range {d : Document} (modest : d.IsModest) {line : LineNumber}
    (short : line.toJson.hasLongInteger = false) {first last : Nat}
    (hf : first ≤ 2 * d.justfile.data.length) (hl : last ≤ 2 * d.justfile.data.length) :
    Json.hasLongInteger (Range.toJson ⟨⟨line, first⟩, ⟨line, last⟩⟩) = false := by
  obtain ⟨t, fits, hj⟩ := modest.text
  have size : d.justfile.data.length ≤ 4 * maxBodyLength := by
    rw [hj]
    exact Nat.le_trans (Utf8.length_encode_le t) (by omega)
  have first := Json.isLongInteger_of_le (show first ≤ 8 * maxBodyLength by omega)
  have last := Json.isLongInteger_of_le (show last ≤ 8 * maxBodyLength by omega)
  simp [Range.toJson, Position.toJson, short, first, last]

theorem hasLongInteger_definitionRange {d : Document} (modest : d.IsModest) {e : Definition}
    (he : e ∈ d.justfile.definitions) {range : Range}
    (h : d.justfile.definitionRange e = .ok range) : range.toJson.hasLongInteger = false := by
  obtain ⟨first, last, rfl, hf, hl⟩ := Justfile.definitionRange_le h
  refine hasLongInteger_range modest ?_ hf hl
  obtain ⟨t, fits, hj⟩ := modest.text
  have line := Justfile.line_le_of_mem_definitions (hj ▸ he)
  have size := Utf8.length_encode_le t
  have short := Json.isLongInteger_of_le
    (show e.line ≤ 8 * maxBodyLength from Nat.le_trans line (Nat.le_trans size (by omega)))
  simpa [LineNumber.toJson] using short

/-- A line of a document is sent as it came. -/
theorem toJson_of_line? {count : Nat} {line : Json} {number : LineNumber}
    (h : Params.line? count line = .ok (some number)) : number.toJson = line := by
  unfold Params.line? at h
  split at h
  · split at h <;> cases h
    rfl
  · rename_i b
    by_cases beyond : count ≤ (if b then 1 else 0)
    · rw [if_pos beyond] at h
      cases h
    · rw [if_neg beyond] at h
      cases h
      rfl
  · split at h <;> cases h
  · cases h

theorem eq_ok_of_decoded {α : Type} {e : Except Utf8.DecodeFault α} {v : α}
    (h : decoded e = .ok v) : e = .ok v := by
  cases e <;> cases h
  rfl

/-- A position that touches a word names a line, and the word is found on it. -/
theorem symbolAt_of_cursorAt {d : Document} {line character : Json} {c : Cursor}
    (h : cursorAt d line character = .ok (some c)) :
    ∃ number column, number.toJson = line ∧
      d.justfile.symbolAt number column = .ok (some c) := by
  unfold cursorAt at h
  obtain ⟨number, named, h⟩ := exists_of_bind_eq_ok h
  cases number with
  | none => cases h
  | some number =>
      dsimp only at h
      split at h
      · exact ⟨number, _, toJson_of_line? named, eq_ok_of_decoded h⟩
      · obtain ⟨column, -, h⟩ := exists_of_bind_eq_ok h
        exact ⟨number, column, toJson_of_line? named, eq_ok_of_decoded h⟩

theorem isForeign_of_decoded {α : Type} {e : Except Utf8.DecodeFault α} {f : Fault}
    (h : decoded e = .error f) : f.isForeign = false := by
  cases e <;> cases h
  rfl

theorem isForeign_of_cursorAt {d : Document} {line character : Json} {f : Fault}
    (h : cursorAt d line character = .error f) : f.isForeign = false := by
  unfold cursorAt at h
  cases hn : Params.line? d.justfile.lineStarts.length line with
  | error g =>
      rw [hn] at h
      cases h
      unfold Params.line? at hn
      split at hn
      · cases hn
      · cases hn
      · split at hn <;> cases hn
        rfl
      · cases hn
        rfl
  | ok number =>
      simp only [hn, bind, Except.bind] at h
      cases number with
      | none => cases h
      | some number =>
          dsimp only at h
          split at h
          · exact isForeign_of_decoded h
          · split at h
            · rename_i hc
              cases h
              unfold Params.column at hc
              split at hc
              · cases hc
              · cases hc
              · split at hc <;> cases hc
              · cases hc
                rfl
            · exact isForeign_of_decoded h

/-- The word that a position touches has a range that can be written. -/
theorem contained_cursorAt {d : Document} (modest : d.IsModest) {line character : Json}
    (hl : line.IsReadable) (serving : s.IsServing) :
    Contained (liftM (cursorAt d line character) : Action Server (Option Cursor)) s fun found =>
      ∀ c, found = some c → c.range.toJson.hasLongInteger = false := by
  refine .lift serving ?_ fun f h => isForeign_of_cursorAt h
  rintro _ h c rfl
  obtain ⟨number, column, same, found⟩ := symbolAt_of_cursorAt h
  obtain ⟨first, last, range, hf, hl'⟩ := Justfile.symbolAt_le found
  rw [range]
  refine hasLongInteger_range modest ?_ hf hl'
  rw [same]
  exact hl.hasLongInteger

theorem mem_of_find? {table : DocumentTable} {key : DocumentKey} {d : Document}
    (h : table.find? key = some d) : ∃ e ∈ table, e.document = d := by
  fun_induction DocumentTable.find? table key with
  | case1 => cases h
  | case2 e rest same =>
      cases h
      exact ⟨e, List.mem_cons_self .., rfl⟩
  | case3 e rest other ih =>
      obtain ⟨f, hf, same⟩ := ih h
      exact ⟨f, List.mem_cons_of_mem _ hf, same⟩

theorem contained_target (serving : s.IsServing) (hp : params.IsReadable) :
    Contained (target params) s fun found => ∀ d c, found = some (d, c) →
      d.IsModest ∧ c.range.toJson.hasLongInteger = false := by
  refine .bind (.member serving hp Json.isReadable_obj_nil _) fun document s' serving hd => ?_
  refine .bind (.member serving hd Json.isReadable_str_nil _) fun uri s' serving _ => ?_
  refine .bind (.member serving hp Json.isReadable_obj_nil _) fun position s' serving hq => ?_
  refine .bind (.member serving hq Json.isReadable_zero _) fun line s' serving hl => ?_
  refine .bind (.member serving hq Json.isReadable_zero _) fun character s' serving _ => ?_
  refine .bind (.key _ serving) fun key s' serving _ => ?_
  refine .bind (.get serving) fun t s' serving ht => ?_
  split
  · exact .pure serving (by simp)
  · rename_i d found
    obtain ⟨e, he, rfl⟩ := mem_of_find? found
    have modest := ht.documents e he
    refine .bind (contained_cursorAt modest hl serving) fun found s' serving hc => ?_
    split
    · exact .pure serving (by simp)
    · rename_i c
      refine .pure serving ?_
      intro d' c' same
      cases same
      exact ⟨modest, hc c rfl⟩

theorem hasSurrogate_range (r : Range) : r.toJson.hasSurrogate = false := by
  have line (n : LineNumber) : n.toJson.hasSurrogate = false := by cases n <;> rfl
  simp [Range.toJson, Position.toJson, line]

/-- A word is made of bytes, which are no surrogates. -/
theorem hasSurrogate_word (c : Cursor) : c.word.hasSurrogate = false :=
  Text.hasSurrogate_map_ofByte _

/-- A hover text can always be sent. -/
theorem contained_describeWord (serving : s.IsServing) (hp : params.IsReadable) :
    Contained (describeWord params) s fun outcome => ∃ result, outcome = .ok result ∧
      result.hasLongInteger = false ∧ result.hasSurrogate = false := by
  refine .bind (contained_target serving hp) fun found s' serving hf => ?_
  split
  · exact .pure serving ⟨_, rfl, rfl, rfl⟩
  · rename_i d c
    obtain ⟨modest, short⟩ := hf d c rfl
    refine .bind (.log serving _) fun _ s' serving _ => ?_
    split
    · exact .pure serving ⟨_, rfl, rfl, rfl⟩
    · rename_i kind _
      refine .pure serving ⟨_, rfl, ?_, ?_⟩
      · simp [hoverJson, short]
      · have label : kind.label.hasSurrogate = false := by cases kind <;> decide
        simp [hoverJson, plainText, label, hasSurrogate_word, hasSurrogate_range]

/-- The places of definitions can be sent unless the document's name cannot. -/
theorem contained_findDefinitions (serving : s.IsServing) (hp : params.IsReadable) :
    Contained (findDefinitions params) s fun outcome => ∃ result, outcome = .ok result ∧
      result.hasLongInteger = false ∧ (result.hasSurrogate = true → ∃ uri ranges,
        result = .arr (List.map (locationJson uri) ranges) ∧ ranges ≠ [] ∧
          uri.hasSurrogate = true) := by
  refine .bind (contained_target serving hp) fun found s' serving hf => ?_
  split
  · exact .pure serving ⟨_, rfl, rfl, by simp⟩
  · rename_i d c
    obtain ⟨modest, -⟩ := hf d c rfl
    refine .bind (.log serving _) fun _ s' serving _ => ?_
    split
    · exact .pure serving ⟨_, rfl, rfl, by simp⟩
    · have ranges : Contained (liftM (decoded ((Scope.resolve d.index c.word c.scope).mapM
          d.justfile.definitionRange)) : Action Server (List Range)) s' fun ranges =>
            ∀ range ∈ ranges, range.toJson.hasLongInteger = false := by
        refine .lift serving ?_ fun f h => isForeign_of_decoded h
        intro ranges h range hr
        obtain ⟨e, he, same⟩ := exists_of_mem_mapM (eq_ok_of_decoded h) hr
        rw [modest.index] at he
        exact hasLongInteger_definitionRange modest (Justfile.mem_definitions_of_mem_resolve he) same
      refine .bind ranges fun ranges s' serving hr => .pure serving ⟨_, rfl, ?_, ?_⟩
      · rw [Json.hasLongInteger_arr, List.any_eq_false]
        intro location hl
        obtain ⟨range, hrange, rfl⟩ := List.mem_map.1 hl
        simp [locationJson, modest.shortName, hr range hrange]
      · intro surrogate
        rw [Json.hasSurrogate_arr, List.any_eq_true] at surrogate
        obtain ⟨location, hl, surrogate⟩ := surrogate
        obtain ⟨range, hrange, rfl⟩ := List.mem_map.1 hl
        refine ⟨d.uri, ranges, rfl, List.ne_nil_of_mem hrange, ?_⟩
        simpa [locationJson, hasSurrogate_range] using surrogate

end Server

end JustfileServer
