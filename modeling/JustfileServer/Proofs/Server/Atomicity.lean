import JustfileServer.Proofs.Server.Documents
import JustfileServer.Proofs.Server.Lifecycle

/-!
# Failing messages leave the server as it was

A handler that changes the documents looks at the parameters and enters its first line before it
touches the table; from then on it must not fail.  What could still fail is the line that reports
the problems of the document, since it has the document's name in it.  It does not: a name that the
file could not take is kept out of the table by the line before, and a name that is in the table
already was entered once (`Tidy`).  So an action either succeeds or changes nothing but the journal
(`Orderly`), and a message that fails leaves the server as it was (`failing_changes_nothing`).
-/

namespace JustfileServer

/-! ## Names -/

/-- Is there a surrogate in the key? -/
def DocumentKey.hasSurrogate : DocumentKey → Bool
  | .text t => t.hasSurrogate
  | _ => false

/-- What is shown of a name has just the surrogates of its key. -/
theorem DocumentKey.hasSurrogate_shown {uri : Json} {key : DocumentKey}
    (named : ofJson uri = .ok key) : uri.shown.hasSurrogate = key.hasSurrogate := by
  cases uri with
  | null =>
      cases named
      rfl
  | bool b =>
      cases named
      cases b <;> rfl
  | int n =>
      cases named
      exact Numeral.hasSurrogate_ofInt n
  | float x =>
      have plain : (Json.float x).shown.hasSurrogate = false :=
        NumberLayout.hasSurrogate_render (by decide) (by decide) x
      rw [ofJson] at named
      rw [plain]
      split at named <;> cases named <;> rfl
  | str t =>
      cases named
      rfl
  | arr => cases named
  | obj => cases named

namespace DocumentTable

theorem exists_of_find?_ne_none {table : DocumentTable} {key : DocumentKey}
    (found : table.find? key ≠ none) : ∃ e ∈ table, e.key = key := by
  induction table with
  | nil => exact absurd rfl found
  | cons e table ih =>
      rw [find?] at found
      by_cases here : e.key = key
      · exact ⟨e, List.mem_cons_self .., here⟩
      · rw [if_neg here] at found
        obtain ⟨f, hf, same⟩ := ih found
        exact ⟨f, List.mem_cons_of_mem _ hf, same⟩

/-- A table in which a document was put has the keys of before and the key of the document. -/
theorem key_of_mem_put {table : DocumentTable} {key : DocumentKey} {d : Document}
    {e : DocumentEntry} (h : e ∈ table.put key d) : e.key = key ∨ ∃ f ∈ table, f.key = e.key := by
  have listed : e.key ∈ (table.put key d).map DocumentEntry.key := List.mem_map_of_mem h
  rw [keys_put] at listed
  split at listed
  · exact .inr (List.mem_map.1 listed)
  · rcases List.mem_append.1 listed with listed | listed
    · exact .inr (List.mem_map.1 listed)
    · exact .inl (List.mem_singleton.1 listed)

end DocumentTable

namespace Server

variable {α β : Type} {file : Bool} {s : Server} {params v : Json}

/-- **A tidy server**: its table is coherent, and if there is a file, no name in the table has a
surrogate in it. -/
structure Tidy (file : Bool) (s : Server) : Prop where
  keepsFile : s.journal.keepsFile = file
  coherent : s.documents.IsCoherent
  scalar : file = true → ∀ e ∈ s.documents, e.key.hasSurrogate = false

namespace Tidy

theorem isQuiet (file : Bool) : IsQuiet (Tidy file) :=
  fun _ _ same h => ⟨same.trans h.keepsFile, h.coherent, h.scalar⟩

theorem put {key : DocumentKey} {uri : Json} (h : s.Tidy file)
    (named : DocumentKey.ofJson uri = .ok key) (fits : file = true → key.hasSurrogate = false)
    (text : Text) (version : Json) :
    Tidy file { s with documents := s.documents.put key (.ofText uri text version) } where
  keepsFile := h.keepsFile
  coherent := h.coherent.put text named
  scalar kept e he := by
    rcases DocumentTable.key_of_mem_put he with same | ⟨f, hf, same⟩
    · rw [same, fits kept]
    · rw [← same, h.scalar kept f hf]

theorem erase (h : s.Tidy file) (key : DocumentKey) :
    Tidy file { s with documents := s.documents.erase key } where
  keepsFile := h.keepsFile
  coherent := h.coherent.erase key
  scalar kept e he := h.scalar kept e (List.mem_of_mem_filter he)

end Tidy

/-- A line that was entered in a file has no surrogate. -/
theorem hasSurrogate_of_logged {line : Text} {s' : Server}
    (entered : (log line).perform s = (.ok (), s')) (kept : s.journal.keepsFile = true) :
    line.hasSurrogate = false := by
  rw [Text.hasSurrogate_eq_false_iff]
  intro c hc
  by_contra surrogate
  obtain ⟨f, refused⟩ := Utf8.encodeStrict_eq_error
    (List.mem_append_left (Text.ofString "\n") hc) (by simpa using surrogate)
  have shown := Journal.perform_enter line s.journal
  rw [if_pos kept, refused] at shown
  have failed : ((log line).perform s).1 = .error (.unencodable f) := congrArg Prod.fst shown
  rw [entered] at failed
  cases failed

/-- **An orderly action** succeeds, with this result and state, or else changes nothing but the
journal. -/
def Orderly (a : Action Server α) (s : Server) (R : α → Server → Prop) : Prop :=
  match a.perform s with
  | (.ok v, s') => R v s'
  | (.error _, s') => Noted s s'

namespace Orderly

variable {R : β → Server → Prop}

theorem of_ok {a : Action Server β} {v : β} {s' : Server} (done : a.perform s = (.ok v, s'))
    (h : R v s') : Orderly a s R := by
  unfold Orderly
  rwa [done]

theorem lift_bind {e : Except Fault α} {g : α → Action Server β}
    (next : ∀ v, e = .ok v → Orderly (g v) s R) : Orderly (liftM e >>= g) s R := by
  cases e with
  | error f => exact Noted.refl s
  | ok v => exact next v rfl

theorem get_bind {g : Server → Action Server β} (next : Orderly (g s) s R) :
    Orderly (get >>= g) s R := next

/-- When a line was entered, the file could take it. -/
theorem log_bind {line : Text} {g : Unit → Action Server β}
    (next : ∀ s', Noted s s' → (s.journal.keepsFile = true → line.hasSurrogate = false) →
      Orderly (g ()) s' R) : Orderly (log line >>= g) s R := by
  have noted := (Noted.isQuiet s).log line s (.refl s)
  unfold Orderly
  rw [Action.perform_bind]
  rcases entered : (log line).perform s with ⟨f | _, s'⟩ <;> rw [entered] at noted
  · exact noted
  · have later := next s' noted (hasSurrogate_of_logged entered)
    unfold Orderly at later
    dsimp only
    rcases result : (g ()).perform s' with ⟨f | v, s''⟩ <;> rw [result] at later
    · exact noted.trans later
    · exact later

end Orderly

/-! ## Storing -/

/-- **A document whose name can be entered is stored without a fault.** -/
theorem perform_store {d : Document} {key : DocumentKey}
    (named : DocumentKey.ofJson d.uri = .ok key)
    (fits : s.journal.keepsFile = true → key.hasSurrogate = false) :
    ∃ s', (store d).perform s = (.ok (), s') ∧
      Noted { s with documents := s.documents.put key d } s' := by
  have keyed : (liftM (DocumentKey.ofJson d.uri) : Action Server DocumentKey).perform s
      = (.ok key, s) := by
    rw [named]
    rfl
  have stored : (modify fun s => { s with documents := s.documents.put key d } :
      Action Server PUnit).perform s
        = (.ok (), { s with documents := s.documents.put key d }) := rfl
  rw [store, Action.perform_bind_ok keyed, Action.perform_bind_ok stored]
  split
  · exact ⟨_, rfl, .refl _⟩
  · refine perform_log_fitting fun kept => ?_
    have name := DocumentKey.hasSurrogate_shown named
    rw [fits kept] at name
    simp [name, describeProblem]

theorem orderly_store {uri version : Json} {text : Text} (tidy : s.Tidy file)
    (fits : file = true → uri.shown.hasSurrogate = false) :
    Orderly (store (.ofText uri text version)) s fun _ s' => s'.Tidy file := by
  cases named : DocumentKey.ofJson uri with
  | error f =>
      have failed : (store (.ofText uri text version)).perform s = (.error f, s) := by
        have keyed : (liftM (DocumentKey.ofJson uri) : Action Server DocumentKey).perform s
            = (.error f, s) := by
          rw [named]
          rfl
        exact Action.perform_bind_error keyed _
      unfold Orderly
      rw [failed]
      exact .refl s
  | ok key =>
      have fits : file = true → key.hasSurrogate = false := fun kept => by
        rw [← DocumentKey.hasSurrogate_shown named, fits kept]
      obtain ⟨s', stored, noted⟩ := perform_store (d := .ofText uri text version) named
        fun kept => fits (tidy.keepsFile ▸ kept)
      exact .of_ok stored (noted.keeps (Tidy.isQuiet file) (tidy.put named fits text version))

/-! ## The handlers -/

/-- A line that shows a name is entered only if the name has no surrogate. -/
theorem fits_of_line {opening : String} {uri : Json} (tidy : s.Tidy file)
    (fits : s.journal.keepsFile = true →
      (Text.ofString opening ++ uri.shown).hasSurrogate = false) (kept : file = true) :
    uri.shown.hasSurrogate = false := by
  simpa using fits (tidy.keepsFile.trans kept)

theorem orderly_openDocument (tidy : s.Tidy file) (params : Json) :
    Orderly (openDocument params) s fun _ s' => s'.Tidy file := by
  refine .lift_bind fun document _ => .lift_bind fun uri _ => ?_
  refine .lift_bind fun version _ => .lift_bind fun content _ => ?_
  refine .log_bind fun s' noted fits => .lift_bind fun text _ => ?_
  exact orderly_store (noted.keeps (Tidy.isQuiet file) tidy) (fits_of_line tidy fits)

theorem orderly_changeDocument (tidy : s.Tidy file) (params : Json) :
    Orderly (changeDocument params) s fun _ s' => s'.Tidy file := by
  have change {s : Server} (tidy : s.Tidy file) (uri version changes : Json)
      (fits : file = true → uri.shown.hasSurrogate = false) : Orderly (do
        let content ← Params.content (← Params.firstChange changes)
        store (.ofText uri (← Params.text content) version)) s fun _ s' => s'.Tidy file :=
    .lift_bind fun first _ => .lift_bind fun content _ => .lift_bind fun text _ =>
      orderly_store tidy fits
  refine .lift_bind fun document _ => .lift_bind fun uri _ => ?_
  refine .lift_bind fun version _ => .lift_bind fun changes _ => ?_
  split
  · refine .lift_bind fun key named => .get_bind ?_
    dsimp only
    split
    · refine .log_bind fun s' noted fits => ?_
      exact change (noted.keeps (Tidy.isQuiet file) tidy) uri version changes
        (fits_of_line tidy fits)
    · rename_i present
      obtain ⟨e, he, same⟩ := DocumentTable.exists_of_find?_ne_none (by simpa using present)
      refine change tidy uri version changes fun kept => ?_
      rw [DocumentKey.hasSurrogate_shown named, ← same, tidy.scalar kept e he]
  · exact .of_ok rfl tidy

theorem orderly_closeDocument (tidy : s.Tidy file) (params : Json) :
    Orderly (closeDocument params) s fun _ s' => s'.Tidy file := by
  refine .lift_bind fun document _ => .lift_bind fun uri _ => ?_
  refine .log_bind fun s' noted fits => .get_bind ?_
  have tidy := noted.keeps (Tidy.isQuiet file) tidy
  split
  · exact .lift_bind fun key _ => .of_ok rfl (tidy.erase key)
  · exact .of_ok rfl tidy

/-- **Every handler of a notification is orderly.** -/
theorem orderly_notification {method : Text} {h : NotificationHandler Server}
    (found : Dispatcher.lookup method dispatcher.notifications = some h) (tidy : s.Tidy file)
    (params : Json) : Orderly (h params) s fun _ s' => s'.Tidy file := by
  obtain ⟨-, ⟨-, rfl⟩ | ⟨-, rfl⟩ | ⟨-, rfl⟩ | ⟨-, rfl⟩ | ⟨-, rfl⟩⟩ := lookup_notifications found
  · exact orderly_closeDocument tidy params
  · exact orderly_changeDocument tidy params
  · exact orderly_openDocument tidy params
  · obtain ⟨s', left, noted⟩ := perform_leave params s
    exact .of_ok left (noted.keeps (Tidy.isQuiet file) ⟨tidy.keepsFile, tidy.coherent, tidy.scalar⟩)
  · obtain ⟨s', confirmed, noted⟩ :=
      perform_log_noted (Text.hasSurrogate_ofString "Server initialized") s
    exact .of_ok confirmed (noted.keeps (Tidy.isQuiet file) tidy)

/-- A request about a document changes nothing, and the two others always have a result. -/
theorem request_cases {method : Text} {h : RequestHandler Server}
    (found : Dispatcher.lookup method dispatcher.requests = some h) (params : Json) (s : Server) :
    Noted s ((h params).perform s).2 ∨
      ∃ result stage requested s', (h params).perform s = (.ok (.ok result), s') ∧
        Noted { s with stage := stage, shutdownRequested := requested } s' := by
  obtain ⟨-, ⟨-, rfl⟩ | ⟨-, rfl⟩ | ⟨-, rfl⟩ | ⟨-, rfl⟩⟩ := lookup_requests found
  · exact .inl ((Noted.isQuiet s).describeWord params s (.refl s))
  · exact .inl ((Noted.isQuiet s).findDefinitions params s (.refl s))
  · obtain ⟨s', done, noted⟩ := perform_shutDown params s
    exact .inr ⟨_, _, _, s', done, noted⟩
  · obtain ⟨s', done, noted⟩ := perform_greet params s
    exact .inr ⟨_, _, _, s', done, noted⟩

/-! ## Messages -/

/-- **A message fails**: it is answered with an error, or the handler of a notification fails. -/
inductive Fails (s : Server) (v : Json) : Prop
  | answered {r : Reply} {e : RpcError} : ((dispatcher.handle v).perform s).1 = .ok (some r) →
      r.outcome = .error e → Fails s v
  | dropped {h : NotificationHandler Server} {f : Fault} :
      dispatcher.handlerFor v = some (.inr h) →
      ((h (Message.params v)).perform s).1 = .error f → Fails s v

/-- A request that fails has changed nothing: only requests that have results change anything. -/
theorem handle_tidy_request {h : RequestHandler Server}
    (given : dispatcher.handlerFor v = some (.inl h)) (tidy : s.Tidy file) :
    ((dispatcher.handle v).perform s).2.Tidy file ∧
      (Fails s v → Noted s ((dispatcher.handle v).perform s).2) := by
  obtain ⟨method, -, -, found⟩ := Dispatcher.handlerFor_eq_inl_iff.1 given
  obtain ⟨s', handled, noted⟩ := perform_handle_request given s
  rw [handled]
  rcases request_cases found (Message.params v) s
    with quiet | ⟨result, stage, requested, s₁, done, within⟩
  · have whole := quiet.trans noted
    exact ⟨whole.keeps (Tidy.isQuiet file) tidy, fun _ => whole⟩
  · rw [done] at noted
    have whole := within.trans noted
    refine ⟨whole.keeps (Tidy.isQuiet file) ⟨tidy.keepsFile, tidy.coherent, tidy.scalar⟩, ?_⟩
    rintro (⟨replied, failed⟩ | ⟨notification, -⟩)
    · rw [handled, done] at replied
      cases replied
      cases failed
    · rw [given] at notification
      cases notification

/-- A notification that fails has changed nothing, since its handler is orderly. -/
theorem handle_tidy_notification {h : NotificationHandler Server}
    (given : dispatcher.handlerFor v = some (.inr h)) (tidy : s.Tidy file) :
    ((dispatcher.handle v).perform s).2.Tidy file ∧
      (Fails s v → Noted s ((dispatcher.handle v).perform s).2) := by
  obtain ⟨method, -, -, found⟩ := Dispatcher.handlerFor_eq_inr_iff.1 given
  obtain ⟨s', handled, noted⟩ := perform_handle_notification given s
  have orderly := orderly_notification found tidy (Message.params v)
  unfold Orderly at orderly
  rw [handled]
  rcases done : (h (Message.params v)).perform s with ⟨f | _, s₁⟩ <;> rw [done] at orderly noted
  · have whole := orderly.trans noted
    exact ⟨whole.keeps (Tidy.isQuiet file) tidy, fun _ => whole⟩
  · refine ⟨noted.keeps (Tidy.isQuiet file) orderly, ?_⟩
    rintro (⟨replied, -⟩ | ⟨notification, failed⟩)
    · rw [handled] at replied
      cases replied
    · rw [given] at notification
      cases notification
      rw [done] at failed
      cases failed

/-- **One message**: a tidy server stays tidy, and it stays as it was if the message fails. -/
theorem handle_tidy (tidy : s.Tidy file) (v : Json) :
    ((dispatcher.handle v).perform s).2.Tidy file ∧
      (Fails s v → Noted s ((dispatcher.handle v).perform s).2) := by
  cases given : dispatcher.handlerFor v with
  | none =>
      rw [Dispatcher.handle_of_nobody given]
      exact ⟨tidy, fun _ => .refl s⟩
  | some handler =>
      cases handler with
      | inl h => exact handle_tidy_request given tidy
      | inr h => exact handle_tidy_notification given tidy

/-- A server in use is tidy. -/
theorem tidy_used (keepsFile : Bool) (uses : List Use) :
    (used keepsFile uses).Tidy keepsFile := by
  refine holds_of_used keepsFile (Tidy.isQuiet keepsFile) (fun v s tidy => (handle_tidy tidy v).1)
    (fun s tidy => ⟨tidy.keepsFile, tidy.coherent, tidy.scalar⟩) ?_ uses
  exact ⟨rfl, .nil, by simp [initial]⟩

/-- **Failing messages change nothing.**  Whatever a server was used for, with a file or without,
it handles every message without a fault, and if the message fails, then nothing but the journal is
different afterwards.  With a file, no string under which a document is kept has a surrogate in it;
so entering the problems of a document, which is done when it has been put into the table, cannot
fail. -/
theorem failing_changes_nothing (keepsFile : Bool) (uses : List Use) (v : Json) :
    (∃ reply s', (dispatcher.handle v).perform (used keepsFile uses) = (.ok reply, s') ∧
      (Fails (used keepsFile uses) v →
        ∃ journal, s' = { used keepsFile uses with journal := journal })) ∧
    (keepsFile = true → ∀ e ∈ (used keepsFile uses).documents, ∀ t,
      e.name = .str t ∨ e.document.uri = .str t → t.hasSurrogate = false) ∧
    ∀ e ∈ (used keepsFile uses).documents, ∀ s : Server, s.journal.keepsFile = keepsFile →
      ((store e.document).perform s).1 = .ok () := by
  have tidy := tidy_used keepsFile uses
  generalize used keepsFile uses = s at tidy
  refine ⟨?_, ?_, ?_⟩
  · obtain ⟨reply, s', handled⟩ := exists_handled s v
    refine ⟨reply, s', handled, fun fails => ?_⟩
    have noted := (handle_tidy tidy v).2 fails
    rw [handled] at noted
    obtain ⟨journal, same, -⟩ := noted
    exact ⟨journal, same⟩
  · intro kept e he t named
    have coherent := tidy.coherent.entries e he
    have scalar := tidy.scalar kept e he
    rcases named with named | named
    · rw [← DocumentKey.hasSurrogate_shown coherent.name, named] at scalar
      exact scalar
    · rw [← DocumentKey.hasSurrogate_shown coherent.uri, named] at scalar
      exact scalar
  · intro e he t kept
    obtain ⟨t', stored, -⟩ := perform_store (tidy.coherent.entries e he).uri
      fun file => tidy.scalar (kept.symm.trans file) e he
    exact congrArg Prod.fst stored

/-- A document is opened. -/
def oneOpened : Use :=
  .message (.obj [("method", .str "textDocument/didOpen"), ("params", .obj [
    ("textDocument", .obj [("uri", .str "file:///a"), ("text", .str "b:")])])])

/-- The document is to be changed to a number. -/
def changeToNumber : Json :=
  .obj [("method", .str "textDocument/didChange"), ("params", .obj [
    ("textDocument", .obj [("uri", .str "file:///a")]),
    ("contentChanges", .arr [.obj [("text", .int 5)]])])]

/-- This change fails, and the document stays as it was opened. -/
theorem failing_changes_nothing_at_number :
    Fails (used true [oneOpened]) changeToNumber ∧ ∃ journal,
      ((dispatcher.handle changeToNumber).perform (used true [oneOpened])).2
        = { used true [oneOpened] with journal := journal } := by
  have given : dispatcher.handlerFor changeToNumber = some (.inr changeDocument) := rfl
  obtain ⟨f, failed⟩ : ∃ f, ((changeDocument (Message.params changeToNumber)).perform
      (used true [oneOpened])).1 = .error f := by
    have stopped : ((changeDocument (Message.params changeToNumber)).perform
        (used true [oneOpened])).1.isOk = false := by decide +kernel
    generalize ((changeDocument (Message.params changeToNumber)).perform
      (used true [oneOpened])).1 = outcome at stopped
    cases outcome with
    | error f => exact ⟨f, rfl⟩
    | ok done => cases stopped
  have fails : Fails (used true [oneOpened]) changeToNumber := .dropped given failed
  obtain ⟨reply, s', handled, same⟩ :=
    (failing_changes_nothing true [oneOpened] changeToNumber).1
  rw [handled]
  exact ⟨fails, same fails⟩

end Server

end JustfileServer
