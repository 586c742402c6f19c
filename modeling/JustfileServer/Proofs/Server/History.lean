import Mathlib.Logic.Function.Basic
import JustfileServer.Proofs.Server.Documents
import JustfileServer.Proofs.Server.Handled

/-!
# The documents follow the messages

Which documents are open, and with which texts, can be told from the messages alone: each of them
puts the text of one document, removes one, or does nothing (`Edit.ofMessage`), and `history` is
what all of them amount to.  The table of a server that keeps no file is this history
(`documents_follow`), as long as the documents in the notifications are named by texts.
-/

namespace JustfileServer

/-- A change to the documents. -/
inductive Edit
  /-- The document of this name has a text now. -/
  | put (name text : Text) (version : Json)
  /-- The document of this name is gone. -/
  | remove (name : Text)

namespace Edit

/-! ## What a message asks for -/

/-- The member of an object, or the default when it has none of this name. -/
def member? (v : Json) (name : Text) (default : Json) : Option Json :=
  match v with
  | .obj members => some ((Json.member? members name).getD default)
  | _ => none

/-- The text of a string. -/
def text? : Json → Option Text
  | .str t => some t
  | _ => none

/-- A document gets a text, if its name and the text are strings. -/
def putting (name version content : Json) : Option Edit := do
  return .put (← text? name) (← text? content) version

/-- A document is opened with a text. -/
def opening (params : Json) : Option Edit := do
  let document ← member? params "textDocument" (.obj [])
  let name ← member? document "uri" (.str [])
  let version ← member? document "version" (.int 0)
  putting name version (← member? document "text" (.str []))

/-- The first of the changes. -/
def firstChange? : Json → Option Json
  | .arr (change :: _) => some change
  | _ => none

/-- A document is changed to the text of the first change. -/
def changing (params : Json) : Option Edit := do
  let document ← member? params "textDocument" (.obj [])
  let name ← member? document "uri" (.str [])
  let version ← member? document "version" (.int 0)
  let changes ← member? params "contentChanges" (.arr [])
  putting name version (← member? (← firstChange? changes) "text" (.str []))

/-- A document is closed. -/
def closing (params : Json) : Option Edit := do
  let document ← member? params "textDocument" (.obj [])
  let name ← member? document "uri" (.str [])
  return .remove (← text? name)

/-- The change that a notification asks for, if there is a way to make it. -/
def ofNotification (method : Text) (params : Json) : Option Edit :=
  if method = "textDocument/didOpen" then opening params
  else if method = "textDocument/didChange" then changing params
  else if method = "textDocument/didClose" then closing params
  else none

/-- The change that a message asks for.  Requests and what is no message ask for none. -/
def ofMessage (message : Json) : Option Edit := do
  let method ← Message.method? message
  if (Message.id message).isNull then ofNotification method (Message.params message) else none

end Edit

/-! ## The history -/

/-- The texts of the documents and their versions, by name. -/
abbrev Texts := Text → Option (Text × Json)

/-- The texts after a change, which is to one document only. -/
def Edit.change (texts : Texts) : Edit → Texts
  | .put name text version => Function.update texts name (some (text, version))
  | .remove name => Function.update texts name none

/-- **What messages amount to**, one after another. -/
def history (messages : List Json) : Texts :=
  messages.foldl (fun texts message => (Edit.ofMessage message).elim texts (Edit.change texts))
    fun _ => none

/-- The document of a name, made of its text.  Nothing is kept under any other key. -/
def Texts.document? (texts : Texts) : DocumentKey → Option Document
  | .text name => (texts name).map fun kept => .ofText (.str name) kept.1 kept.2
  | _ => none

/-- The table has just these documents. -/
def DocumentTable.Shows (table : DocumentTable) (texts : Texts) : Prop :=
  ∀ key, table.find? key = texts.document? key

/-- A notification that opens, changes or closes a document names it by a text, or not at all. -/
def NamesByText (message : Json) : Prop :=
  ∀ method ∈ ([Text.ofString "textDocument/didOpen", Text.ofString "textDocument/didChange",
      Text.ofString "textDocument/didClose"] : List Text),
    Message.method? message = some method → (Message.id message).isNull = true →
    ∀ document uri, Edit.member? (Message.params message) "textDocument" (.obj []) = some document →
      Edit.member? document "uri" (.str []) = some uri → ∃ name, uri = .str name

/-! ## Tables -/

namespace Edit

/-- The table of documents after a change. -/
def changeTable (table : DocumentTable) : Edit → DocumentTable
  | .put name text version => table.put (.text name) (.ofText (.str name) text version)
  | .remove name => table.erase (.text name)

/-- The table after a change that need not be there. -/
def effect (edit : Option Edit) (table : DocumentTable) : DocumentTable :=
  edit.elim table (changeTable table)

theorem document?_update (texts : Texts) (name : Text) (kept : Option (Text × Json))
    (key : DocumentKey) : Texts.document? (Function.update texts name kept) key
      = if .text name = key then kept.map fun kept => .ofText (.str name) kept.1 kept.2
        else texts.document? key := by
  cases key with
  | text other =>
      rw [Texts.document?, Texts.document?]
      by_cases same : name = other
      · subst same
        rw [if_pos rfl, Function.update_self]
      · have apart : DocumentKey.text name ≠ .text other := by simpa using same
        rw [if_neg apart, Function.update_of_ne (Ne.symm same)]
  | _ => rfl

/-- A change to the table is the change to what it shows. -/
theorem shows_changeTable {table : DocumentTable} {texts : Texts} (h : table.Shows texts)
    (edit : Edit) : (edit.changeTable table).Shows (edit.change texts) := by
  intro key
  cases edit with
  | put name text version =>
      rw [changeTable, change, DocumentTable.find?_put, document?_update, h key]
      rfl
  | remove name =>
      rw [changeTable, change, DocumentTable.find?_erase, document?_update, h key]
      rfl

end Edit

/-! ## Steps of the handlers -/

namespace Server

variable {α β : Type} {s : Server} {table : DocumentTable}

/-- After the action the server has these documents. -/
def Leaves (a : Action Server α) (s : Server) (table : DocumentTable) : Prop :=
  (a.perform s).2.documents = table

/-- A server that keeps no file enters every line. -/
theorem perform_log_unfiled (unfiled : s.journal.keepsFile = false) (line : Text) :
    ∃ journal, (log line).perform s = (.ok (), { s with journal := journal }) ∧
      journal.keepsFile = false := by
  have fits : s.journal.keepsFile = true → line.hasSurrogate = false := by simp [unfiled]
  obtain ⟨_, performed, journal, rfl, same⟩ := perform_log_fitting fits
  exact ⟨journal, performed, same.trans unfiled⟩

namespace Leaves

open Edit (effect)

theorem log_bind {g : Unit → Action Server β} {line : Text}
    (unfiled : s.journal.keepsFile = false)
    (next : ∀ journal : Journal, journal.keepsFile = false →
      Leaves (g ()) { s with journal := journal } table) : Leaves (log line >>= g) s table := by
  obtain ⟨journal, logged, still⟩ := perform_log_unfiled unfiled line
  unfold Leaves
  rw [Action.perform_bind_ok logged]
  exact next journal still

/-- A value that the message does not have ends the handler, and there is no change. -/
theorem lift_bind {e : Except Fault α} {o : Option α} {g : α → Action Server β}
    {k : α → Option Edit} (same : e.toOption = o)
    (next : ∀ v, o = some v → Leaves (g v) s (effect (k v) s.documents)) :
    Leaves (liftM e >>= g) s (effect (o >>= k) s.documents) := by
  subst same
  cases e with
  | error f => rfl
  | ok v => exact next v rfl

end Leaves

/-! ### Parameters -/

theorem toOption_member (v : Json) (name : Text) (default : Json) :
    (Params.member v name default).toOption = Edit.member? v name default := by
  cases v <;> rfl

theorem toOption_text (v : Json) : (Params.text v).toOption = Edit.text? v := by
  cases v <;> rfl

/-! ### Documents -/

open Edit (effect)

theorem leaves_store (s : Server) (name text : Text) (version : Json) :
    Leaves (store (.ofText (.str name) text version)) s
      (s.documents.put (.text name) (.ofText (.str name) text version)) := by
  let d : Document := .ofText (.str name) text version
  have keyed : (liftM (DocumentKey.ofJson d.uri) : Action Server DocumentKey).perform s
      = (.ok (.text name), s) := rfl
  have stored : (modify fun s => { s with documents := s.documents.put (.text name) d } :
      Action Server PUnit).perform s
        = (.ok (), { s with documents := s.documents.put (.text name) d }) := rfl
  rw [store, Leaves, Action.perform_bind_ok keyed, Action.perform_bind_ok stored]
  split <;> rfl

theorem leaves_putting (s : Server) (name : Text) (version content : Json) :
    Leaves (do store (.ofText (.str name) (← Params.text content) version)) s
      (effect (Edit.putting (.str name) version content) s.documents) := by
  show Leaves _ s (effect (Edit.text? content >>= fun text => some (.put name text version)) _)
  exact .lift_bind (toOption_text content) fun text _ => leaves_store s name text version

/-- Where there is a first change, its text is put; any other value fails or is no change. -/
theorem leaves_changes (s : Server) (name : Text) (version changes : Json) :
    Leaves (do
        let content ← Params.content (← Params.firstChange changes)
        store (.ofText (.str name) (← Params.text content) version)) s
      (effect (do
        Edit.putting (.str name) version
          (← Edit.member? (← Edit.firstChange? changes) "text" (.str []))) s.documents) := by
  cases changes with
  | arr elements =>
      cases elements with
      | nil => rfl
      | cons change elements =>
          have first : (Params.firstChange (.arr (change :: elements))).toOption = some change := rfl
          exact .lift_bind first fun change _ => .lift_bind (toOption_member ..) fun content _ =>
            leaves_putting s name version content
  | str text => cases text <;> rfl
  | _ => rfl

section Named

variable {params : Json} (unfiled : s.journal.keepsFile = false)
  (named : ∀ document uri, Edit.member? params "textDocument" (.obj []) = some document →
    Edit.member? document "uri" (.str []) = some uri → ∃ name, uri = .str name)
include unfiled named

theorem leaves_openDocument :
    Leaves (openDocument params) s (effect (Edit.opening params) s.documents) := by
  refine .lift_bind (toOption_member ..) fun document hasDocument => ?_
  refine .lift_bind (toOption_member ..) fun uri hasName => ?_
  obtain ⟨name, rfl⟩ := named document uri hasDocument hasName
  refine .lift_bind (toOption_member ..) fun version _ => ?_
  refine .lift_bind (toOption_member ..) fun content _ => ?_
  exact .log_bind unfiled fun journal _ => leaves_putting _ name version content

theorem leaves_changeDocument :
    Leaves (changeDocument params) s (effect (Edit.changing params) s.documents) := by
  refine .lift_bind (toOption_member ..) fun document hasDocument => ?_
  refine .lift_bind (toOption_member ..) fun uri hasName => ?_
  obtain ⟨name, rfl⟩ := named document uri hasDocument hasName
  refine .lift_bind (toOption_member ..) fun version _ => ?_
  refine .lift_bind (toOption_member ..) fun changes _ => ?_
  by_cases truthy : changes.isTruthy = true
  · rw [if_pos truthy]
    show Leaves (if (s.documents.find? (.text name)).isNone then _ else _) s _
    split
    · exact .log_bind unfiled fun journal _ => leaves_changes _ name version changes
    · exact leaves_changes s name version changes
  · rw [if_neg truthy]
    have unchanged : Edit.firstChange? changes = none := by
      cases changes with
      | arr elements =>
          cases elements with
          | nil => rfl
          | cons => exact absurd rfl truthy
      | _ => rfl
    rw [unchanged]
    rfl

theorem leaves_closeDocument :
    Leaves (closeDocument params) s (effect (Edit.closing params) s.documents) := by
  refine .lift_bind (toOption_member ..) fun document hasDocument => ?_
  refine .lift_bind (toOption_member ..) fun uri hasName => ?_
  obtain ⟨name, rfl⟩ := named document uri hasDocument hasName
  refine .log_bind unfiled fun journal _ => ?_
  show Leaves (if (!s.documents.isEmpty) = true then _ else _) _ (s.documents.erase (.text name))
  split
  · rfl
  · rename_i empty
    have none : s.documents = [] := by simpa using empty
    show s.documents = s.documents.erase (.text name)
    rw [none]
    rfl

end Named

/-! ## Messages -/

/-- The failure of a handler changes nothing more. -/
theorem leaves_notify {method : Text} {params : Json} {h : NotificationHandler Server}
    (found : Dispatcher.lookup method dispatcher.notifications = some h)
    (handled : Leaves (h params) s table) : Leaves (dispatcher.notify method params) s table := by
  unfold Leaves at handled ⊢
  unfold Dispatcher.notify
  rw [found]
  dsimp only
  rw [Action.perform_tryCatch]
  rcases result : (h params).perform s with ⟨f | v, s'⟩
  · rw [result] at handled
    exact handled
  · rw [result] at handled
    exact handled

theorem leaves_then {a : Action Server α} (h : Leaves a s table) (g : α → β) :
    Leaves (a >>= fun v => pure (g v)) s table := by
  unfold Leaves at h ⊢
  rw [Action.perform_bind]
  rcases result : a.perform s with ⟨f | v, s'⟩ <;> rw [result] at h <;> exact h

theorem leaves_of_preserves {a : Action Server α}
    (h : a.Preserves (About fun table _ => table = s.documents)) : Leaves a s s.documents := h s rfl

/-- A notification changes the documents as it asks for. -/
theorem leaves_notification (unfiled : s.journal.keepsFile = false) {message : Json} {method : Text}
    (hm : Message.method? message = some method) (null : (Message.id message).isNull = true)
    (named : NamesByText message) :
    Leaves (dispatcher.notify method (Message.params message)) s
      (effect (Edit.ofNotification method (Message.params message)) s.documents) := by
  unfold Edit.ofNotification
  by_cases opens : method = "textDocument/didOpen"
  · subst opens
    rw [if_pos rfl]
    exact leaves_notify lookup_openDocument
      (leaves_openDocument unfiled (named _ (by simp) hm null))
  by_cases changes : method = "textDocument/didChange"
  · subst changes
    rw [if_neg opens, if_pos rfl]
    exact leaves_notify lookup_changeDocument
      (leaves_changeDocument unfiled (named _ (by simp) hm null))
  by_cases closes : method = "textDocument/didClose"
  · subst closes
    rw [if_neg opens, if_neg changes, if_pos rfl]
    exact leaves_notify lookup_closeDocument
      (leaves_closeDocument unfiled (named _ (by simp) hm null))
  · rw [if_neg opens, if_neg changes, if_neg closes]
    exact leaves_of_preserves (Dispatcher.preserves_notify preserves_log fun h found =>
      preserves_others found opens changes closes _)

/-- **A message changes the documents as it asks for**, and in no other way. -/
theorem leaves_handle (unfiled : s.journal.keepsFile = false) {message : Json}
    (named : NamesByText message) :
    Leaves (dispatcher.handle message) s (effect (Edit.ofMessage message) s.documents) := by
  rw [Dispatcher.handle_eq, Edit.ofMessage]
  cases hm : Message.method? message with
  | none => cases message <;> rfl
  | some method =>
      dsimp only
      split
      · rename_i null
        exact leaves_then (leaves_notification unfiled hm null named) _
      · have answered : Leaves (dispatcher.answer (Message.id message) method
            (Message.params message)) s s.documents :=
          leaves_of_preserves (Dispatcher.preserves_answer preserves_log fun h found =>
            preserves_requests found _)
        exact leaves_then answered _

/-! ## Sequences of messages -/

/-- One message after another, from any texts. -/
theorem exists_follows {texts : Texts} {messages : List Json}
    (unfiled : s.journal.keepsFile = false) (shows : s.documents.Shows texts)
    (named : ∀ message ∈ messages, NamesByText message) :
    ∃ replies s', (messages.mapM dispatcher.handle).perform s = (.ok replies, s') ∧
      s'.documents.Shows (messages.foldl
        (fun texts message => (Edit.ofMessage message).elim texts (Edit.change texts)) texts) := by
  induction messages generalizing s texts with
  | nil => exact ⟨[], s, rfl, shows⟩
  | cons message messages ih =>
      obtain ⟨reply, s', handled⟩ := exists_handled s message
      have left := leaves_handle unfiled (named message (List.mem_cons_self ..))
      have still := preserves_handle (isStable_file false) message s unfiled
      rw [Leaves, handled] at left
      rw [handled] at still
      have changed : s'.documents.Shows ((Edit.ofMessage message).elim texts (Edit.change texts)) := by
        show DocumentTable.Shows s'.documents _
        rw [show s'.documents = _ from left]
        cases Edit.ofMessage message with
        | none => exact shows
        | some edit => exact Edit.shows_changeTable shows edit
      obtain ⟨replies, s'', rest, follows⟩ :=
        ih still changed fun m hm => named m (List.mem_cons_of_mem _ hm)
      refine ⟨reply :: replies, s'', ?_, follows⟩
      rw [List.mapM_cons, Action.perform_bind_ok handled, Action.perform_bind_ok rest]
      rfl

/-- **The documents follow the messages.**  A new server that keeps no file handles messages of any
kind without a fault, and as long as documents are named by texts, its table is what the messages
amount to.  Whatever the messages are, the table is coherent. -/
theorem documents_follow (messages : List Json) :
    ((∀ message ∈ messages, NamesByText message) →
      ∃ replies s, (messages.mapM dispatcher.handle).perform (initial false) = (.ok replies, s) ∧
        s.documents.Shows (history messages)) ∧
    ∀ keepsFile, ((messages.mapM dispatcher.handle).perform
      (initial keepsFile)).2.documents.IsCoherent := by
  constructor
  · intro named
    have empty : (initial false).documents.Shows fun _ => none := by
      intro key
      cases key <;> rfl
    exact exists_follows rfl empty named
  · intro keepsFile
    refine Action.Preserves.mapM (fun message _ => preserves_handle isStable_isCoherent message)
      (initial keepsFile) ?_
    exact DocumentTable.IsCoherent.nil

/-- A document is opened, another one that is not open is changed, and the first one is closed. -/
def threeNotifications : List Json :=
  [.obj [("method", .str "textDocument/didOpen"), ("params", .obj [("textDocument", .obj [
      ("uri", .str "file:///a"), ("version", .int 1), ("text", .str "a := 1")])])],
    .obj [("method", .str "textDocument/didChange"), ("params", .obj [("textDocument", .obj [
      ("uri", .str "file:///b")]), ("contentChanges", .arr [.obj [("text", .str "b:")]])])],
    .obj [("method", .str "textDocument/didClose"), ("params", .obj [("textDocument", .obj [
      ("uri", .str "file:///a")])])]]

/-- The changed document is the one that is left. -/
theorem documents_follow_three :
    ∃ replies s, (threeNotifications.mapM dispatcher.handle).perform (initial false)
        = (.ok replies, s) ∧
      s.documents.find? (.text "file:///a") = none ∧
      s.documents.find? (.text "file:///b")
        = some (.ofText (.str "file:///b") "b:" (.int 0)) := by
  have named : ∀ message ∈ threeNotifications, NamesByText message := by
    intro message hm method _ _ _ document uri hasDocument hasName
    simp only [threeNotifications, List.mem_cons, List.not_mem_nil, or_false] at hm
    rcases hm with rfl | rfl | rfl <;> cases hasDocument <;> cases hasName <;> exact ⟨_, rfl⟩
  obtain ⟨replies, s, performed, shows⟩ := (documents_follow threeNotifications).1 named
  exact ⟨replies, s, performed, (shows _).trans (by decide), (shows _).trans rfl⟩

end Server

end JustfileServer
