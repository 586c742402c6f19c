import Mathlib.Data.List.Nodup
import JustfileServer.Proofs.Server.Steadiness

/-!
# What the handlers do to the documents

Requests leave the documents alone (`preserves_requests`), and of the notifications only those that
open, change and close a document touch them (`preserves_others`); these put a document under the key
of its name or remove one, so every property that lasts under such changes is kept by all messages
(`preserves_handle`).  Coherence is one: distinct keys, each the key of its document's name, and every
document a text that is read and indexed.
-/

namespace JustfileServer

/-! ## The table -/

namespace DocumentTable

variable (table : DocumentTable) (key other : DocumentKey) (d : Document)

theorem find?_put :
    (table.put key d).find? other = if key = other then some d else table.find? other := by
  induction table with
  | nil => simp [put, find?]
  | cons e table ih =>
      rw [put]
      by_cases here : e.key = key
      · rw [if_pos here, find?, find?, here]
        split <;> rfl
      · rw [if_neg here, find?, find?, ih]
        by_cases there : e.key = other
        · rw [if_pos there, if_neg (fun same => here (there.trans same.symm)), if_pos there]
        · rw [if_neg there, if_neg there]

theorem find?_erase :
    (table.erase key).find? other = if key = other then none else table.find? other := by
  induction table with
  | nil => simp [erase, find?]
  | cons e table ih =>
      rw [erase] at ih
      by_cases here : e.key = key
      · rw [erase, List.filter_cons_of_neg (by simpa using here), ih, find?, here]
        split <;> rfl
      · rw [erase, List.filter_cons_of_pos (by simpa using here), find?, find?, ih]
        by_cases there : e.key = other
        · rw [if_pos there, if_neg (fun same => here (there.trans same.symm)), if_pos there]
        · rw [if_neg there, if_neg there]

/-- A document is put in place of the present one, or at the end. -/
theorem keys_put : (table.put key d).map DocumentEntry.key
    = if key ∈ table.map DocumentEntry.key then table.map DocumentEntry.key
      else table.map DocumentEntry.key ++ [key] := by
  induction table with
  | nil => rfl
  | cons e table ih =>
      rw [put, List.map_cons]
      by_cases here : e.key = key
      · rw [if_pos here, if_pos (by simp [here])]
        rfl
      · rw [if_neg here, List.map_cons, ih]
        have elsewhere : key ∈ e.key :: table.map DocumentEntry.key ↔
            key ∈ table.map DocumentEntry.key := by simp [Ne.symm here]
        simp only [elsewhere]
        split <;> rfl

end DocumentTable

/-- The entry of a document: its key is that of its name, and its text is read and indexed. -/
structure DocumentEntry.IsCoherent (e : DocumentEntry) : Prop where
  name : DocumentKey.ofJson e.name = .ok e.key
  uri : DocumentKey.ofJson e.document.uri = .ok e.key
  justfile : e.document.justfile = .ofText e.document.justfile.text
  index : e.document.index = .ofJustfile e.document.justfile

namespace DocumentTable

/-- **A coherent table** has one entry for a key, and all its entries are coherent. -/
structure IsCoherent (table : DocumentTable) : Prop where
  distinct : (table.map DocumentEntry.key).Nodup
  entries : ∀ e ∈ table, e.IsCoherent

namespace IsCoherent

variable {table : DocumentTable} {key : DocumentKey}

theorem nil : IsCoherent [] := ⟨.nil, by simp⟩

theorem put {uri version : Json} (text : Text) (h : table.IsCoherent)
    (named : DocumentKey.ofJson uri = .ok key) :
    (table.put key (.ofText uri text version)).IsCoherent where
  distinct := by
    rw [keys_put]
    split
    · exact h.distinct
    · rename_i absent
      rw [List.nodup_append]
      refine ⟨h.distinct, List.nodup_singleton _, ?_⟩
      rintro k present k' same rfl
      rw [List.mem_singleton] at same
      exact absent (same ▸ present)
  entries := by
    have entries := h.entries
    clear h
    induction table with
    | nil =>
        intro e he
        obtain rfl := List.mem_singleton.1 he
        exact ⟨named, named, rfl, rfl⟩
    | cons f table ih =>
        have later := ih fun e he => entries e (List.mem_cons_of_mem _ he)
        have first := entries f (List.mem_cons_self ..)
        intro e he
        rw [DocumentTable.put] at he
        split at he
        · rename_i here
          rcases List.mem_cons.1 he with rfl | he
          · exact ⟨first.name, here ▸ named, rfl, rfl⟩
          · exact entries e (List.mem_cons_of_mem _ he)
        · rcases List.mem_cons.1 he with rfl | he
          · exact first
          · exact later e he

theorem erase (h : table.IsCoherent) (key : DocumentKey) : (table.erase key).IsCoherent where
  distinct := h.distinct.sublist (List.filter_sublist.map _)
  entries e he := h.entries e (List.mem_of_mem_filter he)

end IsCoherent

end DocumentTable

namespace Server

/-! ## What is not about the documents -/

/-- A property of the documents and of whether a file is kept. -/
def About (Q : DocumentTable → Bool → Prop) (s : Server) : Prop := Q s.documents s.journal.keepsFile

variable {Q : DocumentTable → Bool → Prop}

theorem isQuiet_about : IsQuiet (About Q) := by
  intro s journal same h
  unfold About
  rw [same]
  exact h

theorem preserves_log (line : Text) : (log line).Preserves (About Q) := isQuiet_about.log line

theorem preserves_advance (stage : Stage) : (advance stage).Preserves (About Q) := by
  refine .bind .get fun s => ?_
  dsimp only
  split
  · exact .bind (preserves_log _) fun _ => .modify fun _ h => h
  · exact .pure _

/-- No request changes the documents. -/
theorem preserves_requests {method : Text} {h : RequestHandler Server}
    (found : Dispatcher.lookup method dispatcher.requests = some h) (params : Json) :
    (h params).Preserves (About Q) := by
  simp only [dispatcher, Dispatcher.onRequest, Dispatcher.onNotification, Dispatcher.empty,
    Dispatcher.lookup] at found
  split_ifs at found <;> cases found
  · exact isQuiet_about.describeWord params
  · exact isQuiet_about.findDefinitions params
  · refine .bind (preserves_log _) fun _ => .bind (.modify fun _ h => h) fun _ => ?_
    exact .bind (preserves_advance _) fun _ => .pure _
  · exact .bind (preserves_log _) fun _ => .bind (preserves_advance _) fun _ => .pure _

/-- A notification about no document leaves them alone. -/
theorem preserves_others {method : Text} {h : NotificationHandler Server}
    (found : Dispatcher.lookup method dispatcher.notifications = some h)
    (notOpen : method ≠ "textDocument/didOpen") (notChange : method ≠ "textDocument/didChange")
    (notClose : method ≠ "textDocument/didClose") (params : Json) :
    (h params).Preserves (About Q) := by
  simp only [dispatcher, Dispatcher.onRequest, Dispatcher.onNotification, Dispatcher.empty,
    Dispatcher.lookup] at found
  split_ifs at found with close change opened exit initialized
  · exact absurd close.symm notClose
  · exact absurd change.symm notChange
  · exact absurd opened.symm notOpen
  · cases found
    refine .bind (preserves_log _) fun _ => .bind (.modify fun _ h => h) fun _ => ?_
    exact preserves_advance _
  · cases found
    exact isQuiet_about.confirm params

theorem lookup_openDocument : Dispatcher.lookup "textDocument/didOpen" dispatcher.notifications
    = some openDocument := rfl

theorem lookup_changeDocument : Dispatcher.lookup "textDocument/didChange" dispatcher.notifications
    = some changeDocument := rfl

theorem lookup_closeDocument : Dispatcher.lookup "textDocument/didClose" dispatcher.notifications
    = some closeDocument := rfl

/-! ## What is -/

/-- A property that lasts when a document is put under the key of its name, or one is removed. -/
structure IsStable (Q : DocumentTable → Bool → Prop) : Prop where
  put : ∀ table file key uri version text, DocumentKey.ofJson uri = .ok key → Q table file →
    Q (table.put key (.ofText uri text version)) file
  erase : ∀ table file key, Q table file → Q (table.erase key) file

section Stable

variable (stable : IsStable Q)
include stable

theorem isSteady_about : IsSteady (About Q) where
  quiet := isQuiet_about
  put _ key uri version text named h := stable.put _ _ key uri version text named h
  erase _ key h := stable.erase _ _ key h

theorem preserves_notifications {method : Text} {h : NotificationHandler Server}
    (found : Dispatcher.lookup method dispatcher.notifications = some h) (params : Json) :
    (h params).Preserves (About Q) := by
  by_cases opens : method = "textDocument/didOpen"
  · subst opens
    rw [lookup_openDocument] at found
    cases found
    exact (isSteady_about stable).openDocument params
  by_cases changes : method = "textDocument/didChange"
  · subst changes
    rw [lookup_changeDocument] at found
    cases found
    exact (isSteady_about stable).changeDocument params
  by_cases closes : method = "textDocument/didClose"
  · subst closes
    rw [lookup_closeDocument] at found
    cases found
    exact (isSteady_about stable).closeDocument params
  · exact preserves_others found opens changes closes params

/-- **Every message preserves a stable property** of the documents, whatever is in the message. -/
theorem preserves_handle (message : Json) : (dispatcher.handle message).Preserves (About Q) :=
  Dispatcher.preserves_handle preserves_log
    (fun _ _ params found => preserves_requests found params)
    (fun _ _ params found => preserves_notifications stable found params) message

end Stable

theorem isStable_isCoherent : IsStable fun table _ => table.IsCoherent :=
  ⟨fun _ _ _ _ _ text named h => h.put text named, fun _ _ key h => h.erase key⟩

theorem isStable_file (file : Bool) : IsStable fun _ f => f = file :=
  ⟨fun _ _ _ _ _ _ _ h => h, fun _ _ _ h => h⟩

end Server

end JustfileServer
