import JustfileServer.Proofs.Rpc.Preservation
import JustfileServer.Proofs.Server.Containment

/-!
# What most handlers preserve

Entering a line changes nothing but the journal, so a property that does not depend on the lines of
the journal is preserved (`IsQuiet`), also by the handlers that only look something up.  The handlers
that open, change and close a document put a document under the key of its name or remove one; they
preserve the properties that last under such changes as well (`IsSteady`).
-/

namespace JustfileServer.Server

variable {P : Server → Prop}

theorem keepsFile_enter (line : Text) (j : Journal) :
    ((Journal.enter line).perform j).2.keepsFile = j.keepsFile := by
  rw [Journal.perform_enter]
  split
  · split <;> rfl
  · rfl

/-- A property that does not depend on the lines of the journal. -/
def IsQuiet (P : Server → Prop) : Prop :=
  ∀ s journal, journal.keepsFile = s.journal.keepsFile → P s → P { s with journal := journal }

namespace IsQuiet

variable (quiet : IsQuiet P)
include quiet

theorem log (line : Text) : (log line).Preserves P :=
  fun s h => quiet s _ (keepsFile_enter line s.journal) h

theorem confirm (params : Json) : (confirm params).Preserves P := quiet.log _

omit quiet in
theorem target (params : Json) : (target params).Preserves P := by
  refine .bind (.lift _) fun document => .bind (.lift _) fun uri => ?_
  refine .bind (.lift _) fun position => .bind (.lift _) fun line => ?_
  refine .bind (.lift _) fun character => .bind (.lift _) fun key => .bind .get fun s => ?_
  split
  · exact .pure _
  · refine .bind (.lift _) fun found => ?_
    split <;> exact .pure _

theorem findDefinitions (params : Json) : (findDefinitions params).Preserves P := by
  refine .bind (target params) fun found => ?_
  split
  · exact .pure _
  · refine .bind (quiet.log _) fun _ => ?_
    split
    · exact .pure _
    · exact .bind (.lift _) fun ranges => .pure _

theorem describeWord (params : Json) : (describeWord params).Preserves P := by
  refine .bind (target params) fun found => ?_
  split
  · exact .pure _
  · refine .bind (quiet.log _) fun _ => ?_
    split <;> exact .pure _

end IsQuiet

/-- A property that lasts when a document is put under the key of its name, or one is removed. -/
structure IsSteady (P : Server → Prop) : Prop where
  quiet : IsQuiet P
  put : ∀ s key uri version text, DocumentKey.ofJson uri = .ok key → P s →
    P { s with documents := s.documents.put key (.ofText uri text version) }
  erase : ∀ s key, P s → P { s with documents := s.documents.erase key }

namespace IsSteady

variable (steady : IsSteady P)
include steady

theorem store (uri version : Json) (text : Text) :
    (store (.ofText uri text version)).Preserves P := by
  refine .lift_bind fun key named => .bind (.modify fun s h => ?_) fun _ => ?_
  · exact steady.put s key uri version text named h
  · split
    · exact .pure _
    · exact steady.quiet.log _

theorem openDocument (params : Json) : (openDocument params).Preserves P := by
  refine .bind (.lift _) fun document => .bind (.lift _) fun uri => ?_
  refine .bind (.lift _) fun version => .bind (.lift _) fun content => ?_
  refine .bind (steady.quiet.log _) fun _ => .bind (.lift _) fun text => ?_
  exact steady.store uri version text

theorem changeDocument (params : Json) : (changeDocument params).Preserves P := by
  have change (uri version changes : Json) : Action.Preserves P (do
      let content ← Params.content (← Params.firstChange changes)
      Server.store (.ofText uri (← Params.text content) version)) :=
    .bind (.lift _) fun first => .bind (.lift _) fun content => .bind (.lift _) fun text =>
      steady.store uri version text
  refine .bind (.lift _) fun document => .bind (.lift _) fun uri => ?_
  refine .bind (.lift _) fun version => .bind (.lift _) fun changes => ?_
  split
  · refine .bind (.lift _) fun key => .bind .get fun s => ?_
    dsimp only
    split
    · exact .bind (steady.quiet.log _) fun _ => change uri version changes
    · exact change uri version changes
  · exact .pure _

theorem closeDocument (params : Json) : (closeDocument params).Preserves P := by
  refine .bind (.lift _) fun document => .bind (.lift _) fun uri => ?_
  refine .bind (steady.quiet.log _) fun _ => .bind .get fun s => ?_
  split
  · exact .bind (.lift _) fun key => .modify fun s h => steady.erase s key h
  · exact .pure _

end IsSteady

end JustfileServer.Server
