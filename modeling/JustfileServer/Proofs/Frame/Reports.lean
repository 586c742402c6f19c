import JustfileServer.Proofs.Frame.LastLength
import JustfileServer.Proofs.Frame.HeaderReading
import JustfileServer.Proofs.Frame.Receiving

/-!
# What is reported about a frame

A frame is dropped for one of five reasons (`DropReason`), which is reported once.  But a line for
the length that gives no number is reported where it stands, also when a later line for the length
supersedes it.  So a dropped frame is reported exactly once, and an accepted one not at all, just
when no line of that kind is superseded (`dropped_reported_once`); two invalid lines are two reports
about one frame, and an invalid line before a good one is a report about a frame that is accepted
(`superseded_line_reported`).
-/

namespace JustfileServer

/-- A line for the length that gives no number. -/
def IsUnreadable (line : Bytes) : Prop := ConcernsLength line ∧ ¬ ∃ n, GivesLength line n

/-- **The reason why a frame is dropped** that begins with these header lines, the bytes `rest`
standing behind the blank line. -/
inductive DropReason (lines : List Bytes) (rest : Bytes) : Diagnostic → Prop
  | missing : (∀ line ∈ lines, ¬ ConcernsLength line) → DropReason lines rest .missingLength
  | invalid {before after : List Bytes} {line : Bytes} : lines = before ++ line :: after →
      IsUnreadable line → (∀ later ∈ after, ¬ ConcernsLength later) →
      DropReason lines rest (.invalidLength (headerText line))
  | nonPositive {n : Int} : LastGives lines n → n ≤ 0 →
      DropReason lines rest (.nonPositiveLength n)
  | excessive {n : Int} : LastGives lines n → 64 * 1024 * 1024 < n →
      DropReason lines rest (.excessiveLength n)
  | cutShort {n : Nat} : LastGives lines n → 1 ≤ n → n ≤ 64 * 1024 * 1024 → rest.length < n →
      DropReason lines rest (.cutShort n)

/-- The last line for the length gives a length that can be used, and the body is all there. -/
def IsAcceptable (lines : List Bytes) (rest : Bytes) : Prop :=
  ∃ n : Nat, LastGives lines n ∧ 1 ≤ n ∧ n ≤ 64 * 1024 * 1024 ∧ n ≤ rest.length

variable {lines before after : List Bytes} {line blank rest : Bytes}

/-! ## Superseded lines -/

theorem isSome_lineField?_iff : (lineField? line).isSome = true ↔ ConcernsLength line := by
  rw [Option.isSome_iff_ne_none, ne_eq, lineField?_eq_none_iff, not_not]

instance : DecidablePred ConcernsLength := fun _ => decidable_of_iff _ isSome_lineField?_iff

instance : DecidablePred IsUnreadable := fun line =>
  match read : lineField? line with
  | some (.invalid _) => isTrue (lengthField?_eq_invalid_iff.1 read).1
  | some (.number n) => isFalse fun h => h.2 ⟨n, lengthField?_eq_number_iff.1 read⟩
  | none => isFalse fun h => lineField?_eq_none_iff.1 read h.1

/-- **The lines for the length behind which there is another one.** -/
def superseded (lines : List Bytes) : List Bytes := (lines.filter (ConcernsLength ·)).dropLast

/-- What is reported about superseded lines. -/
def staleReports (lines : List Bytes) : List Diagnostic :=
  ((superseded lines).filter (IsUnreadable ·)).map fun line => .invalidLength (headerText line)

theorem staleReports_eq_nil_iff :
    staleReports lines = [] ↔ ∀ line ∈ superseded lines, ¬ IsUnreadable line := by
  simp [staleReports, List.filter_eq_nil_iff]

theorem superseded_of_none (none : ∀ line ∈ lines, ¬ ConcernsLength line) :
    superseded lines = [] := by
  rw [superseded, List.filter_eq_nil_iff.2 (by simpa using none)]
  rfl

theorem superseded_append (concerns : ConcernsLength line)
    (none : ∀ later ∈ after, ¬ ConcernsLength later) :
    superseded (before ++ line :: after) = before.filter (ConcernsLength ·) := by
  have nothing : after.filter (ConcernsLength ·) = [] :=
    List.filter_eq_nil_iff.2 (by simpa using none)
  simp [superseded, concerns, nothing]

/-- No line is for the length, or there is a last one that is. -/
theorem none_or_exists_last (lines : List Bytes) :
    (∀ line ∈ lines, ¬ ConcernsLength line) ∨
      ∃ before line after field, lines = before ++ line :: after ∧ lineField? line = some field ∧
        ∀ later ∈ after, ¬ ConcernsLength later := by
  cases last : (lines.filterMap lineField?).getLast? with
  | none =>
      rw [List.getLast?_eq_none_iff, List.filterMap_eq_nil_iff] at last
      exact .inl fun line h => lineField?_eq_none_iff.1 (last line h)
  | some field =>
      obtain ⟨before, line, after, eq, gives, none⟩ := getLast?_fields_eq_some_iff.1 last
      exact .inr ⟨before, line, after, field, eq, gives, none⟩

/-! ## The reports about a header block -/

/-- The block of these header lines, when a blank line has ended it. -/
def endedBlock (lines : List Bytes) (rest : Bytes) : HeaderBlock :=
  ⟨lines.map headerText, true, rest⟩

theorem fields_endedBlock : (endedBlock lines rest).fields = lines.filterMap lineField? :=
  filterMap_lineField? lines

/-- **Each unreadable line is reported where it stands.** -/
theorem lineDiagnostics_endedBlock : (endedBlock lines rest).lineDiagnostics
    = (lines.filter (IsUnreadable ·)).map fun line => .invalidLength (headerText line) := by
  rw [HeaderBlock.lineDiagnostics, fields_endedBlock]
  induction lines with
  | nil => rfl
  | cons line lines ih =>
      rw [List.filterMap_cons, List.filter_cons]
      cases read : lineField? line with
      | none =>
          have other : ¬ IsUnreadable line := fun h => lineField?_eq_none_iff.1 read h.1
          simp [other, ih]
      | some field =>
          cases field with
          | number n =>
              have readable : ¬ IsUnreadable line :=
                fun h => h.2 ⟨n, lengthField?_eq_number_iff.1 read⟩
              simp [readable, ih]
          | invalid t =>
              obtain ⟨unreadable, rfl⟩ := lengthField?_eq_invalid_iff.1 read
              have unreadable : IsUnreadable line := unreadable
              simp [unreadable, ih]

/-- Of the reports about single lines the last may be about the last line for the length; the others
are stale. -/
theorem lineDiagnostics_append (before : List Bytes) (rest : Bytes)
    (concerns : ConcernsLength line) (none : ∀ later ∈ after, ¬ ConcernsLength later) :
    (endedBlock (before ++ line :: after) rest).lineDiagnostics
      = staleReports (before ++ line :: after)
        ++ if IsUnreadable line then [.invalidLength (headerText line)] else [] := by
  have nothing : after.filter (IsUnreadable ·) = [] :=
    List.filter_eq_nil_iff.2 (by simpa using fun later h unreadable => none later h unreadable.1)
  have both : (before.filter (ConcernsLength ·)).filter (IsUnreadable ·)
      = before.filter (IsUnreadable ·) := by
    rw [List.filter_filter]
    refine List.filter_congr ?_
    intro line _
    simpa using fun unreadable : IsUnreadable _ => unreadable.1
  rw [lineDiagnostics_endedBlock, staleReports, superseded_append concerns none, both,
    List.filter_append, List.filter_cons, nothing]
  split <;> simp_all

/-- **Of a header block everything but the stale reports is one reason to drop the frame**, or there
is a length that can be used. -/
def IsJudged (lines : List Bytes) (rest : Bytes) : Prop :=
  (∃ reason, DropReason lines rest reason ∧ (endedBlock lines rest).length? = none ∧
    (endedBlock lines rest).diagnostics = staleReports lines ++ [reason]) ∨
  ∃ n : Nat, LastGives lines n ∧ 1 ≤ n ∧ n ≤ 64 * 1024 * 1024 ∧
    (endedBlock lines rest).length? = some n ∧
    (endedBlock lines rest).diagnostics = staleReports lines

theorem ended_endedBlock : (endedBlock lines rest).ended = true := rfl

theorem isJudged_of_none (none : ∀ line ∈ lines, ¬ ConcernsLength line) :
    IsJudged lines rest := by
  have nothing : (endedBlock lines rest).fields = [] := by
    rw [fields_endedBlock, List.filterMap_eq_nil_iff]
    exact fun line h => lineField?_eq_none_iff.2 (none line h)
  refine .inl ⟨.missingLength, .missing none, ?_⟩
  simp [HeaderBlock.length?, HeaderBlock.diagnostics, HeaderBlock.lineDiagnostics,
    HeaderBlock.blockDiagnostics, ended_endedBlock, nothing, staleReports,
    superseded_of_none none]

/-- Where the last line gives a number, the size of the number decides. -/
theorem isJudged_of_lastGives {n : Int} (gives : LastGives lines n)
    (reported : (endedBlock lines rest).lineDiagnostics = staleReports lines) :
    IsJudged lines rest := by
  have last : (endedBlock lines rest).fields.getLast? = some (.number n) := by
    rw [fields_endedBlock, ← lastGives_iff]
    exact gives
  obtain ⟨usable, complaint⟩ := HeaderBlock.length?_of_number ended_endedBlock last
  have diagnostics : (endedBlock lines rest).diagnostics
      = staleReports lines ++ (lengthComplaint? n).toList := by
    rw [HeaderBlock.diagnostics, reported, complaint]
  by_cases pos : n ≤ 0
  · have bad : lengthComplaint? n = some (.nonPositiveLength n) := if_pos pos
    rw [bad] at usable diagnostics
    exact .inl ⟨_, .nonPositive gives pos, usable, diagnostics⟩
  by_cases most : (maxBodyLength : Int) < n
  · have bad : lengthComplaint? n = some (.excessiveLength n) := by
      rw [lengthComplaint?, if_neg pos, if_pos most]
    rw [bad] at usable diagnostics
    exact .inl ⟨_, .excessive gives most, usable, diagnostics⟩
  · have good : lengthComplaint? n = none := by
      rw [lengthComplaint?, if_neg pos, if_neg most]
    rw [good] at usable diagnostics
    obtain ⟨n, rfl⟩ := Int.eq_ofNat_of_zero_le (show 0 ≤ n by omega)
    have most : n ≤ maxBodyLength := by omega
    exact .inr ⟨n, gives, by omega, most, usable, by simpa using diagnostics⟩

/-- The last line for the length decides: there is none, or it gives no number, or it gives one. -/
theorem isJudged (lines : List Bytes) (rest : Bytes) : IsJudged lines rest := by
  rcases none_or_exists_last lines with none | ⟨before, line, after, field, rfl, read, none⟩
  · exact isJudged_of_none none
  have concerns : ConcernsLength line := isSome_lineField?_iff.1 (by simp [read])
  have reported := lineDiagnostics_append before rest concerns none
  cases field with
  | invalid t =>
      obtain ⟨unreadable, rfl⟩ := lengthField?_eq_invalid_iff.1 read
      have unreadable : IsUnreadable line := unreadable
      have last : (endedBlock (before ++ line :: after) rest).fields.getLast?
          = some (.invalid (headerText line)) := by
        rw [fields_endedBlock, getLast?_fields_eq_some_iff]
        exact ⟨before, line, after, rfl, read, none⟩
      refine .inl ⟨_, .invalid rfl unreadable none, ?_⟩
      rw [if_pos unreadable] at reported
      simp [HeaderBlock.length?, HeaderBlock.diagnostics, HeaderBlock.blockDiagnostics,
        ended_endedBlock, last, reported]
  | number n =>
      have given : GivesLength line n := lengthField?_eq_number_iff.1 read
      rw [if_neg fun unreadable => unreadable.2 ⟨n, given⟩, List.append_nil] at reported
      exact isJudged_of_lastGives ⟨before, line, after, rfl, given, none⟩ reported

/-! ## The reports about a frame -/

namespace Reader

variable {r : Reader} {n : Nat}

theorem receive_of_unusable (headed : IsHeaded r.source.unread lines blank rest)
    (unusable : (endedBlock lines rest).length? = none) :
    r.receive.received = .finished ∧
      r.receive.diagnostics = (endedBlock lines rest).diagnostics := by
  have block : takeBlock r.source.unread = endedBlock lines rest := headed.takeBlock_eq
  simp only [receive, block, unusable, and_true]
  rfl

/-- Where a length can be used, it is left to the body whether there is a frame. -/
theorem receive_of_usable (headed : IsHeaded r.source.unread lines blank rest)
    (usable : (endedBlock lines rest).length? = some n) :
    (n ≤ rest.length → r.receive.received.isFrame = true ∧
      r.receive.diagnostics = (endedBlock lines rest).diagnostics) ∧
    (rest.length < n → r.receive.received = .finished ∧
      r.receive.diagnostics = (endedBlock lines rest).diagnostics ++ [.cutShort n]) := by
  have block : takeBlock r.source.unread = endedBlock lines rest := headed.takeBlock_eq
  have behind : (endedBlock lines rest).rest = rest := rfl
  simp only [receive, block, usable, behind]
  have read := readsBody_fill { r.source with unread := rest } r.buffer n
  generalize fill { r.source with unread := rest } _ 0 n = filling at read
  constructor
  · intro enough
    rw [if_pos (read.whole enough).1]
    exact ⟨isFrame_decodeBody _, rfl⟩
  · intro few
    rw [if_neg (by simp [(read.short few).1])]
    exact ⟨rfl, rfl⟩

/-- **What receiving gives and reports** where a header block stands in front. -/
theorem receive_headed (headed : IsHeaded r.source.unread lines blank rest) :
    (IsAcceptable lines rest ∧ r.receive.received.isFrame = true ∧
      r.receive.diagnostics = staleReports lines) ∨
    ∃ reason, DropReason lines rest reason ∧ r.receive.received = .finished ∧
      r.receive.diagnostics = staleReports lines ++ [reason] := by
  rcases isJudged lines rest with
    ⟨reason, dropped, unusable, reported⟩ | ⟨n, gives, pos, most, usable, reported⟩
  · obtain ⟨finished, report⟩ := receive_of_unusable headed unusable
    exact .inr ⟨reason, dropped, finished, report.trans reported⟩
  · obtain ⟨whole, cut⟩ := receive_of_usable headed usable
    rw [reported] at whole cut
    by_cases enough : n ≤ rest.length
    · exact .inl ⟨⟨n, gives, pos, most, enough⟩, whole enough⟩
    · rw [not_le] at enough
      exact .inr ⟨_, .cutShort gives pos most enough, cut enough⟩

/-- **A dropped frame is reported exactly once and an accepted one not at all, if and only if every
superseded line for the length gives a number.**

Where a header block stands in front, the frame is accepted with just the stale reports, or it is
dropped with these and one more, which is the reason. -/
theorem dropped_reported_once (headed : IsHeaded r.source.unread lines blank rest) :
    ((IsAcceptable lines rest ∧ r.receive.received.isFrame = true ∧
        r.receive.diagnostics = staleReports lines) ∨
      ∃ reason, DropReason lines rest reason ∧ r.receive.received = .finished ∧
        r.receive.diagnostics = staleReports lines ++ [reason]) ∧
    (((r.receive.received.isFrame = true → r.receive.diagnostics = []) ∧
        (r.receive.received = .finished → r.receive.diagnostics.length = 1)) ↔
      ∀ line ∈ superseded lines, ¬ IsUnreadable line) := by
  have account := receive_headed headed
  refine ⟨account, ?_⟩
  rw [← staleReports_eq_nil_iff]
  rcases account with ⟨-, frame, reported⟩ | ⟨reason, -, finished, reported⟩
  · have going : r.receive.received ≠ .finished := by
      intro finished
      rw [finished] at frame
      cases frame
    simp [frame, going, reported]
  · simp [finished, reported, Received.isFrame]

/-- A good length that an invalid one supersedes is no second report. -/
theorem dropped_reported_once_behind_good_length :
    let lines := [Frame.ascii "Content-Length: 7\r\n", Frame.ascii "Content-Length: y\r\n"]
    let r := ofSource ⟨lines.flatten ++ Frame.ascii "\r\n", .constant 0, 0, false⟩
    IsHeaded r.source.unread lines (Frame.ascii "\r\n") [] ∧
      (r.receive.received.isFrame = true → r.receive.diagnostics = []) ∧
      (r.receive.received = .finished → r.receive.diagnostics.length = 1) := by
  intro lines r
  have headed : IsHeaded r.source.unread lines (Frame.ascii "\r\n") [] := by
    decide
  exact ⟨headed, (dropped_reported_once headed).2.2 (by decide)⟩

/-- **Superseded lines are reported.**  Two invalid lengths are two reports about one dropped frame,
and an invalid length before a good one is a report about an accepted frame. -/
theorem superseded_line_reported :
    let dropped := ofSource
      ⟨Frame.ascii "Content-Length: x\r\nContent-Length: y\r\n\r\n", .constant 0, 0, false⟩
    let accepted := ofSource
      ⟨Frame.ascii "Content-Length: x\r\nContent-Length: 2\r\n\r\n12", .constant 0, 0, false⟩
    (dropped.receive.received = .finished ∧ dropped.receive.diagnostics
        = [.invalidLength "Content-Length: x", .invalidLength "Content-Length: y"]) ∧
      accepted.receive.received.isFrame = true ∧
      accepted.receive.diagnostics = [.invalidLength "Content-Length: x"] := by
  intro dropped accepted
  have two : IsHeaded dropped.source.unread [Frame.ascii "Content-Length: x\r\n",
      Frame.ascii "Content-Length: y\r\n"] (Frame.ascii "\r\n") [] := by
    decide
  have one : IsHeaded accepted.source.unread [Frame.ascii "Content-Length: x\r\n",
      Frame.ascii "Content-Length: 2\r\n"] (Frame.ascii "\r\n") (Frame.ascii "12") := by
    decide
  obtain ⟨whole, -⟩ := receive_of_usable (n := 2) one (by decide)
  exact ⟨receive_of_unusable two (by decide), whole (by decide)⟩

end Reader

end JustfileServer
