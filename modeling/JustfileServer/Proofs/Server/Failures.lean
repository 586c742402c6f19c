import JustfileServer.Proofs.Frame.RoundTrip
import JustfileServer.Proofs.Rpc.Conversation
import JustfileServer.Proofs.Server.Answers

/-!
# How far a failure reaches

A message is handled without a fault, but its reply is written outside the protection that handlers
have.  So the frames of a session are answered one by one and the server goes on, just as long as
each answer can be sent (`run_of_allSendable`); the first answer that cannot be sent ends the whole
session, and the frames behind it are neither answered nor read (`run_of_unsendable`).
`session_scoped` says this of a session.

An answer that cannot be sent is easily asked for: a request whose method is a lone surrogate is
enough (`session_ends_at_surrogate`).
-/

namespace JustfileServer

/-! ## Diagnostics -/

/-- A header line is made of bytes, which are no surrogates. -/
theorem hasSurrogate_headerText (line : Bytes) : (headerText line).hasSurrogate = false := by
  refine Text.hasSurrogate_of_subset (Text.hasSurrogate_map_ofByte line) fun c hc => ?_
  have inner := (List.dropWhile_suffix _).subset (List.mem_reverse.1 hc)
  exact (List.dropWhile_suffix _).subset (List.mem_reverse.1 inner)

theorem hasSurrogate_of_mem_lines {data : Bytes} {line : Text} (h : line ∈ (takeBlock data).lines) :
    line.hasSurrogate = false := by
  fun_induction takeBlock data with
  | case1 => cases h
  | case2 => cases h
  | case3 b rest first after _ block ih =>
      rcases List.mem_cons.1 h with rfl | h
      · exact hasSurrogate_headerText _
      · exact ih h

/-- A line that gives an invalid length is quoted as it stands. -/
theorem eq_of_lengthField?_invalid {line quoted : Text}
    (h : lengthField? line = some (.invalid quoted)) : quoted = line := by
  unfold lengthField? at h
  split at h
  · cases h
  · split at h
    · split at h <;> cases h
      rfl
    · cases h

/-- Only a quoted line could have a surrogate in it. -/
theorem Diagnostic.hasSurrogate_message {g : Diagnostic}
    (h : ∀ line, g = .invalidLength line → line.hasSurrogate = false) :
    g.message.hasSurrogate = false := by
  cases g with
  | invalidLength line => simp [message, h line rfl]
  | missingLength => decide
  | _ => simp [message]

/-- No line is quoted in what is reported about the block as a whole. -/
theorem invalidLength_notMem_blockDiagnostics (block : HeaderBlock) (line : Text) :
    Diagnostic.invalidLength line ∉ block.blockDiagnostics := by
  unfold HeaderBlock.blockDiagnostics
  split
  · simp
  · split
    · simp
    · simp
    · split_ifs <;> simp

/-- What is reported about a header block can always be entered. -/
theorem hasSurrogate_message_of_mem_diagnostics {data : Bytes} {g : Diagnostic}
    (h : g ∈ (takeBlock data).diagnostics) : g.message.hasSurrogate = false := by
  refine Diagnostic.hasSurrogate_message ?_
  rintro quoted rfl
  rcases List.mem_append.1 h with h | h
  · obtain ⟨field, hf, reported⟩ := List.mem_filterMap.1 h
    obtain ⟨line, hl, given⟩ := List.mem_filterMap.1 hf
    cases field with
    | number n => cases reported
    | invalid text =>
        cases reported
        rw [eq_of_lengthField?_invalid given]
        exact hasSurrogate_of_mem_lines hl
  · exact absurd h (invalidLength_notMem_blockDiagnostics _ _)

/-! ## Messages in frames -/

/-- A message in its frame. -/
structure Incoming where
  frame : WholeFrame
  value : Json
  decodes : decodeBody frame.body = .value value
  notNull : value.isNull = false

namespace Incoming

/-- The bytes of the frame. -/
def bytes (m : Incoming) : Bytes := m.frame.bytes

theorem isReadable (m : Incoming) : m.value.IsReadable :=
  isReadable_of_decodeBody m.frame.announced.most m.decodes

end Incoming

namespace Server

/-- The server when it has reported what there is to report about a frame. -/
def facing (s : Server) (m : Incoming) : Server :=
  ((dispatcher.enter m.frame.diagnostics).perform s).2

/-- The server when it has handled the message of a frame. -/
def past (s : Server) (m : Incoming) : Server :=
  ((dispatcher.handle m.value).perform (s.facing m)).2

/-- The server when it has handled messages one after another. -/
def pastAll (s : Server) (ms : List Incoming) : Server := ms.foldl past s

theorem pastAll_concat (s : Server) (ms : List Incoming) (m : Incoming) :
    s.pastAll (ms ++ [m]) = (s.pastAll ms).past m := List.foldl_concat ..

/-- The answers to messages that come one after another can all be sent. -/
def AllSendable (s : Server) : List Incoming → Prop
  | [] => True
  | m :: ms => ¬ Unsendable (s.facing m) m.value ∧ AllSendable (s.past m) ms

/-- What is written for messages that come one after another. -/
def Answers (ms : List Incoming) (replies : List Bytes) : Prop :=
  List.Forall₂ (fun m => AnsweredBy m.value) ms replies

variable {s : Server} {r : Reader} {x : Exchange Server} {m : Incoming} {ms : List Incoming}
  {rest : Bytes}

/-- Lines without surrogates are all entered. -/
theorem perform_enter (diagnostics : List Diagnostic)
    (scalar : ∀ g ∈ diagnostics, g.message.hasSurrogate = false) (serving : s.IsServing) :
    ∃ s', (dispatcher.enter diagnostics).perform s = (.ok (), s') ∧ s'.IsServing := by
  induction diagnostics generalizing s with
  | nil => exact ⟨s, rfl, serving⟩
  | cons g diagnostics ih =>
      obtain ⟨s₁, entered, serving⟩ := perform_log_ok (scalar g (List.mem_cons_self ..)) serving
      obtain ⟨s₂, later, serving⟩ := ih (fun g hg => scalar g (List.mem_cons_of_mem _ hg)) serving
      refine ⟨s₂, ?_, serving⟩
      show (log g.message >>= fun _ => dispatcher.enter diagnostics).perform s = _
      rw [Action.perform_bind_ok entered, later]

/-- The report about a frame is entered. -/
theorem perform_enter_frame (serving : s.IsServing) (m : Incoming) :
    (dispatcher.enter m.frame.diagnostics).perform s = (.ok (), s.facing m) ∧
      (s.facing m).IsServing := by
  obtain ⟨s', entered, serving'⟩ := perform_enter m.frame.diagnostics
    (fun g hg => hasSurrogate_message_of_mem_diagnostics hg) serving
  rw [facing, entered]
  exact ⟨rfl, serving'⟩

/-- While the server is serving, the stop predicate lets the loop go on. -/
theorem askedToStop_of_isServing (serving : s.IsServing) :
    Dispatcher.askedToStop stopPredicate s = ([.asked false], none, s) := by
  show ([Event.asked s.isShuttingDown], if s.isShuttingDown then _ else none, s) = _
  rw [serving.goesOn]
  rfl

/-- A turn about a message: it is handled, and then its reply is sent, or the turn fails. -/
theorem turn_incoming (h : r.source.unread = m.bytes ++ rest) (serving : x.state.IsServing)
    (stays : ¬ Message.EndsSession m.value) :
    (x.state.past m).IsServing ∧
      ((¬ Unsendable (x.state.facing m) m.value ∧ ∃ bytes, AnsweredBy m.value bytes ∧
          dispatcher.turn stopPredicate r.receive x
            = (none, ⟨x.state.past m, x.output ++ bytes⟩)) ∨
        (Unsendable (x.state.facing m) m.value ∧ ∃ f,
          dispatcher.turn stopPredicate r.receive x
            = (some (.failed f), ⟨x.state.past m, x.output⟩))) := by
  obtain ⟨reported, received, -⟩ := Reader.receive_frame h
  rw [m.decodes] at received
  obtain ⟨entered, facing⟩ := perform_enter_frame serving m
  obtain ⟨reply, s', performed, serving', settled⟩ := handle_contained facing m.isReadable stays
  have state : x.state.past m = s' := by rw [past, performed]
  have goesOn := askedToStop_of_isServing serving'
  have turn : dispatcher.turn stopPredicate r.receive x = Dispatcher.conclude
      ((dispatcher.serve stopPredicate m.value).perform ⟨x.state.facing m, x.output⟩) := by
    rw [Dispatcher.turn_eq, Dispatcher.perform_report, reported, entered, received]
    dsimp only
    rw [Dispatcher.deal, if_neg (by simp [m.notNull])]
  rw [turn, Dispatcher.conclude_serve, Dispatcher.perform_respond, performed, state]
  refine ⟨serving', ?_⟩
  cases settled with
  | silent sendable answered =>
      refine .inl ⟨sendable, [], answered, ?_⟩
      dsimp only
      rw [goesOn, List.append_nil]
  | sent sendable answered sent =>
      refine .inl ⟨sendable, _, answered, ?_⟩
      dsimp only
      rw [sent]
      dsimp only
      rw [goesOn]
  | @unsendable r f unsendable refused =>
      refine .inr ⟨unsendable, f, ?_⟩
      dsimp only
      rw [refused]

/-- **One frame**: its message is answered and the loop goes on with the next, unless the answer
cannot be sent; then the loop fails, and nothing is written. -/
theorem run_incoming (h : r.source.unread = m.bytes ++ rest) (serving : x.state.IsServing)
    (stays : ¬ Message.EndsSession m.value) :
    (x.state.past m).IsServing ∧
      ((¬ Unsendable (x.state.facing m) m.value ∧ ∃ bytes, AnsweredBy m.value bytes ∧
          dispatcher.run stopPredicate r x
            = dispatcher.run stopPredicate r.next ⟨x.state.past m, x.output ++ bytes⟩) ∨
        (Unsendable (x.state.facing m) m.value ∧ ∃ f,
          dispatcher.run stopPredicate r x
            = (.failed f, r.next, ⟨x.state.past m, x.output⟩))) := by
  obtain ⟨serving', answered | unsendable⟩ := turn_incoming h serving stays
  · obtain ⟨sendable, bytes, answered, turn⟩ := answered
    exact ⟨serving', .inl ⟨sendable, bytes, answered, Dispatcher.run_of_turn_none h turn⟩⟩
  · obtain ⟨unsendable, f, turn⟩ := unsendable
    exact ⟨serving', .inr ⟨unsendable, f, Dispatcher.run_of_turn_some turn⟩⟩

/-- **While the answers can be sent**, each message is answered and the loop goes on behind its
frame. -/
theorem run_of_allSendable (h : r.source.unread = ms.flatMap Incoming.bytes ++ rest)
    (serving : x.state.IsServing) (stays : ∀ m ∈ ms, ¬ Message.EndsSession m.value)
    (sendable : AllSendable x.state ms) :
    (x.state.pastAll ms).IsServing ∧ (Reader.next^[ms.length] r).source.unread = rest ∧
      ∃ replies, Answers ms replies ∧ dispatcher.run stopPredicate r x
        = dispatcher.run stopPredicate (Reader.next^[ms.length] r)
            ⟨x.state.pastAll ms, x.output ++ replies.flatten⟩ := by
  induction ms generalizing r x with
  | nil => exact ⟨serving, h, [], .nil, by simp [pastAll]⟩
  | cons m ms ih =>
      rw [List.flatMap_cons, List.append_assoc] at h
      obtain ⟨serving', ⟨-, bytes, answered, first⟩ | ⟨unsendable, -⟩⟩ :=
        run_incoming h serving (stays m (List.mem_cons_self ..))
      · obtain ⟨serving', left, replies, others, later⟩ := ih (r := r.next)
          (x := ⟨x.state.past m, x.output ++ bytes⟩) (Reader.receive_frame h).2.2 serving'
          (fun n hn => stays n (List.mem_cons_of_mem _ hn)) sendable.2
        refine ⟨serving', left, bytes :: replies, .cons answered others, ?_⟩
        rw [first, later, List.flatten_cons, List.append_assoc]
        rfl
      · exact absurd unsendable sendable.1

/-- The messages before the first whose answer cannot be sent. -/
theorem exists_of_not_allSendable {s : Server} (h : ¬ AllSendable s ms) :
    ∃ before m after, ms = before ++ m :: after ∧ AllSendable s before ∧
      Unsendable ((s.pastAll before).facing m) m.value := by
  induction ms generalizing s with
  | nil => exact absurd trivial h
  | cons m ms ih =>
      by_cases unsendable : Unsendable (s.facing m) m.value
      · exact ⟨[], m, ms, rfl, trivial, unsendable⟩
      · have later : ¬ AllSendable (s.past m) ms := fun later => h ⟨unsendable, later⟩
        obtain ⟨before, n, after, rfl, sendable, unsendableLater⟩ := ih later
        exact ⟨m :: before, n, after, rfl, ⟨unsendable, sendable⟩, unsendableLater⟩

/-- **The first answer that cannot be sent** ends the loop, with nothing written after the answers
to the messages before it. -/
theorem run_of_unsendable {before after : List Incoming}
    (h : r.source.unread = (before ++ m :: after).flatMap Incoming.bytes ++ rest)
    (serving : x.state.IsServing)
    (stays : ∀ n ∈ before ++ m :: after, ¬ Message.EndsSession n.value)
    (sendable : AllSendable x.state before)
    (unsendable : Unsendable ((x.state.pastAll before).facing m) m.value) :
    (Reader.next^[before.length + 1] r).source.unread = after.flatMap Incoming.bytes ++ rest ∧
      ∃ replies f, Answers before replies ∧ dispatcher.run stopPredicate r x
        = (.failed f, Reader.next^[before.length + 1] r,
            ⟨x.state.pastAll (before ++ [m]), x.output ++ replies.flatten⟩) := by
  rw [List.flatMap_append, List.flatMap_cons, List.append_assoc, List.append_assoc] at h
  obtain ⟨serving', left, replies, answered, first⟩ := run_of_allSendable h serving
    (fun n hn => stays n (List.mem_append_left _ hn)) sendable
  obtain ⟨-, ⟨sendableLast, -⟩ | ⟨-, f, last⟩⟩ := run_incoming
    (x := ⟨x.state.pastAll before, x.output ++ replies.flatten⟩) left serving'
    (stays m (by simp))
  · exact absurd unsendable sendableLast
  · rw [Function.iterate_succ_apply']
    refine ⟨(Reader.receive_frame left).2.2, replies, f, answered, ?_⟩
    rw [first, last, pastAll_concat]

/-! ## Sessions -/

/-- The server of a session when it has reported that it starts. -/
def opened (keepsFile : Bool) : Server := (opening.perform (.initial keepsFile)).2

/-- What is done when the loop has ended. -/
def finish (ended : Ending × Reader × Exchange Server) : Ending × Reader × Exchange Server :=
  (ended.1, ended.2.1, after (closing ended.1) ended.2.2)

theorem session_eq (keepsFile : Bool) (source : ByteSource) :
    session keepsFile source
      = finish (dispatcher.run stopPredicate (.ofSource source) ⟨opened keepsFile, []⟩) := rfl

theorem isServing_opened (keepsFile : Bool) : (opened keepsFile).IsServing := by
  have serving : (initial keepsFile).IsServing := ⟨rfl, by simp [initial]⟩
  obtain ⟨s, performed, serving⟩ := perform_log_ok
    (Text.hasSurrogate_ofString "Just Language Server starting") serving
  rw [opened, show opening.perform (initial keepsFile) = (.ok (), s) from performed]
  exact serving

/-- **Failures are scoped to one message, but for answers that cannot be sent.**  Of messages none
of which ends the session, each is answered and the loop goes on with what is behind them, if all
answers can be sent.  Otherwise the first answer that cannot be sent ends the session: the messages
before it are answered, and those behind it are not read. -/
theorem session_scoped (keepsFile : Bool) (source : ByteSource) (ms : List Incoming) (rest : Bytes)
    (h : source.unread = ms.flatMap Incoming.bytes ++ rest)
    (stays : ∀ m ∈ ms, ¬ Message.EndsSession m.value) :
    (AllSendable (opened keepsFile) ms → ∃ replies, Answers ms replies ∧
        (Reader.next^[ms.length] (.ofSource source)).source.unread = rest ∧
          session keepsFile source = finish (dispatcher.run stopPredicate
            (Reader.next^[ms.length] (.ofSource source))
            ⟨(opened keepsFile).pastAll ms, replies.flatten⟩)) ∧
      (¬ AllSendable (opened keepsFile) ms → ∃ before m after replies f,
        ms = before ++ m :: after ∧ AllSendable (opened keepsFile) before ∧
          Unsendable (((opened keepsFile).pastAll before).facing m) m.value ∧
            Answers before replies ∧ (session keepsFile source).1 = .failed f ∧
              (session keepsFile source).2.1.source.unread
                = after.flatMap Incoming.bytes ++ rest ∧
                (session keepsFile source).2.2.output = replies.flatten) := by
  have serving := isServing_opened keepsFile
  constructor
  · intro sendable
    obtain ⟨-, left, replies, answered, run⟩ := run_of_allSendable (r := .ofSource source)
      (x := ⟨opened keepsFile, []⟩) h serving stays sendable
    exact ⟨replies, answered, left, by rw [session_eq, run, List.nil_append]⟩
  · intro notAll
    obtain ⟨before, m, after, rfl, sendable, unsendable⟩ := exists_of_not_allSendable notAll
    obtain ⟨left, replies, f, answered, run⟩ := run_of_unsendable (r := .ofSource source)
      (x := ⟨opened keepsFile, []⟩) h serving stays sendable unsendable
    refine ⟨before, m, after, replies, f, rfl, sendable, unsendable, answered, ?_⟩
    rw [session_eq, run]
    exact ⟨rfl, left, List.nil_append _⟩

theorem decodeBody_introduction :
    decodeBody (Utf8.encode "\x7b\"id\":1,\"method\":\"initialize\"\x7d")
      = .value (.obj [("id", .int 1), ("method", .str "initialize")]) :=
  decodeBody_of_ofText (by decide) (eq_ok_of_toOption (by decide +kernel))

theorem decodeBody_surrogate :
    decodeBody (Utf8.encode "\x7b\"id\":2,\"method\":\"\\ud800\"\x7d")
      = .value (.obj [("id", .int 2), ("method", .str [.ofNat 0xD800])]) :=
  decodeBody_of_ofText (by decide) (eq_ok_of_toOption (by decide +kernel))

/-- An introduction is answered, and the request behind it, whose method is a surrogate, ends the
session. -/
theorem session_scoped_introduction :
    let greeting : Incoming :=
      ⟨.written (Utf8.encode "\x7b\"id\":1,\"method\":\"initialize\"\x7d") (by decide) (by decide),
        .obj [("id", .int 1), ("method", .str "initialize")], decodeBody_introduction, rfl⟩
    let other : Incoming :=
      ⟨.written (Utf8.encode "\x7b\"id\":2,\"method\":\"\\ud800\"\x7d") (by decide) (by decide),
        .obj [("id", .int 2), ("method", .str [.ofNat 0xD800])], decodeBody_surrogate, rfl⟩
    let source : ByteSource := ⟨greeting.bytes ++ (other.bytes ++ []), .constant 0, 0, false⟩
    (∃ replies, Answers [greeting] replies ∧ session false source = finish
        (dispatcher.run stopPredicate (Reader.next^[1] (.ofSource source))
          ⟨(opened false).past greeting, replies.flatten⟩)) ∧
      ∃ f, (session false source).1 = .failed f := by
  intro greeting other source
  have introduced : AllSendable (opened false) [greeting] := by
    refine ⟨?_, trivial⟩
    rintro ⟨-, surrogate | ⟨method, named, echoes⟩⟩
    · cases surrogate
    · obtain rfl : Text.ofString "initialize" = method := Option.some.inj named
      rcases echoes with ⟨unknown, -⟩ | ⟨definition, -⟩
      · cases unknown
      · exact absurd definition (by decide)
  have refused : ¬ AllSendable (opened false) [greeting, other] := by
    rintro ⟨-, sendable, -⟩
    exact sendable ⟨rfl, .inr ⟨_, rfl, .method rfl rfl⟩⟩
  have greets : ¬ Message.EndsSession greeting.value := by
    intro ends
    exact absurd (Option.some.inj ends) (by decide)
  have asks : ¬ Message.EndsSession other.value := by
    intro ends
    exact absurd (Option.some.inj ends) (by decide)
  constructor
  · obtain ⟨replies, answered, -, same⟩ := (session_scoped false source [greeting]
      (other.bytes ++ []) (by simp [source]) (by simpa using greets)).1 introduced
    exact ⟨replies, answered, same⟩
  · obtain ⟨before, m, after, replies, f, -, -, -, -, failed, -⟩ :=
      (session_scoped false source [greeting, other] [] (by simp [source])
        (by simpa using ⟨greets, asks⟩)).2 refused
    exact ⟨f, failed⟩

/-- **A surrogate ends the session.**  The first message has an identifier and does not end the
session, but it is not answered, and the request behind it is not read. -/
theorem session_ends_at_surrogate :
    let body := Utf8.encode "\x7b\"id\":1,\"method\":\"\\ud800\"\x7d"
    let message : Json := .obj [("id", .int 1), ("method", .str [.ofNat 0xD800])]
    let behind := Frame.ofBody (Utf8.encode "\x7b\"id\":2,\"method\":\"initialize\"\x7d")
    let ended := session false ⟨Frame.ofBody body ++ behind, .constant 0, 0, false⟩
    decodeBody body = .value message ∧ (Message.id message).isNull = false ∧
      Message.method? message = some [.ofNat 0xD800] ∧ ended.1 matches .failed _ ∧
        ended.2.2.output = [] ∧ ended.2.1.source.unread = behind :=
  ⟨decodeBody_of_ofText (by decide) (eq_ok_of_toOption (by decide +kernel)), rfl, rfl,
    by decide +kernel, by decide +kernel, by decide +kernel⟩

end Server

end JustfileServer
