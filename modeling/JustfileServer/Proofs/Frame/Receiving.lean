import Mathlib.Data.List.Basic
import Mathlib.Logic.Function.Iterate
import JustfileServer.Frame.Reader
import JustfileServer.Proofs.Frame.WrittenHeader

/-!
# What receiving takes off the stream

The buffer and the schedule of reads are how a body is fetched; neither is seen in what is fetched.
Filling a buffer from a stream that has enough bytes gives the next bytes of the stream, whatever
each read gives and whatever the buffer held (`readsBody_fill`).  So the reader takes exactly one whole
frame off the stream and gives what its body decodes to (`receive_frame`), and whenever it gives
anything from a body, it took a whole frame (`exists_frame_of_receive`).

From this follows that frames are isolated: what the reader gives for one frame among others is
what a new reader gives for that frame alone (`receive_isolated`).
-/

namespace JustfileServer

/-! ## The buffer -/

namespace Buffer

variable (buffer : Buffer)

@[simp] theorem view_zero : buffer.view 0 = [] := by
  simp [view]

@[simp] theorem length_view (length : Nat) : (buffer.view length).length = length := by
  simp only [view, List.length_append, List.length_take, List.length_replicate]
  omega

@[simp] theorem size_reserve (length : Nat) :
    (buffer.reserve length).size = max buffer.size length := by
  rw [reserve]
  split
  · rename_i larger
    exact (Nat.max_eq_right (Nat.le_of_lt larger)).symm
  · rename_i enough
    exact (Nat.max_eq_left (Nat.le_of_not_lt enough)).symm

/-- What is written behind the first bytes is seen behind them. -/
theorem view_store (offset : Nat) (chunk : Bytes) :
    (buffer.store offset chunk).view (offset + chunk.length) = buffer.view offset ++ chunk := by
  have inside : (buffer.view offset ++ chunk).length = offset + chunk.length := by simp
  have whole : offset + chunk.length - (buffer.store offset chunk).written.length = 0 := by
    simp only [store, List.length_append, length_view]
    omega
  rw [view, whole, List.replicate_zero, List.append_nil, store, ← inside, List.take_left]

end Buffer

/-! ## Filling the buffer -/

section Fill

variable (source : ByteSource) (buffer : Buffer) (received length : Nat)

/-- A read of at least one byte gives nothing only at the end of the stream. -/
theorem read_eq_nil_iff {source : ByteSource} {wanted : Nat} (h : 0 < wanted) :
    (source.read wanted).1 = [] ↔ source.unread = [] := by
  have given := source.schedule.most_pos source.reads
  rw [ByteSource.read, List.take_eq_nil_iff]
  constructor
  · rintro (none | empty)
    · omega
    · exact empty
  · exact .inr

@[simp] theorem read_append (source : ByteSource) (wanted : Nat) :
    (source.read wanted).1 ++ (source.read wanted).2.unread = source.unread :=
  List.take_append_drop ..

theorem length_read_le (source : ByteSource) (wanted : Nat) :
    (source.read wanted).1.length ≤ wanted := by
  simp only [ByteSource.read, List.length_take]
  omega

/-- The buffer is full in the end if and only if the stream has the bytes that are missing. -/
theorem complete_fill_iff :
    (fill source buffer received length).complete = true
      ↔ length - received ≤ source.unread.length := by
  fun_induction fill source buffer received length with
  | case1 source buffer received more chunk after ended =>
      have empty : source.unread = [] := (read_eq_nil_iff (by omega)).1 ended
      rw [empty, List.length_nil]
      constructor
      · intro h
        cases h
      · intro h
        omega
  | case2 source buffer received more chunk after _ ih =>
      have fits : chunk.length ≤ length - received := length_read_le ..
      have whole : chunk.length + after.unread.length = source.unread.length := by
        rw [← read_append source (length - received), List.length_append]
      rw [ih]
      omega
  | case3 => simp; omega

/-- **A full buffer holds what it held before the missing bytes came, and then the next bytes of
the stream**, and just these are gone from the stream. -/
theorem view_fill (full : (fill source buffer received length).complete = true)
    (within : received ≤ length) :
    (fill source buffer received length).buffer.view length
        ++ (fill source buffer received length).source.unread
      = buffer.view received ++ source.unread := by
  fun_induction fill source buffer received length with
  | case1 => cases full
  | case2 source buffer received more chunk after _ ih =>
      have fits : chunk.length ≤ length - received := length_read_le ..
      rw [ih full (by omega), Buffer.view_store, List.append_assoc, read_append]
  | case3 source buffer received full =>
      obtain rfl : received = length := by omega
      rfl

/-- A buffer that is not full has used the stream up. -/
theorem unread_fill_of_not_complete
    (short : (fill source buffer received length).complete = false) :
    (fill source buffer received length).source.unread = [] := by
  fun_induction fill source buffer received length with
  | case1 source buffer received more chunk after ended =>
      have empty : source.unread = [] := (read_eq_nil_iff (by omega)).1 ended
      have whole := read_append source (length - received)
      rw [empty, List.append_eq_nil_iff] at whole
      exact whole.2
  | case2 _ _ _ _ _ _ _ ih => exact ih short
  | case3 => cases short

/-- Filling a buffer does not change its size, however far it has come. -/
@[simp] theorem size_fill : (fill source buffer received length).buffer.size = buffer.size := by
  fun_induction fill source buffer received length with
  | case1 => rfl
  | case2 _ _ _ _ _ _ _ ih => exact ih
  | case3 => rfl

/-- Filling a buffer does not change what happens at the end of the stream. -/
theorem interrupts_fill :
    (fill source buffer received length).source.interrupts = source.interrupts := by
  fun_induction fill source buffer received length with
  | case1 => rfl
  | case2 _ _ _ _ _ _ _ ih => exact ih
  | case3 => rfl

end Fill

/-! ## Reading a body -/

/-- **What reading a body gives.**  The buffer has room for the body then.  If the stream has enough
bytes, the next ones are handed out, in front of the buffer, and gone from the stream; if it has too
few, all of them are gone and none is handed out. -/
structure ReadsBody (source : ByteSource) (buffer : Buffer) (length : Nat) (filling : Filling) :
    Prop where
  size : filling.buffer.size = max buffer.size length
  whole : length ≤ source.unread.length → filling.complete = true ∧
    filling.buffer.view length = source.unread.take length ∧
    filling.source.unread = source.unread.drop length
  short : source.unread.length < length → filling.complete = false ∧ filling.source.unread = []

theorem readsBody_fill (source : ByteSource) (buffer : Buffer) (length : Nat) :
    ReadsBody source buffer length (fill source (buffer.reserve length) 0 length) := by
  have complete := complete_fill_iff source (buffer.reserve length) 0 length
  rw [Nat.sub_zero] at complete
  refine ⟨by simp, ?_, ?_⟩
  · intro enough
    have full := complete.2 enough
    have bytes := view_fill source _ 0 length full (Nat.zero_le _)
    rw [Buffer.view_zero, List.nil_append, ← List.take_append_drop length source.unread] at bytes
    refine ⟨full, List.append_inj bytes ?_⟩
    rw [Buffer.length_view, List.length_take, Nat.min_eq_left enough]
  · intro few
    have short : (fill source (buffer.reserve length) 0 length).complete = false := by
      rw [← Bool.not_eq_true, complete]
      omega
    exact ⟨short, unread_fill_of_not_complete _ _ _ _ short⟩

/-! ## Receiving a frame -/

/-- A body behind a header block that announces its length. -/
structure WholeFrame where
  block : Bytes
  body : Bytes
  announced : Announces block body.length

namespace WholeFrame

/-- The bytes of a frame. -/
def bytes (f : WholeFrame) : Bytes := f.block ++ f.body

/-- The frame that is written for a body. -/
def written (body : Bytes) (nonempty : body ≠ []) (most : body.length ≤ maxBodyLength) :
    WholeFrame :=
  ⟨Frame.header body.length, body,
    Frame.announces_header (List.length_pos_iff.2 nonempty) most⟩

/-- What there is to report about a frame. -/
def diagnostics (f : WholeFrame) : List Diagnostic := (takeBlock f.block).diagnostics

end WholeFrame

namespace Reader

variable {r : Reader}

/-- Receiving does not change what happens at the end of the stream. -/
theorem interrupts_receive (r : Reader) :
    r.receive.reader.source.interrupts = r.source.interrupts := by
  unfold receive
  dsimp only
  split
  · rfl
  · split
    · exact interrupts_fill ..
    · exact interrupts_fill ..

/-- **One whole frame is taken off the stream**, and what is given is what its body decodes to. -/
theorem receive_frame {f : WholeFrame} {rest : Bytes} (h : r.source.unread = f.bytes ++ rest) :
    r.receive.diagnostics = f.diagnostics ∧ r.receive.received = decodeBody f.body ∧
      r.receive.reader.source.unread = rest := by
  obtain ⟨block, body, announced⟩ := f
  have start : r.source.unread = block ++ (body ++ rest) := by rw [h, WholeFrame.bytes]; simp
  have usable := announced.length?_takeBlock (body ++ rest)
  have report := announced.diagnostics_takeBlock (body ++ rest)
  have left : (takeBlock (block ++ (body ++ rest))).rest = body ++ rest := by
    rw [announced.takeBlock_append]
  simp only [receive, start, usable, left, report]
  have read := readsBody_fill { r.source with unread := body ++ rest } r.buffer body.length
  generalize fill { r.source with unread := body ++ rest } _ 0 body.length = filling at read
  obtain ⟨full, handed, left⟩ := read.whole (by simp)
  rw [List.take_left] at handed
  rw [List.drop_left] at left
  rw [if_pos full, handed]
  exact ⟨rfl, rfl, left⟩

theorem isFrame_receive {f : WholeFrame} {rest : Bytes} (h : r.source.unread = f.bytes ++ rest) :
    r.receive.received.isFrame = true := by
  rw [(receive_frame h).2.1]
  exact isFrame_decodeBody _

/-- What is given from a body was a whole frame on the stream. -/
theorem exists_frame_of_receive (h : r.receive.received.isFrame = true) :
    ∃ f : WholeFrame, r.source.unread = f.bytes ++ r.receive.reader.source.unread ∧
      r.receive.received = decodeBody f.body := by
  cases usable : (takeBlock r.source.unread).length? with
  | none =>
      simp only [receive, usable] at h
      split at h <;> cases h
  | some length =>
      have read := readsBody_fill
        { r.source with unread := (takeBlock r.source.unread).rest } r.buffer length
      simp only [receive, usable] at h ⊢
      generalize fill { r.source with unread := (takeBlock r.source.unread).rest } _ 0 length
        = filling at h read ⊢
      rcases Nat.lt_or_ge (takeBlock r.source.unread).rest.length length with few | enough
      · rw [if_neg (by simp [(read.short few).1])] at h
        cases h
      · obtain ⟨full, handed, behind⟩ := read.whole enough
        have size : ((takeBlock r.source.unread).rest.take length).length = length :=
          List.length_take_of_le enough
        have left : (takeBlock r.source.unread).rest ≠ [] := by
          have pos := (length?_eq_some_iff.1 usable).2.1
          exact List.ne_nil_of_length_pos (Nat.lt_of_lt_of_le pos enough)
        obtain ⟨block, whole, announced⟩ := exists_announces usable left
        refine ⟨⟨block, (takeBlock r.source.unread).rest.take length, by rwa [size]⟩, ?_, ?_⟩
        · rw [if_pos full, WholeFrame.bytes, List.append_assoc, behind, List.take_append_drop]
          exact whole
        · rw [if_pos full, handed]

/-- What receiving gives and leaves, said of the bytes on the stream alone. -/
inductive Takes (interrupts : Bool) : Bytes → List Diagnostic → Received → Bytes → Prop
  /-- A whole frame stands in front. -/
  | frame (f : WholeFrame) (rest : Bytes) :
      Takes interrupts (f.bytes ++ rest) f.diagnostics (decodeBody f.body) rest
  /-- The stream ends before the body does. -/
  | cutShort {input : Bytes} {length : Nat} (usable : (takeBlock input).length? = some length)
      (short : (takeBlock input).rest.length < length) :
      Takes interrupts input ((takeBlock input).diagnostics ++ [.cutShort length]) .finished []
  /-- There is no usable length. -/
  | unusable {input : Bytes} (unusable : (takeBlock input).length? = none) :
      Takes interrupts input (takeBlock input).diagnostics
        (if !(takeBlock input).ended && interrupts then .interrupted else .finished)
        (takeBlock input).rest

/-- Neither the schedule of the reads nor the buffer has a part in what receiving gives. -/
theorem takes_receive (r : Reader) :
    Takes r.source.interrupts r.source.unread r.receive.diagnostics r.receive.received
      r.receive.reader.source.unread := by
  by_cases frame : r.receive.received.isFrame = true
  · obtain ⟨f, whole, -⟩ := exists_frame_of_receive frame
    obtain ⟨reported, received, -⟩ := receive_frame whole
    generalize r.receive.reader.source.unread = rest at whole ⊢
    rw [reported, received, whole]
    exact .frame f rest
  · cases usable : (takeBlock r.source.unread).length? with
    | none =>
        simp only [receive, usable]
        exact .unusable usable
    | some length =>
        have read := readsBody_fill
          { r.source with unread := (takeBlock r.source.unread).rest } r.buffer length
        simp only [receive, usable] at frame ⊢
        generalize fill { r.source with unread := (takeBlock r.source.unread).rest } _ 0 length
          = filling at frame read ⊢
        rcases Nat.lt_or_ge (takeBlock r.source.unread).rest.length length with few | enough
        · obtain ⟨short, left⟩ := read.short few
          rw [if_neg (by simp [short]), left]
          exact .cutShort usable few
        · rw [if_pos (read.whole enough).1] at frame
          exact absurd (isFrame_decodeBody _) frame

/-! ## Frames are isolated -/

/-- The reader after it has received once. -/
def next (r : Reader) : Reader := r.receive.reader

/-- The frames in front of the others are taken off one by one. -/
theorem unread_next_iterate {frames : List WholeFrame} {rest : Bytes}
    (h : r.source.unread = frames.flatMap WholeFrame.bytes ++ rest) {k : Nat}
    (within : k ≤ frames.length) :
    (next^[k] r).source.unread = (frames.drop k).flatMap WholeFrame.bytes ++ rest := by
  induction k with
  | zero => simpa using h
  | succ k ih =>
      have before := ih (by omega)
      rw [List.drop_eq_getElem_cons (by omega), List.flatMap_cons, List.append_assoc] at before
      rw [Function.iterate_succ_apply']
      exact (receive_frame before).2.2

/-- **Frames are isolated from each other.**  Of frames that follow each other on a stream, whatever
their bodies hold and whatever comes behind them, each is received as it is by a new reader that has
nothing else on its stream, and just the later bytes are left.  Neither the schedules of the reads
nor what the buffer held before are seen in it. -/
theorem receive_isolated (frames : List WholeFrame) (rest : Bytes)
    (h : r.source.unread = frames.flatMap WholeFrame.bytes ++ rest) {k : Nat}
    (within : k < frames.length) (schedule : Schedule) (interrupts : Bool) :
    let alone := (ofSource ⟨frames[k].bytes, schedule, 0, interrupts⟩).receive
    (next^[k] r).receive.received = alone.received ∧
      (next^[k] r).receive.diagnostics = alone.diagnostics ∧
      (next^[k + 1] r).source.unread
        = (frames.drop (k + 1)).flatMap WholeFrame.bytes ++ rest := by
  have before := unread_next_iterate h (Nat.le_of_lt within)
  rw [List.drop_eq_getElem_cons within, List.flatMap_cons, List.append_assoc] at before
  obtain ⟨reported, received, -⟩ := receive_frame before
  have single : (ofSource ⟨frames[k].bytes, schedule, 0, interrupts⟩).source.unread
      = frames[k].bytes ++ [] := (List.append_nil _).symm
  obtain ⟨reportedAlone, receivedAlone, -⟩ := receive_frame single
  exact ⟨received.trans receivedAlone.symm, reported.trans reportedAlone.symm,
    unread_next_iterate h within⟩

/-- The body `1` behind a longer one that is not UTF-8, read byte by byte. -/
theorem receive_isolated_behind_undecodable :
    let frames : List WholeFrame :=
      [.written [0xFF, 0x31, 0x32] (by decide) (by decide), .written [0x31] (by decide) (by decide)]
    let r : Reader := ofSource ⟨frames.flatMap WholeFrame.bytes ++ [0x0A], .constant 0, 0, false⟩
    let alone := (ofSource ⟨Frame.ofBody [0x31], .constant 7, 0, false⟩).receive
    (next^[1] r).receive.received = alone.received ∧
      (next^[1] r).receive.diagnostics = alone.diagnostics ∧
      (next^[2] r).source.unread = [0x0A] := by
  intro frames r alone
  exact receive_isolated frames [0x0A] rfl (show 1 < 2 by decide) _ _

end Reader

end JustfileServer
