import Mathlib.Order.Bounds.Basic
import JustfileServer.Proofs.Frame.LastLength
import JustfileServer.Proofs.Frame.Receiving

/-!
# How the buffer grows

`Accepts` says of the bytes on a stream which length is accepted from the header block in front of
them.  A call that accepts a length makes room for it before the body is read, so it counts whether
the body is all there or not and whatever is in it; any other call leaves the buffer alone.  So the
size of the buffer is always that of a new one or the greatest length accepted so far, whichever is
greater (`isGreatest_size`).  What has been written lies in the buffer (`isSound_next_iterate`).
-/

namespace JustfileServer

/-- **A length is accepted** from the header block in front, with these bytes behind it: the last
line for the length gives it, and it is neither zero nor beyond all reason. -/
def Accepts (data : Bytes) (n : Nat) (rest : Bytes) : Prop :=
  ∃ lines blank, IsHeaded data lines blank rest ∧ LastGives lines n ∧ 1 ≤ n ∧ n ≤ 64 * 1024 * 1024

variable {data rest : Bytes} {n : Nat}

/-- What is accepted is what the reader takes for the length. -/
theorem accepts_iff : Accepts data n rest ↔
    (takeBlock data).length? = some n ∧ (takeBlock data).rest = rest := by
  constructor
  · rintro ⟨lines, blank, headed, last, pos, most⟩
    rw [headed.takeBlock_eq, length?_eq_some_iff]
    refine ⟨⟨rfl, pos, most, ?_⟩, rfl⟩
    rw [HeaderBlock.fields, filterMap_lineField?, ← lastGives_iff]
    exact last
  · rintro ⟨usable, rfl⟩
    obtain ⟨ended, pos, most, last⟩ := length?_eq_some_iff.1 usable
    obtain ⟨lines, blank, rest, headed⟩ := exists_isHeaded ended
    rw [headed.takeBlock_eq, HeaderBlock.fields, filterMap_lineField?, ← lastGives_iff] at last
    rw [headed.takeBlock_eq]
    exact ⟨lines, blank, headed, last, pos, most⟩

theorem Accepts.unique {m : Nat} {rest' : Bytes} (h : Accepts data n rest)
    (h' : Accepts data m rest') : m = n := by
  have usable := (accepts_iff.1 h').1
  rw [(accepts_iff.1 h).1] at usable
  exact (Option.some.inj usable).symm

/-! ## What has been written -/

namespace Buffer

variable {buffer : Buffer} {length offset : Nat} {chunk : Bytes}

/-- What has been written lies in the buffer. -/
def IsSound (buffer : Buffer) : Prop := buffer.written.length ≤ buffer.size

theorem isSound_initial : initial.IsSound := Nat.zero_le _

theorem IsSound.reserve (h : buffer.IsSound) (length : Nat) : (buffer.reserve length).IsSound := by
  rw [Buffer.reserve]
  split
  · exact Nat.zero_le _
  · exact h

theorem IsSound.store (h : buffer.IsSound) (room : offset + chunk.length ≤ buffer.size) :
    (buffer.store offset chunk).IsSound := by
  simp only [IsSound, Buffer.store, List.length_append, length_view, List.length_drop] at h ⊢
  omega

end Buffer

/-- Filling a buffer writes nothing behind the bytes that it has room for. -/
theorem isSound_fill (source : ByteSource) {buffer : Buffer} (received : Nat) {length : Nat}
    (sound : buffer.IsSound) (room : length ≤ buffer.size) :
    (fill source buffer received length).buffer.IsSound := by
  fun_induction fill source buffer received length with
  | case1 => exact sound
  | case2 source buffer received more chunk after _ ih =>
      have fits : chunk.length ≤ length - received := length_read_le ..
      exact ih (sound.store (by omega)) room
  | case3 => exact sound

namespace Reader

variable {r : Reader} {k : Nat}

/-! ## One call -/

/-- A call that accepts a length makes room for it and reads the body. -/
theorem receive_of_accepts (h : Accepts r.source.unread n rest) :
    r.receive.reader.buffer.size = max r.buffer.size n ∧
    (n ≤ rest.length → r.receive.received = decodeBody (rest.take n) ∧
      r.next.source.unread = rest.drop n) ∧
    (rest.length < n → r.receive.received = .finished ∧ r.next.source.unread = []) := by
  obtain ⟨usable, behind⟩ := accepts_iff.1 h
  simp only [next, receive, usable, behind]
  have body := readsBody_fill { r.source with unread := rest } r.buffer n
  generalize fill { r.source with unread := rest } (r.buffer.reserve n) 0 n = filling at body
  refine ⟨?_, ?_, ?_⟩
  · split
    · exact body.size
    · exact body.size
  · intro enough
    obtain ⟨full, handed, left⟩ := body.whole enough
    rw [if_pos full, handed]
    exact ⟨rfl, left⟩
  · intro few
    obtain ⟨short, left⟩ := body.short few
    rw [if_neg (by simp [short])]
    exact ⟨rfl, left⟩

/-- Any other call leaves the buffer alone. -/
theorem buffer_next_of_not_accepts (h : ∀ n rest, ¬ Accepts r.source.unread n rest) :
    r.next.buffer = r.buffer := by
  have unusable : (takeBlock r.source.unread).length? = none := by
    rw [Option.eq_none_iff_forall_ne_some]
    intro n usable
    exact h n _ (accepts_iff.2 ⟨usable, rfl⟩)
  simp only [next, receive, unusable]

/-- Nothing is written behind the end of the buffer. -/
theorem isSound_next (sound : r.buffer.IsSound) : r.next.buffer.IsSound := by
  cases usable : (takeBlock r.source.unread).length? with
  | none => simpa only [next, receive, usable] using sound
  | some n =>
      have room : n ≤ (r.buffer.reserve n).size := by simp
      have filled := isSound_fill { r.source with unread := (takeBlock r.source.unread).rest } 0
        (sound.reserve n) room
      simp only [next, receive, usable]
      split
      · exact filled
      · exact filled

/-- **One call**: where the size of the buffer is the greatest of some sizes, it is so afterwards,
when the length that the call accepts, if any, is put to them. -/
theorem isGreatest_size_next {sizes : Set Nat} (h : IsGreatest sizes r.buffer.size) :
    IsGreatest ({n | ∃ rest, Accepts r.source.unread n rest} ∪ sizes) r.next.buffer.size := by
  by_cases accepts : ∃ n rest, Accepts r.source.unread n rest
  · obtain ⟨n, rest, accepted⟩ := accepts
    have size : r.next.buffer.size = max r.buffer.size n := (receive_of_accepts accepted).1
    rw [size]
    constructor
    · rcases Nat.le_total r.buffer.size n with larger | enough
      · rw [Nat.max_eq_right larger]
        exact .inl ⟨rest, accepted⟩
      · rw [Nat.max_eq_left enough]
        exact .inr h.1
    · rintro m (⟨rest', other⟩ | old)
      · rw [accepted.unique other]
        exact Nat.le_max_right ..
      · exact Nat.le_trans (h.2 old) (Nat.le_max_left ..)
  · have none : {n | ∃ rest, Accepts r.source.unread n rest} = ∅ :=
      Set.eq_empty_iff_forall_notMem.2 fun n accepted => accepts ⟨n, accepted⟩
    rw [none, Set.empty_union, buffer_next_of_not_accepts (by simpa using accepts)]
    exact h

/-! ## Any number of calls -/

/-- The lengths that are accepted in the first `k` calls. -/
def acceptedIn (r : Reader) (k : Nat) : Set Nat :=
  {n | ∃ i < k, ∃ rest, Accepts (next^[i] r).source.unread n rest}

theorem acceptedIn_mono {j : Nat} (h : j ≤ k) : acceptedIn r j ⊆ acceptedIn r k := by
  rintro n ⟨i, before, accepted⟩
  exact ⟨i, Nat.lt_of_lt_of_le before h, accepted⟩

theorem acceptedIn_succ (r : Reader) (k : Nat) : acceptedIn r (k + 1)
    = {n | ∃ rest, Accepts (next^[k] r).source.unread n rest} ∪ acceptedIn r k := by
  ext n
  simp only [acceptedIn, Nat.lt_succ_iff_lt_or_eq, or_and_right, exists_or, exists_eq_left]
  exact or_comm

/-- **The size of the buffer** is that from the start or the greatest length accepted so far. -/
theorem isGreatest_size (r : Reader) (k : Nat) :
    IsGreatest (insert r.buffer.size (acceptedIn r k)) (next^[k] r).buffer.size := by
  induction k with
  | zero =>
      have none : acceptedIn r 0 = ∅ := by simp [acceptedIn]
      rw [none, insert_empty_eq]
      exact isGreatest_singleton
  | succ k ih =>
      rw [Function.iterate_succ_apply', acceptedIn_succ, ← Set.union_insert]
      exact isGreatest_size_next ih

/-- **What has been written lies in the buffer**, after any number of calls. -/
theorem isSound_next_iterate (source : ByteSource) (k : Nat) :
    (next^[k] (ofSource source)).buffer.IsSound := by
  induction k with
  | zero => exact Buffer.isSound_initial
  | succ k ih =>
      rw [Function.iterate_succ_apply']
      exact isSound_next ih

/-- **The buffer grows to the greatest accepted length, and no further.**

After any number of calls, whatever they gave, its size is 4096 or the greatest length accepted so
far, whichever is greater.  So it never shrinks, and it never gets beyond the greatest length that
can be accepted.  A call that accepts a length hands out just that many of the next bytes on the
stream, or there are fewer, and then it takes all of them and gives no message; so it is for every
body that is read, whatever the buffer. -/
theorem buffer_grows (source : ByteSource) :
    let after (k : Nat) := next^[k] (ofSource source)
    (∀ k, IsGreatest (insert 4096 (acceptedIn (ofSource source) k)) (after k).buffer.size) ∧
    (∀ j k, j ≤ k → (after j).buffer.size ≤ (after k).buffer.size) ∧
    (∀ k, (after k).buffer.size ≤ 64 * 1024 * 1024) ∧
    (∀ k n rest, Accepts (after k).source.unread n rest →
      (n ≤ rest.length → (after k).receive.received = decodeBody (rest.take n) ∧
        (after (k + 1)).source.unread = rest.drop n) ∧
      (rest.length < n → (after k).receive.received = .finished ∧
        (after (k + 1)).source.unread = [])) ∧
    ∀ stream buffer length, ReadsBody stream buffer length
      (fill stream (buffer.reserve length) 0 length) := by
  intro after
  have greatest := isGreatest_size (ofSource source)
  refine ⟨greatest, ?_, ?_, ?_, ?_⟩
  · intro j k within
    exact (greatest j).mono (greatest k) (Set.insert_subset_insert (acceptedIn_mono within))
  · intro k
    rcases (greatest k).1 with initial | ⟨i, -, rest, lines, blank, -, -, -, most⟩
    · rw [initial]
      show 4096 ≤ 64 * 1024 * 1024
      decide
    · exact most
  · intro k n rest accepted
    simp only [after, Function.iterate_succ_apply']
    exact (receive_of_accepts accepted).2
  · intro stream buffer length
    exact readsBody_fill ..

end Reader

end JustfileServer
