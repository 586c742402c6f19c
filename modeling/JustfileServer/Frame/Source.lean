import JustfileServer.Justfile.Line

/-!
# Byte sources

Frames arrive on a stream that is read either by lines or by a wanted number of bytes.  A read of
bytes may give fewer than wanted, though never none while there are any; how many it gives is fixed
by a schedule, and nothing that is learned from the stream depends on it.
-/

namespace JustfileServer

/-- How many bytes each read gives at most, the reads counted from zero. -/
structure Schedule where
  most : Nat → Nat
  most_pos : ∀ i, 0 < most i

namespace Schedule

/-- Every read gives the same number of bytes at most, at least one. -/
def constant (n : Nat) : Schedule := ⟨fun _ => n + 1, fun _ => Nat.succ_pos n⟩

end Schedule

/-- A stream of bytes at some point of being read. -/
structure ByteSource where
  /-- The bytes that have not been read. -/
  unread : Bytes
  /-- How many bytes each read gives at most. -/
  schedule : Schedule
  /-- The number of reads of bytes made so far. -/
  reads : Nat
  /-- Does asking for a line when there is nothing left interrupt the program? -/
  interrupts : Bool

namespace ByteSource

/-- A read of bytes: as many as are wanted, there and allowed. -/
def read (s : ByteSource) (wanted : Nat) : Bytes × ByteSource :=
  let given := min wanted (s.schedule.most s.reads)
  (s.unread.take given, { s with unread := s.unread.drop given, reads := s.reads + 1 })

end ByteSource

/-- The first line of some bytes with its newline, if it has one, and the bytes behind it. -/
def cutLine : Bytes → Bytes × Bytes
  | [] => ([], [])
  | b :: rest =>
      if b = Byte.newline then ([b], rest)
      else (b :: (cutLine rest).1, (cutLine rest).2)

theorem length_cutLine_snd_lt {b : UInt8} {rest : Bytes} :
    (cutLine (b :: rest)).2.length < (b :: rest).length := by
  induction rest generalizing b with
  | nil => unfold cutLine; split <;> simp [cutLine]
  | cons c rest ih =>
      unfold cutLine
      split
      · simp
      · exact Nat.lt_succ_of_lt ih

end JustfileServer
