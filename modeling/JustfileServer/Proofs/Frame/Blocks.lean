import Mathlib.Data.List.TakeWhile
import JustfileServer.Frame.Header

/-!
# Header blocks on the stream

`IsBlock` says, without a reader, what a whole header block is: lines that are not blank, each
closed by a newline, and then a blank line.  `takeBlock` takes such a block off the stream and
leaves just what follows it (`takeBlock_append`), and whenever it leaves anything behind a blank
line, what it took was such a block (`exists_isBlock`).  `Announces` adds the length that the block
gives for the body.
-/

namespace JustfileServer

/-! ## Whole blocks -/

/-- The bytes are a whole header block with these lines. -/
inductive IsBlock : Bytes → List Text → Prop
  /-- A blank line ends the block. -/
  | blank {line : Bytes} : Byte.newline ∉ line → headerText (line ++ [Byte.newline]) = [] →
      IsBlock (line ++ [Byte.newline]) []
  /-- A line that is not blank stands before the rest of the block. -/
  | line {line block : Bytes} {lines : List Text} : Byte.newline ∉ line →
      headerText (line ++ [Byte.newline]) ≠ [] → IsBlock block lines →
      IsBlock (line ++ [Byte.newline] ++ block) (headerText (line ++ [Byte.newline]) :: lines)

/-- A line up to its newline is cut off. -/
theorem cutLine_append {line : Bytes} (h : Byte.newline ∉ line) (rest : Bytes) :
    cutLine (line ++ Byte.newline :: rest) = (line ++ [Byte.newline], rest) := by
  induction line with
  | nil => simp [cutLine]
  | cons b line ih =>
      rw [List.mem_cons, not_or] at h
      rw [List.cons_append, cutLine, if_neg (Ne.symm h.1), ih h.2]
      rfl

theorem cutLine_of_notMem {line : Bytes} (h : Byte.newline ∉ line) : cutLine line = (line, []) := by
  induction line with
  | nil => rfl
  | cons b line ih =>
      rw [List.mem_cons, not_or] at h
      rw [cutLine, if_neg (Ne.symm h.1), ih h.2]

/-- Cutting off a line loses nothing. -/
theorem cutLine_fst_append_snd (data : Bytes) : (cutLine data).1 ++ (cutLine data).2 = data := by
  induction data with
  | nil => rfl
  | cons b data ih =>
      rw [cutLine]
      split
      · rfl
      · rw [List.cons_append, ih]

/-- The first line of some bytes is closed by a newline, or there is no newline at all. -/
theorem cutLine_closed_or (data : Bytes) :
    (∃ line, Byte.newline ∉ line ∧ (cutLine data).1 = line ++ [Byte.newline]) ∨
      Byte.newline ∉ data ∧ cutLine data = (data, []) := by
  by_cases inside : Byte.newline ∈ data
  · obtain ⟨line, rest, rfl, first⟩ := List.eq_append_cons_of_mem inside
    exact .inl ⟨line, first, by rw [cutLine_append first]⟩
  · exact .inr ⟨inside, cutLine_of_notMem inside⟩

/-- Where something is left behind a line, the line was closed by a newline. -/
theorem eq_append_of_cutLine {data : Bytes} (h : (cutLine data).2 ≠ []) :
    ∃ line, Byte.newline ∉ line ∧ (cutLine data).1 = line ++ [Byte.newline] ∧
      data = line ++ Byte.newline :: (cutLine data).2 := by
  rcases cutLine_closed_or data with ⟨line, newline, cut⟩ | ⟨-, cut⟩
  · have whole := cutLine_fst_append_snd data
    rw [cut, List.append_assoc, List.singleton_append] at whole
    exact ⟨line, newline, cut, whole.symm⟩
  · exact absurd (congrArg Prod.snd cut) h

/-- The step of `takeBlock` on a line that is closed by a newline. -/
theorem takeBlock_line {line : Bytes} (h : Byte.newline ∉ line) (rest : Bytes) :
    takeBlock (line ++ Byte.newline :: rest)
      = if (headerText (line ++ [Byte.newline])).isEmpty then ⟨[], true, rest⟩
        else { takeBlock rest with
          lines := headerText (line ++ [Byte.newline]) :: (takeBlock rest).lines } := by
  obtain ⟨b, tail, hb⟩ : ∃ b tail, line ++ Byte.newline :: rest = b :: tail := by
    cases line <;> exact ⟨_, _, rfl⟩
  rw [hb, takeBlock, ← hb, cutLine_append h]

/-- **A whole block is taken off the stream**, and what follows it is left. -/
theorem takeBlock_append {block : Bytes} {lines : List Text} (h : IsBlock block lines)
    (rest : Bytes) : takeBlock (block ++ rest) = ⟨lines, true, rest⟩ := by
  induction h with
  | blank newline blank =>
      rw [List.append_assoc, List.singleton_append, takeBlock_line newline, blank]
      rfl
  | line newline notBlank _ ih =>
      rw [List.append_assoc, List.append_assoc, List.singleton_append, takeBlock_line newline,
        if_neg (by simpa using notBlank), ih]

/-- What is taken off the stream before something that is left is a whole block. -/
theorem exists_isBlock {data : Bytes} (ended : (takeBlock data).ended = true)
    (left : (takeBlock data).rest ≠ []) :
    ∃ block, data = block ++ (takeBlock data).rest ∧ IsBlock block (takeBlock data).lines := by
  fun_induction takeBlock data with
  | case1 => cases ended
  | case2 b rest line after blank =>
      obtain ⟨first, newline, cut, whole⟩ := eq_append_of_cutLine left
      refine ⟨first ++ [Byte.newline], by simpa using whole, .blank newline ?_⟩
      rw [← cut]
      exact List.isEmpty_iff.1 blank
  | case3 b rest line after notBlank block ih =>
      obtain ⟨others, hblock, isBlock⟩ := ih ended left
      have after_ne : after ≠ [] := by
        intro h
        have ended : (takeBlock after).ended = true := ended
        rw [h, takeBlock] at ended
        cases ended
      obtain ⟨first, newline, cut, whole⟩ := eq_append_of_cutLine after_ne
      refine ⟨first ++ [Byte.newline] ++ others, ?_, ?_⟩
      · rw [whole]
        simpa using hblock
      · show IsBlock _ (headerText (cutLine (b :: rest)).1 :: _)
        rw [cut]
        refine .line newline ?_ isBlock
        rw [← cut]
        simpa using notBlank

/-! ## Announced lengths -/

/-- The bytes are a whole header block that announces a body of this length, which is neither zero
nor beyond all reason: the last line that gives a length gives this one. -/
def Announces (block : Bytes) (length : Nat) : Prop :=
  ∃ lines, IsBlock block lines ∧ 0 < length ∧ length ≤ maxBodyLength ∧
    (lines.filterMap lengthField?).getLast? = some (.number length)

namespace Announces

variable {block : Bytes} {length : Nat}

theorem pos (h : Announces block length) : 0 < length := by
  obtain ⟨-, -, pos, -⟩ := h
  exact pos

theorem most (h : Announces block length) : length ≤ maxBodyLength := by
  obtain ⟨-, -, -, most, -⟩ := h
  exact most

/-- What is taken off the stream is the announcing block. -/
theorem takeBlock_append (h : Announces block length) (rest : Bytes) :
    takeBlock (block ++ rest) = ⟨(takeBlock block).lines, true, rest⟩ := by
  obtain ⟨lines, isBlock, -⟩ := h
  have alone := JustfileServer.takeBlock_append isBlock []
  rw [List.append_nil] at alone
  rw [JustfileServer.takeBlock_append isBlock, alone]

theorem length?_takeBlock (h : Announces block length) (rest : Bytes) :
    (takeBlock (block ++ rest)).length? = some length := by
  obtain ⟨lines, isBlock, pos, most, last⟩ := h
  rw [JustfileServer.takeBlock_append isBlock]
  simp [HeaderBlock.length?, HeaderBlock.fields, last, pos, most]

/-- What there is to report about a block does not depend on what follows it. -/
theorem diagnostics_takeBlock (h : Announces block length) (rest : Bytes) :
    (takeBlock (block ++ rest)).diagnostics = (takeBlock block).diagnostics := by
  have alone := h.takeBlock_append []
  rw [List.append_nil] at alone
  rw [h.takeBlock_append, alone]
  rfl

end Announces

/-- A usable length is that of the last line that gives one, and within the bounds. -/
theorem length?_eq_some_iff {block : HeaderBlock} {length : Nat} :
    block.length? = some length ↔ block.ended = true ∧ 0 < length ∧ length ≤ maxBodyLength ∧
      block.fields.getLast? = some (.number length) := by
  constructor
  · intro h
    have ended : block.ended = true := by
      by_contra open'
      simp [HeaderBlock.length?, open'] at h
    simp only [HeaderBlock.length?, ended, Bool.not_true, Bool.false_eq_true, if_false] at h
    cases last : block.fields.getLast? with
    | none => simp [last] at h
    | some field =>
        cases field with
        | invalid line => simp [last] at h
        | number n =>
            simp only [last, Bool.and_eq_true, decide_eq_true_eq, Option.ite_none_right_eq_some,
              Option.some.injEq] at h
            obtain ⟨⟨pos, most⟩, rfl⟩ := h
            refine ⟨ended, by omega, by omega, ?_⟩
            rw [show ((n.toNat : Nat) : Int) = n by omega]
  · rintro ⟨ended, pos, most, last⟩
    simp [HeaderBlock.length?, ended, last, pos, most]

/-- A block with a usable length, before a body that is there in part at least, announces it. -/
theorem exists_announces {data : Bytes} {length : Nat}
    (usable : (takeBlock data).length? = some length) (left : (takeBlock data).rest ≠ []) :
    ∃ block, data = block ++ (takeBlock data).rest ∧ Announces block length := by
  obtain ⟨ended, pos, most, last⟩ := length?_eq_some_iff.1 usable
  obtain ⟨block, whole, isBlock⟩ := exists_isBlock ended left
  exact ⟨block, whole, _, isBlock, pos, most, last⟩

end JustfileServer
