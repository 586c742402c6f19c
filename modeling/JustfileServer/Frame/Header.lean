import JustfileServer.Frame.Source
import JustfileServer.Text.Blank
import JustfileServer.Text.Numeral

/-!
# Header blocks

A frame starts with a block of header lines, which ends with a blank line.  Only the length of the
body is of interest: of several lines that give one the last counts, whether the length can be read
or not.  The block is taken off the stream as a whole and then judged, by `HeaderBlock.length?`,
with what there is to report about it in `HeaderBlock.diagnostics`.
-/

namespace JustfileServer

/-- Something worth reporting about a frame that is dropped or doubtful. -/
inductive Diagnostic
  /-- A header line gives a length that is no number. -/
  | invalidLength (line : Text)
  /-- No header line gives a length. -/
  | missingLength
  /-- The length is zero or less. -/
  | nonPositiveLength (n : Int)
  /-- The length is beyond all reason. -/
  | excessiveLength (n : Int)
  /-- The stream ended before the body did. -/
  | cutShort (length : Nat)

/-- The wording of a diagnostic. -/
def Diagnostic.message : Diagnostic → Text
  | .invalidLength line => Text.ofString "Invalid Content-Length header: " ++ line
  | .missingLength => "Message without a Content-Length header"
  | .nonPositiveLength n => Text.ofString "Non-positive Content-Length: " ++ Numeral.ofInt n
  | .excessiveLength n => Text.ofString "Content-Length too large: " ++ Numeral.ofInt n
  | .cutShort length =>
      Text.ofString "Stream ended inside a " ++ Numeral.decimal length
        ++ Text.ofString " byte message"

/-- A longer body is taken for a damaged header. -/
def maxBodyLength : Nat := 64 * 1024 * 1024

/-- The lines at the beginning of a stream up to a blank one. -/
structure HeaderBlock where
  /-- The lines before the blank one, without the white space around them. -/
  lines : List Text
  /-- Was there a blank line? -/
  ended : Bool
  /-- The bytes behind the block. -/
  rest : Bytes

/-- A header line as text: a code point for each byte, without the white space at the ends. -/
def headerText (line : Bytes) : Text := Text.trim (line.map CodePoint.ofByte)

/-- Takes the header block at the beginning of the bytes. -/
def takeBlock : Bytes → HeaderBlock
  | [] => ⟨[], false, []⟩
  | b :: rest =>
      let line := headerText (cutLine (b :: rest)).1
      let after := (cutLine (b :: rest)).2
      if line.isEmpty then ⟨[], true, after⟩
      else
        let block := takeBlock after
        { block with lines := line :: block.lines }
termination_by data => data.length
decreasing_by exact length_cutLine_snd_lt

/-- A length as a header line gives it. -/
inductive LengthField
  | number (n : Int)
  | invalid (line : Text)

/-- The length that a header line gives, if it is a line for that; its name is read without regard
to case. -/
def lengthField? (line : Text) : Option LengthField :=
  match line.splitFirst? (.ofChar ':') with
  | none => none
  | some (name, value) =>
      if name.trim.lowerAscii = Text.ofString "content-length" then
        match Numeral.integer? value.trim with
        | some n => some (.number n)
        | none => some (.invalid line)
      else none

namespace HeaderBlock

/-- The lengths that the lines of a block give. -/
def fields (block : HeaderBlock) : List LengthField := block.lines.filterMap lengthField?

/-- What there is to report about the lines one by one. -/
def lineDiagnostics (block : HeaderBlock) : List Diagnostic :=
  block.fields.filterMap fun
    | .invalid line => some (.invalidLength line)
    | .number _ => none

/-- The length of the body, if the block gives one that can be used. -/
def length? (block : HeaderBlock) : Option Nat :=
  if !block.ended then none
  else
    match block.fields.getLast? with
    | some (.number n) => if 0 < n && n ≤ maxBodyLength then some n.toNat else none
    | _ => none

/-- What there is to report about the block as a whole, when it has ended. -/
def blockDiagnostics (block : HeaderBlock) : List Diagnostic :=
  if !block.ended then []
  else
    match block.fields.getLast? with
    | none => [.missingLength]
    | some (.invalid _) => []
    | some (.number n) =>
        if n ≤ 0 then [.nonPositiveLength n]
        else if (maxBodyLength : Int) < n then [.excessiveLength n]
        else []

/-- All there is to report about a block, in order. -/
def diagnostics (block : HeaderBlock) : List Diagnostic :=
  block.lineDiagnostics ++ block.blockDiagnostics

end HeaderBlock

theorem length_takeBlock_rest_le (data : Bytes) : (takeBlock data).rest.length ≤ data.length := by
  fun_induction takeBlock data with
  | case1 => exact Nat.le_refl _
  | case2 b rest line after h => exact Nat.le_of_lt length_cutLine_snd_lt
  | case3 b rest line after h block ih =>
      exact Nat.le_trans ih (Nat.le_of_lt length_cutLine_snd_lt)

/-- A block that has ended takes at least its blank line off the stream. -/
theorem length_takeBlock_rest_lt {data : Bytes} (h : (takeBlock data).ended = true) :
    (takeBlock data).rest.length < data.length := by
  cases data with
  | nil => simp [takeBlock] at h
  | cons b rest =>
      rw [takeBlock]
      dsimp only
      split
      · exact length_cutLine_snd_lt
      · exact Nat.lt_of_le_of_lt (length_takeBlock_rest_le _) length_cutLine_snd_lt

end JustfileServer
