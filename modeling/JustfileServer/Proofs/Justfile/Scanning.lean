import JustfileServer.Proofs.Justfile.Dependencies

/-!
# Scanning a line for tokens

`scanTokens` looks for tokens from the left, with one index that two inner loops move on: the first
one over white space, the second one to the end of a token.  `Skips` says what either of them does,
and `isRun_iff_of_skips` what one turn of the outer loop does: it finds the first maximal run, if
there is one, and leaves just the others.  So the whole scan finds exactly the maximal runs
(`mem_spans_scanTokens_iff`) and ends at the end of the line.

What it finds are the tokens that headers are read with (`spans_scanTokens`), from the first colon
on (`LineForm.exists_scan_of_recipe`).
-/

namespace JustfileServer

/-! ## Runs -/

/-- There is a byte at this place, and it is white space. -/
def IsBlankAt (bytes : Bytes) (i : Nat) : Prop := ∃ b, bytes[i]? = some b ∧ Byte.isBlank b = true

/-- There is a byte at this place, and it is no white space. -/
def IsVisibleAt (bytes : Bytes) (i : Nat) : Prop :=
  ∃ b, bytes[i]? = some b ∧ Byte.isBlank b = false

/-- **A maximal run** of bytes that are no white space, among those from an offset on.  The second
bound is just behind it. -/
structure IsRun (bytes : Bytes) (offset first stop : Nat) : Prop where
  behind : offset ≤ first
  filled : first < stop
  visible : ∀ i, first ≤ i → i < stop → IsVisibleAt bytes i
  starts : first = offset ∨ IsBlankAt bytes (first - 1)
  stops : stop = bytes.length ∨ IsBlankAt bytes stop

/-! ## The scan -/

/-- Goes on from an index for as long as the bytes are of a kind. -/
def Bytes.skip (kind : UInt8 → Bool) (bytes : Bytes) (i : Nat) : Nat :=
  if _more : i < bytes.length then
    if kind bytes[i] then skip kind bytes (i + 1) else i
  else i
termination_by bytes.length - i

/-- What going on does: only bytes of the kind are passed, and it stops at another byte or at the
end. -/
structure Skips (kind : UInt8 → Bool) (bytes : Bytes) (i j : Nat) : Prop where
  le : i ≤ j
  passed : ∀ k b, i ≤ k → k < j → bytes[k]? = some b → kind b = true
  stops : ∀ b, bytes[j]? = some b → kind b = false
  within : i ≤ bytes.length → j ≤ bytes.length

variable {bytes : Bytes} {kind : UInt8 → Bool} {i j k start stop : Nat}

theorem skips_skip (kind : UInt8 → Bool) (bytes : Bytes) (i : Nat) :
    Skips kind bytes i (bytes.skip kind i) := by
  fun_induction Bytes.skip kind bytes i with
  | case1 i more here ih =>
      refine ⟨Nat.le_of_succ_le ih.le, ?_, ih.stops, fun _ => ih.within more⟩
      intro k b lower upper hb
      rcases Nat.eq_or_lt_of_le lower with rfl | lower
      · rw [List.getElem?_eq_getElem more] at hb
        rwa [← Option.some.inj hb]
      · exact ih.passed k b lower upper hb
  | case2 i more other =>
      refine ⟨Nat.le_refl i, fun k b lower upper => by omega, ?_, id⟩
      intro b hb
      rw [List.getElem?_eq_getElem more] at hb
      simpa [← Option.some.inj hb] using other
  | case3 i ended =>
      refine ⟨Nat.le_refl i, fun k b lower upper => by omega, ?_, id⟩
      intro b hb
      obtain ⟨more, -⟩ := List.getElem?_eq_some_iff.1 hb
      exact absurd more ended

/-- A turn of the scan moves the index on. -/
theorem Skips.lt_of_lt (more : i < bytes.length) (space : Skips Byte.isBlank bytes i start)
    (token : Skips (!Byte.isBlank ·) bytes start stop) : i < stop := by
  by_contra stuck
  have forward := space.le
  have onward := token.le
  obtain rfl : start = i := by omega
  obtain rfl : stop = start := by omega
  -- a byte cannot stop both loops
  have byte := List.getElem?_eq_getElem more
  have visible := space.stops _ byte
  have blank := token.stops _ byte
  rw [visible] at blank
  cases blank

/-- What a scan gives: the spans of the tokens, and the index that it has come to. -/
structure TokenScan where
  spans : List Span
  index : Nat

/-- The span of a run, on a line that starts at the given offset. -/
def runSpan (lineStart : Int) (first stop : Nat) : Span := ⟨lineStart + first, lineStart + stop - 1⟩

/-- The spans of what lies between two indices: one, or none when nothing does. -/
def spansBetween (lineStart : Int) (start stop : Nat) : List Span :=
  if start < stop then [runSpan lineStart start stop] else []

/-- Scans a line for tokens from an index on; the line starts at the given offset. -/
def scanTokens (bytes : Bytes) (lineStart : Int) (i : Nat) : TokenScan :=
  if _more : i < bytes.length then
    let start := bytes.skip Byte.isBlank i
    let stop := bytes.skip (!Byte.isBlank ·) start
    let later := scanTokens bytes lineStart stop
    ⟨spansBetween lineStart start stop ++ later.spans, later.index⟩
  else ⟨[], i⟩
termination_by bytes.length - i
decreasing_by
  have further := Skips.lt_of_lt _more (skips_skip ..) (skips_skip (!Byte.isBlank ·) ..)
  omega

/-! ## One turn -/

theorem IsVisibleAt.not_isBlankAt (h : IsVisibleAt bytes i) : ¬ IsBlankAt bytes i := by
  rintro ⟨b, hb, blank⟩
  obtain ⟨c, hc, visible⟩ := h
  obtain rfl := Option.some.inj (hb.symm.trans hc)
  rw [visible] at blank
  cases blank

theorem IsVisibleAt.lt (h : IsVisibleAt bytes i) : i < bytes.length := by
  obtain ⟨b, hb, -⟩ := h
  exact (List.getElem?_eq_some_iff.1 hb).1

namespace IsRun

variable {first last first' last' : Nat}

theorem lt_length (run : IsRun bytes i first last) : first < bytes.length :=
  (run.visible first (Nat.le_refl _) run.filled).lt

/-- A run reaches as far to the left as any other one that it meets. -/
theorem first_le (run : IsRun bytes i first last) (other : IsRun bytes i first' last')
    (meets : first < last') : first ≤ first' := by
  by_contra later
  rcases run.starts with start | blank
  · have behind := other.behind
    omega
  · have visible := other.visible (first - 1) (by omega) (by omega)
    exact visible.not_isBlankAt blank

/-- A run reaches as far to the right as any other one that it meets. -/
theorem le_last (run : IsRun bytes i first last) (other : IsRun bytes i first' last')
    (meets : first' < last) : last' ≤ last := by
  by_contra earlier
  have visible := other.visible last (by omega) (by omega)
  rcases run.stops with ended | blank
  · exact absurd visible.lt (by omega)
  · exact visible.not_isBlankAt blank

/-- **Runs that meet are the same.** -/
theorem unique (run : IsRun bytes i first last) (other : IsRun bytes i first' last')
    (left : first < last') (right : first' < last) : first = first' ∧ last = last' :=
  ⟨Nat.le_antisymm (run.first_le other left) (other.first_le run right),
    Nat.le_antisymm (other.le_last run left) (run.le_last other right)⟩

end IsRun

namespace Skips

theorem isBlankAt (space : Skips Byte.isBlank bytes i j) (lower : i ≤ k) (upper : k < j)
    (more : k < bytes.length) : IsBlankAt bytes k :=
  ⟨_, List.getElem?_eq_getElem more, space.passed _ _ lower upper (List.getElem?_eq_getElem more)⟩

theorem isVisibleAt (token : Skips (!Byte.isBlank ·) bytes i j) (within : i ≤ bytes.length)
    (lower : i ≤ k) (upper : k < j) : IsVisibleAt bytes k := by
  have more : k < bytes.length := Nat.lt_of_lt_of_le upper (token.within within)
  have byte := List.getElem?_eq_getElem more
  exact ⟨_, byte, by simpa using token.passed _ _ lower upper byte⟩

/-- Behind a token there is white space, or nothing. -/
theorem ends (token : Skips (!Byte.isBlank ·) bytes i j) (within : i ≤ bytes.length) :
    j = bytes.length ∨ IsBlankAt bytes j := by
  rcases Nat.eq_or_lt_of_le (token.within within) with ended | more
  · exact .inl ended
  · have byte := List.getElem?_eq_getElem more
    exact .inr ⟨_, byte, by simpa using token.stops _ byte⟩

/-- No run starts where a token has just ended. -/
theorem lt_of_isRun {first last : Nat} (token : Skips (!Byte.isBlank ·) bytes i j)
    (within : i ≤ bytes.length) (run : IsRun bytes j first last) : j < first := by
  refine Nat.lt_of_le_of_ne run.behind ?_
  rintro rfl
  rcases token.ends within with ended | blank
  · exact absurd ended (Nat.ne_of_lt run.lt_length)
  · exact (run.visible j (Nat.le_refl j) run.filled).not_isBlankAt blank

end Skips

section Turn

variable {first last : Nat} (within : i ≤ bytes.length)
  (space : Skips Byte.isBlank bytes i start) (token : Skips (!Byte.isBlank ·) bytes start stop)
include within space token

/-- What lies between the two indices, if anything does, is a maximal run. -/
theorem isRun_of_skips (filled : start < stop) : IsRun bytes i start stop := by
  have inside := space.within within
  refine ⟨space.le, filled, fun k => token.isVisibleAt inside, ?_, token.ends inside⟩
  rcases Nat.eq_or_lt_of_le space.le with first | further
  · exact .inl first.symm
  · exact .inr (space.isBlankAt (by omega) (by omega) (by omega))

/-- **One turn finds the first maximal run**, if there is one, and leaves just the others. -/
theorem isRun_iff_of_skips : IsRun bytes i first last ↔
    start < stop ∧ first = start ∧ last = stop ∨ IsRun bytes stop first last := by
  have inside := space.within within
  constructor
  · intro run
    have behind : start ≤ first := by
      by_contra before
      rw [not_le] at before
      have blank := space.isBlankAt run.behind before run.lt_length
      exact (run.visible first (Nat.le_refl _) run.filled).not_isBlankAt blank
    rcases Nat.lt_or_ge first stop with here | later
    · have filled : start < stop := by omega
      have found := isRun_of_skips within space token filled
      exact .inl ⟨filled, run.unique found here (Nat.lt_of_le_of_lt behind run.filled)⟩
    · refine .inr ⟨later, run.filled, run.visible, ?_, run.stops⟩
      have forward := space.le
      have onward := token.le
      rcases run.starts with start | blank
      · exact .inl (by omega)
      · exact .inr blank
  · rintro (⟨filled, rfl, rfl⟩ | run)
    · exact isRun_of_skips within space token filled
    · have apart := token.lt_of_isRun inside run
      have forward := space.le
      have onward := token.le
      refine ⟨by omega, run.filled, run.visible, .inr ?_, run.stops⟩
      rcases run.starts with start | blank
      · omega
      · exact blank

end Turn

/-! ## The whole scan -/

section Scan

variable {lineStart : Int} {t : Span}

theorem mem_spansBetween_iff :
    t ∈ spansBetween lineStart start stop ↔ start < stop ∧ t = runSpan lineStart start stop := by
  rw [spansBetween]
  split <;> simp [*]

/-- The scan ends at the end of the line. -/
theorem index_scanTokens (lineStart : Int) (within : i ≤ bytes.length) :
    (scanTokens bytes lineStart i).index = bytes.length := by
  fun_induction scanTokens bytes lineStart i with
  | case1 i more start stop later ih =>
      have inside := (skips_skip Byte.isBlank bytes i).within within
      exact ih ((skips_skip (!Byte.isBlank ·) bytes start).within inside)
  | case2 i ended => exact Nat.le_antisymm within (Nat.le_of_not_lt ended)

/-- **The scan finds exactly the maximal runs.** -/
theorem mem_spans_scanTokens_iff (within : i ≤ bytes.length) :
    t ∈ (scanTokens bytes lineStart i).spans ↔
      ∃ first stop, IsRun bytes i first stop ∧ t = runSpan lineStart first stop := by
  fun_induction scanTokens bytes lineStart i with
  | case1 i more start stop later ih =>
      have space := skips_skip Byte.isBlank bytes i
      have token := skips_skip (!Byte.isBlank ·) bytes start
      have turn {first last : Nat} : IsRun bytes i first last ↔
          start < stop ∧ first = start ∧ last = stop ∨ IsRun bytes stop first last :=
        isRun_iff_of_skips within space token
      have remains := ih (token.within (space.within within))
      rw [List.mem_append, mem_spansBetween_iff, remains]
      constructor
      · rintro (⟨filled, rfl⟩ | ⟨first, last, run, rfl⟩)
        · exact ⟨start, stop, turn.2 (.inl ⟨filled, rfl, rfl⟩), rfl⟩
        · exact ⟨first, last, turn.2 (.inr run), rfl⟩
      · rintro ⟨first, last, run, rfl⟩
        rcases turn.1 run with ⟨filled, rfl, rfl⟩ | run
        · exact .inl ⟨filled, rfl⟩
        · exact .inr ⟨first, last, run, rfl⟩
  | case2 i ended =>
      constructor
      · intro h
        cases h
      · rintro ⟨first, last, run, -⟩
        have behind := run.behind
        exact absurd run.lt_length (by omega)

/-- Between two tokens there is white space. -/
theorem pairwise_spans_scanTokens (lineStart : Int) (within : i ≤ bytes.length) :
    (scanTokens bytes lineStart i).spans.Pairwise fun s t =>
      ∃ k : Nat, s.last < lineStart + k ∧ lineStart + k < t.first ∧ IsBlankAt bytes k := by
  fun_induction scanTokens bytes lineStart i with
  | case1 i more start stop later ih =>
      have inside := (skips_skip Byte.isBlank bytes i).within within
      have token := skips_skip (!Byte.isBlank ·) bytes start
      refine List.pairwise_append.2 ⟨?_, ih (token.within inside), ?_⟩
      · rw [spansBetween]
        split
        · exact List.pairwise_singleton ..
        · exact .nil
      · intro s hs t ht
        obtain ⟨filled, rfl⟩ := mem_spansBetween_iff.1 hs
        obtain ⟨first, last, run, rfl⟩ := (mem_spans_scanTokens_iff (token.within inside)).1 ht
        have apart := token.lt_of_isRun inside run
        have more := run.lt_length
        refine ⟨stop, ?_, ?_, ?_⟩
        · simp only [runSpan]
          omega
        · simp only [runSpan]
          omega
        · rcases token.ends inside with ended | blank
          · omega
          · exact blank
  | case2 i ended => exact .nil

/-- A byte that is no white space lies in a maximal run. -/
theorem exists_isRun (lower : i ≤ k) (visible : IsVisibleAt bytes k) :
    ∃ first stop, IsRun bytes i first stop ∧ first ≤ k ∧ k < stop := by
  have more := visible.lt
  -- the first run is left behind at each turn
  induction size : bytes.length - i using Nat.strong_induction_on generalizing i with
  | _ n ih =>
      subst size
      have within : i ≤ bytes.length := by omega
      have space := skips_skip Byte.isBlank bytes i
      have token := skips_skip (!Byte.isBlank ·) bytes (bytes.skip Byte.isBlank i)
      generalize bytes.skip Byte.isBlank i = start at space token
      generalize bytes.skip (!Byte.isBlank ·) start = stop at token
      have start_le : start ≤ k := by
        by_contra before
        exact visible.not_isBlankAt (space.isBlankAt lower (by omega) more)
      rcases Nat.lt_or_ge k stop with here | later
      · exact ⟨start, stop, isRun_of_skips within space token (by omega), start_le, here⟩
      · have further := space.lt_of_lt (by omega) token
        obtain ⟨first, last, run, meets⟩ := ih _ (by omega) later rfl
        exact ⟨first, last, (isRun_iff_of_skips within space token).2 (.inr run), meets⟩

/-- **Just the bytes that are no white space are covered.** -/
theorem exists_mem_spans_scanTokens_iff (lineStart : Int) (within : i ≤ bytes.length) :
    (∃ t ∈ (scanTokens bytes lineStart i).spans, t.first ≤ lineStart + k ∧ lineStart + k ≤ t.last) ↔
      i ≤ k ∧ IsVisibleAt bytes k := by
  simp only [mem_spans_scanTokens_iff within]
  constructor
  · rintro ⟨_, ⟨first, last, run, rfl⟩, lower, upper⟩
    simp only [runSpan] at lower upper
    have behind := run.behind
    exact ⟨by omega, run.visible k (by omega) (by omega)⟩
  · rintro ⟨lower, visible⟩
    obtain ⟨first, last, run, start, stop⟩ := exists_isRun lower visible
    refine ⟨_, ⟨first, last, run, rfl⟩, ?_, ?_⟩
    · simp only [runSpan]
      omega
    · simp only [runSpan]
      omega

end Scan

/-! ## The tokens of a line -/

/-- What a loop passes stands between the two indices. -/
theorem Skips.exists_passed (h : Skips kind bytes i j) (within : i ≤ bytes.length) :
    ∃ passed, bytes.drop i = passed ++ bytes.drop j ∧ i + passed.length = j ∧
      ∀ b ∈ passed, kind b = true := by
  have forward := h.le
  have inside := h.within within
  refine ⟨(bytes.drop i).take (j - i), ?_, ?_, ?_⟩
  · have same : bytes.drop j = (bytes.drop i).drop (j - i) := by
      rw [List.drop_drop]
      congr 1
      omega
    rw [same, List.take_append_drop]
  · rw [List.length_take, List.length_drop]
    omega
  · intro b hb
    obtain ⟨k, upper, hk⟩ := List.mem_take_iff_getElem.1 hb
    rw [List.getElem_drop] at hk
    refine h.passed (i + k) b (by omega) (by omega) ?_
    rw [List.getElem?_eq_some_iff]
    exact ⟨by omega, hk⟩

/-- One turn takes the first token off, if there is one, and the white space before it. -/
theorem tokens_of_skips (lineStart : Nat) (within : i ≤ bytes.length)
    (space : Skips Byte.isBlank bytes i start) (token : Skips (!Byte.isBlank ·) bytes start stop) :
    tokens (lineStart + i) (bytes.drop i)
      = spansBetween lineStart start stop ++ tokens (lineStart + stop) (bytes.drop stop) := by
  obtain ⟨blanks, before, rfl, blank⟩ := space.exists_passed within
  obtain ⟨run, behind, rfl, visible⟩ := token.exists_passed (space.within within)
  rw [before, tokens_append_left blank, Nat.add_assoc, behind]
  cases run with
  | nil => simp [spansBetween]
  | cons b run =>
      have stops : ∀ c, (bytes.drop (i + blanks.length + (b :: run).length)).head? = some c →
          Byte.isBlank c = true := by
        intro c hc
        rw [List.head?_drop] at hc
        simpa using token.stops c hc
      have span : runSpan lineStart (i + blanks.length) (i + blanks.length + (b :: run).length)
          = .ofLength (lineStart + (i + blanks.length)) (b :: run).length := by
        simp [runSpan, Span.ofLength, Int.add_assoc]
      rw [tokens_append_run (by simpa using visible) (List.cons_ne_nil b run) stops, spansBetween,
        if_pos (by simp), span, Nat.add_assoc lineStart]
      rfl

/-- **The scan finds the tokens** of the part of the line behind its index. -/
theorem spans_scanTokens (lineStart : Nat) (within : i ≤ bytes.length) :
    (scanTokens bytes lineStart i).spans = tokens (lineStart + i) (bytes.drop i) := by
  fun_induction scanTokens bytes (lineStart : Int) i with
  | case1 i more start stop later ih =>
      have space := skips_skip Byte.isBlank bytes i
      have token := skips_skip (!Byte.isBlank ·) bytes start
      rw [tokens_of_skips lineStart within space token,
        ← ih (token.within (space.within within))]
  | case2 i ended =>
      rw [List.drop_eq_nil_of_le (Nat.le_of_not_lt ended)]
      rfl

/-- **The dependencies of a recipe are what the scan finds** behind the first colon of its line. -/
theorem LineForm.exists_scan_of_recipe {line : Line} {d : Definition}
    {dependencies body : List Span} (h : ofLine line = .definition d)
    (recipe : d.detail = .recipe dependencies body) :
    ∃ head rest, CutAtColon line.bytes head rest ∧
      dependencies = (scanTokens line.bytes line.start (head.length + 1)).spans := by
  obtain ⟨head, rest, cut, -, form⟩ := exists_header h (by rw [Definition.kind, recipe])
  obtain ⟨name, column, -, rfl⟩ := eq_of_header form
  obtain ⟨rfl, rfl⟩ := Detail.recipe.inj recipe
  have inside : head.length + 1 ≤ line.bytes.length := by
    rw [cut.eq, List.length_append, List.length_cons]
    omega
  have behind : line.bytes.drop (head.length + 1) = rest := by
    rw [cut.eq, ← List.drop_drop, List.drop_left]
    rfl
  exact ⟨head, rest, cut, by rw [spans_scanTokens line.start inside, behind, Nat.add_assoc]⟩

/-- **Tokens are found exactly.**  A scan of a line from an offset on ends at the end of the line.
It gives the spans of the maximal runs of bytes that are no white space, of all of them and of
nothing else, so just these bytes are covered.  The spans come in order, with white space between
any two, and they are the tokens that a header is read with. -/
theorem tokens_exact (bytes : Bytes) (lineStart : Int) {offset : Nat}
    (within : offset ≤ bytes.length) :
    let scan := scanTokens bytes lineStart offset
    scan.index = bytes.length ∧
    (∀ t, t ∈ scan.spans ↔ ∃ first stop, IsRun bytes offset first stop ∧
      t = ⟨lineStart + first, lineStart + stop - 1⟩) ∧
    (∀ k : Nat, (∃ t ∈ scan.spans, t.first ≤ lineStart + k ∧ lineStart + k ≤ t.last) ↔
      offset ≤ k ∧ IsVisibleAt bytes k) ∧
    (scan.spans.Pairwise fun s t => ∃ k : Nat, s.last < lineStart + k ∧ lineStart + k < t.first ∧
      IsBlankAt bytes k) ∧
    ∀ start : Nat, lineStart = start →
      scan.spans = tokens (start + offset) (bytes.drop offset) := by
  refine ⟨index_scanTokens lineStart within, fun t => mem_spans_scanTokens_iff within,
    fun k => exists_mem_spans_scanTokens_iff lineStart within,
    pairwise_spans_scanTokens lineStart within, ?_⟩
  rintro start rfl
  exact spans_scanTokens start within

/-- The offset may cut a word, and the last token may reach the end of the line. -/
theorem tokens_exact_inside_word :
    let bytes : Bytes := [0x61, 0x62, 0x20, 0x0B, 0x63, 0x64]
    let scan := scanTokens bytes 10 1
    1 ≤ bytes.length ∧ scan.index = 6 ∧ scan.spans = [⟨11, 11⟩, ⟨14, 15⟩] ∧
      IsRun bytes 1 1 2 ∧ IsRun bytes 1 4 6 ∧ ¬ ∃ t ∈ scan.spans, t.first ≤ 13 ∧ 13 ≤ t.last := by
  intro bytes scan
  obtain ⟨index, runs, covered, -, same⟩ := tokens_exact bytes 10 (show 1 ≤ 6 by decide)
  have spans : scan.spans = [⟨11, 11⟩, ⟨14, 15⟩] := (same 10 rfl).trans (by decide)
  have run {first stop : Nat} (h : ⟨10 + first, 10 + stop - 1⟩ ∈ scan.spans) :
      IsRun bytes 1 first stop := by
    obtain ⟨first', stop', run, span⟩ := (runs _).1 h
    rw [Span.mk.injEq] at span
    obtain ⟨rfl, rfl⟩ : first = first' ∧ stop = stop' := by omega
    exact run
  refine ⟨by decide, index, spans, run (by rw [spans]; decide), run (by rw [spans]; decide), ?_⟩
  intro inside
  obtain ⟨-, visible⟩ := (covered 3).1 inside
  exact visible.not_isBlankAt ⟨0x0B, rfl, rfl⟩

end JustfileServer
