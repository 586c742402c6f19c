import JustfileServer.Proofs.Justfile.Pieces
import JustfileServer.Proofs.Justfile.Spans

/-!
# Where dependencies stand

The dependencies of a recipe are the maximal runs of bytes that are no white space behind the first
colon of its header.  `tokens` finds them from the right, byte by byte.  Read from the left, white
space is left out and a run is taken as a whole (`tokens_append_run`), so every token is set off by
white space and the ends of what is read (`exists_tokenCut_of_mem_tokens`).

On its line a dependency has the colon or white space before it, and white space or the end of the
line behind it (`Justfile.hasDependency_of_mem`).  So it is a piece of the text
(`HasDependency.exists_pieces`).
-/

namespace JustfileServer

/-! ## Tokens are maximal runs -/

/-- Bytes are cut around a token, which has no white space in it and white space or an end on either
side. -/
structure TokenCut (bytes before token after : Bytes) : Prop where
  eq : bytes = before ++ token ++ after
  visible : ∀ b ∈ token, Byte.isBlank b = false
  filled : token ≠ []
  starts : ∀ b, before.getLast? = some b → Byte.isBlank b = true
  stops : ∀ b, after.head? = some b → Byte.isBlank b = true

variable {offset : Nat} {bytes run after : Bytes} {t : Span}

/-- Where white space or the end comes next, no token starts. -/
theorem lt_first_of_mem_tokens (stops : ∀ b, bytes.head? = some b → Byte.isBlank b = true)
    (h : t ∈ tokens offset bytes) : (offset : Int) < t.first := by
  cases bytes with
  | nil => cases h
  | cons b bytes =>
      rw [tokens, if_pos (stops b rfl)] at h
      have place := (liesIn_of_mem_tokens h).first
      omega

/-- A run without white space is one token. -/
theorem tokens_append_run (visible : ∀ b ∈ run, Byte.isBlank b = false) (filled : run ≠ [])
    (stops : ∀ b, after.head? = some b → Byte.isBlank b = true) :
    tokens offset (run ++ after)
      = .ofLength offset run.length :: tokens (offset + run.length) after := by
  induction run generalizing offset with
  | nil => exact absurd rfl filled
  | cons b run ih =>
      have here : ¬ Byte.isBlank b = true := by simp [visible b (List.mem_cons_self ..)]
      rw [List.cons_append, tokens, if_neg here]
      cases run with
      | nil =>
          have single : Span.ofLength offset [b].length = ⟨offset, offset⟩ := by
            simp [Span.ofLength]
          rw [List.nil_append, single]
          cases cut : tokens (offset + 1) after with
          | nil => rfl
          | cons t ts =>
              have place := lt_first_of_mem_tokens (t := t) stops (by rw [cut]; simp)
              have apart : t.first ≠ offset + 1 := by omega
              exact if_neg apart
      | cons c run =>
          rw [ih (fun b hb => visible b (List.mem_cons_of_mem _ hb)) (List.cons_ne_nil c run)]
          have joined : (Span.ofLength (offset + 1) (c :: run).length).first = offset + 1 := by
            simp [Span.ofLength]
          have longer : (⟨offset, (Span.ofLength (offset + 1) (c :: run).length).last⟩ : Span)
              = .ofLength offset (b :: c :: run).length := by
            simp only [Span.ofLength, List.length_cons]
            congr 1
            omega
          dsimp only
          rw [if_pos joined, longer, List.length_cons (a := b), Nat.add_right_comm, Nat.add_assoc]

/-- Bytes that do not start with white space start with a whole run. -/
theorem exists_run {b : UInt8} (visible : Byte.isBlank b = false) (rest : Bytes) :
    ∃ run after, b :: rest = run ++ after ∧ (∀ c ∈ run, Byte.isBlank c = false) ∧ run ≠ [] ∧
      ∀ c, after.head? = some c → Byte.isBlank c = true := by
  let p (b : UInt8) : Bool := !Byte.isBlank b
  refine ⟨(b :: rest).takeWhile p, (b :: rest).dropWhile p,
    List.takeWhile_append_dropWhile.symm, ?_, ?_, ?_⟩
  · intro c hc
    simpa [p] using List.mem_takeWhile_imp hc
  · rw [List.takeWhile_cons_of_pos (by simp [p, visible])]
    exact List.cons_ne_nil _ _
  · intro c hc
    have ends := List.head?_dropWhile_not p (b :: rest)
    rw [hc] at ends
    simpa [p] using ends

/-- A token stays one when bytes are put in front that do not touch it. -/
theorem TokenCut.prepend {before token : Bytes} (cut : TokenCut bytes before token after)
    (front : Bytes)
    (apart : before = [] → ∀ b, front.getLast? = some b → Byte.isBlank b = true) :
    TokenCut (front ++ bytes) (front ++ before) token after := by
  refine ⟨by rw [cut.eq]; simp, cut.visible, cut.filled, ?_, cut.stops⟩
  intro b hb
  by_cases first : before = []
  · rw [first, List.append_nil] at hb
    exact apart first b hb
  · rw [List.getLast?_append_of_ne_nil _ first] at hb
    exact cut.starts b hb

/-- **Every token is a maximal run.** -/
theorem exists_tokenCut_of_mem_tokens (h : t ∈ tokens offset bytes) :
    ∃ before token after, TokenCut bytes before token after ∧
      t = .ofLength (offset + before.length) token.length := by
  -- a byte of white space is taken away at a time, or a whole run
  induction size : bytes.length using Nat.strong_induction_on generalizing offset bytes with
  | _ n ih =>
      subst size
      cases bytes with
      | nil => cases h
      | cons b rest =>
          cases here : Byte.isBlank b with
          | true =>
              rw [tokens, if_pos here] at h
              obtain ⟨before, token, after, cut, rfl⟩ := ih _ (Nat.lt_succ_self _) h rfl
              refine ⟨b :: before, token, after, cut.prepend [b] fun _ c hc => ?_, ?_⟩
              · obtain rfl : b = c := Option.some.inj hc
                exact here
              · rw [List.length_cons, Nat.add_assoc, Nat.add_comm 1]
          | false =>
              obtain ⟨run, after, whole, visible, filled, stops⟩ := exists_run here rest
              rw [whole] at h ih ⊢
              rw [tokens_append_run visible filled stops] at h
              rcases List.mem_cons.1 h with rfl | h
              · exact ⟨[], run, after, ⟨rfl, visible, filled, by simp, stops⟩, rfl⟩
              · have shorter : after.length < (run ++ after).length := by
                  have positive := List.length_pos_iff.2 filled
                  rw [List.length_append]
                  omega
                obtain ⟨before, token, last, cut, rfl⟩ := ih _ shorter h rfl
                have further := lt_first_of_mem_tokens stops h
                refine ⟨run ++ before, token, last, cut.prepend run fun first => ?_, ?_⟩
                · rw [first] at further
                  simp [Span.ofLength] at further
                · rw [List.length_append, Nat.add_assoc]

/-! ## Dependencies on the line of a header -/

/-- **A dependency of a recipe** on the line of its header: a token of what stands behind the colon
that separates the name from the dependencies. -/
structure HasDependency (line : Line) (t : Span) (head lead token tail : Bytes) : Prop where
  cut : CutAtColon line.bytes head (lead ++ token ++ tail)
  sign : (lead ++ token ++ tail).head? ≠ some Byte.equals
  around : TokenCut (lead ++ token ++ tail) lead token tail
  span : t = .ofLength (line.start + (head ++ Byte.colon :: lead).length) token.length

variable {line : Line} {d : Definition}

/-- A recipe is read from the name before the first colon of its line and what stands behind it. -/
theorem LineForm.exists_header (h : ofLine line = .definition d) (recipe : d.kind = .recipe) :
    ∃ head rest, CutAtColon line.bytes head rest ∧ rest.head? ≠ some Byte.equals ∧
      header line head rest = .definition d := by
  have role : HasRole line.bytes (.definition .recipe) := by
    rw [hasRole_iff, h, LineForm.role, recipe]
  cases role with
  | recipe speaks cut sign named =>
      rw [ofLine_header speaks cut sign] at h
      exact ⟨_, _, cut, sign, h⟩

theorem LineForm.exists_hasDependency {dependencies body : List Span}
    (h : ofLine line = .definition d) (recipe : d.detail = .recipe dependencies body)
    (ht : t ∈ dependencies) :
    ∃ head lead token tail, HasDependency line t head lead token tail := by
  obtain ⟨head, rest, cut, sign, form⟩ := exists_header h (by rw [Definition.kind, recipe])
  obtain ⟨name, column, -, rfl⟩ := eq_of_header form
  obtain ⟨rfl, rfl⟩ := Detail.recipe.inj recipe
  obtain ⟨lead, token, tail, around, span⟩ := exists_tokenCut_of_mem_tokens ht
  have whole := around.eq
  subst whole
  refine ⟨head, lead, token, tail, cut, sign, around, ?_⟩
  rw [span, List.length_append, List.length_cons]
  congr 1
  omega

/-- **Every dependency stands on the line of its recipe.** -/
theorem Justfile.hasDependency_of_mem {text : Text} {dependencies body : List Span}
    (hd : d ∈ (ofText text).definitions) (recipe : d.detail = .recipe dependencies body)
    (ht : t ∈ dependencies) (onLine : line ∈ linesOf (Utf8.encode text))
    (number : line.number = d.line) :
    ∃ head lead token tail, HasDependency line t head lead token tail := by
  obtain ⟨other, onOther, e, commands, form, rfl⟩ := Outline.exists_of_mem_definitions hd
  obtain rfl : other = line := by
    have found := getElem?_number_of_mem onLine
    rw [number, Definition.line_addCommands, LineForm.line_of_definition form,
      getElem?_number_of_mem onOther] at found
    exact Option.some.inj found
  cases detail : e.detail with
  | assignment value =>
      have none : (e.addCommands commands).detail = .assignment value := by
        rw [Definition.addCommands, detail, detail]
      rw [none] at recipe
      cases recipe
  | recipe dependencies' body' =>
      rw [Definition.addCommands, detail] at recipe
      obtain ⟨rfl, -⟩ := Detail.recipe.inj recipe
      exact LineForm.exists_hasDependency form detail ht

namespace HasDependency

variable {head lead token tail : Bytes} (h : HasDependency line t head lead token tail)
include h

theorem bytes_eq : line.bytes = (head ++ Byte.colon :: lead) ++ token ++ tail := by
  rw [h.cut.eq]
  simp

/-- Before a dependency there is the colon or white space. -/
theorem starts {b : UInt8} (hb : (head ++ Byte.colon :: lead).getLast? = some b) :
    b = Byte.colon ∨ Byte.isBlank b = true := by
  cases lead with
  | nil =>
      rw [List.getLast?_concat, Option.some.injEq] at hb
      exact .inl hb.symm
  | cons c lead =>
      rw [List.getLast?_append_cons, List.getLast?_cons_cons] at hb
      exact .inr (h.around.starts b hb)

/-- A dependency has the colon or white space before it, and white space or nothing behind it. -/
theorem setsOff : line.SetsOff t (head ++ Byte.colon :: lead) token tail where
  eq := h.bytes_eq
  filled := h.around.filled
  span := h.span
  ends b hb := by
    rcases h.starts hb with rfl | blank
    · decide
    · exact lt_of_isBlank blank
  starts b hb := lt_of_isBlank (h.around.stops b hb)

/-- The span of a dependency covers its bytes. -/
theorem span_bytes {data : Bytes} (onLine : line ∈ linesOf data) : t.bytes data = token :=
  h.setsOff.bytes_eq onLine

/-- **A dependency is a piece** of the line, which is a line of the text, and of the whole text. -/
theorem exists_pieces {text : Text} (onLine : line ∈ linesOf (Utf8.encode text)) :
    ∃ front word rest, (text.splitOn .newline)[line.number]? = some (front ++ word ++ rest) ∧
      Utf8.encode front = head ++ Byte.colon :: lead ∧ Utf8.encode word = token ∧
      Utf8.encode rest = tail ∧ t.Covers text word :=
  h.setsOff.exists_pieces onLine

end HasDependency

end JustfileServer
