import Mathlib.Data.List.Nodup
import JustfileServer.Proofs.Justfile.Index
import JustfileServer.Proofs.Justfile.Pieces
import JustfileServer.Proofs.Justfile.Spans

/-!
# Names as keys

A definition has the bytes of its name, and the index has texts, in which bytes that encode nothing
are replaced.  A name is never empty, so every definition is listed (`text_name_ne_nil`).  It is a
piece of the justfile, so where no surrogate is replaced the text of a name has its bytes for an
encoding, and different names have different keys (`text_name_eq_iff`).

With the tables sorted by their keys (`SymbolIndex.sorts_ofDefinitions`) this makes the index exact
and complete (`index_exact`).
-/

namespace JustfileServer

/-- Two definitions share a list of the index. -/
def SymbolIndex.Share (index : SymbolIndex) (d e : Definition) : Prop :=
  ∃ kind, ∃ entry ∈ index.table kind, d ∈ entry.2 ∧ e ∈ entry.2

/-- **A definition is listed once**: one entry has it, a single time, and this entry is in the table
of its kind, under its name. -/
def SymbolIndex.ListsOnce (index : SymbolIndex) (name : Text) (d : Definition) : Prop :=
  ∃ entry ∈ index.table d.kind, entry.1 = name ∧ entry.2.count d = 1 ∧
    ∀ kind, ∀ other ∈ index.table kind, d ∈ other.2 → kind = d.kind ∧ other = entry

namespace Justfile

variable {text : Text} {d e : Definition}

/-! ## The keys -/

/-- The name of a definition is a piece of the text. -/
theorem exists_piece_of_mem_definitions (h : d ∈ (ofText text).definitions) :
    ∃ piece, piece ≠ [] ∧ piece ⊆ text ∧ d.name.bytes (ofText text).data = Utf8.encode piece := by
  obtain ⟨line, isLine, ⟨before, name, named⟩, -⟩ := exists_line_of_mem_definitions h
  have onLine := isLine_iff.1 isLine
  obtain ⟨front, piece, rest, -, -, rfl, above, below, rfl, -⟩ := named.exists_pieces onLine
  refine ⟨piece, ?_, ?_, named.bytes_eq onLine⟩
  · rintro rfl
    exact named.filled rfl
  · intro c hc
    simp [hc]

/-- **No definition is without a key.** -/
theorem text_name_ne_nil (h : d ∈ (ofText text).definitions) :
    d.name.text (ofText text).data ≠ [] := by
  obtain ⟨piece, filled, -, bytes⟩ := exists_piece_of_mem_definitions h
  rw [Span.text, bytes]
  intro nothing
  have ascii : ∀ b ∈ ([] : Bytes), b.toNat < 0x80 := by simp
  have empty := (Utf8.decodeReplacing_eq_iff ascii).1 nothing
  exact filled (Utf8.encode_injective empty)

/-- Without surrogates a key has the bytes of the name for its encoding. -/
theorem encode_text_name (scalars : ∀ c ∈ text, c.isSurrogate = false)
    (h : d ∈ (ofText text).definitions) :
    Utf8.encode (d.name.text (ofText text).data) = d.name.bytes (ofText text).data := by
  obtain ⟨piece, -, inside, bytes⟩ := exists_piece_of_mem_definitions h
  rw [Span.text, bytes, Utf8.decodeReplacing_encode]
  intro c hc
  exact scalars c (inside hc)

/-- **Without surrogates names with different bytes have different keys.** -/
theorem text_name_eq_iff (scalars : ∀ c ∈ text, c.isSurrogate = false)
    (hd : d ∈ (ofText text).definitions) (he : e ∈ (ofText text).definitions) :
    d.name.text (ofText text).data = e.name.text (ofText text).data ↔
      d.name.bytes (ofText text).data = e.name.bytes (ofText text).data := by
  constructor
  · intro same
    rw [← encode_text_name scalars hd, ← encode_text_name scalars he, same]
  · intro same
    rw [Span.text, Span.text, same]

/-! ## The index -/

/-- The tables of a justfile sort all of its definitions. -/
theorem sorts_ofJustfile (text : Text) (kind : DefinitionKind) :
    ((SymbolIndex.ofJustfile (ofText text)).table kind).Sorts
      (fun d => d.name.text (ofText text).data)
      ((ofText text).definitions.filter fun d => d.kind = kind) := by
  have all : ((ofText text).definitions.filter fun d =>
        d.kind = kind ∧ d.name.text (ofText text).data ≠ [])
      = (ofText text).definitions.filter fun d => d.kind = kind := by
    apply List.filter_congr
    intro d hd
    simp [text_name_ne_nil hd]
  rw [← all]
  exact SymbolIndex.sorts_ofDefinitions ..

theorem nodup_definitions (text : Text) : (ofText text).definitions.Nodup := by
  apply List.Nodup.of_map Definition.line
  exact (pairwise_definitions text).imp Nat.ne_of_lt

/-- What an entry of the index lists is told by the kind of its table and by its name. -/
theorem mem_entry_iff {kind : DefinitionKind} {entry : Text × List Definition}
    (h : entry ∈ (SymbolIndex.ofJustfile (ofText text)).table kind) :
    d ∈ entry.2 ↔ d ∈ (ofText text).definitions ∧ d.kind = kind ∧
      d.name.text (ofText text).data = entry.1 := by
  rw [(sorts_ofJustfile text kind).listed entry h]
  simp [and_comm]

/-- The entry of a definition. -/
theorem exists_entry (h : d ∈ (ofText text).definitions) :
    ∃ ds, (d.name.text (ofText text).data, ds)
      ∈ (SymbolIndex.ofJustfile (ofText text)).table d.kind := by
  have sorts := sorts_ofJustfile text d.kind
  have known := sorts.mem_names (d := d) (by simp [h])
  exact ⟨_, (NameTable.mem_iff_of_nodup sorts.nodup).2 ⟨known, rfl⟩⟩

theorem listsOnce (h : d ∈ (ofText text).definitions) :
    (SymbolIndex.ofJustfile (ofText text)).ListsOnce (d.name.text (ofText text).data) d := by
  obtain ⟨ds, listed⟩ := exists_entry h
  have sorts := sorts_ofJustfile text d.kind
  have here : d ∈ ds := (mem_entry_iff listed).2 ⟨h, rfl, rfl⟩
  refine ⟨_, listed, rfl, ?_, ?_⟩
  · apply List.count_eq_one_of_mem _ here
    have content : ds = _ := sorts.listed _ listed
    rw [content]
    exact ((nodup_definitions text).filter _).filter _
  · intro kind other inside found
    obtain ⟨-, rfl, name⟩ := (mem_entry_iff inside).1 found
    have first := ((NameTable.mem_iff_of_nodup sorts.nodup).1 listed).2
    have second := ((NameTable.mem_iff_of_nodup sorts.nodup).1 inside).2
    refine ⟨rfl, Prod.ext name.symm ?_⟩
    rw [← second, ← first, name]

/-- Definitions share a list when they are of one kind and have one key. -/
theorem share_iff (hd : d ∈ (ofText text).definitions) (he : e ∈ (ofText text).definitions) :
    (SymbolIndex.ofJustfile (ofText text)).Share d e ↔ d.kind = e.kind ∧
      d.name.text (ofText text).data = e.name.text (ofText text).data := by
  constructor
  · rintro ⟨kind, entry, listed, first, second⟩
    obtain ⟨-, kind, name⟩ := (mem_entry_iff listed).1 first
    obtain ⟨-, kind', name'⟩ := (mem_entry_iff listed).1 second
    exact ⟨kind.trans kind'.symm, name.trans name'.symm⟩
  · rintro ⟨kind, name⟩
    obtain ⟨ds, listed⟩ := exists_entry hd
    exact ⟨d.kind, _, listed, (mem_entry_iff listed).2 ⟨hd, rfl, rfl⟩,
      (mem_entry_iff listed).2 ⟨he, kind.symm, name.symm⟩⟩

/-- **The index is exact and complete.**  Its tables sort all definitions of their kind by the texts
of their names, and each definition is listed once.  Without surrogates in the text, definitions
share a list just when they are of one kind and have names of the same bytes.  In any text, what is
listed under a word in ASCII are the definitions whose names have its bytes. -/
theorem index_exact (text : Text) :
    let j := ofText text
    let index := SymbolIndex.ofJustfile j
    (∀ kind, (index.table kind).Sorts (fun d => d.name.text j.data)
      (j.definitions.filter fun d => d.kind = kind)) ∧
    (∀ d ∈ j.definitions, index.ListsOnce (d.name.text j.data) d) ∧
    ((∀ c ∈ text, c.isSurrogate = false) → ∀ d ∈ j.definitions, ∀ e ∈ j.definitions,
      (index.Share d e ↔ d.kind = e.kind ∧ d.name.bytes j.data = e.name.bytes j.data)) ∧
    ∀ word : Bytes, word ≠ [] → (∀ b ∈ word, b.toNat < 0x80) → ∀ kind,
      (index.table kind).find (word.map CodePoint.ofByte)
        = j.definitions.filter fun d => d.kind = kind ∧ d.name.bytes j.data = word := by
  refine ⟨sorts_ofJustfile text, fun d hd => listsOnce hd, ?_, ?_⟩
  · intro scalars d hd e he
    rw [share_iff hd he, text_name_eq_iff scalars hd he]
  · intro word filled ascii kind
    rw [← SymbolIndex.listed_eq_find]
    exact listed_ofJustfile filled ascii kind

/-- A recipe and a variable of one name, each with a namesake, and a name that is not in ASCII. -/
theorem index_exact_homonyms :
    let j := ofText "a:\né := 1\na := 2\né := 3\na: b"
    let index := SymbolIndex.ofJustfile j
    (∃ d ∈ j.definitions, ∃ e ∈ j.definitions, d.line = 1 ∧ e.line = 3 ∧ index.Share d e) ∧
    ((index.table .recipe).find "a").map Definition.line = [0, 4] := by
  obtain ⟨-, -, shared, words⟩ := index_exact "a:\né := 1\na := 2\né := 3\na: b"
  constructor
  · refine ⟨_, List.getElem_mem (n := 1) (by decide), _, List.getElem_mem (n := 3) (by decide),
      by decide, by decide, ?_⟩
    exact (shared (by decide) _ (List.getElem_mem _) _ (List.getElem_mem _)).2 (by decide)
  · have word := words [0x61] (by simp) (by simp) .recipe
    have name : ([0x61] : Bytes).map CodePoint.ofByte = Text.ofString "a" := by decide
    rw [name] at word
    rw [word]
    decide

end Justfile

end JustfileServer
