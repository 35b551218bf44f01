import LedgerMatrix.Parser.Acceptance

/-! # Which bytes are parsed

Parsing refuses bytes behind the root list. But the length of the data is a
`size_t`, and the context keeps 16 bits of it: of longer data the parser sees a
first part alone, and accepts the whole when that part is a transaction.
-/

namespace LedgerMatrix

open Imperative

/-- Whenever parsing the bytes returns `parser_ok`, the context holds their whole
length and the offset stands behind the last of them. -/
def Covered (bytes : List UInt8) : Prop :=
  ∀ before state, (parserParse bytes (some 0) bytes.length).outcome before = .done () state →
    state.ctx.bufferLen = bytes.length ∧ state.ctx.offset = bytes.length

/-- There is nothing to parse behind a null pointer. -/
theorem parserParse_null (mem : List UInt8) (dataLen : Nat) (before state : ParserState) :
    (parserParse mem none dataLen).outcome before ≠ .done () state := by
  have hparse : (parserParse mem none dataLen).wp (fun _ => True) before (fun _ _ => False)
      (fun _ _ => True) := by
    simp [parserParse, parserInitContext, fail]
  exact fun hend => hparse.of_done hend

/-- Every byte is parsed if and only if the length fits in 16 bits or what is seen
of the bytes is no transaction. -/
theorem covered_iff (bytes : List UInt8) :
    (Covered bytes ↔ bytes.length < 2 ^ 16 ∨ ∀ t : Transaction, ¬ t.Decodes (seen bytes)) ∧
      ∀ dataLen before state,
        (parserParse bytes none dataLen).outcome before ≠ .done () state := by
  refine ⟨⟨fun hcovered => ?_, fun hcases before state hend => ?_⟩, parserParse_null bytes⟩
  · -- a transaction at the front of longer data is parsed into a context that holds
    -- fewer bytes than there are
    by_contra hnot
    push Not at hnot
    obtain ⟨hlong, t, ht⟩ := hnot
    obtain ⟨state, hend, hholds⟩ := parsed_of_decodes ht .initial
    have hlength := (hcovered .initial state hend).1
    rw [hholds.ctx_eq] at hlength
    have hlt := Holds.length_lt bytes
    simp only at hlength
    omega
  · have hparsed : Parsed bytes state := ⟨before, hend⟩
    obtain ⟨t, hholds⟩ := hparsed.exists_holds
    rcases hcases with hshort | hnone
    · rw [hholds.ctx_eq]
      simp only [u16, Nat.mod_eq_of_lt hshort, and_self]
    · exact absurd hholds.decodes (hnone t)

/-- Behind a transaction stand as many bytes as 16 bits can count. -/
def padded : List UInt8 := example1 ++ List.replicate (2 ^ 16) 0

theorem example1_length : example1.length = 73 := rfl

theorem padded_not_covered : ¬ ∀ bytes : List UInt8, Covered bytes := by
  intro h
  have hlength : padded.length = 73 + 2 ^ 16 := by
    rw [padded, List.length_append, List.length_replicate, example1_length]
  have hseen : seen padded = seen example1 := by
    have hcut : u16 padded.length = example1.length := by
      rw [hlength, example1_length]
      rfl
    have hshort : example1.length < 2 ^ 16 := by
      rw [example1_length]
      decide
    rw [seen_of_lt hshort, seen, hcut, padded, List.take_append_of_le_length le_rfl,
      List.take_length]
  obtain ⟨t, hholds⟩ := example1_parsed.exists_holds
  have ht : t.Decodes (seen padded) := by
    rw [hseen]
    exact hholds.decodes
  obtain ⟨state, hend, hstate⟩ := parsed_of_decodes ht .initial
  have hcovered := (h padded .initial state hend).1
  have hlt := Holds.length_lt padded
  rw [hstate.ctx_eq] at hcovered
  simp only at hcovered
  omega

end LedgerMatrix
