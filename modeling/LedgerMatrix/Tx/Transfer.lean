import LedgerMatrix.Display.Admission

/-! # Transfers that went wrong at the end

The root list of a transaction says where it ends. A transaction of which the last
bytes are missing, or behind which there are more, is therefore never taken for
another one.
-/

namespace LedgerMatrix

open Imperative RecursiveLength

section Transfer

variable {zx : Zxlib} {bytes more : List UInt8} {state : ParserState} {t : Transaction}

theorem Parsed.decodes (h : Parsed bytes state) (hlength : bytes.length < 2 ^ 16) :
    ∃ t : Transaction, t.Decodes bytes := by
  obtain ⟨t, hholds⟩ := h.exists_holds
  exact ⟨t, seen_of_lt hlength ▸ hholds.decodes⟩

/-- The verdict on the front part of a transaction. -/
theorem verdict_of_cut (h : t.Decodes (bytes ++ more)) (hbytes : bytes ≠ []) (hmore : more ≠ []) :
    verdict zx bytes = some .unexpectedBufferEnd := by
  rw [verdict, Transaction.ofBytes_of_no_next hbytes (next_of_cut h hmore)]

/-- The verdict on a transaction with more bytes behind it. -/
theorem verdict_of_extended (h : t.Decodes bytes) (hmore : more ≠ []) :
    verdict zx (bytes ++ more) = some .unexpectedUnparsedBytes := by
  have hbytes : bytes ++ more ≠ [] := fun hnil => hmore (List.append_eq_nil_iff.mp hnil).2
  rw [verdict, Transaction.ofBytes_of_next hbytes (next_append h more), List.nil_append,
    if_pos hmore]

theorem verdict_nil : verdict zx [] = some .initContextEmpty := rfl

/-- A parsed transaction that loses bytes at its end is rejected as too short, and
one that gains bytes there as too long, whatever was parsed before. -/
theorem cut_or_extended_rejected (zx : Zxlib) (h : Parsed bytes state)
    (hlength : bytes.length < 2 ^ 16) :
    (∀ front, front <+: bytes → front ≠ bytes → ∀ before, ∃ after,
      (txParse zx front).outcome before = .done (some (parserGetErrorDescription
        (if front = [] then .initContextEmpty else .unexpectedBufferEnd))) after) ∧
    ∀ more, more ≠ [] → (bytes ++ more).length < 2 ^ 16 → ∀ before, ∃ after,
      (txParse zx (bytes ++ more)).outcome before =
        .done (some (parserGetErrorDescription .unexpectedUnparsedBytes)) after := by
  obtain ⟨t, ht⟩ := h.decodes hlength
  -- the result of parsing is the text of the verdict
  have hresult (buffer : List UInt8) {code : ParserError} (hshort : buffer.length < 2 ^ 16)
      (hverdict : verdict zx buffer = some code) (before : ParserState) : ∃ after,
      (txParse zx buffer).outcome before =
        .done (some (parserGetErrorDescription code)) after := by
    have hparse : (txParse zx buffer).wp Event.Good before
        (fun result _ => result = some (parserGetErrorDescription code)) (fun _ _ => False) := by
      apply wp_txParse_verdict
      intro _
      rw [seen_of_lt hshort, hverdict]
      rfl
    obtain ⟨_, after, hend, rfl⟩ := hparse.exists_done
    exact ⟨after, hend⟩
  refine ⟨?_, ?_⟩
  · rintro front ⟨left, rfl⟩ hne before
    have hleft : left ≠ [] := by
      rintro rfl
      exact hne (List.append_nil front).symm
    refine hresult front ?_ ?_ before
    · rw [List.length_append] at hlength
      omega
    · split
      next hnil =>
        rw [hnil]
        exact verdict_nil
      next hfront => exact verdict_of_cut ht hfront hleft
  · intro more hmore hshort before
    exact hresult (bytes ++ more) hshort (verdict_of_extended ht hmore) before

end Transfer

theorem cut_or_extended_rejected_example1 :
    (∃ after, (txParse Zxlib.reference (example1.take 72)).outcome .initial =
      .done (some (parserGetErrorDescription .unexpectedBufferEnd)) after) ∧
    ∃ after, (txParse Zxlib.reference (example1 ++ [0])).outcome .initial =
      .done (some (parserGetErrorDescription .unexpectedUnparsedBytes)) after := by
  have h := cut_or_extended_rejected Zxlib.reference example1_parsed (by decide)
  exact ⟨h.1 _ (List.take_prefix 72 example1) (by decide) .initial,
    h.2 [0] (by decide) (by decide) .initial⟩

end LedgerMatrix
