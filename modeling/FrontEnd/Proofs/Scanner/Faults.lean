import FrontEnd.Proofs.Scanner.Reading

/-!
# Diagnostics of texts

A diagnostic blames the first construct of a text that goes wrong, behind lexemes and gaps that
are all proper. Its line and column are counted exactly, up to the character that is blamed.
-/

namespace FrontEnd

/-- A text that has no tokens is the text of a broken layout, and its diagnostic is the one of the
broken layout. -/
theorem exists_brokenLayout_of_tokenize {source : String} {d : Diagnostic}
    (h : tokenize source = .error d) :
    ∃ b : BrokenLayout, source.toList = b.front ++ b.after ∧ d = b.diagnostic := by
  rcases tokenize_cases source with ⟨l, -, ht⟩ | ⟨b, hb, hd⟩
  · rw [h] at ht
    cases ht
  · rw [h] at hd
    exact ⟨b, hb, Except.error.inj hd⟩

/-- The diagnostic of a text of fewer than 2³² - 1 characters says what goes wrong and where. In
front of its exact line and column stand lexemes, a gap and the part of a construct that goes wrong
there for the cause given and at the character given. The context is the one that belongs to the
cause, and the cause is never one stated in words. -/
theorem tokenize_blames {source : String} {d : Diagnostic} (hb : source.length < UInt32.size - 1)
    (h : tokenize source = .error d) :
    ∃ b : BrokenLayout, source.toList = b.front ++ b.after ∧
      d.cause = b.cause ∧ d.character = b.character ∧ d.context = d.cause.context? ∧
      d.line.toNat = lineAfter b.front ∧ d.column.toNat = columnAfter b.front ∧
      ∀ text, d.cause ≠ .stated text := by
  obtain ⟨b, hsource, rfl⟩ := exists_brokenLayout_of_tokenize h
  have hlength : b.front.length < UInt32.size - 1 := by
    have hl := congrArg List.length hsource
    rw [String.length_toList, List.length_append] at hl
    omega
  refine ⟨b, hsource, rfl, rfl, rfl, ?_, ?_, b.broken.cause_ne_stated⟩
  · exact toNat_ofNat_of_le (lineAfter_le _) hlength
  · exact toNat_ofNat_of_le (columnAfter_le _) hlength

/-- Behind a string over two lines and a comment, an exponent without digits is blamed at the
character behind its sign. -/
theorem tokenize_blames_exponent :
    ∃ b : BrokenLayout, "\"\\t\né\" /* 1 */ 2.5E-x".toList = b.front ++ b.after ∧
      Cause.missingExponent = b.cause ∧ some 'x' = b.character ∧
      some "NUMBER" = Cause.missingExponent.context? ∧
      (2 : UInt32).toNat = lineAfter b.front ∧ (17 : UInt32).toNat = columnAfter b.front ∧
      ∀ text, Cause.missingExponent ≠ .stated text :=
  have h : tokenize "\"\\t\né\" /* 1 */ 2.5E-x" =
      .error ⟨.missingExponent, some 'x', some "NUMBER", 2, 17⟩ := by decide +kernel
  tokenize_blames (by decide) h

end FrontEnd
