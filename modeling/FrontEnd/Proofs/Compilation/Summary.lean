import FrontEnd.Compilation
import FrontEnd.Proofs.Message.Words
import FrontEnd.Proofs.Text.Digits

/-!
# Summaries

A summary is put together from translated words and the number of tokens. Two of the words become
part of a template before the number is filled in, and a translator can write percent signs in them
that change what is filled in, and where. The main statement says for which words that does not
happen.
-/

namespace FrontEnd

namespace Compilation

/-- The summary with every translated word as it is. -/
def plainSummary (c : Compilation) (count : Nat) : String :=
  c.localization.text "Lexical analysis completed successfully" ++ ". " ++
    (c.localization.text "Found" ++ " " ++ count.repr ++ " " ++
      c.localization.pluralText "token" "tokens" count) ++ "."

/-- A summary has every translated word as it is, with the number of tokens between the word for what
is found and the noun, exactly if no percent sign of that word is followed by another one, a `d` or
an `s`, and no percent sign of the noun is followed by another one. -/
theorem summary_eq_plainSummary_iff (c : Compilation) (count : Nat) :
    c.summary count = c.plainSummary count ↔
      Template.Unfollowed ['%', 'd', 's'] (c.localization.text "Found").toList ∧
        Template.Unfollowed ['%'] (c.localization.pluralText "token" "tokens" count).toList := by
  obtain ⟨digit, digits, hdigits, hdigit⟩ := Digits.exists_repr_eq_cons count
  rw [← Template.fill_between_eq_iff hdigits hdigit, summary, plainSummary]
  constructor
  · intro h
    rwa [String.append_left_inj, String.append_right_inj] at h
  · intro h
    rw [h]

/-- A compilation in German, with a placeholder in the word in front of the number. -/
def germanCompilation : Compilation :=
  ⟨{}, ⟨some ⟨"dreamlang", "locale", "de", ⟨[("Found", "Gefunden: %d")]⟩⟩⟩⟩

/-- That placeholder takes the number, and the one of the summary is left. -/
theorem summary_ne_plainSummary_german :
    germanCompilation.summary 3 =
        "Lexical analysis completed successfully. Gefunden: 3 %d tokens." ∧
      germanCompilation.plainSummary 3 =
        "Lexical analysis completed successfully. Gefunden: %d 3 tokens." ∧
      germanCompilation.summary 3 ≠ germanCompilation.plainSummary 3 := by
  decide +kernel

end Compilation

end FrontEnd
