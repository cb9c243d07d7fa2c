import FrontEnd.Proofs.Message.Pieces
import FrontEnd.Proofs.Scanner.Faults
import FrontEnd.Proofs.Text.Control

/-!
# Diagnostics on one line

A diagnostic shows a character of the source, which may be any character. Since it shows the visible
form, what is written has control characters only if the words for it have some. The causes that the
scanner reports, and their contexts, are in words that have none.
-/

namespace FrontEnd

theorem Template.hasNoControls_fill {template : String} {args : List String}
    (htemplate : HasNoControls template) (hargs : ∀ arg ∈ args, HasNoControls arg) :
    HasNoControls (fill template args) := by
  intro c hc
  rw [fill, String.toList_ofList] at hc
  rcases mem_fillChars hc with hc | ⟨arg, harg, hc⟩
  · exact htemplate c hc
  · exact hargs arg harg c hc

/-- A translator that adds no control characters. -/
def Translator.AddsNoControls (t : Translator) : Prop :=
  ∀ key, HasNoControls key → HasNoControls (t.translate key)

namespace Diagnostic

variable {d : Diagnostic}

/-- Whether the words of a diagnostic have no control characters. The character that it blames may
be any. -/
structure InPlainWords (d : Diagnostic) : Prop where
  message : HasNoControls d.message
  context : ∀ context, d.context = some context → HasNoControls context

theorem hasNoControls_display (h : d.InPlainWords) : HasNoControls d.display := by
  refine HasNoControls.append (HasNoControls.append ?_ ?_) ?_
  · have hat : HasNoControls (d.message ++ " at line ") := h.message.append (by decide)
    have hline := hat.append (hasNoControls_repr d.line.toNat)
    have hcolumn : HasNoControls ", column " := by decide
    exact (hline.append hcolumn).append (hasNoControls_repr d.column.toNat)
  · cases d.character with
    | none => decide
    | some c =>
        have hfront : HasNoControls ": unexpected character '" := by decide
        exact (hfront.append (hasNoControls_visible c)).append (by decide)
  · cases hcontext : d.context with
    | none => decide
    | some context =>
        have hfront : HasNoControls " (token type: " := by decide
        exact (hfront.append (h.context context hcontext)).append (by decide)

theorem hasNoControls_localized {t : Translator} (ht : t.AddsNoControls) (h : d.InPlainWords) :
    HasNoControls (d.localized t) := by
  have hnothing : HasNoControls "" := by decide
  refine HasNoControls.append (HasNoControls.append (HasNoControls.append
    (HasNoControls.append ?_ ?_) ?_) (by decide)) (ht _ h.message)
  · refine Template.hasNoControls_fill (ht _ (by decide)) fun arg harg => ?_
    rcases List.mem_cons.mp harg with rfl | harg
    · exact hasNoControls_repr _
    · cases List.mem_singleton.mp harg
      exact hasNoControls_repr _
  · cases d.character with
    | none => exact hnothing
    | some c =>
        have hfront : HasNoControls ": " := by decide
        have hphrase := hfront.append (ht "unexpected character" (by decide))
        have hquote : HasNoControls " '" := by decide
        exact ((hphrase.append hquote).append (hasNoControls_visible c)).append (by decide)
  · cases hcontext : d.context with
    | none => exact hnothing
    | some context =>
        have hfront : HasNoControls " (" := by decide
        have hphrase := hfront.append (ht "token type" (by decide))
        have hcolon : HasNoControls ": " := by decide
        exact ((hphrase.append hcolon).append (h.context context hcontext)).append (by decide)

end Diagnostic

theorem Cause.hasNoControls_message {cause : Cause} (h : ∀ text, cause ≠ .stated text) :
    HasNoControls cause.message := by
  cases cause with
  | stated text => exact absurd rfl (h text)
  | _ => decide

theorem Cause.hasNoControls_context {cause : Cause} {context : String}
    (h : cause.context? = some context) : HasNoControls context := by
  cases cause <;> cases h <;> decide

/-- Every construct that the scanner finds broken is told in plain words. -/
theorem BrokenLayout.inPlainWords (b : BrokenLayout) : b.diagnostic.InPlainWords where
  message := Cause.hasNoControls_message b.broken.cause_ne_stated
  context _ h := Cause.hasNoControls_context h

/-- Whatever a text without tokens is, and whatever character is blamed, its diagnostic has no
control characters, neither as it is displayed nor when each phrase is its own translation. -/
theorem tokenize_hasNoControls {source : String} {d : Diagnostic}
    (h : tokenize source = .error d) :
    HasNoControls d.display ∧ HasNoControls (d.localized .untranslated) := by
  obtain ⟨b, -, rfl⟩ := exists_brokenLayout_of_tokenize h
  have huntranslated : Translator.untranslated.AddsNoControls := fun _ hkey => hkey
  exact ⟨Diagnostic.hasNoControls_display b.inPlainWords,
    Diagnostic.hasNoControls_localized huntranslated b.inPlainWords⟩

/-- Behind the letter of an exponent stands a control character. -/
theorem tokenize_hasNoControls_exponent :
    let d : Diagnostic := ⟨.missingExponent, some '\u0085', some "NUMBER", 1, 7⟩
    tokenize "x = 1e\u0085" = .error d ∧ isControl '\u0085' = true ∧
      HasNoControls d.display ∧ HasNoControls (d.localized .untranslated) := by
  intro d
  have h : tokenize "x = 1e\u0085" = .error d := by decide +kernel
  exact ⟨h, by decide, tokenize_hasNoControls h⟩

end FrontEnd
