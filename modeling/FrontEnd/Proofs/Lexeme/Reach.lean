import FrontEnd.Lexeme.Scan

/-!
# How far a scan goes

A scan passes at least the first character of its lexeme, also if it ends in a fault. The one
exception is a character that starts no lexeme: nothing is passed then. A fault is reported at a
place that the scan has reached.
-/

namespace FrontEnd

namespace Lexeme

/-- The number of characters that a scan passes, the first one of the lexeme included. -/
def reach : Except Fault Lexeme → Nat
  | .ok l => l.width
  | .error f => f.passed

/-- A fault is reported within what is passed, and passes nothing exactly if its character starts no
lexeme. -/
structure Fault.Within (f : Fault) : Prop where
  reported_le : f.reported ≤ f.passed
  passed_eq_zero_iff : f.passed = 0 ↔ f.cause = .unexpectedCharacter

/-- A fault that is reported behind some characters is within them, unless its character starts no
lexeme. -/
theorem Fault.within_here {cause : Cause} (hc : cause ≠ .unexpectedCharacter)
    (character : Option Char) {passed : Nat} (hp : 0 < passed) :
    (Fault.here cause character passed).Within where
  reported_le := Nat.le_refl _
  passed_eq_zero_iff := iff_of_false (Nat.ne_of_gt hp) hc

end Lexeme

namespace Quoted

/-- What a string body has passed already belongs to what it passes. -/
theorem le_reach_stringBody (passed : Nat) (content cs : List Char) :
    passed ≤ Lexeme.reach (stringBody passed content cs) := by
  fun_induction stringBody passed content cs with
  | case1 => exact Nat.le_refl _
  | case2 => exact Nat.le_succ _
  | case3 => exact Nat.le_succ _
  | case4 _ _ _ _ _ _ ih => omega
  | case5 => exact Nat.le_succ _
  | case6 _ _ _ _ _ _ _ ih => omega

theorem stringBody_within {passed : Nat} (hp : 0 < passed) {content cs : List Char}
    {f : Lexeme.Fault} (h : stringBody passed content cs = .error f) : f.Within := by
  fun_induction stringBody passed content cs with
  | case1 =>
      cases h
      exact Lexeme.Fault.within_here (by simp) _ hp
  | case2 => cases h
  | case3 =>
      cases h
      exact Lexeme.Fault.within_here (by simp) _ (Nat.succ_pos _)
  | case4 _ _ _ _ _ _ ih => exact ih (by omega) h
  | case5 =>
      cases h
      exact Lexeme.Fault.within_here (by simp) _ (Nat.succ_pos _)
  | case6 _ _ _ _ _ _ _ ih => exact ih (by omega) h

theorem closeChar_within {c : Char} {passed : Nat} (hp : 0 < passed) {rest : List Char}
    {f : Lexeme.Fault} (h : closeChar c passed rest = .error f) : f.Within := by
  unfold closeChar at h
  split at h
  · cases h
  · cases h
    exact Lexeme.Fault.within_here (by simp) _ hp

theorem charBody_within {cs : List Char} {f : Lexeme.Fault} (h : charBody cs = .error f) :
    f.Within := by
  unfold charBody at h
  split at h
  · cases h
    exact Lexeme.Fault.within_here (by simp) _ Nat.one_pos
  · cases h
    exact Lexeme.Fault.within_here (by simp) _ Nat.two_pos
  · split at h
    · exact closeChar_within (by decide) h
    · cases h
      exact Lexeme.Fault.within_here (by simp) _ Nat.two_pos
  · exact closeChar_within Nat.two_pos h

end Quoted

theorem Number.scan_within {c : Char} {rest : List Char} {f : Lexeme.Fault}
    (h : Number.scan c rest = .error f) : f.Within := by
  unfold Number.scan at h
  dsimp only at h
  split at h
  · cases h
  · cases h
    exact Lexeme.Fault.within_here (by simp) _ (Nat.succ_pos _)

namespace Lexeme

theorem doubled_within {c : Char} {kind : Kind} {rest : List Char} {f : Fault}
    (h : doubled c kind rest = .error f) : f.Within := by
  unfold doubled at h
  split at h
  · cases h
  · cases h
    exact ⟨Nat.zero_le _, by simp⟩

theorem operator_within {c : Char} {rest : List Char} {f : Fault}
    (h : operator c rest = .error f) : f.Within := by
  unfold operator at h
  split at h
  · cases h
  · cases h
  · cases h
  · cases h
  · cases h
  · exact doubled_within h
  · exact doubled_within h
  · split at h
    · cases h
    · cases h
      exact ⟨Nat.le_refl _, by simp [Fault.here]⟩

/-- Every fault of a scan is within what the scan passes. -/
theorem scan_within {c : Char} {rest : List Char} {f : Fault} (h : scan c rest = .error f) :
    f.Within := by
  unfold scan at h
  split at h
  · cases h
  split at h
  · exact Quoted.stringBody_within Nat.one_pos h
  split at h
  · exact Quoted.charBody_within h
  split at h
  · exact Number.scan_within h
  split at h
  · cases h
  · exact operator_within h

end Lexeme

end FrontEnd
