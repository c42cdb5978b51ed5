import TextParsing.Proofs.Engine
import TextParsing.Proofs.Regex.Engine

/-!
# From compiled patterns to parsers

A parser is made from a pattern that has been compiled already by putting its text between `^(?:` and
`)` and compiling it anew.  This fails for some patterns: in verbose mode a comment reaches to the end
of its line, and if nothing ends the last line of the pattern, it takes in the parenthesis as well.
Limits of size and nesting aside, a parser can be made from exactly those patterns that cannot be
followed by a closing parenthesis:

    E.compile s = .ok p → E.Fits (anchor s) →
      ((∃ q, rebuild E.compile p = .ok q) ↔ E.ending (s ++ [')']) = none)            (conversion)
-/

namespace TextParsing.PatternParser

variable {E : Engine} {s : Text} {p : Pattern}

theorem rebuild_of_compile (hp : E.compile s = .ok p) : rebuild E.compile p = build E.compile s := by
  rw [rebuild, E.text_of_compile hp]

/-- A parser can be made from a compiled pattern if and only if no pattern begins with its text and a
closing parenthesis.  The parser then takes what the pattern prefers where the input begins.  Otherwise
the anchored pattern is malformed: the pattern has a `#` on its last line, with which a comment begins
that takes in what follows. -/
theorem conversion (hp : E.compile s = .ok p) (hfits : E.Fits (anchor s)) :
    ((∃ q, rebuild E.compile p = .ok q) ↔ E.ending (s ++ [')']) = none) ∧
    (∀ q, rebuild E.compile p = .ok q → q.pattern.text = anchor s ∧
      ∀ w, q.pattern.find? w = (E.endAt s w 0).map (Match.mk 0)) ∧
    ∀ e, rebuild E.compile p = .error e →
      (∃ cause, E.compile (anchor s) = .error cause ∧ e = .invalid cause) ∧
      E.ending s = some ⟨0, true⟩ ∧ ∃ lead comment, s = lead ++ '#' :: comment ∧ '\n' ∉ comment := by
  rw [rebuild_of_compile hp]
  obtain ⟨⟨comment, hs⟩, -⟩ := (E.exists_compile_iff s).mp ⟨p, hp⟩
  refine ⟨?_, ?_, ?_⟩
  · have hbuild : (∃ q, build E.compile s = .ok q) ↔ ∃ q, E.compile (anchor s) = .ok q :=
      ⟨fun ⟨q, hq⟩ => ⟨_, build_eq_ok_iff.mp hq⟩, fun ⟨q, hq⟩ => ⟨⟨q⟩, build_eq_ok_iff.mpr hq⟩⟩
    rw [hbuild, Engine.exists_compile_anchor_iff hp, and_iff_left hfits]
    cases comment with
    | false =>
      -- the parenthesis is seen, and it is one too many
      simp [hs, E.ending_unopened hs]
    | true =>
      -- the comment takes it in
      obtain ⟨⟨comment, hparen⟩, -⟩ := E.ending_comment hs
      simp [hs, hparen]
  · intro q hq
    have hq := build_eq_ok_iff.mp hq
    exact ⟨E.text_of_compile hq, fun w => Engine.find?_anchor (Engine.ending_of_compile hp hq) hq⟩
  · intro e he
    obtain ⟨cause, hcause, rfl⟩ := build_eq_error_iff.mp he
    cases comment with
    | false =>
      obtain ⟨q, hq⟩ := (Engine.exists_compile_anchor_iff hp).mpr ⟨hs, hfits⟩
      rw [hcause] at hq
      cases hq
    | true => exact ⟨⟨cause, hcause, rfl⟩, hs, (E.ending_comment hs).2⟩

/-- A comment that ends with its line does not keep a pattern from being converted. -/
theorem conversion_closed_comment : ∃ p, Regex.engine.compile "(?x)a # c\n".toList = .ok p ∧
    ∃ q, rebuild Regex.engine.compile p = .ok q := by
  have hparen : Regex.ending ("(?x)a # c\n".toList ++ [')']) = none := by decide +kernel
  have hfits : Regex.nesting {} (anchor "(?x)a # c\n".toList) ≤ Regex.nestingLimit := by
    decide +kernel
  obtain ⟨p, hp⟩ := Regex.exists_ok (x := Regex.engine.compile "(?x)a # c\n".toList)
    (by decide +kernel)
  exact ⟨p, hp, (conversion hp hfits).1.mpr hparen⟩

/-- The pattern `(?x)a # c` can be compiled, but no parser can be made from it: the parenthesis that
is put behind it belongs to the comment. -/
theorem not_converted_open_comment : ∃ p, Regex.engine.compile "(?x)a # c".toList = .ok p ∧
    rebuild Regex.engine.compile p = .error (.invalid .malformed) := by
  have hanchor : Regex.ofPattern? {} (anchor "(?x)a # c".toList) = none := by decide +kernel
  obtain ⟨p, hp⟩ := Regex.exists_ok (x := Regex.engine.compile "(?x)a # c".toList)
    (by decide +kernel)
  refine ⟨p, hp, ?_⟩
  rw [rebuild_of_compile hp, build_eq_error_iff]
  exact ⟨_, Pattern.compile_eq_error_iff.mpr ⟨rfl, .inl hanchor⟩, rfl⟩

end TextParsing.PatternParser
