import TextParsing.Proofs.Engine
import TextParsing.Proofs.Regex.Engine

/-!
# Parsers of patterns and the beginning of the input

The text of a pattern is put between `^(?:` and `)`, so that a match can only be found where the
input begins.  This works for every pattern that can be compiled by itself (`anchored_of_compile`).
A pattern that only becomes one between the parentheses, as `a)|(?:b` does, can be found anywhere,
and what stands in front of the match is neither in the value nor in the rest.  It is lost exactly
where the anchored pattern matches something in the input, but nothing at its beginning:

    p.AnchoredOn input ↔
      ∀ i j, E.endAt (anchor s) input.text i = some j →
        ∃ k, E.endAt (anchor s) input.text 0 = some k                        (anchoredOn_iff)
-/

namespace TextParsing.PatternParser

variable {E : Engine} {p : PatternParser} {q : Pattern} {s : Text} {input : Input}

/-- Nothing in front of a match is passed over in this input. -/
def AnchoredOn (p : PatternParser) (input : Input) : Prop :=
  ∀ v rest, p.parse input = some (.success v rest) → v ++ rest.text = input.text

theorem parse_of_find?_eq_some {m : Match} (h : p.pattern.find? input.text = some m) :
    p.parse input = some (.success (m.text input.text) (input.drop m.stop)) := by
  unfold parse Parser.ofFunction
  dsimp only
  rw [h]

theorem parse_of_find?_eq_none (h : p.pattern.find? input.text = none) :
    p.parse input = some (.failure ⟨.patternMismatch p.pattern.text, input.text⟩) := by
  unfold parse Parser.ofFunction
  dsimp only
  rw [h]

theorem parse_eq_success_iff {v : Text} {rest : Input} :
    p.parse input = some (.success v rest) ↔
      ∃ m, p.pattern.find? input.text = some m ∧ v = m.text input.text ∧
        rest = input.drop m.stop := by
  cases h : p.pattern.find? input.text with
  | none => simp [parse_of_find?_eq_none h]
  | some m => simp [parse_of_find?_eq_some h, eq_comm]

/-- A parser is anchored on the inputs in which its pattern begins at the front, if it is found. -/
theorem anchoredOn_iff_start (h : build E.compile s = .ok p) : p.AnchoredOn input ↔
    ∀ m, p.pattern.find? input.text = some m → m.start = 0 := by
  have hp := build_eq_ok_iff.mp h
  constructor
  · intro hanchored m hm
    obtain ⟨hle, hstop⟩ := Engine.le_of_find? hp hm
    have heq : m.text input.text ++ (input.drop m.stop).text = input.text :=
      hanchored _ _ (parse_eq_success_iff.mpr ⟨m, hm, rfl, rfl⟩)
    rw [Input.text_drop, Match.text_append_drop hle] at heq
    have := congrArg List.length heq
    rw [List.length_drop] at this
    omega
  · intro hstart v rest hv
    obtain ⟨m, hm, rfl, rfl⟩ := parse_eq_success_iff.mp hv
    obtain ⟨hle, -⟩ := Engine.le_of_find? hp hm
    rw [Input.text_drop, Match.text_append_drop hle, hstart m hm, List.drop_zero]

/-- A parser is anchored on exactly the inputs in which its pattern matches nothing, or something at the
beginning. -/
theorem anchoredOn_iff (h : build E.compile s = .ok p) : p.AnchoredOn input ↔
    ∀ i j, E.endAt (anchor s) input.text i = some j →
      ∃ k, E.endAt (anchor s) input.text 0 = some k := by
  have hp := build_eq_ok_iff.mp h
  rw [anchoredOn_iff_start h]
  constructor
  · intro hstart i j hij
    obtain ⟨m, hm, -⟩ := Engine.exists_find? hp hij
    have hend := ((E.find?_iff hp).mp hm).1
    rw [hstart m hm] at hend
    exact ⟨m.stop, hend⟩
  · intro hfirst m hm
    obtain ⟨k, hk⟩ := hfirst m.start m.stop ((E.find?_iff hp).mp hm).1
    rw [(Engine.find?_start_iff hp).mpr hk] at hm
    cases hm
    rfl

/-- A pattern behind which nothing is open is only found where the input begins. -/
theorem anchored_of_ending (hs : E.ending s = some ⟨0, false⟩) (h : build E.compile s = .ok p)
    (input : Input) : p.AnchoredOn input := by
  rw [anchoredOn_iff_start h, Engine.find?_anchor hs (build_eq_ok_iff.mp h)]
  intro m hm
  obtain ⟨j, -, rfl⟩ := Option.map_eq_some_iff.mp hm
  rfl

/-- This is so for a pattern that can be compiled by itself. -/
theorem anchored_of_compile (hq : E.compile s = .ok q) (h : build E.compile s = .ok p)
    (input : Input) : p.AnchoredOn input :=
  anchored_of_ending (Engine.ending_of_compile hq (build_eq_ok_iff.mp h)) h input

/-- A parser of patterns answers every input, and a failure leaves all of it.  Where it succeeds, it
has passed over a part of the input exactly if the anchored pattern matches something in the input, but
nothing at the beginning; this does not happen if the pattern can be compiled by itself. -/
theorem anchoring (h : build E.compile s = .ok p) :
    (∀ input, (∃ v rest, p.parse input = some (.success v rest)) ∨
      ∃ e, p.parse input = some (.failure e) ∧ e.rest = input.text) ∧
    (∀ input, p.AnchoredOn input ↔
      ∀ i j, E.endAt (anchor s) input.text i = some j →
        ∃ k, E.endAt (anchor s) input.text 0 = some k) ∧
    ((∃ q, E.compile s = .ok q) → ∀ input, p.AnchoredOn input) := by
  refine ⟨?_, ?_, ?_⟩
  · intro input
    cases hm : p.pattern.find? input.text with
    | some m => exact .inl ⟨_, _, parse_of_find?_eq_some hm⟩
    | none => exact .inr ⟨_, parse_of_find?_eq_none hm, rfl⟩
  · intro input
    exact anchoredOn_iff h
  · rintro ⟨q, hq⟩ input
    exact anchored_of_compile hq h input

/-- The pattern `a|b*` can be compiled by itself. -/
theorem anchoring_choice : ∃ p, build Regex.engine.compile "a|b*".toList = .ok p ∧
    ∀ input, p.AnchoredOn input := by
  obtain ⟨q, hq⟩ := Regex.exists_ok (x := Regex.engine.compile "a|b*".toList) (by decide +kernel)
  obtain ⟨p, hp⟩ := Regex.exists_ok (x := build Regex.engine.compile "a|b*".toList)
    (by decide +kernel)
  exact ⟨p, hp, (anchoring hp).2.2 ⟨q, hq⟩⟩

/-- In `a)|(?:b` only the first branch is asked to match at the beginning: the parser finds the `b`
in `xb` and loses the `x`. -/
theorem not_anchored_bar : ∃ p, build Regex.engine.compile "a)|(?:b".toList = .ok p ∧
    p.parse (.ofText "xb".toList) = some (.success "b".toList (.ofText [])) ∧
    ¬ p.AnchoredOn (.ofText "xb".toList) := by
  have hfind : (build Regex.engine.compile "a)|(?:b".toList).toOption.map
      (·.pattern.find? "xb".toList) = some (some ⟨1, 2⟩) := by decide +kernel
  obtain ⟨p, hp, hfind⟩ := Regex.exists_ok_of_map hfind
  have hparse : p.parse (.ofText "xb".toList) = some (.success "b".toList (.ofText [])) :=
    parse_eq_success_iff.mpr ⟨_, hfind, by decide, Input.ext (by decide)⟩
  exact ⟨p, hp, hparse, fun hanchored => absurd (hanchored _ _ hparse) (by decide)⟩

end TextParsing.PatternParser
