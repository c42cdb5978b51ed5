import TextParsing.Proofs.Parser.Anchoring

/-!
# Parsers of patterns and searches for patterns

The text of a pattern is put between `^(?:` and `)` and is compiled anew, and the search for the result
is another search than the one for the pattern itself.  For a pattern that can be compiled by itself,
the two agree: the parser takes the match that the search for the pattern prefers, if this begins where
the input does, and it fails otherwise.

    p.pattern.find? w = some m ↔ q.find? w = some m ∧ m.start = 0             (find?_of_compile_iff)
-/

namespace TextParsing.PatternParser

variable {E : Engine} {s : Text} {p : PatternParser} {q : Pattern}

/-- The pattern of a parser is found where the pattern itself is found at the start of the text. -/
theorem find?_of_compile_iff (hq : E.compile s = .ok q) (hp : build E.compile s = .ok p) {w : Text}
    {m : Match} : p.pattern.find? w = some m ↔ q.find? w = some m ∧ m.start = 0 := by
  have hcompile := build_eq_ok_iff.mp hp
  rw [Engine.find?_anchor (Engine.ending_of_compile hq hcompile) hcompile, Option.map_eq_some_iff]
  constructor
  · rintro ⟨j, hj, rfl⟩
    exact ⟨(Engine.find?_start_iff hq).mpr hj, rfl⟩
  · obtain ⟨start, stop⟩ := m
    rintro ⟨hm, rfl⟩
    exact ⟨stop, (Engine.find?_start_iff hq).mp hm, rfl⟩

/-- The wording of a failure names the text that was searched for. -/
theorem message_patternMismatch (s : Text) :
    (Cause.patternMismatch (anchor s)).message =
      "failed to match regex '^(?:".toList ++ s ++ ")'".toList := by
  have hlead : "failed to match regex '^(?:".toList =
    "failed to match regex '".toList ++ "^(?:".toList := by decide
  have htail : ")'".toList = ")".toList ++ "'".toList := by decide
  rw [hlead, htail]
  show "failed to match regex '".toList ++ ("^(?:".toList ++ s ++ ")".toList) ++ "'".toList = _
  simp only [List.append_assoc]

/-- The parser for a pattern that can be compiled by itself succeeds exactly where the search for the
pattern finds a match at the beginning of the input, and takes that match.  Everywhere else it leaves
the input and says which text it has searched for.  A parser that is made from the pattern after it
has been compiled, in whatever way, is the same. -/
theorem parse_iff_plain_search (hq : E.compile s = .ok q) (hp : build E.compile s = .ok p) :
    (∀ input v rest, p.parse input = some (.success v rest) ↔
      ∃ m, q.find? input.text = some m ∧ m.start = 0 ∧ v = input.text.take m.stop ∧
        rest = input.drop m.stop) ∧
    (∀ input, (∀ m, q.find? input.text = some m → m.start ≠ 0) →
      ∃ e, p.parse input = some (.failure e) ∧ e.rest = input.text ∧
        e.message = "failed to match regex '^(?:".toList ++ s ++ ")'".toList) ∧
    ∀ q' : Pattern, q'.text = s → rebuild E.compile q' = .ok p := by
  refine ⟨?_, ?_, ?_⟩
  · intro input v rest
    rw [parse_eq_success_iff]
    refine exists_congr fun m => ?_
    rw [find?_of_compile_iff hq hp, and_assoc]
    refine and_congr_right fun _ => and_congr_right fun hstart => ?_
    rw [Match.text, hstart, List.drop_zero, Nat.sub_zero]
  · intro input hnone
    have hfind : p.pattern.find? input.text = none := by
      rw [Option.eq_none_iff_forall_ne_some]
      intro m hm
      obtain ⟨hm, hstart⟩ := (find?_of_compile_iff hq hp).mp hm
      exact hnone m hm hstart
    refine ⟨_, parse_of_find?_eq_none hfind, rfl, ?_⟩
    rw [E.text_of_compile (build_eq_ok_iff.mp hp)]
    exact message_patternMismatch s
  · rintro q' rfl
    exact hp

/-- The pattern `a+?b|x` is found at the beginning of `aabx`, and behind the beginning of `yx`. -/
theorem parse_iff_plain_search_choice :
    ∃ p, build Regex.engine.compile "a+?b|x".toList = .ok p ∧
      (∃ v rest, p.parse (.ofText "aabx".toList) = some (.success v rest) ∧ v = "aab".toList) ∧
      ∃ e, p.parse (.ofText "yx".toList) = some (.failure e) ∧
        e.message = "failed to match regex '^(?:a+?b|x)'".toList := by
  have hfind : (Regex.engine.compile "a+?b|x".toList).toOption.map
      (fun q => (q.find? "aabx".toList, q.find? "yx".toList)) =
      some (some ⟨0, 3⟩, some ⟨1, 2⟩) := by decide +kernel
  obtain ⟨q, hq, hfind⟩ := Regex.exists_ok_of_map hfind
  obtain ⟨hstart, hbehind⟩ := Prod.mk.inj hfind
  obtain ⟨p, hp⟩ := Regex.exists_ok (x := build Regex.engine.compile "a+?b|x".toList)
    (by decide +kernel)
  obtain ⟨hsuccess, hfailure, -⟩ := parse_iff_plain_search hq hp
  have hnone (m : Match) (hm : q.find? "yx".toList = some m) : m.start ≠ 0 := by
    rw [hbehind] at hm
    cases hm
    decide
  obtain ⟨e, he, -, hmessage⟩ := hfailure (.ofText "yx".toList) hnone
  exact ⟨p, hp, ⟨_, _, (hsuccess _ _ _).mpr ⟨_, hstart, rfl, rfl, rfl⟩, by decide⟩, e, he,
    hmessage.trans (by decide)⟩

end TextParsing.PatternParser
