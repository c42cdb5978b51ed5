import TextParsing.Parser.Literal
import TextParsing.Proofs.Parser.Lockstep

/-!
# Grouping the parts of a sequence

The parts of a sequence may be grouped in any way.  `Nested` things are lists in lists, to any depth;
nested parsers are sequences of sequences, and their values are nested in the same way.  Each of them
takes the same course as the flat sequence of its parsers, one after the other:

    SameCourse n.parser (inOrder n.flatten)                                (parser_sameCourse)
    (group parts).parser.map flatten = sequence (group parts).flatten     (parser_map_flatten)

The groups differ in where they roll back to, but a failure of an inner group does not come out: the
outermost one replaces it by its own, at its own input.
-/

namespace TextParsing

open TextParsing.Parser

variable {α : Type}

namespace Parser

/-- The parsers of two lists, one list after the other. -/
theorem inOrder_append (ps qs : List (Parser α)) (input : Input) :
    inOrder (ps ++ qs) input = (inOrder ps input).bind fun
      | .failure e => some (.failure e)
      | .success vs mid => (inOrder qs mid).map (Outcome.map (vs ++ ·)) := by
  induction ps generalizing input with
  | nil =>
    show inOrder qs input = (inOrder qs input).map (Outcome.map ([] ++ ·))
    cases inOrder qs input with
    | none => rfl
    | some o => cases o <;> rfl
  | cons p ps ih =>
    show (p input).bind _ = ((p input).bind _).bind _
    cases p input with
    | none => rfl
    | some o =>
      cases o with
      | failure e => rfl
      | success v rest =>
        show (inOrder (ps ++ qs) rest).map _ = ((inOrder ps rest).map _).bind _
        rw [ih]
        cases inOrder ps rest with
        | none => rfl
        | some o =>
          cases o with
          | failure e => rfl
          | success vs mid =>
            show ((inOrder qs mid).map _).map _ = (inOrder qs mid).map _
            cases inOrder qs mid with
            | none => rfl
            | some o => cases o <;> rfl

/-- Parsers that succeed one after the other, each on the rest that the one before leaves. -/
inductive Succeed : List (Parser α) → Input → List α → Input → Prop where
  | nil (input : Input) : Succeed [] input [] input
  | cons {p : Parser α} {ps : List (Parser α)} {input mid rest : Input} {v : α} {vs : List α}
      (hp : p input = some (.success v mid)) (hps : Succeed ps mid vs rest) :
      Succeed (p :: ps) input (v :: vs) rest

/-- Whether one of the parsers fails on the rest that those before it leave. -/
def FailsWithin (ps : List (Parser α)) (input : Input) : Prop :=
  ∃ before p after vs mid e, ps = before ++ p :: after ∧ Succeed before input vs mid ∧
    p mid = some (.failure e)

theorem inOrder_eq_success_iff {ps : List (Parser α)} {input rest : Input} {vs : List α} :
    inOrder ps input = some (.success vs rest) ↔ Succeed ps input vs rest := by
  induction ps generalizing input vs with
  | nil =>
    constructor
    · intro h
      cases h
      exact .nil _
    · intro h
      cases h
      rfl
  | cons p ps ih =>
    rw [inOrder_cons_eq_success_iff]
    constructor
    · rintro ⟨v, mid, ws, hp, hps, rfl⟩
      exact .cons hp (ih.mp hps)
    · intro h
      cases h with
      | cons hp hps => exact ⟨_, _, _, hp, ih.mpr hps, rfl⟩

theorem exists_inOrder_eq_failure_iff {ps : List (Parser α)} {input : Input} :
    (∃ e, inOrder ps input = some (.failure e)) ↔ FailsWithin ps input := by
  constructor
  · intro h
    induction ps generalizing input with
    | nil =>
      obtain ⟨e, he⟩ := h
      cases he
    | cons p ps ih =>
      obtain ⟨e, he⟩ := h
      obtain ⟨o, hp, hps⟩ := Option.bind_eq_some_iff.mp he
      cases o with
      | failure e' => exact ⟨[], p, ps, [], input, e', rfl, .nil input, hp⟩
      | success v mid =>
        obtain ⟨o, ho, heq⟩ := Option.map_eq_some_iff.mp hps
        cases o with
        | success vs rest => cases heq
        | failure e' =>
          obtain ⟨before, q, after, vs, last, e'', rfl, hbefore, hq⟩ := ih ⟨e', ho⟩
          exact ⟨p :: before, q, after, v :: vs, last, e'', rfl, .cons hp hbefore, hq⟩
  · rintro ⟨before, p, after, vs, mid, e, rfl, hbefore, hp⟩
    refine ⟨e, ?_⟩
    rw [inOrder_append, inOrder_eq_success_iff.mpr hbefore]
    show (inOrder (p :: after) mid).map _ = _
    rw [inOrder_cons_of_failure hp]
    rfl

end Parser

/-- A thing, or a group of such, in order. -/
inductive Nested (α : Type) where
  | single (a : α)
  | group (parts : List (Nested α))

namespace Nested

mutual

/-- The things in all groups, in order. -/
def flatten : Nested α → List α
  | single a => [a]
  | group parts => flattenAll parts

/-- The things in several groups, in order. -/
def flattenAll : List (Nested α) → List α
  | [] => []
  | n :: ns => flatten n ++ flattenAll ns

end

mutual

/-- The parser in which every group is a sequence. -/
def parser : Nested (Parser α) → Parser (Nested α)
  | single p => p.map single
  | group parts => (sequence (parsers parts)).map group

/-- The parsers of several groups. -/
def parsers : List (Nested (Parser α)) → List (Parser (Nested α))
  | [] => []
  | n :: ns => parser n :: parsers ns

end

/-- How nested values stand for a flat list of values; errors do not matter. -/
abbrev SameCourse (p : Parser (Nested α)) (q : Parser (List α)) : Prop :=
  Lockstep (fun n vs => n.flatten = vs) (fun _ _ => True) p q

/-- The same for the values of several groups. -/
abbrev SameCourseAll (p : Parser (List (Nested α))) (q : Parser (List α)) : Prop :=
  Lockstep (fun ns vs => flattenAll ns = vs) (fun _ _ => True) p q

theorem sameCourse_single (p : Parser α) : SameCourse (p.map single) (inOrder [p]) := by
  intro input
  show Option.Rel _ ((p input).map _) ((p input).bind _)
  cases p input with
  | none => exact .none
  | some o =>
    cases o with
    | success v rest =>
      refine .some (.success ?_ rest)
      rfl
    | failure e => exact .some (.failure trivial)

/-- A sequence passes the successes of its parts on, as a group, and replaces the failures. -/
theorem SameCourseAll.group {ps : List (Parser (Nested α))} {qs : List (Parser α)}
    (h : SameCourseAll (inOrder ps) (inOrder qs)) :
    SameCourse ((sequence ps).map group) (inOrder qs) := by
  intro input
  show Option.Rel _ (((inOrder ps input).map _).map _) _
  generalize inOrder ps input = o, inOrder qs input = o', h input = ho
  cases ho with
  | none => exact .none
  | some ho =>
    cases ho with
    | success hvs rest =>
      refine .some (.success ?_ rest)
      exact hvs
    | failure he => exact .some (.failure trivial)

theorem SameCourseAll.cons {p : Parser (Nested α)} {ps : List (Parser (Nested α))}
    {qs rs : List (Parser α)} (hp : SameCourse p (inOrder qs))
    (hps : SameCourseAll (inOrder ps) (inOrder rs)) :
    SameCourseAll (inOrder (p :: ps)) (inOrder (qs ++ rs)) := by
  intro input
  rw [inOrder_append]
  show Option.Rel _ ((p input).bind _) _
  generalize p input = o, inOrder qs input = o', hp input = ho
  cases ho with
  | none => exact .none
  | some ho =>
    cases ho with
    | failure he => exact .some (.failure he)
    | success hv mid =>
      refine rel_map (hps mid) ?_
      intro o o' ho
      cases ho with
      | success hvs rest =>
        refine .success ?_ rest
        exact congrArg₂ (· ++ ·) hv hvs
      | failure he => exact .failure he

theorem sameCourseAll_nil : SameCourseAll (inOrder []) (inOrder ([] : List (Parser α))) := by
  intro input
  refine .some (.success ?_ input)
  rfl

mutual

theorem parser_sameCourse : ∀ n : Nested (Parser α), SameCourse n.parser (inOrder n.flatten)
  | single p => sameCourse_single p
  | group parts => (parsers_sameCourse parts).group

theorem parsers_sameCourse :
    ∀ ns : List (Nested (Parser α)), SameCourseAll (inOrder (parsers ns)) (inOrder (flattenAll ns))
  | [] => sameCourseAll_nil
  | n :: ns => .cons (parser_sameCourse n) (parsers_sameCourse ns)

end

/-- With its values flattened, a group is the flat sequence of its parsers. -/
theorem parser_map_flatten (parts : List (Nested (Parser α))) :
    (group parts).parser.map flatten = sequence (group parts).flatten := by
  funext input
  have h := (parsers_sameCourse parts).orFail .sequenceBroken input
  show (((inOrder (parsers parts)).orFail .sequenceBroken input).map _).map _ =
    (inOrder (flattenAll parts)).orFail .sequenceBroken input
  generalize (inOrder (parsers parts)).orFail .sequenceBroken input = o,
    (inOrder (flattenAll parts)).orFail .sequenceBroken input = o' at h
  cases h with
  | none => rfl
  | some h =>
    cases h with
    | success hvs rest =>
      rw [← hvs]
      rfl
    | failure he =>
      rw [he]
      rfl

/-- However the parsers of a sequence are grouped, it succeeds exactly where they succeed one after the
other, each on the rest of the one before, with the same values in the same order and the same rest.
It fails exactly where one of them fails on its way, and then the outermost group says so and leaves
the input that it was given.  So all groupings are the same but for the shape of their values. -/
theorem parser_of_flatten {ps : List (Parser α)} {parts : List (Nested (Parser α))}
    (hparts : (group parts).flatten = ps) (input : Input) :
    (∀ vs rest, (∃ n, (group parts).parser input = some (.success n rest) ∧ vs = n.flatten) ↔
      Succeed ps input vs rest) ∧
    ((∃ e, (group parts).parser input = some (.failure e)) ↔ FailsWithin ps input) ∧
    (∀ e, (group parts).parser input = some (.failure e) →
      e.message = "not a tuple".toList ∧ e.rest = input.text) ∧
    ∀ others, (group others).flatten = ps →
      (group others).parser.map flatten input = (group parts).parser.map flatten input := by
  subst hparts
  have hflat := parser_map_flatten parts
  have hfailure (e : ParseError) : (group parts).parser input = some (.failure e) ↔
      sequence (group parts).flatten input = some (.failure e) := by
    rw [← hflat, map_eq_failure_iff]
  refine ⟨?_, ?_, ?_, ?_⟩
  · intro vs rest
    rw [← map_eq_success_iff, hflat, sequence_eq_success_iff, inOrder_eq_success_iff]
  · simp only [hfailure, sequence_eq_failure_iff, exists_eq_left, exists_inOrder_eq_failure_iff]
  · intro e he
    rw [(sequence_eq_failure_iff.mp ((hfailure e).mp he)).1]
    exact ⟨rfl, rfl⟩
  · intro others hothers
    rw [hflat, parser_map_flatten, hothers]

/-- Three literals, the last two of them in a group: on `abx` the group fails behind the `a`, and yet
the whole input is left. -/
theorem parser_of_flatten_inner :
    (group [single (literal ['a']), group [single (literal ['b']), single (literal ['c'])]]).flatten =
      [literal ['a'], literal ['b'], literal ['c']] ∧
    (∃ e, (group [single (literal ['a']),
        group [single (literal ['b']), single (literal ['c'])]]).parser (.ofText "abx".toList) =
          some (.failure e) ∧ e.rest = "abx".toList) ∧
    ∃ n rest, (group [single (literal ['a']),
        group [single (literal ['b']), single (literal ['c'])]]).parser (.ofText "abcd".toList) =
          some (.success n rest) ∧ [['a'], ['b'], ['c']] = n.flatten := by
  have hflat : (group [single (literal ['a']),
      group [single (literal ['b']), single (literal ['c'])]]).flatten =
        [literal ['a'], literal ['b'], literal ['c']] := rfl
  refine ⟨hflat, ?_, ?_⟩
  · obtain ⟨-, hfail, hrest, -⟩ := parser_of_flatten hflat (.ofText "abx".toList)
    obtain ⟨e, he⟩ := hfail.mpr ⟨[literal ['a'], literal ['b']], literal ['c'], [], _, _, _, rfl,
      .cons rfl (.cons rfl (.nil _)), rfl⟩
    exact ⟨e, he, (hrest e he).2⟩
  · obtain ⟨hsuccess, -⟩ := parser_of_flatten hflat (.ofText "abcd".toList)
    obtain ⟨n, hn, hvs⟩ := (hsuccess _ _).mpr (.cons rfl (.cons rfl (.cons rfl (.nil _))))
    exact ⟨n, _, hn, hvs⟩

end Nested

end TextParsing
