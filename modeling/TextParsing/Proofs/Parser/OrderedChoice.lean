import TextParsing.Parser.Literal
import TextParsing.Proofs.Parser.Combinators

/-!
# Ordered choice

Choices may be grouped in any way: only the order of the alternatives matters.  `Alternatives` are
parsers joined two by two, and what they answer is told by the list of the parsers from left to right:

    a.parser.orFail .noAlternative = firstSuccess a.leaves               (parser_orFail)

`firstSuccess` takes the answer of the first parser that succeeds, each of them being run on the same
input, whatever the failures before it have left.

A common beginning of two sequences may be written once, in front of a choice.  Behind the choice, more
may only follow in one direction: a sequence commits itself to the alternative that succeeds first.

    sequence [a, orElse b c]       succeeds as      orElse (sequence [a, b]) (sequence [a, c])
    sequence [a, orElse b c, d]    succeeds only if orElse (sequence [a, b, d]) (sequence [a, c, d])
-/

namespace TextParsing

open TextParsing.Parser

variable {α : Type}

/-! ## Alternatives -/

/-- Parsers that are alternatives to each other, joined two by two. -/
inductive Alternatives (α : Type) where
  | one (p : Parser α)
  | either (first second : Alternatives α)

namespace Alternatives

/-- The parser in which every join is a choice. -/
def parser : Alternatives α → Parser α
  | one p => p
  | either a b => orElse a.parser b.parser

/-- The parsers that are joined, from left to right. -/
def leaves : Alternatives α → List (Parser α)
  | one p => [p]
  | either a b => a.leaves ++ b.leaves

/-- The alternatives with others behind them, joined one after the other. -/
def chain (a : Alternatives α) (others : List (Parser α)) : Alternatives α :=
  others.foldl (fun a p => either a (one p)) a

end Alternatives

namespace Parser

variable {p : Parser α} {ps : List (Parser α)} {input rest : Input} {v : α}

/-- Whether all of the parsers fail on an input. -/
def AllFail (ps : List (Parser α)) (input : Input) : Prop :=
  ∀ p ∈ ps, ∃ e, p input = some (.failure e)

/-- Whether the first parser that succeeds on an input does so with the given value and rest. -/
def FirstSuccess (ps : List (Parser α)) (input : Input) (v : α) (rest : Input) : Prop :=
  ∃ before p after, ps = before ++ p :: after ∧ AllFail before input ∧
    p input = some (.success v rest)

/-- Answers as the first of the parsers that succeeds does. -/
def firstSuccess : List (Parser α) → Parser α
  | [] => fun input => some (.failure ⟨.noAlternative, input.text⟩)
  | p :: ps => fun input => (p input).bind fun
    | .success v rest => some (.success v rest)
    | .failure _ => firstSuccess ps input

theorem firstSuccess_of_success (h : p input = some (.success v rest)) :
    firstSuccess (p :: ps) input = some (.success v rest) := by
  show (p input).bind _ = _
  rw [h]
  rfl

theorem firstSuccess_of_failure {e : ParseError} (h : p input = some (.failure e)) :
    firstSuccess (p :: ps) input = firstSuccess ps input := by
  show (p input).bind _ = _
  rw [h]
  rfl

theorem firstSuccess_of_none (h : p input = none) : firstSuccess (p :: ps) input = none := by
  show (p input).bind _ = _
  rw [h]
  rfl

theorem allFail_cons : AllFail (p :: ps) input ↔
    (∃ e, p input = some (.failure e)) ∧ AllFail ps input :=
  List.forall_mem_cons

theorem firstSuccess_eq_success_iff :
    firstSuccess ps input = some (.success v rest) ↔ FirstSuccess ps input v rest := by
  induction ps with
  | nil =>
    constructor
    · intro h
      cases h
    · rintro ⟨before, p, after, heq, -⟩
      exact absurd heq (List.append_ne_nil_of_right_ne_nil _ (List.cons_ne_nil _ _)).symm
  | cons p ps ih =>
    constructor
    · intro h
      obtain ⟨o, hp, h⟩ := Option.bind_eq_some_iff.mp h
      cases o with
      | success u mid =>
        cases h
        exact ⟨[], p, ps, rfl, fun q hq => absurd hq List.not_mem_nil, hp⟩
      | failure e =>
        obtain ⟨before, q, after, rfl, hfail, hq⟩ := ih.mp h
        exact ⟨p :: before, q, after, rfl, allFail_cons.mpr ⟨⟨e, hp⟩, hfail⟩, hq⟩
    · rintro ⟨before, q, after, heq, hfail, hq⟩
      cases before with
      | nil =>
        obtain ⟨rfl, rfl⟩ := List.cons.inj heq
        exact firstSuccess_of_success hq
      | cons p' before =>
        obtain ⟨rfl, rfl⟩ := List.cons.inj heq
        obtain ⟨⟨e, he⟩, hfail⟩ := allFail_cons.mp hfail
        rw [firstSuccess_of_failure he]
        exact ih.mpr ⟨before, q, after, rfl, hfail, hq⟩

theorem firstSuccess_eq_failure_iff {e : ParseError} :
    firstSuccess ps input = some (.failure e) ↔
      AllFail ps input ∧ e = ⟨.noAlternative, input.text⟩ := by
  induction ps with
  | nil =>
    constructor
    · intro h
      cases h
      exact ⟨fun q hq => absurd hq List.not_mem_nil, rfl⟩
    · rintro ⟨-, rfl⟩
      rfl
  | cons p ps ih =>
    rw [allFail_cons]
    cases hp : p input with
    | none => simp [firstSuccess_of_none hp]
    | some o =>
      cases o with
      | success u mid => simp [firstSuccess_of_success hp]
      | failure e' => simp [firstSuccess_of_failure hp, ih]

/-- A choice fails in its own way already. -/
theorem orFail_orElse (p q : Parser α) : (orElse p q).orFail .noAlternative = orElse p q := by
  funext input
  rw [orFail]
  cases h : orElse p q input with
  | none => rfl
  | some o =>
    cases o with
    | success v rest => rfl
    | failure e =>
      rw [eq_of_orElse_eq_failure h]
      rfl

/-- How the alternatives themselves fail does not matter. -/
theorem orElse_orFail (p q : Parser α) :
    orElse (p.orFail .noAlternative) (q.orFail .noAlternative) = orElse p q := by
  funext input
  show ((p input).map _).bind _ = (p input).bind _
  cases p input with
  | none => rfl
  | some o =>
    cases o with
    | success v rest => rfl
    | failure e =>
      show ((q input).map _).map _ = (q input).map _
      rw [Option.map_map]
      congr 1
      funext o
      cases o <;> rfl

/-- The failure is that of a choice already. -/
theorem orFail_firstSuccess (ps : List (Parser α)) :
    (firstSuccess ps).orFail .noAlternative = firstSuccess ps := by
  funext input
  rw [orFail]
  cases h : firstSuccess ps input with
  | none => rfl
  | some o =>
    cases o with
    | success v rest => rfl
    | failure e =>
      rw [(firstSuccess_eq_failure_iff.mp h).2]
      rfl

/-- Alternatives may be tried in two steps. -/
theorem firstSuccess_append (ps qs : List (Parser α)) :
    firstSuccess (ps ++ qs) = orElse (firstSuccess ps) (firstSuccess qs) := by
  funext input
  induction ps with
  | nil =>
    have hnil : firstSuccess [] input = some (.failure (α := α) ⟨.noAlternative, input.text⟩) := rfl
    rw [orElse_of_failure hnil, orFail_firstSuccess, List.nil_append]
  | cons p ps ih =>
    rw [List.cons_append]
    cases hp : p input with
    | none =>
      rw [firstSuccess_of_none hp, orElse, firstSuccess_of_none hp]
      rfl
    | some o =>
      cases o with
      | success v rest =>
        rw [firstSuccess_of_success hp, orElse_of_success (firstSuccess_of_success hp)]
      | failure e =>
        rw [firstSuccess_of_failure hp, ih, orElse, orElse, firstSuccess_of_failure hp]

end Parser


namespace Alternatives

variable {a b : Alternatives α}

@[simp] theorem leaves_one (p : Parser α) : (one p).leaves = [p] := rfl

@[simp] theorem leaves_either (a b : Alternatives α) :
    (either a b).leaves = a.leaves ++ b.leaves := rfl

theorem leaves_chain (a : Alternatives α) (others : List (Parser α)) :
    (a.chain others).leaves = a.leaves ++ others := by
  induction others generalizing a with
  | nil => exact (List.append_nil _).symm
  | cons p others ih =>
    show ((either a (one p)).chain others).leaves = _
    rw [ih, leaves_either, leaves_one, List.append_assoc, List.singleton_append]

theorem parser_chain (a : Alternatives α) (others : List (Parser α)) :
    (a.chain others).parser = firstOf a.parser others := by
  induction others generalizing a with
  | nil => rfl
  | cons p others ih => exact ih (either a (one p))

theorem exists_either (h : 2 ≤ a.leaves.length) : ∃ b c, a = either b c := by
  cases a with
  | one p => exact absurd h (by simp)
  | either b c => exact ⟨b, c, rfl⟩

theorem parser_orFail (a : Alternatives α) :
    a.parser.orFail .noAlternative = firstSuccess a.leaves := by
  induction a with
  | one p =>
    funext input
    show (p input).map _ = (p input).bind _
    cases p input with
    | none => rfl
    | some o => cases o <;> rfl
  | either a b iha ihb =>
    rw [leaves_either, firstSuccess_append, ← iha, ← ihb, orElse_orFail, parser, orFail_orElse]

/-- Two or more alternatives, joined in any way, answer as the first of them that succeeds. -/
theorem parser_eq_firstSuccess (h : 2 ≤ a.leaves.length) : a.parser = firstSuccess a.leaves := by
  obtain ⟨b, c, rfl⟩ := exists_either h
  rw [← parser_orFail, parser, orFail_orElse]

/-- However two or more parsers are joined by choices, the first of them that succeeds on the input
determines the value and the rest, and the choice fails exactly where all of them fail; then it leaves
the input.  So all ways to join them are the same parser, the chain from the left among them. -/
theorem parser_of_leaves {ps : List (Parser α)} (ha : a.leaves = ps) (hps : 2 ≤ ps.length)
    (input : Input) :
    (∀ v rest, a.parser input = some (.success v rest) ↔ FirstSuccess ps input v rest) ∧
    ((∃ e, a.parser input = some (.failure e)) ↔ AllFail ps input) ∧
    (∀ e, a.parser input = some (.failure e) →
      e.message = "no alt match".toList ∧ e.rest = input.text) ∧
    (∀ b : Alternatives α, b.leaves = ps → b.parser input = a.parser input) ∧
    ∀ p others, ps = p :: others → firstOf p others input = a.parser input := by
  subst ha
  rw [parser_eq_firstSuccess hps]
  refine ⟨fun v rest => firstSuccess_eq_success_iff, ?_, ?_, ?_, ?_⟩
  · simp only [firstSuccess_eq_failure_iff, exists_and_left, exists_eq, and_true]
  · intro e he
    rw [(firstSuccess_eq_failure_iff.mp he).2]
    exact ⟨rfl, rfl⟩
  · intro b hb
    rw [← hb, parser_eq_firstSuccess (hb ▸ hps)]
  · intro p others hcons
    have hchain : ((one p).chain others).leaves = a.leaves := by
      rw [leaves_chain, hcons]
      rfl
    have hparser : ((one p).chain others).parser = firstOf p others := parser_chain _ _
    rw [← hparser, ← hchain, parser_eq_firstSuccess (hchain ▸ hps)]

/-- The first alternative fails and leaves less than it was given; the second one sees all of it and
succeeds, though the third one would consume more. -/
theorem parser_of_leaves_misleading :
    2 ≤ [ofFunction (refuse "no".toList 1), literal "a".toList, literal "aaa".toList].length ∧
      (∃ rest, (either (one (ofFunction (refuse "no".toList 1)))
          (either (one (literal "a".toList)) (one (literal "aaa".toList)))).parser
            (.ofText "aaab".toList) = some (.success "a".toList rest)) ∧
      ∃ rest, firstOf (ofFunction (refuse "no".toList 1)) [literal "a".toList, literal "aaa".toList]
        (.ofText "aaab".toList) = some (.success "a".toList rest) := by
  have htwo : 2 ≤ [ofFunction (refuse "no".toList 1), literal "a".toList,
    literal "aaa".toList].length := by decide
  obtain ⟨hsuccess, -, -, -, hchain⟩ := parser_of_leaves
    (a := either (one (ofFunction (refuse "no".toList 1)))
      (either (one (literal "a".toList)) (one (literal "aaa".toList)))) rfl htwo
    (.ofText "aaab".toList)
  have hfirst : FirstSuccess [ofFunction (refuse "no".toList 1), literal "a".toList,
      literal "aaa".toList] (.ofText "aaab".toList) "a".toList (.ofText "aab".toList) := by
    refine ⟨[_], _, [_], rfl, ?_, literal_eq_success_iff.mpr ⟨rfl, rfl⟩⟩
    intro p hp
    obtain rfl := List.mem_singleton.mp hp
    exact ⟨_, rfl⟩
  exact ⟨htwo, ⟨_, (hsuccess _ _).mpr hfirst⟩, _,
    (hchain _ _ rfl).trans ((hsuccess _ _).mpr hfirst)⟩

end Alternatives

/-! ## A common beginning -/

namespace Parser

variable {a b c d : Parser α} {input rest : Input} {vs : List α}

/-- What a choice between two sequences answers that begin with the same parser: a sequence that begins
with it and goes on with a choice answers the same, but for the wording of its failures. -/
theorem orElse_sequence_common (a b c : Parser α) :
    orElse (sequence [a, b]) (sequence [a, c]) =
      (sequence [a, orElse b c]).orFail .noAlternative := by
  funext input
  cases ha : a input with
  | none => simp [orElse, orFail, sequence, inOrder, ha]
  | some o =>
    cases o with
    | failure e =>
      rw [orElse_of_failure (sequence_of_failure _ ha), orFail, sequence_of_failure _ ha, orFail,
        sequence_of_failure _ ha]
    | success v mid =>
      cases hb : b mid with
      | none => simp [orElse, orFail, sequence, inOrder, ha, hb]
      | some o =>
        cases o with
        | success w next =>
          rw [orElse_of_success (sequence_of_both ha hb)]
          have hchoice := sequence_of_both ha (orElse_of_success (q := c) hb)
          exact (orFail_eq_success_iff.mpr hchoice).symm
        | failure e =>
          -- both forms try the other alternative where the first one stood
          rw [orElse_of_failure (sequence_of_second_failure ha hb)]
          cases hc : c mid with
          | none => simp [orElse, orFail, sequence, inOrder, ha, hb, hc]
          | some o =>
            cases o with
            | success w next =>
              have hchoice := orElse_of_failure (q := c) hb
              rw [orFail_eq_success_iff.mpr hc] at hchoice
              rw [orFail_eq_success_iff.mpr (sequence_of_both ha hc),
                orFail_eq_success_iff.mpr (sequence_of_both ha hchoice)]
            | failure e' =>
              have hchoice := orElse_of_failure (q := c) hb
              rw [orFail_eq_failure_iff.mpr ⟨rfl, e', hc⟩] at hchoice
              rw [orFail_eq_failure_iff.mpr ⟨rfl, _, sequence_of_second_failure ha hc⟩,
                orFail_eq_failure_iff.mpr ⟨rfl, _, sequence_of_second_failure ha hchoice⟩]

theorem sequence_three_eq_success_iff : sequence [a, b, d] input = some (.success vs rest) ↔
    ∃ v mid w next u, a input = some (.success v mid) ∧ b mid = some (.success w next) ∧
      d next = some (.success u rest) ∧ vs = [v, w, u] := by
  have hnil {last : Input} {us : List α} :
      inOrder [] last = some (.success us rest) ↔ us = [] ∧ last = rest := by
    show some (Outcome.success [] last) = _ ↔ _
    simp [eq_comm]
  simp only [sequence_eq_success_iff, inOrder_cons_eq_success_iff, hnil]
  constructor
  · rintro ⟨v, mid, _, ha, ⟨w, next, _, hb, ⟨u, _, _, hd, ⟨rfl, rfl⟩, rfl⟩, rfl⟩, rfl⟩
    exact ⟨v, mid, w, next, u, ha, hb, hd, rfl⟩
  · rintro ⟨v, mid, w, next, u, ha, hb, hd, rfl⟩
    exact ⟨v, mid, _, ha, ⟨w, next, _, hb, ⟨u, rest, _, hd, ⟨rfl, rfl⟩, rfl⟩, rfl⟩, rfl⟩

/-- The alternative to which a sequence has committed itself is the first one that succeeds when the
whole sequences are alternatives. -/
theorem orElse_sequence_of_success
    (h : sequence [a, orElse b c, d] input = some (.success vs rest)) :
    orElse (sequence [a, b, d]) (sequence [a, c, d]) input = some (.success vs rest) := by
  obtain ⟨v, mid, w, next, u, ha, hchoice, hd, rfl⟩ := sequence_three_eq_success_iff.mp h
  rcases orElse_eq_success_iff.mp hchoice with hb | ⟨⟨e, hb⟩, hc⟩
  · exact orElse_of_success (sequence_three_eq_success_iff.mpr ⟨v, mid, w, next, u, ha, hb, hd, rfl⟩)
  · rw [orElse_of_failure (sequence_of_second_failure ha hb), orFail_eq_success_iff]
    exact sequence_three_eq_success_iff.mpr ⟨v, mid, w, next, u, ha, hc, hd, rfl⟩

/-- Only what follows the choice can make the sequence fail where one of the whole sequences succeeds:
it refuses what the alternative leaves to which the sequence has committed itself. -/
theorem success_or_refused_of_orElse
    (h : orElse (sequence [a, b, d]) (sequence [a, c, d]) input = some (.success vs rest)) :
    sequence [a, orElse b c, d] input = some (.success vs rest) ∨
      ∃ v mid w next e, a input = some (.success v mid) ∧ b mid = some (.success w next) ∧
        d next = some (.failure e) := by
  rcases orElse_eq_success_iff.mp h with h | ⟨⟨e, hfail⟩, h⟩
  · obtain ⟨v, mid, w, next, u, ha, hb, hd, rfl⟩ := sequence_three_eq_success_iff.mp h
    exact .inl (sequence_three_eq_success_iff.mpr
      ⟨v, mid, w, next, u, ha, orElse_of_success hb, hd, rfl⟩)
  · obtain ⟨v, mid, w, next, u, ha, hc, hd, rfl⟩ := sequence_three_eq_success_iff.mp h
    obtain ⟨-, e', horder⟩ := sequence_eq_failure_iff.mp hfail
    rw [inOrder_cons_of_success ha] at horder
    cases hb : b mid with
    | none => simp [inOrder, hb] at horder
    | some o =>
      cases o with
      | failure e =>
        have hchoice := orElse_of_failure (q := c) hb
        rw [orFail_eq_success_iff.mpr hc] at hchoice
        exact .inl (sequence_three_eq_success_iff.mpr ⟨v, mid, w, next, u, ha, hchoice, hd, rfl⟩)
      | success w' next' =>
        right
        cases hd' : d next' with
        | none => simp [inOrder, hb, hd'] at horder
        | some o =>
          cases o with
          | failure e => exact ⟨v, mid, w', next', e, ha, hb, hd'⟩
          | success u' rest' =>
            rw [sequence_three_eq_success_iff.mpr ⟨v, mid, w', next', u', ha, hb, hd', rfl⟩] at hfail
            cases hfail

/-- A common beginning of two sequences may be written once, in front of a choice: both forms succeed
on the same inputs, with the same values and the same rest, and elsewhere both fail and leave the
input.  With more behind the choice, every success is one of the expanded form as well.  The expanded
form has others only where what follows refuses what the first alternative leaves. -/
theorem common_beginning (a b c d : Parser α) (input : Input) :
    (∀ vs rest, sequence [a, orElse b c] input = some (.success vs rest) ↔
      orElse (sequence [a, b]) (sequence [a, c]) input = some (.success vs rest)) ∧
    ((∃ e, sequence [a, orElse b c] input = some (.failure e)) ↔
      ∃ e, orElse (sequence [a, b]) (sequence [a, c]) input = some (.failure e)) ∧
    (∀ e, sequence [a, orElse b c] input = some (.failure e) ∨
      orElse (sequence [a, b]) (sequence [a, c]) input = some (.failure e) → e.rest = input.text) ∧
    (∀ vs rest, sequence [a, orElse b c, d] input = some (.success vs rest) →
      orElse (sequence [a, b, d]) (sequence [a, c, d]) input = some (.success vs rest)) ∧
    ∀ vs rest, orElse (sequence [a, b, d]) (sequence [a, c, d]) input = some (.success vs rest) →
      sequence [a, orElse b c, d] input = some (.success vs rest) ∨
        ∃ v mid w next e, a input = some (.success v mid) ∧ b mid = some (.success w next) ∧
          d next = some (.failure e) := by
  refine ⟨?_, ?_, ?_, ?_, ?_⟩
  · intro vs rest
    rw [orElse_sequence_common, orFail_eq_success_iff]
  · rw [orElse_sequence_common]
    simp only [orFail_eq_failure_iff, exists_eq_left]
  · rintro e (h | h)
    · rw [(sequence_eq_failure_iff.mp h).1]
    · rw [eq_of_orElse_eq_failure h]
  · intro vs rest
    exact orElse_sequence_of_success
  · intro vs rest
    exact success_or_refused_of_orElse

/-- The literals `b` and `bc` behind an `a` and in front of a `d`: on `abd` both forms succeed, on
`abcd` only the expanded one does, because the `d` is refused behind `b`. -/
theorem common_beginning_committed :
    (∃ vs rest, sequence [literal ['a'], orElse (literal ['b']) (literal ['b', 'c']), literal ['d']]
        (.ofText "abd".toList) = some (.success vs rest) ∧
      orElse (sequence [literal ['a'], literal ['b'], literal ['d']])
        (sequence [literal ['a'], literal ['b', 'c'], literal ['d']]) (.ofText "abd".toList) =
          some (.success vs rest)) ∧
    ∃ v mid w next e, literal ['a'] (.ofText "abcd".toList) = some (.success v mid) ∧
      literal ['b'] mid = some (.success w next) ∧ literal ['d'] next = some (.failure e) := by
  obtain ⟨-, -, -, hcommit, -⟩ := common_beginning (literal ['a']) (literal ['b'])
    (literal ['b', 'c']) (literal ['d']) (.ofText "abd".toList)
  obtain ⟨-, -, -, -, hrefuse⟩ := common_beginning (literal ['a']) (literal ['b'])
    (literal ['b', 'c']) (literal ['d']) (.ofText "abcd".toList)
  constructor
  · have hseq : sequence [literal ['a'], orElse (literal ['b']) (literal ['b', 'c']),
        literal ['d']] (.ofText "abd".toList) =
          some (.success [['a'], ['b'], ['d']] (.ofText [])) := rfl
    exact ⟨_, _, hseq, hcommit _ _ hseq⟩
  · have hseq : orElse (sequence [literal ['a'], literal ['b'], literal ['d']])
        (sequence [literal ['a'], literal ['b', 'c'], literal ['d']]) (.ofText "abcd".toList) =
          some (.success [['a'], ['b', 'c'], ['d']] (.ofText [])) := rfl
    rcases hrefuse _ _ hseq with h | h
    · cases h
    · exact h

end Parser

end TextParsing
