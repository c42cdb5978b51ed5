import TextParsing.Regex

/-!
# Composing expressions

Sequences, choices and repetitions are built by functions that keep expressions in one form:
`seq` nests sequences to the right and drops what is empty, `choice` nests choices to the right,
unites sets of characters, and writes only once what all branches begin with, and `repeated` takes
an expression that matches only the empty text at most once.

    seq (seq r s) t = seq r (seq s t)                                  (seq_assoc)
    seqAll (rs ++ ss) = seq (seqAll rs) (seqAll ss)                    (seqAll_append)

What all branches begin with is compared part by part (`parts`); adjacent single characters form one
part.  Since the preferred way through that beginning is fixed before a branch is chosen,

    .*?b|.*?c    means    .*?(?:b|c)    and prefers the first of `b` and `c` that it comes to.
-/

namespace TextParsing.Regex

/-! ## Sequences -/

/-- The first expression, then the second. -/
def seq : Regex → Regex → Regex
  | empty, s => s
  | cat a b, s => cat a (seq b s)
  | r, s => if s = empty then r else cat r s

/-- The expressions one after the other. -/
def seqAll (rs : List Regex) : Regex := rs.foldr seq empty

/-- What a sequence consists of. -/
def factors : Regex → List Regex
  | empty => []
  | cat a b => a :: factors b
  | r => [r]

/-! ## Choices -/

/-- What a choice consists of. -/
def branches : Regex → List Regex
  | alt a b => a :: branches b
  | r => [r]

/-- The expressions as alternatives, the first of them preferred. -/
def altAll : List Regex → Regex
  | [] => chars .none
  | [r] => r
  | r :: rs => alt r (altAll rs)

/-- The set of characters that an expression is. -/
def set? : Regex → Option CharSet
  | chars set _ => some set
  | _ => none

/-- Whether an expression is a single character. -/
def isChar (r : Regex) : Bool := r.set?.any CharSet.isSingle

/-- The one set that takes the place of the branches, if all of them are single characters or all
of them are other sets. -/
def union? (rs : List Regex) : Option Regex :=
  if rs.all isChar || rs.all fun r => r.set?.any fun s => !s.isSingle then
    some (chars (.unionAll (rs.filterMap set?)))
  else none

/-- The parts of a sequence: its factors, with adjacent single characters taken together. -/
def parts (r : Regex) : List (List Regex) := r.factors.splitBy fun a b => a.isChar && b.isChar

/-- The longest common beginning of two lists. -/
def common {α : Type} [DecidableEq α] : List α → List α → List α
  | a :: as, b :: bs => if a = b then a :: common as bs else []
  | _, _ => []

/-- The parts that all branches begin with; each branch must have two parts or more. -/
def lead : List (List (List Regex)) → List (List Regex)
  | [] => []
  | ps :: rest =>
    if (ps :: rest).all fun qs => 2 ≤ qs.length then rest.foldl common ps else []

/-- The branches as alternatives, or as one set. -/
def choiceOf (rs : List Regex) : Regex := (union? rs).getD (altAll rs)

/-- The branches as alternatives behind what all of them begin with, if there is such a thing. -/
def leadOut? (rs : List Regex) : Option Regex :=
  match lead (rs.map parts) with
  | [] => none
  | shared =>
    let tails := rs.map fun r => seqAll (r.parts.drop shared.length).flatten
    some (seqAll (shared.flatten ++ [choiceOf (tails.flatMap branches)]))

/-- The expressions as alternatives, the first of them preferred; what all of them begin with is
taken out. -/
def choice : List Regex → Regex
  | [r] => r
  | rs =>
    let bs := rs.flatMap branches
    ((union? bs).or (leadOut? bs)).getD (altAll bs)

/-! ## Repetitions -/

/-- The expression as often as the bounds say; trivial bounds are dropped. -/
def bounded (greedy : Bool) (r : Regex) (least : Nat) (most : Option Nat) : Regex :=
  if least = 0 ∧ most = some 0 then empty
  else if least = 1 ∧ most = some 1 then r
  else times greedy least most r

/-- The expression as often as the bounds say; one that matches only the empty text is taken at most
once. -/
def repeated (greedy : Bool) (r : Regex) (least : Nat) (most : Option Nat) : Regex :=
  if r.onlyEmpty then bounded greedy r (min least 1) (some (min (most.getD 1) 1))
  else bounded greedy r least most

/-! ## Lemmas -/

theorem seq_empty (r : Regex) : seq r empty = r := by
  induction r with
  | cat a b _ ih => simp [seq, ih]
  | _ => simp [seq]

theorem seq_eq_empty_iff {r s : Regex} : seq r s = empty ↔ r = empty ∧ s = empty := by
  cases r <;> by_cases h : s = empty <;> simp [seq, h]

theorem seq_assoc (r s t : Regex) : seq (seq r s) t = seq r (seq s t) := by
  induction r with
  | empty => simp [seq]
  | cat a b _ ih => simp [seq, ih]
  | _ => by_cases h : s = empty <;> simp [seq, h, seq_eq_empty_iff]

theorem seqAll_append (rs ss : List Regex) : seqAll (rs ++ ss) = seq (seqAll rs) (seqAll ss) := by
  induction rs with
  | nil => rfl
  | cons r rs ih =>
    show seq r (seqAll (rs ++ ss)) = seq (seq r (seqAll rs)) (seqAll ss)
    rw [ih, seq_assoc]

end TextParsing.Regex
