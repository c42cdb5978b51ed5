import TextParsing.Brackets
import TextParsing.Proofs.Grammar.Evaluation
import TextParsing.Proofs.Parser.Taking
import TextParsing.Proofs.Text.Run

/-!
# How deep brackets are nested

Reading brackets in brackets goes one level down for each opening bracket, and once more where no
bracket opens.  On the way back each level asks for a closing bracket.  Where one is missing, the level
falls back on nothing at all and leaves its own opening bracket, so that the level above finds no
closing one either, and so on up to the first:

    ¬ ['['] <+: List.replicate k ']' ++ rest →
      Takes (grammar.rule (k + 1) self) (text k) (depthValue k) rest                  (takes_text)
    ¬ ['['] <+: after → ¬ List.replicate k ']' <+: after →
      Takes (grammar.rule (k + 1) self) [] (depthValue 0)
        (List.replicate k '[' ++ after)                                            (takes_nothing)

One level for each opening bracket is not enough (`rule_eq_none`), and more than one further level
changes nothing.
-/

namespace TextParsing.Brackets

open TextParsing.Parser

variable {d k : Nat} {s t after rest : Text} {v : Value}

/-! ## Brackets at the beginning -/

/-- The number of opening brackets at the beginning. -/
def opened (s : Text) : Nat := (s.takeWhile (· == '[')).length

theorem takeWhile_eq_replicate (s : Text) :
    s.takeWhile (· == '[') = List.replicate (opened s) '[' := by
  refine List.eq_replicate_iff.mpr ⟨rfl, ?_⟩
  intro c hc
  exact eq_of_beq (List.all_eq_true.mp List.all_takeWhile c hc)

/-- A text is its opening brackets and what follows them. -/
theorem replicate_append_drop (s : Text) :
    List.replicate (opened s) '[' ++ s.drop (opened s) = s := by
  rw [← takeWhile_eq_replicate]
  exact List.prefix_iff_eq_append.mp (List.takeWhile_prefix _)

/-- No bracket opens behind the opening brackets. -/
theorem not_opening_drop (s : Text) : ¬ ['['] <+: s.drop (opened s) := by
  rintro ⟨after, h⟩
  rw [opened, drop_length_takeWhile] at h
  have hfalse := Text.eq_false_of_head?_dropWhile (· == '[') s '['
  rw [← h] at hfalse
  cases hfalse rfl

/-- Where as many brackets are closed as opened, something follows them. -/
theorem replicate_append_drop_closing (h : List.replicate (opened s) ']' <+: s.drop (opened s)) :
    List.replicate (opened s) ']' ++ s.drop (2 * opened s) = s.drop (opened s) := by
  have hclosing := List.prefix_iff_eq_append.mp h
  rwa [List.length_replicate, List.drop_drop, ← Nat.two_mul] at hclosing

/-- Then the text is these pairs and what follows them. -/
theorem text_append_drop (h : List.replicate (opened s) ']' <+: s.drop (opened s)) :
    text (opened s) ++ s.drop (2 * opened s) = s := by
  rw [text, List.append_assoc, replicate_append_drop_closing h, replicate_append_drop]

/-- One more pair around the brackets. -/
theorem text_succ (k : Nat) : text (k + 1) = ['['] ++ (text k ++ [']']) := by
  rw [text, text, List.replicate_succ, List.replicate_succ', List.append_assoc]
  rfl

/-! ## One level -/

/-- What a level runs for a pair, one after the other. -/
def pairParsers (d : Nat) : List (Parser Value) :=
  [(literal ['[']).map Value.text, grammar.rule d self, (literal [']']).map Value.text]

theorem rule_succ_eq (d : Nat) : grammar.rule (d + 1) self =
    orElse (((sequence (pairParsers d)).map Value.tuple).map deepen)
      (((literal []).map Value.text).map fun _ => depthValue 0) := rfl

/-- Where the pair fails, nothing is taken. -/
theorem takes_of_failsAt (h : FailsAt (inOrder (pairParsers d)) rest) :
    Takes (grammar.rule (d + 1) self) [] (depthValue 0) rest := by
  have hnothing := ((takes_literal [] rest).map Value.text).map fun _ => depthValue 0
  rw [rule_succ_eq]
  exact .orElse_right (((failsAt_sequence h).map Value.tuple).map deepen) hnothing

theorem takes_of_not_opening (d : Nat) (h : ¬ ['['] <+: rest) :
    Takes (grammar.rule (d + 1) self) [] (depthValue 0) rest :=
  takes_of_failsAt ((failsAt_literal h).map Value.text).inOrder

/-- Where no closing bracket follows what the level below takes, nothing is taken. -/
theorem takes_of_not_closing (h : Takes (grammar.rule d self) s v t) (ht : ¬ [']'] <+: t) :
    Takes (grammar.rule (d + 1) self) [] (depthValue 0) (['['] ++ (s ++ t)) := by
  have hopen := (takes_literal ['['] (s ++ t)).map Value.text
  have hclose : FailsAt (inOrder [(literal [']']).map Value.text]) t :=
    ((failsAt_literal ht).map Value.text).inOrder
  exact takes_of_failsAt (hopen.inOrder_cons_failsAt (h.inOrder_cons_failsAt hclose))

/-- Where a closing bracket follows what the level below takes, the pair is taken. -/
theorem takes_pair (h : Takes (grammar.rule d self) s (depthValue k) ([']'] ++ rest)) :
    Takes (grammar.rule (d + 1) self) (['['] ++ (s ++ [']'])) (depthValue (k + 1)) rest := by
  have hopen := (takes_literal ['['] (s ++ [']'] ++ rest)).map Value.text
  have hclose := ((takes_literal [']'] rest).map Value.text).inOrder_one
  have hparts : Takes (inOrder (pairParsers d)) (['['] ++ (s ++ [']']))
      [.text ['['], depthValue k, .text [']']] rest :=
    hopen.inOrder_cons (h.inOrder_cons hclose)
  rw [rule_succ_eq]
  exact .orElse_left ((hparts.sequence.map Value.tuple).map deepen)

/-- Behind an opening bracket a level waits for the one below. -/
theorem rule_succ_eq_none (h : grammar.rule d self (.ofText s) = none) :
    grammar.rule (d + 1) self (.ofText (['['] ++ s)) = none := by
  have hopen := (takes_literal ['['] s).map Value.text
  have hparts : inOrder (pairParsers d) (.ofText (['['] ++ s)) = none := by
    rw [pairParsers, inOrder_cons_of_success hopen]
    show Option.map _ ((grammar.rule d self (.ofText s)).bind _) = none
    rw [h]
    rfl
  show ((((inOrder (pairParsers d) _).map _).map _).map _).bind _ = none
  rw [hparts]
  rfl

/-! ## All levels -/

/-- Brackets that are all closed are taken. -/
theorem takes_text (h : ¬ ['['] <+: List.replicate k ']' ++ rest) :
    Takes (grammar.rule (k + 1) self) (text k) (depthValue k) rest := by
  induction k generalizing rest with
  | zero => exact takes_of_not_opening 0 h
  | succ k ih =>
    rw [text_succ]
    apply takes_pair
    apply ih
    rwa [← List.append_assoc, ← List.replicate_succ']

/-- Where more brackets are opened than closed, nothing is taken: either the level below takes what is
closed and no closing bracket follows, or it takes nothing and an opening bracket follows. -/
theorem takes_nothing (h : ¬ ['['] <+: after) (hclose : ¬ List.replicate k ']' <+: after) :
    Takes (grammar.rule (k + 1) self) [] (depthValue 0) (List.replicate k '[' ++ after) := by
  induction k with
  | zero => exact absurd List.nil_prefix hclose
  | succ k ih =>
    rw [List.replicate_succ]
    by_cases hbelow : List.replicate k ']' <+: after
    · obtain ⟨rest, rfl⟩ := hbelow
      have hrest : ¬ [']'] <+: rest := by
        intro hp
        apply hclose
        rw [List.replicate_succ']
        exact (List.prefix_append_right_inj _).mpr hp
      have hlevel := takes_of_not_closing (takes_text h) hrest
      rwa [text, List.append_assoc] at hlevel
    · have hopening : ¬ [']'] <+: List.replicate k '[' ++ after := by
        cases k with
        | zero => exact absurd List.nil_prefix hbelow
        | succ k => simp [List.replicate_succ]
      exact takes_of_not_closing (s := []) (ih hbelow) hopening

/-- As many levels as there are opening brackets do not answer. -/
theorem rule_eq_none (h : d ≤ k) :
    grammar.rule d self (.ofText (List.replicate k '[' ++ after)) = none := by
  induction d generalizing k with
  | zero => rfl
  | succ d ih =>
    obtain ⟨k, rfl⟩ : ∃ m, k = m + 1 := ⟨k - 1, by omega⟩
    rw [List.replicate_succ]
    exact rule_succ_eq_none (ih (by omega))

/-- What one level more than there are opening brackets answers, every further level answers too. -/
theorem rule_eq_of_takes (h : Takes (grammar.rule (k + 1) self) s v rest) (hd : k < d) :
    grammar.rule d self (.ofText (s ++ rest)) = some (.success v (.ofText rest)) :=
  grammar.parser_rule_mono (.reference self) hd _ _ h

/-- The answer of every level that is not too low. -/
theorem rule_eq (input : Input) (hd : opened input.text < d) :
    grammar.rule d self input = some (
      if List.replicate (opened input.text) ']' <+: input.text.drop (opened input.text) then
        .success (depthValue (opened input.text)) (input.drop (2 * opened input.text))
      else .success (depthValue 0) input) := by
  have hafter := not_opening_drop input.text
  split
  · next hclosed =>
    rw [← replicate_append_drop_closing hclosed] at hafter
    have htakes := rule_eq_of_takes (takes_text hafter) hd
    rwa [text_append_drop hclosed, Input.ofText_text, Input.ofText_drop] at htakes
  · next hclosed =>
    have htakes := rule_eq_of_takes (takes_nothing hafter hclosed) hd
    rwa [List.nil_append, replicate_append_drop, Input.ofText_text] at htakes

/-- There is an answer to every input.  If as many brackets are closed as are opened at the beginning,
all of them are read; otherwise nothing is.  The answer takes one level of references for each opening
bracket and one more; fewer do not answer, and more answer the same.  What is read is never anything
but a number of opening brackets with as many closing ones. -/
theorem nested_reads_pairs (input : Input) :
    nested input = some (
      if List.replicate (opened input.text) ']' <+: input.text.drop (opened input.text) then
        .success (depthValue (opened input.text)) (input.drop (2 * opened input.text))
      else .success (depthValue 0) input) ∧
    (∀ d, grammar.rule d self input = if d ≤ opened input.text then none else nested input) ∧
    ∀ v rest, nested input = some (.success v rest) → ∃ depth, v = depthValue depth ∧
      (depth = 0 ∨ depth = opened input.text) ∧ text depth ++ rest.text = input.text := by
  have hdepth : opened input.text < grammar.depthFor input := by
    have hle := (List.takeWhile_prefix (l := input.text) (· == '[')).length_le
    rw [← input.length_eq] at hle
    unfold opened Grammar.depthFor
    omega
  have hnested := rule_eq input hdepth
  refine ⟨hnested, ?_, ?_⟩
  · intro d
    split
    · next hle =>
      rw [← input.ofText_text, ← replicate_append_drop input.text]
      exact rule_eq_none hle
    · next hlt => exact (rule_eq input (Nat.not_le.mp hlt)).trans hnested.symm
  · intro v rest h
    have heq := Option.some.inj (hnested.symm.trans h)
    split at heq
    · next hclosed =>
      cases heq
      exact ⟨_, rfl, .inr rfl, text_append_drop hclosed⟩
    · cases heq
      exact ⟨0, rfl, .inl rfl, rfl⟩

/-- Three pairs with another closing bracket behind them are three; of three opening brackets with two
closing ones, none is read. -/
theorem nested_reads_pairs_missing :
    nested (.ofText "[[[]]]]x".toList) = some (.success (depthValue 3) (.ofText "]x".toList)) ∧
    nested (.ofText "[[[]]x".toList) = some (.success (depthValue 0) (.ofText "[[[]]x".toList)) ∧
    grammar.rule 3 self (.ofText "[[[]]x".toList) = none ∧
    ∃ depth, depthValue 3 = depthValue depth ∧ text depth ++ "]x".toList = "[[[]]]]x".toList := by
  have hclosed := nested_reads_pairs (.ofText "[[[]]]]x".toList)
  have hmissing := nested_reads_pairs (.ofText "[[[]]x".toList)
  have hthree : nested (.ofText "[[[]]]]x".toList) =
      some (.success (depthValue 3) (.ofText "]x".toList)) := hclosed.1
  obtain ⟨depth, hdepth, -, htext⟩ := hclosed.2.2 _ _ hthree
  exact ⟨hthree, hmissing.1, hmissing.2.1 3, depth, hdepth, htext⟩

end TextParsing.Brackets
