import TextParsing.Proofs.Grammar.Evaluation
import TextParsing.Proofs.Parser.Accounting

/-!
# Every character of the input is accounted for

An expression whose primitive parts return the text that they consume (`Expr.Accountable`), over
rules of the same kind, accounts for its input: the texts in its value, in order, and then the rest
make up the input.  This holds for the patterns of every engine.

    g.parse e input = some (.success v rest) → v.texts.flatten ++ rest.text = input.text
                                                                              (parse_accounts)
-/

namespace TextParsing

variable {n : Nat}

/-! ## Values -/

theorem Value.flatten_textsAll (vs : List Value) :
    (textsAll vs).flatten = vs.flatMap fun v => v.texts.flatten := by
  induction vs with
  | nil => rfl
  | cons v vs ih => rw [textsAll, List.flatten_append, List.flatMap_cons, ih]

/-! ## Expressions -/

namespace Expr

/-- Expressions whose primitive parts return the text that they consume.  A pattern must be one that
can be compiled by itself, and a function must take the one character that it returns, if it ever
succeeds. -/
inductive Accountable (E : Engine) : Expr n → Prop where
  | literal (s : Text) : Accountable E (.literal s)
  | newline : Accountable E .newline
  | charRun (required : Nat) (ok : Char → Bool) : Accountable E (.charRun required ok)
  | upTo (marker : Text) : Accountable E (.upTo marker)
  | pattern {s : Text} {q : Pattern} {p : PatternParser} (hs : E.compile s = .ok q)
      (hp : PatternParser.build E.compile s = .ok p) : Accountable E (.pattern p)
  | function {f : Input → Outcome Value}
      (hf : ∀ input v rest, f input = .success v rest →
        ∃ c, v = .text [c] ∧ input.text = c :: rest.text) : Accountable E (.function f)
  | sequence {es : List (Expr n)} (h : ∀ e ∈ es, Accountable E e) : Accountable E (.sequence es)
  | orElse {a b : Expr n} (ha : Accountable E a) (hb : Accountable E b) : Accountable E (.orElse a b)
  | repeatAtLeast {e : Expr n} (required : Nat) (h : Accountable E e) :
      Accountable E (.repeatAtLeast required e)
  | deferred {e : Expr n} (h : Accountable E e) : Accountable E (.deferred e)
  | reference (i : Fin n) : Accountable E (.reference i)

variable {E : Engine}

theorem accountable_anyChar : Accountable E (anyChar : Expr n) := by
  refine .function ?_
  intro input v rest h
  unfold Parser.nextChar at h
  split at h
  · next c s hs =>
    cases h
    refine ⟨c, rfl, ?_⟩
    rw [Input.text_drop, hs]
    rfl
  · cases h

theorem accountable_fail (message : Text) (skipped : Nat) :
    Accountable E (fail message skipped : Expr n) := by
  refine .function ?_
  intro input v rest h
  cases h

theorem Accountable.accounts {rule : Fin n → Parser Value}
    (hr : ∀ i, Parser.Accounts (fun v => v.texts.flatten) (rule i)) {e : Expr n}
    (h : Accountable E e) : Parser.Accounts (fun v => v.texts.flatten) (e.parser rule) := by
  have htext (v : Text) : (Value.text v).texts.flatten = id v := List.append_nil v
  induction h with
  | literal s => exact (Parser.accounts_literal s).map htext
  | newline => exact Parser.accounts_newline.map htext
  | charRun required ok => exact (Parser.accounts_runAtLeast required ok).map htext
  | upTo marker => exact (Parser.accounts_upTo marker).map htext
  | pattern hs hp => exact (Parser.accounts_pattern hs hp).map htext
  | function hf =>
    intro input v rest h
    obtain ⟨c, rfl, hin⟩ := hf input v rest (Option.some.inj h)
    exact hin.symm
  | @sequence es _ ih =>
    rw [parser, parsers_eq_map]
    refine (Parser.accounts_sequence ?_).map Value.flatten_textsAll
    intro p hp
    obtain ⟨a, ha, rfl⟩ := List.mem_map.mp hp
    exact ih a ha
  | orElse _ _ iha ihb => exact iha.orElse ihb
  | repeatAtLeast required _ ih => exact (ih.repeatAtLeast required).map Value.flatten_textsAll
  | deferred _ ih => exact ih
  | reference i => exact hr i

end Expr

/-! ## Grammars -/

namespace Grammar

variable {E : Engine} {g : Grammar n} {e : Expr n}

theorem accounts_rule (hg : ∀ i, (g i).Accountable E) (d : Nat) (i : Fin n) :
    Parser.Accounts (fun v => v.texts.flatten) (g.rule d i) := by
  refine rule_induction (P := fun _ p => Parser.Accounts (fun v => v.texts.flatten) p) ?_ ?_ d i
  · intro i input v rest h
    cases h
  · intro d hr i
    exact (hg i).accounts hr

/-- The texts in the value of an accountable expression over accountable rules, in order, and then
the rest, make up the input. -/
theorem parse_accounts (hg : ∀ i, (g i).Accountable E) (he : e.Accountable E)
    {input rest : Input} {v : Value} (h : g.parse e input = some (.success v rest)) :
    v.texts.flatten ++ rest.text = input.text :=
  he.accounts (accounts_rule hg _) input v rest h

/-- Nested parentheses around words: `p` is a parser for words. -/
def nested (p : PatternParser) : Grammar 1 := fun _ =>
  .firstOf (.sequence [.literal ['('], .many (.deferred (.reference 0)), .literal [']']])
    [.sequence [.literal ['('], .many (.deferred (.reference 0)), .literal [')']], .pattern p,
      .charRun 1 (· == 'é')]

theorem accountable_nested {s : Text} {q : Pattern} {p : PatternParser}
    (hs : E.compile s = .ok q) (hp : PatternParser.build E.compile s = .ok p) (i : Fin 1) :
    (nested p i).Accountable E := by
  have hgroup (c : Char) : (Expr.sequence [.literal ['('], .many (.deferred (.reference 0)),
      .literal [c]] : Expr 1).Accountable E := by
    refine .sequence ?_
    intro e he
    simp only [List.mem_cons, List.not_mem_nil, or_false] at he
    rcases he with rfl | rfl | rfl
    · exact .literal _
    · exact .repeatAtLeast 0 (.deferred (.reference 0))
    · exact .literal _
  exact .orElse (.orElse (.orElse (hgroup ']') (hgroup ')')) (.pattern hs hp)) (.charRun 1 _)

/-- The first alternative is abandoned at each closing parenthesis, and the last round of the
repetition is dropped. -/
theorem parse_accounts_nested :
    ∃ p v, PatternParser.build Regex.engine.compile "ab+".toList = .ok p ∧
      (nested p).parse (.sequence [.reference 0, .many (.upTo ['!'])])
        (.ofText "(abb(é)ab)y!".toList) = some (.success v (.ofText ['!'])) ∧
      v.texts.flatten ++ ['!'] = "(abb(é)ab)y!".toList := by
  have hparse : (PatternParser.build Regex.engine.compile "ab+".toList).toOption.map (fun p =>
      ((nested p).parse (.sequence [.reference 0, .many (.upTo ['!'])])
        (.ofText "(abb(é)ab)y!".toList)).map fun o => (o.isSuccess, o.rest.text)) =
      some (some (true, ['!'])) := by decide +kernel
  obtain ⟨q, hq⟩ := Regex.exists_ok (x := Regex.engine.compile "ab+".toList) (by decide +kernel)
  obtain ⟨p, hp, hparse⟩ := Regex.exists_ok_of_map hparse
  obtain ⟨o, hparse, ho⟩ := Option.map_eq_some_iff.mp hparse
  obtain ⟨hsuccess, hrest⟩ := Prod.mk.inj ho
  cases o with
  | failure e => cases hsuccess
  | success v rest =>
    obtain rfl : rest = .ofText ['!'] := Input.ext hrest
    refine ⟨p, v, hp, hparse, parse_accounts (accountable_nested hq hp) (.sequence ?_) hparse⟩
    intro e he
    simp only [List.mem_cons, List.not_mem_nil, or_false] at he
    rcases he with rfl | rfl
    · exact .reference 0
    · exact .repeatAtLeast 0 (.upTo _)

end Grammar

end TextParsing
