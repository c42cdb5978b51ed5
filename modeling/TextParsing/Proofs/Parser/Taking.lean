import TextParsing.Parser.Literal
import TextParsing.Parser.Number
import TextParsing.Proofs.Parser.Combinators

/-!
# Parsers that take what was written for them

`Takes p s v rest` says that the parser `p`, on the text `s` followed by `rest`, takes just `s` and
answers with `v`.  It is what a reader owes to a writer: each primitive takes what it is meant for,
provided that what follows cannot be taken for a continuation, and combined parsers take what their
parts take one after the other.

    c ∉ s → Takes (upTo [c]) s s (c :: rest)                                        (takes_upTo)
    rest.takeWhile Char.isDigit = [] → Takes number (Text.decimal n.toNat) n rest  (takes_number)

A repetition takes the texts of several items if its part takes each of them, whatever may follow
it there, and goes no further at the rest (`takes_repeatAtLeast`).
-/

namespace TextParsing.Parser

variable {α β ι : Type} {p q : Parser α} {ps : List (Parser α)} {s t rest : Text} {v : α}

/-- The parser takes the text in front of the rest, with the given value. -/
def Takes (p : Parser α) (s : Text) (v : α) (rest : Text) : Prop :=
  p (.ofText (s ++ rest)) = some (.success v (.ofText rest))

/-- The parser fails on the text. -/
def FailsAt (p : Parser α) (s : Text) : Prop := ∃ e, p (.ofText s) = some (.failure e)

/-- A repetition of the parser ends at the text. -/
def StopsAt (p : Parser α) (s : Text) : Prop := s = [] ∨ FailsAt p s

/-! ## Primitive parsers -/

theorem takes_literal (s rest : Text) : Takes (literal s) s s rest :=
  literal_eq_success_iff.mpr ⟨rfl, rfl⟩

theorem failsAt_literal (h : ¬ s <+: t) : FailsAt (literal s) t :=
  ⟨_, congrArg some (if_neg h)⟩

theorem takes_newline (rest : Text) : Takes newline ['\n'] ['\n'] rest :=
  newline_eq_success_iff.mpr ⟨rfl, rfl⟩

theorem failsAt_newline (h : ¬ ['\n'] <+: t) : FailsAt newline t := by
  obtain ⟨e, he⟩ := failsAt_literal h
  exact ⟨_, orFail_eq_failure_iff.mpr ⟨rfl, e, he⟩⟩

theorem takes_runAtLeast {required : Nat} {ok : Char → Bool} (hlen : required ≤ s.length)
    (hs : ∀ c ∈ s, ok c = true) (hrest : rest.takeWhile ok = []) :
    Takes (runAtLeast required ok) s s rest := by
  have hdrop : rest.dropWhile ok = rest := by
    have := List.takeWhile_append_dropWhile (p := ok) (l := rest)
    rwa [hrest, List.nil_append] at this
  refine runAtLeast_eq_success_iff.mpr ⟨hlen, ?_, ?_⟩
  · rw [Input.text_ofText, List.takeWhile_append_of_pos hs, hrest, List.append_nil]
  · rw [Input.text_ofText, Input.text_ofText, List.dropWhile_append_of_pos hs, hdrop]

theorem runAtLeast_of_short {required : Nat} {ok : Char → Bool} (hlen : s.length < required)
    (hs : ∀ c ∈ s, ok c = true) (hrest : rest.takeWhile ok = []) :
    runAtLeast required ok (.ofText (s ++ rest)) =
      some (.failure ⟨.runTooShort required s.length, s ++ rest⟩) := by
  unfold runAtLeast ofFunction
  dsimp only
  rw [Input.text_ofText, List.takeWhile_append_of_pos hs, hrest, List.append_nil, if_pos hlen]

theorem find?_append_cons {c : Char} (h : c ∉ s) :
    Text.find? [c] (s ++ c :: rest) = some s.length := by
  induction s with
  | nil => exact if_pos ⟨rest, rfl⟩
  | cons d s ih =>
    obtain ⟨hd, hs⟩ := not_or.mp (mt List.mem_cons.mpr h)
    have hnot : ¬ [c] <+: d :: (s ++ c :: rest) := by
      intro hp
      exact hd (List.cons_prefix_cons.mp hp).1
    rw [List.cons_append, Text.find?, if_neg hnot, ih hs]
    rfl

theorem upTo_of_find? {marker : Text} {input : Input} {i : Nat}
    (h : Text.find? marker input.text = some i) :
    upTo marker input = some (.success (input.text.take i) (input.drop i)) := by
  unfold upTo ofFunction
  dsimp only
  rw [h]

theorem takes_upTo {c : Char} (h : c ∉ s) : Takes (upTo [c]) s s (c :: rest) := by
  have hfind : Text.find? [c] (Input.ofText (s ++ c :: rest)).text = some s.length :=
    find?_append_cons h
  have hrest : (Input.ofText (s ++ c :: rest)).drop s.length = .ofText (c :: rest) :=
    Input.ext List.drop_left
  rw [Takes, upTo_of_find? hfind, hrest, Input.text_ofText, List.take_left]

/-- A number is taken from its numeral if no further digit follows. -/
theorem takes_number (n : UInt64) (hrest : rest.takeWhile Char.isDigit = []) :
    Takes number (Text.decimal n.toNat) n rest := by
  have hdigits : ∀ c ∈ Text.decimal n.toNat, c.isDigit = true :=
    fun c hc => Nat.isDigit_of_mem_toDigits (by decide) (by decide) hc
  have hrun : Takes (runAtLeast 1 Char.isDigit) (Text.decimal n.toNat) (Text.decimal n.toNat) rest :=
    takes_runAtLeast Nat.length_toDigits_pos hdigits hrest
  have hword : Text.word? (Text.decimal n.toNat) = some n :=
    Text.word?_eq_some_iff.mpr (Text.ofDecimal_decimal n.toNat)
  exact number_of_word hrun hword

/-! ## Combined parsers -/

theorem Takes.map (f : α → β) (h : Takes p s v rest) : Takes (p.map f) s (f v) rest :=
  map_eq_success_iff.mpr ⟨v, h, rfl⟩

theorem FailsAt.map (f : α → β) (h : FailsAt p s) : FailsAt (p.map f) s := by
  obtain ⟨e, he⟩ := h
  exact ⟨e, map_eq_failure_iff.mpr he⟩

theorem Takes.inOrder_cons {vs : List α} (h : Takes p s v (t ++ rest))
    (hs : Takes (inOrder ps) t vs rest) : Takes (inOrder (p :: ps)) (s ++ t) (v :: vs) rest := by
  refine inOrder_cons_eq_success_iff.mpr ⟨v, _, vs, ?_, hs, rfl⟩
  rw [List.append_assoc]
  exact h

theorem Takes.inOrder_one (h : Takes p s v rest) : Takes (inOrder [p]) s [v] rest :=
  inOrder_cons_eq_success_iff.mpr ⟨v, _, [], h, rfl, rfl⟩

theorem Takes.sequence {vs : List α} (h : Takes (inOrder ps) s vs rest) :
    Takes (sequence ps) s vs rest :=
  sequence_eq_success_iff.mpr h

theorem FailsAt.inOrder (h : FailsAt p s) : FailsAt (inOrder (p :: ps)) s := by
  obtain ⟨e, he⟩ := h
  exact ⟨e, inOrder_cons_of_failure he⟩

theorem Takes.inOrder_cons_failsAt (h : Takes p s v t) (hs : FailsAt (inOrder ps) t) :
    FailsAt (inOrder (p :: ps)) (s ++ t) := by
  obtain ⟨e, he⟩ := hs
  refine ⟨e, ?_⟩
  rw [inOrder_cons_of_success h, he]
  rfl

/-- A sequence fails where one of its parsers does after those in front of it. -/
theorem failsAt_sequence (h : FailsAt (inOrder ps) s) : FailsAt (sequence ps) s := by
  obtain ⟨e, he⟩ := h
  exact ⟨_, sequence_eq_failure_iff.mpr ⟨rfl, e, he⟩⟩

theorem FailsAt.sequence (h : FailsAt p s) : FailsAt (sequence (p :: ps)) s :=
  failsAt_sequence h.inOrder

theorem Takes.orElse_left (h : Takes p s v rest) : Takes (orElse p q) s v rest :=
  orElse_of_success h

theorem Takes.orElse_right (hp : FailsAt p (s ++ rest)) (hq : Takes q s v rest) :
    Takes (orElse p q) s v rest :=
  orElse_eq_success_iff.mpr (.inr ⟨hp, hq⟩)

theorem FailsAt.orElse (hp : FailsAt p s) (hq : FailsAt q s) : FailsAt (orElse p q) s := by
  obtain ⟨e, he⟩ := hp
  obtain ⟨e', he'⟩ := hq
  exact ⟨_, (orElse_of_failure he).trans (orFail_eq_failure_iff.mpr ⟨rfl, e', he'⟩)⟩

section Repetition

variable {items : List ι} {text : ι → Text} {value : ι → α} {Follow : Text → Prop}

/-- What may follow an item follows each of them, if it may follow the last. -/
theorem follow_flatMap (hitem : ∀ i ∈ items, ∀ t, Follow t → Follow (text i ++ t))
    (hrest : Follow rest) : Follow (items.flatMap text ++ rest) := by
  induction items with
  | nil => exact hrest
  | cons i items ih =>
    rw [List.flatMap_cons, List.append_assoc]
    refine hitem i List.mem_cons_self _ (ih ?_)
    exact fun j hj => hitem j (List.mem_cons_of_mem _ hj)

/-- The rounds of a repetition take one item after the other. -/
theorem rounds_flatMap (htext : ∀ i ∈ items, text i ≠ [])
    (htakes : ∀ i ∈ items, ∀ t, Follow t → Takes p (text i) (value i) t)
    (hitem : ∀ i ∈ items, ∀ t, Follow t → Follow (text i ++ t)) (hrest : Follow rest)
    (hstop : StopsAt p rest) :
    rounds p (.ofText (items.flatMap text ++ rest)) = some (items.map value, .ofText rest) := by
  induction items with
  | nil =>
    rcases hstop with rfl | ⟨e, he⟩
    · exact rounds_of_length_eq_zero rfl
    · exact rounds_of_failure he
  | cons i items ih =>
    have hothers {P : ι → Prop} (h : ∀ j ∈ i :: items, P j) : ∀ j ∈ items, P j :=
      fun j hj => h j (List.mem_cons_of_mem _ hj)
    have hfollow := follow_flatMap (hothers hitem) hrest
    have htake := htakes i List.mem_cons_self _ hfollow
    have hlt : (Input.ofText (items.flatMap text ++ rest)).length <
        (Input.ofText (text i ++ (items.flatMap text ++ rest))).length := by
      have := List.length_pos_iff.mpr (htext i List.mem_cons_self)
      show List.length _ < List.length _
      simp only [List.length_append]
      omega
    rw [List.flatMap_cons, List.append_assoc, rounds_of_success htake hlt,
      ih (hothers htext) (hothers htakes) (hothers hitem)]
    rfl

theorem takes_repeatAtLeast {required : Nat} (htext : ∀ i ∈ items, text i ≠ [])
    (htakes : ∀ i ∈ items, ∀ t, Follow t → Takes p (text i) (value i) t)
    (hitem : ∀ i ∈ items, ∀ t, Follow t → Follow (text i ++ t)) (hrest : Follow rest)
    (hstop : StopsAt p rest) (hle : required ≤ items.length) :
    Takes (repeatAtLeast required p) (items.flatMap text) (items.map value) rest :=
  repeatAtLeast_eq_success_iff.mpr
    ⟨rounds_flatMap htext htakes hitem hrest hstop, by rwa [List.length_map]⟩

/-- Items that are taken whatever follows them. -/
theorem takes_repeatAtLeast_of_forall {required : Nat} (htext : ∀ i ∈ items, text i ≠ [])
    (htakes : ∀ i ∈ items, ∀ t, Takes p (text i) (value i) t) (hstop : StopsAt p rest)
    (hle : required ≤ items.length) :
    Takes (repeatAtLeast required p) (items.flatMap text) (items.map value) rest := by
  have hany : ∀ i ∈ items, ∀ t, True → Takes p (text i) (value i) t := fun i hi t _ => htakes i hi t
  exact takes_repeatAtLeast htext hany (fun _ _ _ h => h) trivial hstop hle

end Repetition

end TextParsing.Parser
