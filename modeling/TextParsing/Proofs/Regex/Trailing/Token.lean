import TextParsing.Proofs.Regex.Trailing.Bracket
import TextParsing.Regex.Token

/-!
# Tokens with a closing parenthesis behind them

    Steady (readToken verbose c)                                                  (steady_readToken)
-/

namespace TextParsing.Regex

variable {w : Text}

theorem readReluctant_of_ne {least : Nat} {most : Option Nat} {s : Text} (h : ¬ ∃ r, s = '?' :: r) :
    readReluctant least most s = (.count least most false, s) := by
  unfold readReluctant
  split
  · next r => exact absurd ⟨r, rfl⟩ h
  · rfl

theorem steady_readReluctant (least : Nat) (most : Option Nat) :
    Steady fun s => some (readReluctant least most s) := by
  refine ⟨fun {w s s' rest t} h hr => ?_⟩
  by_cases hs : ∃ r, s = '?' :: r
  · obtain ⟨r, rfl⟩ := hs
    obtain ⟨r', rfl, ht⟩ := h.cons rfl
    cases hr
    exact ⟨r', rfl, ht⟩
  · rw [readReluctant_of_ne hs] at hr
    cases hr
    exact ⟨s', by rw [readReluctant_of_ne (h.not_cons (by decide) hs)], h⟩

theorem steady_closeCount (verbose : Bool) (least : Nat) (most : Option Nat) :
    Steady (closeCount verbose least most) := by
  refine ⟨fun {w s s' rest t} h hr => ?_⟩
  unfold closeCount at hr
  split at hr
  · next r =>
    obtain ⟨r', rfl, ht⟩ := h.cons rfl
    rw [closeCount]
    split at hr
    · next hb =>
      rw [if_pos hb]
      exact (steady_readReluctant least most).follow (ht.skip verbose) hr
    · cases hr
  · cases hr

/-- What follows the comma of a counted repetition. -/
def readMost (verbose : Bool) (least : Nat) (s : Text) : Option (Token × Text) :=
  match s with
  | '}' :: _ => closeCount verbose least none s
  | r => (readCount verbose r).bind fun (most, r) => closeCount verbose least (some most) r

/-- What follows the first number of a counted repetition. -/
def readBounds (verbose : Bool) (least : Nat) : Text → Option (Token × Text)
  | ',' :: r => readMost verbose least (skip verbose r)
  | r => closeCount verbose least (some least) r

theorem readCounts_eq (verbose : Bool) (s : Text) :
    readCounts verbose s =
      (readCount verbose (skip verbose s)).bind fun (least, r) => readBounds verbose least r := rfl

theorem steady_readMost (verbose : Bool) (least : Nat) : Steady (readMost verbose least) := by
  refine ⟨fun {w s s' rest t} h hr => ?_⟩
  unfold readMost at hr
  split at hr
  · next r =>
    obtain ⟨r', rfl, -⟩ := h.cons rfl
    exact (steady_closeCount verbose least none).follow h hr
  · next hne =>
    unfold readMost
    split
    · next r' =>
      obtain ⟨r, hs, -⟩ := h.of_cons_right (by decide)
      exact absurd hs (hne r)
    · exact ((steady_readCount verbose).bind fun most =>
        steady_closeCount verbose least (some most)).follow h hr

theorem steady_readBounds (verbose : Bool) (least : Nat) : Steady (readBounds verbose least) := by
  refine ⟨fun {w s s' rest t} h hr => ?_⟩
  unfold readBounds at hr
  split at hr
  · next r =>
    obtain ⟨r', rfl, ht⟩ := h.cons rfl
    exact (steady_readMost verbose least).follow (ht.skip verbose) hr
  · next hne =>
    unfold readBounds
    split
    · next r' =>
      obtain ⟨r, hs, -⟩ := h.of_cons_right (by decide)
      exact absurd hs (hne r)
    · exact (steady_closeCount verbose least (some least)).follow h hr

theorem steady_readCounts (verbose : Bool) : Steady (readCounts verbose) := by
  refine ⟨fun {w s s' rest t} h hr => ?_⟩
  rw [readCounts_eq] at hr ⊢
  exact ((steady_readCount verbose).bind (steady_readBounds verbose)).follow (h.skip verbose) hr

theorem steady_readName : Steady readName := by
  refine ⟨fun {w s s' rest name} h hr => ?_⟩
  cases s with
  | nil => cases hr
  | cons c s =>
    obtain ⟨r', rfl, ht⟩ := h.cons rfl
    rw [readName] at hr ⊢
    split at hr
    · next hc =>
      rw [if_pos hc]
      split at hr
      · next r heq =>
        cases hr
        obtain ⟨u', heq', htr⟩ := (ht.dropWhile_of_ne_nil (heq ▸ List.cons_ne_nil _ _)).cons heq
        rw [heq', ht.takeWhile_eq (by rw [heq]; simp)]
        exact ⟨u', rfl, htr⟩
      · cases hr
    · cases hr

theorem steady_readFlags (seen : FlagChange) (off dangling : Bool) {s s' rest : Text}
    {change : FlagChange} {close : FlagsEnd} (h : Trailing w s s')
    (hr : readFlags seen off dangling s = some (change, close, rest)) :
    ∃ rest', readFlags seen off dangling s' = some (change, close, rest') ∧
      Trailing w rest rest' := by
  induction s generalizing seen off dangling s' with
  | nil => cases hr
  | cons c s ih =>
    obtain ⟨r', rfl, ht⟩ := h.cons rfl
    unfold readFlags at hr ⊢
    split at hr
    · next hc =>
      rw [if_pos hc]
      split at hr
      · cases hr
      · next hd =>
        cases hr
        exact ⟨r', if_neg hd, ht⟩
    · next hc =>
      rw [if_neg hc]
      split at hr
      · next hp =>
        rw [if_pos hp]
        split at hr
        · cases hr
        · next hd =>
          cases hr
          exact ⟨r', if_neg hd, ht⟩
      · next hp =>
        rw [if_neg hp]
        split at hr
        · next hm =>
          rw [if_pos hm]
          split at hr
          · cases hr
          · next ho =>
            rw [if_neg ho]
            exact ih _ _ _ ht hr
        · next hm =>
          rw [if_neg hm]
          split at hr
          · cases hr
          · split at hr
            · cases hr
            · next hs =>
              rw [if_neg hs]
              exact ih _ _ _ ht hr

theorem steady_readNamedGroup : Steady readNamedGroup :=
  steady_readName.map fun name => Token.openGroup (.named name)

theorem steady_readFlagGroup : Steady readFlagGroup := by
  refine ⟨fun {w s s' rest t} h hr => ?_⟩
  unfold readFlagGroup at hr ⊢
  split at hr
  · next hf =>
    cases hr
    obtain ⟨rest', hf', htr⟩ := steady_readFlags _ _ _ h hf
    rw [hf']
    exact ⟨rest', rfl, htr⟩
  · cases hr
  · next change _ hne hf =>
    cases hr
    obtain ⟨rest', hf', htr⟩ := steady_readFlags _ _ _ h hf
    rw [hf']
    cases change with
    | nil => exact (hne rfl).elim
    | cons f fs => exact ⟨rest', rfl, htr⟩
  · cases hr

theorem readGroup_of_lt {s : Text} (he : ¬ ∃ r, s = '=' :: r) (hb : ¬ ∃ r, s = '!' :: r) :
    readGroup ('?' :: '<' :: s) = readNamedGroup s := by
  unfold readGroup
  split
  · next h => cases h
  · next h =>
    cases h
    exact absurd ⟨_, rfl⟩ he
  · next h =>
    cases h
    exact absurd ⟨_, rfl⟩ hb
  · next h =>
    cases h
    rfl
  · next hn h =>
    cases h
    exact (hn _ rfl).elim
  · next hn => exact (hn _ rfl).elim

theorem readGroup_of_question {s : Text} (hp : ¬ ∃ r, s = 'P' :: '<' :: r)
    (hl : ¬ ∃ r, s = '<' :: r) : readGroup ('?' :: s) = readFlagGroup s := by
  unfold readGroup
  split
  · next h =>
    cases h
    exact absurd ⟨_, rfl⟩ hp
  · next h =>
    cases h
    exact absurd ⟨_, rfl⟩ hl
  · next h =>
    cases h
    exact absurd ⟨_, rfl⟩ hl
  · next h =>
    cases h
    exact absurd ⟨_, rfl⟩ hl
  · next h =>
    cases h
    rfl
  · next hn => exact (hn _ rfl).elim

theorem readGroup_of_ne {s : Text} (h : ¬ ∃ r, s = '?' :: r) :
    readGroup s = some (.openGroup .numbered, s) := by
  unfold readGroup
  split
  all_goals first
    | exact absurd ⟨_, rfl⟩ h
    | rfl

theorem steady_readGroup : Steady readGroup := by
  refine ⟨fun {w s s' rest t} h hr => ?_⟩
  by_cases hq : ∃ r, s = '?' :: r
  · obtain ⟨r, rfl⟩ := hq
    obtain ⟨r', rfl, ht⟩ := h.cons rfl
    by_cases hl : ∃ u, r = '<' :: u
    · obtain ⟨u, rfl⟩ := hl
      obtain ⟨u', rfl, hu⟩ := ht.cons rfl
      by_cases he : ∃ v, u = '=' :: v
      · obtain ⟨v, rfl⟩ := he
        cases hr
      · by_cases hb : ∃ v, u = '!' :: v
        · obtain ⟨v, rfl⟩ := hb
          cases hr
        · rw [readGroup_of_lt he hb] at hr
          rw [readGroup_of_lt (hu.not_cons (by decide) he) (hu.not_cons (by decide) hb)]
          exact steady_readNamedGroup.follow hu hr
    · by_cases hp : ∃ u, r = 'P' :: '<' :: u
      · obtain ⟨u, rfl⟩ := hp
        obtain ⟨t', rfl, hu⟩ := ht.cons rfl
        obtain ⟨u', rfl, hv⟩ := hu.cons rfl
        exact steady_readNamedGroup.follow hv hr
      · have hp' : ¬ ∃ u, r' = 'P' :: '<' :: u := by
          rintro ⟨u', rfl⟩
          obtain ⟨v, rfl, hv⟩ := ht.of_cons_right (by decide)
          obtain ⟨u, rfl, -⟩ := hv.of_cons_right (by decide)
          exact hp ⟨u, rfl⟩
        rw [readGroup_of_question hp hl] at hr
        rw [readGroup_of_question hp' (ht.not_cons (by decide) hl)]
        exact steady_readFlagGroup.follow ht hr
  · rw [readGroup_of_ne hq] at hr
    cases hr
    exact ⟨s', readGroup_of_ne (h.not_cons (by decide) hq), h⟩

/-- A reader that reads nothing. -/
theorem steady_of_some {β : Type} (b : β) : Steady fun s => some (b, s) :=
  steady_of_value (some ()) fun _ => b

theorem steady_readToken (verbose : Bool) (c : Char) : Steady (readToken verbose c) := by
  refine ⟨fun {w s s' rest t} h hr => ?_⟩
  unfold readToken at hr ⊢
  split at hr
  case h_1 => exact steady_readGroup.follow (h.skip verbose) hr
  case h_4 =>
    exact ((steady_readClass verbose).map fun set => Token.atom (.bracketed set)).follow h hr
  case h_5 => exact (steady_readReluctant 0 (some 1)).follow h hr
  case h_6 => exact (steady_readReluctant 0 none).follow h hr
  case h_7 => exact (steady_readReluctant 1 none).follow h hr
  case h_8 => exact (steady_readCounts verbose).follow h hr
  case h_9 => exact ((steady_readEscape verbose).map fun e => Token.atom e.toAtom).follow h hr
  all_goals exact (steady_of_some _).follow h hr

end TextParsing.Regex
