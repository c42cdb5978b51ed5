import TextParsing.Proofs.Regex.Local.Bracket
import TextParsing.Proofs.Regex.Trailing.Token

/-!
# Tokens in a text that goes on

    Local (readToken verbose c)                                                   (local_readToken)
-/

namespace TextParsing.Regex

/-! ## Repetition -/

theorem local_readReluctant (least : Nat) (most : Option Nat) :
    Local fun s => some (readReluctant least most s) :=
  Local.of_head '?' (local_some _) (local_some _) (fun _ => rfl) fun _ hs =>
    congrArg some (readReluctant_of_ne hs)

theorem local_closeCount (verbose : Bool) (least : Nat) (most : Option Nat) :
    Local (closeCount verbose least most) := by
  have hclose : Local fun s => if most.all (least ≤ ·) then
      some (readReluctant least most (skip verbose s)) else none := by
    split
    · exact (local_readReluctant least most).skip verbose
    · exact local_none
  refine Local.of_head '}' hclose local_none (fun _ => rfl) fun s hs => ?_
  unfold closeCount
  split
  · next r => exact absurd ⟨r, rfl⟩ hs
  · rfl

theorem local_readMost (verbose : Bool) (least : Nat) : Local (readMost verbose least) := by
  refine Local.of_head '}' ((local_readReluctant least none).skip verbose)
    ((local_readCount verbose).bind fun most => local_closeCount verbose least (some most))
    (fun _ => rfl) fun s hs => ?_
  unfold readMost
  split
  · next r => exact absurd ⟨r, rfl⟩ hs
  · rfl

theorem local_readBounds (verbose : Bool) (least : Nat) : Local (readBounds verbose least) := by
  refine Local.of_head ',' ((local_readMost verbose least).skip verbose)
    (local_closeCount verbose least (some least)) (fun _ => rfl) fun s hs => ?_
  unfold readBounds
  split
  · next r => exact absurd ⟨r, rfl⟩ hs
  · rfl

theorem local_readCounts (verbose : Bool) : Local (readCounts verbose) :=
  ((local_readCount verbose).bind (local_readBounds verbose)).skip verbose

/-! ## Groups -/

theorem local_readName : Local readName := by
  refine ⟨readName_length_le, fun {s rest name} hs hr hne => ?_⟩
  cases s with
  | nil => cases hr
  | cons c s =>
    rw [readName] at hr
    split at hr
    · next hc =>
      split at hr
      · next r heq =>
        cases hr
        have hd : s.dropWhile isNameChar ≠ [] := heq ▸ List.cons_ne_nil _ _
        have hsuffix : rest <:+ s :=
          (List.suffix_cons '>' rest).trans (heq ▸ List.dropWhile_suffix isNameChar)
        refine ⟨hs.of_suffix (hsuffix.trans (List.suffix_cons c s)) hne, fun t => ?_⟩
        rw [List.cons_append, readName, if_pos hc, dropWhile_append_of_ne_nil hd,
          takeWhile_append_of_ne_nil hd, heq]
        rfl
      · cases hr
    · cases hr

theorem local_readNamedGroup : Local readNamedGroup :=
  local_readName.map fun name => Token.openGroup (.named name)

theorem readFlags_append {seen : FlagChange} {off dangling : Bool} {s rest : Text}
    {change : FlagChange} {close : FlagsEnd} (hs : Closed s)
    (hr : readFlags seen off dangling s = some (change, close, rest)) (hne : rest ≠ []) :
    Closed rest ∧ ∀ t, readFlags seen off dangling (s ++ t) = some (change, close, rest ++ t) := by
  induction s generalizing seen off dangling with
  | nil => cases hr
  | cons c s ih =>
    unfold readFlags at hr
    have hend {e : FlagsEnd} (h : (if dangling then none else some (seen, e, s)) =
        some (change, close, rest)) : Closed rest ∧
          ∀ t, (if dangling then none else some (seen, e, s ++ t)) =
            some (change, close, rest ++ t) := by
      split at h
      · cases h
      · next hd =>
        cases h
        exact ⟨hs.tail hne, fun t => if_neg hd⟩
    have hgo {seen' : FlagChange} {off' dangling' : Bool}
        (h : readFlags seen' off' dangling' s = some (change, close, rest)) : Closed rest ∧
          ∀ t, readFlags seen' off' dangling' (s ++ t) = some (change, close, rest ++ t) :=
      ih (hs.tail (ne_nil_of_length_le hne (readFlags_length_le h))) h
    simp only [List.cons_append, readFlags]
    split at hr
    · next hc =>
      simp only [if_pos hc]
      exact hend hr
    · next hc =>
      simp only [if_neg hc]
      split at hr
      · next hp =>
        simp only [if_pos hp]
        exact hend hr
      · next hp =>
        simp only [if_neg hp]
        split at hr
        · next hm =>
          simp only [if_pos hm]
          split at hr
          · cases hr
          · next ho =>
            simp only [if_neg ho]
            exact hgo hr
        · next hm =>
          simp only [if_neg hm]
          split at hr
          · cases hr
          · split at hr
            · cases hr
            · next hs =>
              simp only [if_neg hs]
              exact hgo hr

theorem local_readFlagGroup : Local readFlagGroup := by
  refine ⟨readFlagGroup_length_le, fun {s rest t} hs hr hne => ?_⟩
  unfold readFlagGroup at hr ⊢
  split at hr
  · next hf =>
    cases hr
    obtain ⟨hcl, happ⟩ := readFlags_append hs hf hne
    exact ⟨hcl, fun t => by rw [happ]⟩
  · cases hr
  · next change _ hchange hf =>
    cases hr
    obtain ⟨hcl, happ⟩ := readFlags_append hs hf hne
    refine ⟨hcl, fun t => ?_⟩
    rw [happ]
    cases change with
    | nil => exact (hchange rfl).elim
    | cons f fs => rfl
  · cases hr

/-- A reader that refuses what begins with a character. -/
theorem Local.unless {α : Type} {read : Text → Option (α × Text)} (h : Local read) (c : Char) :
    Local fun s => if s.head? = some c then none else read s :=
  Local.of_head c local_none h (fun _ => if_pos rfl) fun _ hs => if_neg fun hc =>
    hs (List.head?_eq_some_iff.mp hc)

theorem local_readGroup : Local readGroup := by
  have hlt : Local fun s => readGroup ('?' :: '<' :: s) := by
    refine Local.of_head '=' local_none (local_readNamedGroup.unless '!') (fun _ => rfl) fun s he => ?_
    split
    · next hb =>
      obtain ⟨r, rfl⟩ := List.head?_eq_some_iff.mp hb
      rfl
    · next hb =>
      refine readGroup_of_lt he ?_
      rintro ⟨r, rfl⟩
      exact hb rfl
  have hp : Local fun s => readGroup ('?' :: 'P' :: s) := by
    refine Local.of_head '<' local_readNamedGroup local_none (fun _ => rfl) fun s hl => ?_
    rw [readGroup_of_question]
    · rfl
    · rintro ⟨r, hr⟩
      cases hr
      exact hl ⟨r, rfl⟩
    · rintro ⟨r, hr⟩
      cases hr
  have hquestion : Local fun s => readGroup ('?' :: s) := by
    have hother : Local fun s =>
        if s.head? = some 'P' then readGroup ('?' :: s) else readFlagGroup s :=
      Local.of_head 'P' hp local_readFlagGroup (fun _ => if_pos rfl) fun s hs => if_neg fun hc =>
        hs (List.head?_eq_some_iff.mp hc)
    refine Local.of_head '<' hlt hother (fun _ => rfl) fun s hl => ?_
    split
    · rfl
    · next hc =>
      refine readGroup_of_question ?_ hl
      rintro ⟨r, rfl⟩
      exact hc rfl
  exact Local.of_head '?' hquestion (local_some _) (fun _ => rfl) fun _ hs => readGroup_of_ne hs

theorem local_readToken (verbose : Bool) (c : Char) : Local (readToken verbose c) := by
  unfold readToken
  split
  case h_1 => exact local_readGroup.skip verbose
  case h_4 => exact (local_readClass verbose).map fun set => Token.atom (.bracketed set)
  case h_5 => exact local_readReluctant 0 (some 1)
  case h_6 => exact local_readReluctant 0 none
  case h_7 => exact local_readReluctant 1 none
  case h_8 => exact local_readCounts verbose
  case h_9 => exact (local_readEscape verbose).map fun e => Token.atom e.toAtom
  all_goals exact local_some _

end TextParsing.Regex
