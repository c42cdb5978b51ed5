import TextParsing.Proofs.Regex.Local
import TextParsing.Proofs.Regex.Trailing.Escape

/-!
# Escapes in a text that goes on

    Local (readEscape verbose)                                                   (local_readEscape)
-/

namespace TextParsing.Regex

theorem readSideName_append (verbose : Bool) {s : Text} (hs : Closed s)
    (hne : (readSideName verbose s).2 ≠ []) : Closed (readSideName verbose s).2 ∧
      ∀ t, readSideName verbose (s ++ t) =
        ((readSideName verbose s).1, (readSideName verbose s).2 ++ t) :=
  run_append verbose isSideChar (by rw [readSideName]) (fun c s => by rw [readSideName]) hs hne

theorem local_readHexDigits (verbose : Bool) (n : Nat) : Local (readHexDigits verbose n) := by
  induction n with
  | zero => exact local_some []
  | succ n ih =>
    refine Local.of_cons rfl (fun c s => by rw [readHexDigits]) fun c => ?_
    split
    · exact (ih.skip verbose).map (c :: ·)
    · exact local_none

theorem local_readBraced (verbose : Bool) : Local (readBraced verbose) := by
  refine ⟨readBraced_length_le, fun {s rest digits} hs hr hne => ?_⟩
  fun_induction readBraced verbose s generalizing digits with
  | case1 => cases hr
  | case2 s r heq =>
    cases hr
    have hr0 : r ≠ [] := ne_nil_of_length_le hne (skip_length_le verbose r)
    refine ⟨(hs.skip_cons heq hr0).skip hne, fun t => ?_⟩
    rw [readBraced_of_skip (skip_append_of_cons heq t), if_pos rfl, skip_append hne]
  | case3 s c r heq hc hx ih =>
    obtain ⟨⟨ds, r1⟩, hd, he⟩ := Option.map_eq_some_iff.mp hr
    cases he
    have hr0 : r ≠ [] := ne_nil_of_length_le hne (readBraced_length_le hd)
    obtain ⟨hcl, happ⟩ := ih (hs.skip_cons heq hr0) hd
    refine ⟨hcl, fun t => ?_⟩
    rw [readBraced_of_skip (skip_append_of_cons heq t), if_neg hc, if_pos hx, happ]
    rfl
  | case4 => cases hr

theorem local_readHex (verbose : Bool) (width : Nat) : Local (readHex verbose width) := by
  have hbraced := (local_readBraced verbose).bind fun ds =>
    local_of_value (charOfHex? ds) fun c => Escape.char c false
  have hdigits := (local_readHexDigits verbose width).bind fun ds =>
    local_of_value (charOfHex? ds) fun c => Escape.char c (width == 2)
  refine Local.of_head_skip '{' verbose hbraced hdigits (fun s r h => ?_) fun s hs => ?_
  · rw [readHex, h]
    rfl
  · rw [readHex]
    split
    · next r h => exact absurd ⟨r, h⟩ hs
    · rfl

/-- What follows the brace behind the letter of a word boundary, if a name does. -/
theorem readBoundary_append {verbose : Bool} {r rest : Text} {side : WordSide}
    (hs : Closed ('{' :: r)) (hr : readBoundary verbose ('{' :: r) = some (side, rest))
    (hne : rest ≠ []) :
    Closed rest ∧ ∀ t, readBoundary verbose ('{' :: (r ++ t)) = some (side, rest ++ t) := by
  rw [readBoundary] at hr
  have hname {name rest' : Text} {c : Char}
      (heq : readSideName verbose (skip verbose r) = (name, c :: rest')) :
      Closed (c :: rest') ∧ ∀ t, readSideName verbose (skip verbose (r ++ t)) =
        (name, c :: (rest' ++ t)) := by
    have hskip : skip verbose r ≠ [] := by
      have hle := readSideName_length_le verbose (skip verbose r)
      rw [heq] at hle
      exact ne_nil_of_length_le (List.cons_ne_nil _ _) hle
    have hclosed := (hs.tail (ne_nil_of_length_le hskip (skip_length_le verbose r))).skip hskip
    have happ := readSideName_append verbose hclosed (by rw [heq]; exact List.cons_ne_nil _ _)
    rw [heq] at happ
    exact ⟨happ.1, fun t => by rw [skip_append hskip, happ.2]; rfl⟩
  split at hr
  · cases hr
  · next heq =>
    cases hr
    refine ⟨hs, fun t => ?_⟩
    rw [readBoundary, (hname heq).2]
    rfl
  · next name rest' hname0 heq =>
    obtain ⟨side', hside, he⟩ := Option.map_eq_some_iff.mp hr
    cases he
    obtain ⟨hcl, happ⟩ := hname heq
    refine ⟨hcl.tail hne, fun t => ?_⟩
    rw [readBoundary, happ]
    cases name with
    | nil => exact (hname0 rfl).elim
    | cons a as => simp only [hside, Option.map_some]
  · cases hr

theorem local_readBoundary (verbose : Bool) : Local (readBoundary verbose) := by
  refine ⟨readBoundary_length_le, fun {s rest side} hs hr hne => ?_⟩
  by_cases hb : ∃ r, s = '{' :: r
  · obtain ⟨r, rfl⟩ := hb
    exact readBoundary_append hs hr hne
  · have none_of {u : Text} (hu : ¬ ∃ r, u = '{' :: r) :
        readBoundary verbose u = some (.boundary, u) := by
      unfold readBoundary
      split
      · next r => exact absurd ⟨r, rfl⟩ hu
      · rfl
    rw [none_of hb] at hr
    cases hr
    refine ⟨hs, fun t => none_of ?_⟩
    rintro ⟨r, h⟩
    cases s with
    | nil => exact hne rfl
    | cons c s =>
      cases h
      exact hb ⟨s, rfl⟩

theorem local_readEscape (verbose : Bool) : Local (readEscape verbose) := by
  refine Local.of_cons rfl (fun c s => by rw [readEscape]) fun c => ?_
  split
  · exact (local_readBoundary verbose).map fun side => Escape.assertion (.word side)
  · cases hexWidth? c with
    | some width => exact local_readHex verbose width
    | none => exact local_of_value (escapeOf? c) id

end TextParsing.Regex
