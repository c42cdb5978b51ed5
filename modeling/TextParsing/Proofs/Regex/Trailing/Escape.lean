import TextParsing.Proofs.Regex.Trailing
import TextParsing.Regex.Escape

/-!
# Escapes with a closing parenthesis behind them

    Steady (readEscape verbose)                                                  (steady_readEscape)
-/

namespace TextParsing.Regex

variable {w : Text}

theorem trailing_readSideName (verbose : Bool) {s s' : Text} (h : Trailing w s s') :
    (readSideName verbose s').1 = (readSideName verbose s).1 ∧
      Trailing w (readSideName verbose s).2 (readSideName verbose s').2 :=
  trailing_run verbose isSideChar (by decide) (by rw [readSideName])
    (fun c s => by rw [readSideName]) h

theorem steady_readHexDigits (verbose : Bool) (n : Nat) : Steady (readHexDigits verbose n) := by
  refine ⟨fun {w s s' rest digits} h hr => ?_⟩
  induction n generalizing s s' digits with
  | zero =>
    cases hr
    exact ⟨s', rfl, h⟩
  | succ n ih =>
    cases s with
    | nil => cases hr
    | cons c s =>
      obtain ⟨r', rfl, ht⟩ := h.cons rfl
      rw [readHexDigits] at hr ⊢
      split at hr
      · next hx =>
        obtain ⟨⟨ds, r⟩, hd, he⟩ := Option.map_eq_some_iff.mp hr
        cases he
        obtain ⟨rest', hd', htr⟩ := ih (ht.skip verbose) hd
        rw [if_pos hx, hd']
        exact ⟨rest', rfl, htr⟩
      · cases hr

theorem readBraced_of_skip {verbose : Bool} {c : Char} {s r : Text}
    (h : skip verbose s = c :: r) :
    readBraced verbose s =
      if c = '}' then some ([], skip verbose r)
      else if isHexDigit c then
        (readBraced verbose r).map fun (digits, rest) => (c :: digits, rest)
      else none := by
  rw [readBraced]
  split
  · next h' =>
    rw [h] at h'
    cases h'
  · next h' =>
    rw [h] at h'
    cases h'
    rfl

theorem steady_readBraced (verbose : Bool) : Steady (readBraced verbose) := by
  refine ⟨fun {w s s' rest digits} h hr => ?_⟩
  fun_induction readBraced verbose s generalizing s' digits with
  | case1 => cases hr
  | case2 s r heq =>
    cases hr
    obtain ⟨r', heq', ht⟩ := h.skip_cons heq
    exact ⟨skip verbose r', by rw [readBraced_of_skip heq', if_pos rfl], ht.skip verbose⟩
  | case3 s c r heq hc hx ih =>
    obtain ⟨⟨ds, r1⟩, hd, he⟩ := Option.map_eq_some_iff.mp hr
    cases he
    obtain ⟨r', heq', ht⟩ := h.skip_cons heq
    obtain ⟨rest', hd', htr⟩ := ih ht hd
    refine ⟨rest', ?_, htr⟩
    rw [readBraced_of_skip heq', if_neg hc, if_pos hx, hd']
    rfl
  | case4 => cases hr

theorem steady_readHex (verbose : Bool) (width : Nat) : Steady (readHex verbose width) := by
  refine ⟨fun {w s s' rest e} h hr => ?_⟩
  unfold readHex at hr ⊢
  split at hr
  · next r heq =>
    obtain ⟨r', heq', ht⟩ := h.skip_cons heq
    rw [heq']
    exact ((steady_readBraced verbose).bind fun ds =>
      steady_of_value (charOfHex? ds) fun c => Escape.char c false).follow ht hr
  · next hne =>
    split
    · next r' heq' =>
      obtain ⟨r, heq, -⟩ := (heq' ▸ h.skip verbose).of_cons_right (by decide)
      exact absurd heq (hne r)
    · exact ((steady_readHexDigits verbose width).bind fun ds =>
        steady_of_value (charOfHex? ds) fun c => Escape.char c (width == 2)).follow
        (h.skip verbose) hr

theorem steady_readBoundary (verbose : Bool) : Steady (readBoundary verbose) := by
  refine ⟨fun {w s s' rest side} h hr => ?_⟩
  unfold readBoundary at hr
  split at hr
  · next r =>
    obtain ⟨r', rfl, ht⟩ := h.cons rfl
    obtain ⟨h1, h2⟩ := trailing_readSideName verbose (ht.skip verbose)
    split at hr
    · cases hr
    · next heq =>
      cases hr
      rw [heq] at h1 h2
      obtain ⟨t', heq', -⟩ := h2.cons rfl
      refine ⟨'{' :: r', ?_, h⟩
      rw [readBoundary]
      rw [show readSideName verbose (skip verbose r') = ([], _ :: t') from Prod.ext h1 heq']
    · next name rest' hne heq =>
      obtain ⟨side', hs, he⟩ := Option.map_eq_some_iff.mp hr
      cases he
      rw [heq] at h1 h2
      obtain ⟨t', heq', ht'⟩ := h2.cons rfl
      refine ⟨t', ?_, ht'⟩
      rw [readBoundary]
      rw [show readSideName verbose (skip verbose r') = (name, '}' :: t') from Prod.ext h1 heq']
      cases name with
      | nil => exact absurd rfl (hne)
      | cons a as => simp only [hs, Option.map_some]
    · cases hr
  · next hne =>
    cases hr
    refine ⟨s', ?_, h⟩
    unfold readBoundary
    split
    · next r' =>
      obtain ⟨r, heq, -⟩ := h.of_cons_right (by decide)
      exact absurd heq (hne r)
    · rfl

theorem steady_readEscape (verbose : Bool) : Steady (readEscape verbose) := by
  refine ⟨fun {w s s' rest e} h hr => ?_⟩
  cases s with
  | nil => cases hr
  | cons c s =>
    obtain ⟨r', rfl, ht⟩ := h.cons rfl
    rw [readEscape] at hr ⊢
    split at hr
    · next hc =>
      rw [if_pos hc]
      exact ((steady_readBoundary verbose).map fun side => Escape.assertion (.word side)).follow
        ht hr
    · next hc =>
      rw [if_neg hc]
      split at hr
      · exact (steady_readHex verbose _).follow ht hr
      · exact (steady_of_value (escapeOf? c) id).follow ht hr

end TextParsing.Regex
