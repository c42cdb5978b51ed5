import TextParsing.Proofs.Regex.Trailing.Escape
import TextParsing.Regex.Bracket

/-!
# Bracketed classes with a closing parenthesis behind them

Inside brackets some readers are only tried, and a refusal is followed by another reading of the
same text.  They must refuse both texts or neither: `Alike` relates the two readings.

    Alike w (readPosix s) (readPosix s')                                            (alike_readPosix)
    Steady (readClass verbose)                                                    (steady_readClass)
-/

namespace TextParsing.Regex

variable {w : Text}

/-- Two readings that both refuse, or read the same and leave texts of which the second may have a
closing parenthesis behind it. -/
def Alike {α : Type} (w : Text) : Option (α × Text) → Option (α × Text) → Prop
  | none, none => True
  | some (a, r), some (b, r') => a = b ∧ Trailing w r r'
  | _, _ => False

theorem Alike.of_some {α : Type} {a : α} {r : Text} {o : Option (α × Text)}
    (h : Alike w (some (a, r)) o) : ∃ r', o = some (a, r') ∧ Trailing w r r' := by
  cases o with
  | none => exact h.elim
  | some b =>
    obtain ⟨rfl, hr⟩ := h
    exact ⟨b.2, rfl, hr⟩

theorem Alike.of_none {α : Type} {o : Option (α × Text)} (h : Alike w none o) : o = none := by
  cases o with
  | none => rfl
  | some b => exact h.elim

theorem alike_readSetOp {s s' : Text} (h : Trailing w s s') (c : Char) :
    Alike w (readSetOp c s) (readSetOp c s') := by
  cases s with
  | nil =>
    cases h with
    | swallowed => trivial
    | kept => simp [readSetOp, Alike]
  | cons d s =>
    obtain ⟨r', rfl, hr⟩ := h.cons rfl
    rw [readSetOp, readSetOp]
    split
    · exact ⟨rfl, hr⟩
    · split
      · exact ⟨rfl, hr⟩
      · split
        · exact ⟨rfl, hr⟩
        · trivial

/-- What follows the colon of a class that is written by name. -/
def readPosixName (negated : Bool) (s : Text) : Option (ClassSet × Text) :=
  match s.dropWhile (· != ':') with
  | ':' :: ']' :: rest =>
    (PosixClass.ofName? (s.takeWhile (· != ':'))).map fun name => (.posix name negated, rest)
  | _ => none

theorem readPosix_cons (s : Text) :
    readPosix (':' :: s) =
      readPosixName (s.head? == some '^') (if s.head? == some '^' then s.tail else s) := rfl

theorem alike_readPosixName {s s' : Text} (h : Trailing w s s') (negated : Bool) :
    Alike w (readPosixName negated s) (readPosixName negated s') := by
  unfold readPosixName
  split
  · next rest heq =>
    have hd := h.dropWhile_of_ne_nil (heq ▸ List.cons_ne_nil _ _)
    rw [heq] at hd
    obtain ⟨r1, h1, hd⟩ := hd.cons rfl
    obtain ⟨r2, h2, hd⟩ := hd.cons rfl
    rw [h1, h2, h.takeWhile_eq (by rw [heq]; simp)]
    cases PosixClass.ofName? (s.takeWhile (· != ':')) with
    | none => trivial
    | some name => exact ⟨rfl, hd⟩
  · next hne =>
    split
    · next rest' heq' =>
      by_cases hs : s.dropWhile (· != ':') = []
      · -- a name that reaches the end is not followed by a colon
        rcases h.dropWhile_of_eq_nil hs with hs' | hs' <;>
        · rw [heq'] at hs'
          cases hs'
      · have hd := h.dropWhile_of_ne_nil hs
        rw [heq'] at hd
        obtain ⟨r1, h1, hd⟩ := hd.of_cons_right (by decide)
        obtain ⟨r2, h2, -⟩ := hd.of_cons_right (by decide)
        exact absurd (h2 ▸ h1) (hne r2)
    · trivial

theorem alike_readPosix {s s' : Text} (h : Trailing w s s') :
    Alike w (readPosix s) (readPosix s') := by
  by_cases hs : ∃ r, s = ':' :: r
  · obtain ⟨r, rfl⟩ := hs
    obtain ⟨r', rfl, hr⟩ := h.cons rfl
    rw [readPosix_cons, readPosix_cons]
    by_cases hn : r.head? = some '^'
    · have hn' : r'.head? = some '^' := (hr.head?_eq_iff (by decide)).mpr hn
      rw [hn, hn']
      refine alike_readPosixName (hr.tail ?_) _
      rintro rfl
      cases hn
    · have hn' : ¬ r'.head? = some '^' := mt (hr.head?_eq_iff (by decide)).mp hn
      rw [beq_eq_false_iff_ne.mpr hn, beq_eq_false_iff_ne.mpr hn']
      exact alike_readPosixName hr _
  · have none_of {t : Text} (ht : ¬ ∃ r, t = ':' :: r) : readPosix t = none := by
      unfold readPosix
      split
      · next r => exact absurd ⟨r, rfl⟩ ht
      · rfl
    rw [none_of hs, none_of (h.not_cons (by decide) hs)]
    trivial

theorem peekLayout_append (opened : Bool) (s : Text) :
    peekLayout opened (s ++ [')']) = (peekLayout opened s).or (some ')') := by
  induction s generalizing opened with
  | nil => simp [peekLayout, isWhiteSpace_eq_false]
  | cons c s ih =>
    rw [List.cons_append, peekLayout, peekLayout]
    split
    · exact ih opened
    · split
      · exact ih true
      · rfl

theorem Trailing.peek_eq_iff {s s' : Text} (h : Trailing w s s') {verbose : Bool} {c : Char}
    (hc : c ∈ [']', '-']) : peek verbose s' = some c ↔ peek verbose s = some c := by
  have hp : c ≠ ')' := by
    rintro rfl
    simp at hc
  cases h with
  | swallowed => rfl
  | kept hs =>
    unfold peek
    split
    · rw [peekLayout_append]
      cases hl : peekLayout false s with
      | some d => simp
      | none =>
        suffices s.head? ≠ some c by simp [this, Ne.symm hp]
        intro hs
        obtain ⟨t, rfl⟩ := List.head?_eq_some_iff.mp hs
        have hw : Unicode.isWhiteSpace c = false :=
          isWhiteSpace_eq_false (List.mem_cons_of_mem _ hc)
        have hn : c ≠ '#' := by
          rintro rfl
          simp at hc
        simp [peekLayout, hw, hn] at hl
    · exact (Trailing.kept hs).head?_eq_iff hp

theorem steady_readClassAtom (verbose : Bool) : Steady (readClassAtom verbose) := by
  refine ⟨fun {w s s' rest e} h hr => ?_⟩
  cases s with
  | nil => cases hr
  | cons c s =>
    obtain ⟨r', rfl, ht⟩ := h.cons rfl
    rw [readClassAtom] at hr ⊢
    split at hr
    · next hc =>
      rw [if_pos hc]
      exact (steady_readEscape verbose).follow ht hr
    · next hc =>
      cases hr
      exact ⟨r', by rw [if_neg hc], ht⟩

/-- The rest of a range whose first end has been read, or that end alone. -/
def readItemFrom (verbose : Bool) (first : Escape) (s : Text) : Option (ClassSet × Text) :=
  match skip verbose s with
  | [] => none
  | c :: r =>
    if c = '-' ∧ peek verbose r ≠ some ']' ∧ peek verbose r ≠ some '-' then
      (readClassAtom verbose (skip verbose r)).bind fun (last, rest) =>
        (rangeOf? first last).map fun set => (set, rest)
    else first.toClass?.map fun set => (set, c :: r)

theorem readItem_eq (verbose : Bool) :
    readItem verbose =
      fun s => (readClassAtom verbose s).bind fun (first, r) => readItemFrom verbose first r := rfl

theorem steady_readItemFrom (verbose : Bool) (first : Escape) :
    Steady (readItemFrom verbose first) := by
  refine ⟨fun {w s s' rest set} h hr => ?_⟩
  unfold readItemFrom at hr ⊢
  split at hr
  · cases hr
  · next c t heq =>
    obtain ⟨t', heq', ht⟩ := h.skip_cons heq
    have hrange : (c = '-' ∧ peek verbose t' ≠ some ']' ∧ peek verbose t' ≠ some '-') ↔
        (c = '-' ∧ peek verbose t ≠ some ']' ∧ peek verbose t ≠ some '-') := by
      rw [ne_eq, ne_eq, ht.peek_eq_iff (by simp), ht.peek_eq_iff (by simp)]
    rw [heq']
    dsimp only
    split at hr
    · next hc =>
      rw [if_pos (hrange.mpr hc)]
      exact ((steady_readClassAtom verbose).bind fun last =>
        steady_of_value (rangeOf? first last) id).follow (ht.skip verbose) hr
    · next hc =>
      rw [if_neg (mt hrange.mp hc)]
      obtain ⟨set', hs, he⟩ := Option.map_eq_some_iff.mp hr
      cases he
      exact ⟨c :: t', by rw [hs]; rfl, heq' ▸ heq ▸ h.skip verbose⟩

theorem steady_readItem (verbose : Bool) : Steady (readItem verbose) := by
  rw [readItem_eq]
  exact (steady_readClassAtom verbose).bind (steady_readItemFrom verbose)

theorem trailing_readHyphens {verbose : Bool} {b : OpenBracket} {s s' : Text}
    (h : Trailing w s s') :
    (readHyphens verbose b s').1 = (readHyphens verbose b s).1 ∧
      Trailing w (readHyphens verbose b s).2 (readHyphens verbose b s').2 := by
  fun_induction readHyphens verbose b s generalizing s' with
  | case1 b =>
    rcases h.of_nil with rfl | rfl
    · rw [readHyphens]
      exact ⟨rfl, h⟩
    · rw [readHyphens, if_neg (by decide)]
      exact ⟨rfl, h⟩
  | case2 b s ih =>
    obtain ⟨r', rfl, hr⟩ := h.cons rfl
    rw [readHyphens, if_pos rfl]
    exact ih (hr.skip verbose)
  | case3 b c s hc =>
    obtain ⟨r', rfl, hr⟩ := h.cons rfl
    rw [readHyphens, if_neg hc]
    exact ⟨rfl, h⟩

/-- Reads what stands for itself at the beginning of a bracket. -/
def readOpening (verbose : Bool) (b : OpenBracket) : Text → OpenBracket × Text
  | ']' :: r => (b.add (.single ']'), skip verbose r)
  | s => readHyphens verbose b s

theorem readOpening_of_ne {verbose : Bool} {b : OpenBracket} {s : Text}
    (h : ¬ ∃ r, s = ']' :: r) : readOpening verbose b s = readHyphens verbose b s := by
  unfold readOpening
  split
  · next r => exact absurd ⟨r, rfl⟩ h
  · rfl

theorem openBracket_eq (verbose : Bool) (s : Text) :
    openBracket verbose s =
      readOpening verbose ⟨(skip verbose s).head? == some '^', none, .nothing⟩
        (if (skip verbose s).head? == some '^' then skip verbose (skip verbose s).tail
          else skip verbose s) := rfl

theorem trailing_readOpening {verbose : Bool} {b : OpenBracket} {s s' : Text}
    (h : Trailing w s s') :
    (readOpening verbose b s').1 = (readOpening verbose b s).1 ∧
      Trailing w (readOpening verbose b s).2 (readOpening verbose b s').2 := by
  by_cases hs : ∃ r, s = ']' :: r
  · obtain ⟨r, rfl⟩ := hs
    obtain ⟨r', rfl, hr⟩ := h.cons rfl
    exact ⟨rfl, hr.skip verbose⟩
  · rw [readOpening_of_ne hs, readOpening_of_ne (h.not_cons (by decide) hs)]
    exact trailing_readHyphens h

theorem trailing_openBracket (verbose : Bool) {s s' : Text} (h : Trailing w s s') :
    (openBracket verbose s').1 = (openBracket verbose s).1 ∧
      Trailing w (openBracket verbose s).2 (openBracket verbose s').2 := by
  have hs := h.skip verbose
  have hn : ((skip verbose s').head? == some '^') = ((skip verbose s).head? == some '^') := by
    rw [Bool.eq_iff_iff, beq_iff_eq, beq_iff_eq]
    exact hs.head?_eq_iff (by decide)
  rw [openBracket_eq, openBracket_eq, hn]
  split
  · next hc =>
    refine trailing_readOpening ((hs.tail ?_).skip verbose)
    intro h0
    rw [h0] at hc
    cases hc
  · exact trailing_readOpening hs

theorem readBracket_of_skip {verbose : Bool} {outer : List OpenBracket} {b : OpenBracket} {c : Char}
    {s r : Text} (h : skip verbose s = c :: r) :
    readBracket verbose outer b s =
      if c = ']' then
        match outer with
        | [] => some (b.close, r)
        | o :: outer => readBracket verbose outer (o.add b.close) r
      else if c = '[' then
        match readPosix r with
        | some (item, rest) => readBracket verbose outer (b.add item) rest
        | none =>
          readBracket verbose (b :: outer) (openBracket verbose r).1 (openBracket verbose r).2
      else
        match readSetOp c r with
        | some (op, rest) => readBracket verbose outer (b.operate op) rest
        | none =>
          match readItem verbose (c :: r) with
          | none => none
          | some (item, rest) => readBracket verbose outer (b.add item) rest := by
  rw [readBracket]
  split
  · next h' =>
    rw [h] at h'
    cases h'
  · next h' =>
    rw [h] at h'
    cases h'
    split
    · cases outer <;> rfl
    · split
      · split <;> simp_all
      · split
        · simp_all
        · split <;> simp_all

theorem steady_readBracket (verbose : Bool) (outer : List OpenBracket) (b : OpenBracket) :
    Steady (readBracket verbose outer b) := by
  refine ⟨fun {w s s' rest set} h hr => ?_⟩
  fun_induction readBracket verbose outer b s generalizing s' with
  | case1 => cases hr
  | case2 b s r heq =>
    cases hr
    obtain ⟨r', heq', ht⟩ := h.skip_cons heq
    exact ⟨r', by rw [readBracket_of_skip heq', if_pos rfl], ht⟩
  | case3 b s r o outer heq ih =>
    obtain ⟨r', heq', ht⟩ := h.skip_cons heq
    rw [readBracket_of_skip heq', if_pos rfl]
    exact ih ht hr
  | case4 outer b s r item rest1 hp heq hc ih =>
    obtain ⟨r', heq', ht⟩ := h.skip_cons heq
    obtain ⟨rest1', hp', ht1⟩ := (hp ▸ alike_readPosix ht).of_some
    rw [readBracket_of_skip heq', if_neg hc, if_pos rfl, hp']
    exact ih ht1 hr
  | case5 outer b s r hp heq hc ih =>
    obtain ⟨r', heq', ht⟩ := h.skip_cons heq
    have hp' := (hp ▸ alike_readPosix ht).of_none
    obtain ⟨h1, h2⟩ := trailing_openBracket verbose ht
    rw [readBracket_of_skip heq', if_neg hc, if_pos rfl, hp']
    dsimp only
    rw [h1]
    exact ih h2 hr
  | case6 outer b s c r heq hc hc' op rest1 ho ih =>
    obtain ⟨r', heq', ht⟩ := h.skip_cons heq
    obtain ⟨rest1', ho', ht1⟩ := (ho ▸ alike_readSetOp ht c).of_some
    rw [readBracket_of_skip heq', if_neg hc, if_neg hc', ho']
    exact ih ht1 hr
  | case7 => cases hr
  | case8 outer b s c r heq hc hc' ho item rest1 hi ih =>
    obtain ⟨r', heq', ht⟩ := h.skip_cons heq
    have ho' := (ho ▸ alike_readSetOp ht c).of_none
    obtain ⟨rest1', hi', htr⟩ := (steady_readItem verbose).follow (heq' ▸ heq ▸ h.skip verbose) hi
    rw [readBracket_of_skip heq', if_neg hc, if_neg hc', ho']
    dsimp only
    rw [hi']
    exact ih htr hr

theorem steady_readClass (verbose : Bool) : Steady (readClass verbose) := by
  refine ⟨fun {w s s' rest set} h hr => ?_⟩
  obtain ⟨h1, h2⟩ := trailing_openBracket verbose h
  unfold readClass at hr ⊢
  rw [h1]
  exact (steady_readBracket verbose _ _).follow h2 hr

end TextParsing.Regex
