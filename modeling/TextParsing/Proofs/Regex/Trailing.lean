import TextParsing.Regex.Layout

/-!
# Reading a text with a closing parenthesis behind it

`Trailing w s s'` says that `s` is what is left of the pattern `w` and that `s'` is `s` with `)`
behind it, or that both are empty because a comment at the end of the pattern has taken the
parenthesis in.  Every reader of patterns keeps this relation between what it leaves of two such
texts, and otherwise reads the same from both:

    Trailing w s s' → Trailing w (skip verbose s) (skip verbose s')               (Trailing.skip)
    Steady (readCount verbose)                                                    (steady_readCount)

where `Steady read` says so of a reader that may refuse its text.
-/

namespace TextParsing.Regex

/-- Whether the last line of a pattern has a sign that may open a comment. -/
def HashInLastLine (w : Text) : Prop := ∃ lead comment, w = lead ++ '#' :: comment ∧ '\n' ∉ comment

/-- The first text is what is left of a pattern and the second has a closing parenthesis behind it,
or both are empty. -/
inductive Trailing (w : Text) : Text → Text → Prop where
  | kept {s : Text} (h : s <:+ w) : Trailing w s (s ++ [')'])
  | swallowed (h : HashInLastLine w) : Trailing w [] []

variable {w : Text}

namespace Trailing

theorem cons {s s' : Text} (h : Trailing w s s') {c : Char} {r : Text} (hs : s = c :: r) :
    ∃ r', s' = c :: r' ∧ Trailing w r r' := by
  subst hs
  cases h with
  | kept h => exact ⟨r ++ [')'], rfl, .kept ((List.suffix_cons c r).trans h)⟩

theorem of_nil {s' : Text} (h : Trailing w [] s') : s' = [] ∨ s' = [')'] := by
  cases h with
  | kept => exact .inr rfl
  | swallowed => exact .inl rfl

/-- What begins with another character than `)` does so in both texts. -/
theorem of_cons_right {s r' : Text} {c : Char} (h : Trailing w s (c :: r')) (hc : c ≠ ')') :
    ∃ r, s = c :: r ∧ Trailing w r r' := by
  generalize ht : c :: r' = t at h
  cases h with
  | swallowed => cases ht
  | @kept s h =>
    cases s with
    | nil =>
      cases ht
      exact absurd rfl hc
    | cons d s =>
      cases ht
      exact ⟨s, rfl, .kept ((List.suffix_cons c s).trans h)⟩

/-- A sign other than `)` that does not begin a text does not begin it with `)` behind it. -/
theorem not_cons {s s' : Text} (h : Trailing w s s') {c : Char} (hc : c ≠ ')')
    (hs : ¬ ∃ r, s = c :: r) : ¬ ∃ r, s' = c :: r := by
  rintro ⟨r', rfl⟩
  obtain ⟨r, hr, -⟩ := h.of_cons_right hc
  exact hs ⟨r, hr⟩

theorem head?_eq_iff {s s' : Text} (h : Trailing w s s') {c : Char} (hc : c ≠ ')') :
    s'.head? = some c ↔ s.head? = some c := by
  cases h with
  | swallowed => rfl
  | kept =>
    cases s with
    | nil => simp [Ne.symm hc]
    | cons d s => rfl

theorem tail {s s' : Text} (h : Trailing w s s') (hs : s ≠ []) : Trailing w s.tail s'.tail := by
  cases s with
  | nil => exact absurd rfl hs
  | cons c s =>
    obtain ⟨r', rfl, hr⟩ := h.cons rfl
    exact hr

/-- What is left behind a run that does not reach the end. -/
theorem dropWhile_of_ne_nil {s s' : Text} (h : Trailing w s s') {ok : Char → Bool}
    (hs : s.dropWhile ok ≠ []) : Trailing w (s.dropWhile ok) (s'.dropWhile ok) := by
  induction s generalizing s' with
  | nil => exact absurd rfl hs
  | cons c s ih =>
    obtain ⟨r', rfl, hr⟩ := h.cons rfl
    rw [List.dropWhile_cons] at hs ⊢
    rw [List.dropWhile_cons]
    split
    · next hc =>
      rw [if_pos hc] at hs
      exact ih hr hs
    · exact h

/-- A run that reaches the end takes the parenthesis in or stops there. -/
theorem dropWhile_of_eq_nil {s s' : Text} (h : Trailing w s s') {ok : Char → Bool}
    (hs : s.dropWhile ok = []) : s'.dropWhile ok = [] ∨ s'.dropWhile ok = [')'] := by
  cases h with
  | swallowed => exact .inl hs
  | kept =>
    rw [List.dropWhile_append, hs, List.isEmpty_nil, if_pos rfl, List.dropWhile_cons]
    split
    · exact .inl rfl
    · exact .inr rfl

/-- What is left behind a run to which the parenthesis does not belong. -/
theorem dropWhile {s s' : Text} (h : Trailing w s s') {ok : Char → Bool} (hok : ok ')' = false) :
    Trailing w (s.dropWhile ok) (s'.dropWhile ok) := by
  by_cases hs : s.dropWhile ok = []
  · rw [hs]
    cases h with
    | swallowed h => exact .swallowed h
    | kept =>
      rw [List.dropWhile_append, hs, List.isEmpty_nil, if_pos rfl, List.dropWhile_cons, hok]
      exact .kept List.nil_suffix
  · exact h.dropWhile_of_ne_nil hs

theorem takeWhile_eq {s s' : Text} (h : Trailing w s s') {ok : Char → Bool}
    (hs : s.dropWhile ok ≠ []) : s'.takeWhile ok = s.takeWhile ok := by
  induction s generalizing s' with
  | nil => exact absurd rfl hs
  | cons c s ih =>
    obtain ⟨r', rfl, hr⟩ := h.cons rfl
    rw [List.takeWhile_cons, List.takeWhile_cons]
    split
    · next hc =>
      rw [List.dropWhile_cons, if_pos hc] at hs
      rw [ih hr hs]
    · rfl

end Trailing

/-! ## Layout -/

/-- The signs that matter behind layout are not white space. -/
theorem isWhiteSpace_eq_false {c : Char} (h : c ∈ [')', ']', '-']) :
    Unicode.isWhiteSpace c = false := by
  rw [Unicode.isWhiteSpace, Unicode.whiteSpace, Bool.eq_false_iff, ne_eq,
    CharSet.contains_ofCodes_iff]
  simp only [List.mem_cons, List.not_mem_nil, or_false] at h
  rcases h with rfl | rfl | rfl
  · decide
  · decide
  · decide

/-- Layout is passed over in the same way; a comment that is open has its sign behind the last
newline that has been passed over. -/
theorem trailing_skipLayout {comment : Bool} {s : Text} (hs : s <:+ w)
    (hc : comment = true → ∃ lead passed, w = lead ++ '#' :: passed ++ s ∧ '\n' ∉ passed) :
    Trailing w (skipLayout comment s) (skipLayout comment (s ++ [')'])) := by
  induction s generalizing comment with
  | nil =>
    cases comment with
    | true =>
      obtain ⟨lead, passed, rfl, hpassed⟩ := hc rfl
      exact .swallowed ⟨lead, passed, List.append_nil _, hpassed⟩
    | false =>
      rw [List.nil_append, skipLayout, skipLayout, isWhiteSpace_eq_false (by simp)]
      exact .kept List.nil_suffix
  | cons c s ih =>
    have hs' : s <:+ w := (List.suffix_cons c s).trans hs
    rw [List.cons_append, skipLayout, skipLayout]
    split
    · next hcomment =>
      refine ih hs' fun hopen => ?_
      obtain ⟨lead, passed, hw, hpassed⟩ := hc hcomment
      refine ⟨lead, passed ++ [c], by simp [hw], ?_⟩
      rw [List.mem_append, List.mem_singleton, not_or]
      exact ⟨hpassed, (bne_iff_ne.mp hopen).symm⟩
    · split
      · exact ih hs' (fun h => absurd h Bool.false_ne_true)
      · split
        · next hhash =>
          subst hhash
          obtain ⟨lead, rfl⟩ := hs
          exact ih hs' fun _ => ⟨lead, [], by simp, List.not_mem_nil⟩
        · exact .kept hs

theorem Trailing.skip {s s' : Text} (h : Trailing w s s') (verbose : Bool) :
    Trailing w (Regex.skip verbose s) (Regex.skip verbose s') := by
  unfold Regex.skip
  split
  · cases h with
    | kept hs => exact trailing_skipLayout hs (fun h => absurd h Bool.false_ne_true)
    | swallowed h => exact .swallowed h
  · exact h

/-- Reading on in the same way after layout has been passed over. -/
theorem Trailing.skip_cons {s s' : Text} (h : Trailing w s s') {verbose : Bool} {c : Char} {r : Text}
    (hs : Regex.skip verbose s = c :: r) :
    ∃ r', Regex.skip verbose s' = c :: r' ∧ Trailing w r r' :=
  (h.skip verbose).cons hs

/-! ## Readers -/

/-- A reader that reads the same whether a closing parenthesis follows its text or not. -/
structure Steady {α : Type} (read : Text → Option (α × Text)) : Prop where
  follow : ∀ {w s s' rest a}, Trailing w s s' → read s = some (a, rest) →
    ∃ rest', read s' = some (a, rest') ∧ Trailing w rest rest'

section

variable {α β : Type} {read : Text → Option (α × Text)}

theorem Steady.map (h : Steady read) (f : α → β) :
    Steady fun s => (read s).map fun (a, r) => (f a, r) where
  follow := by
    intro w s s' rest b ht hr
    obtain ⟨⟨a, r⟩, ha, he⟩ := Option.map_eq_some_iff.mp hr
    cases he
    obtain ⟨rest', ha', htr⟩ := h.follow ht ha
    exact ⟨rest', Option.map_eq_some_iff.mpr ⟨(a, rest'), ha', rfl⟩, htr⟩

theorem Steady.bind (h : Steady read) {next : α → Text → Option (β × Text)}
    (hn : ∀ a, Steady (next a)) : Steady fun s => (read s).bind fun (a, r) => next a r where
  follow := by
    intro w s s' rest b ht hr
    obtain ⟨⟨a, r⟩, ha, hb⟩ := Option.bind_eq_some_iff.mp hr
    obtain ⟨r', ha', htr⟩ := h.follow ht ha
    obtain ⟨rest', hb', htr'⟩ := (hn a).follow htr hb
    exact ⟨rest', Option.bind_eq_some_iff.mpr ⟨(a, r'), ha', hb'⟩, htr'⟩

/-- A reader that reads nothing and may refuse. -/
theorem steady_of_value {γ : Type} (b? : Option β) (f : β → γ) :
    Steady fun s => b?.map fun b => (f b, s) where
  follow := by
    intro w s s' rest a ht hr
    obtain ⟨b, hb, he⟩ := Option.map_eq_some_iff.mp hr
    cases he
    exact ⟨s', Option.map_eq_some_iff.mpr ⟨b, hb, rfl⟩, ht⟩

end

/-- Readers of a run of characters with layout after each of them read the same run. -/
theorem trailing_run (verbose : Bool) (ok : Char → Bool) {read : Text → Text × Text}
    (hok : ok ')' = false) (hnil : read [] = ([], []))
    (hcons : ∀ c s, read (c :: s) =
      if ok c then (c :: (read (skip verbose s)).1, (read (skip verbose s)).2) else ([], c :: s))
    {s s' : Text} (h : Trailing w s s') :
    (read s').1 = (read s).1 ∧ Trailing w (read s).2 (read s').2 := by
  generalize hn : s.length = n
  induction n using Nat.strongRecOn generalizing s s' with
  | ind n ih =>
    cases s with
    | nil =>
      cases h with
      | swallowed h => exact ⟨rfl, hnil ▸ .swallowed h⟩
      | kept =>
        rw [List.nil_append, hcons, hok, hnil]
        exact ⟨rfl, .kept List.nil_suffix⟩
    | cons c s =>
      obtain ⟨r', rfl, hr⟩ := h.cons rfl
      rw [hcons, hcons]
      by_cases hc : ok c = true
      · have hlt : (skip verbose s).length < n := by
          have := skip_length_le verbose s
          rw [List.length_cons] at hn
          omega
        obtain ⟨h1, h2⟩ := ih _ hlt (hr.skip verbose) rfl
        rw [if_pos hc, if_pos hc]
        exact ⟨congrArg (c :: ·) h1, h2⟩
      · rw [if_neg hc, if_neg hc]
        exact ⟨rfl, h⟩

theorem trailing_readDigits (verbose : Bool) {s s' : Text} (h : Trailing w s s') :
    (readDigits verbose s').1 = (readDigits verbose s).1 ∧
      Trailing w (readDigits verbose s).2 (readDigits verbose s').2 :=
  trailing_run verbose Char.isDigit (by decide) (by rw [readDigits])
    (fun c s => by rw [readDigits]) h

theorem steady_readCount (verbose : Bool) : Steady (readCount verbose) := by
  refine ⟨fun {w s s' rest n} h hr => ?_⟩
  unfold readCount at hr ⊢
  obtain ⟨h1, h2⟩ := trailing_readDigits verbose (h.dropWhile (isWhiteSpace_eq_false (by simp)))
  generalize readDigits verbose (s.dropWhile Unicode.isWhiteSpace) = r at *
  generalize readDigits verbose (s'.dropWhile Unicode.isWhiteSpace) = r' at *
  obtain ⟨digits, r⟩ := r
  obtain ⟨digits', r'⟩ := r'
  obtain rfl : digits' = digits := h1
  cases digits' with
  | nil => cases hr
  | cons d ds =>
    dsimp only at hr ⊢
    split at hr
    · next hb =>
      cases hr
      exact ⟨_, if_pos hb, h2.dropWhile (isWhiteSpace_eq_false (by simp))⟩
    · cases hr

end TextParsing.Regex
