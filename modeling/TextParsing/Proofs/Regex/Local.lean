import TextParsing.Proofs.Regex.Trailing

/-!
# Reading a text that goes on

A reader of patterns does not depend on what follows the text that it leaves.  If it leaves
something of a text that ends with a closing parenthesis, it reads the same when more stands behind
that text, and leaves that as well:

    Local read → Closed s → read s = some (a, rest) → rest ≠ [] → read (s ++ t) = some (a, rest ++ t)

Two things would go wrong otherwise.  If a comment runs to the end of the text, so that nothing is
left, then it runs on into what follows.  And in `[:alpha` the name of a class is not recognised before
it is known how the text goes on; a parenthesis puts an end to every name.
-/

namespace TextParsing.Regex

/-- The text ends with a closing parenthesis. -/
def Closed (s : Text) : Prop := ∃ y, s = y ++ [')']

theorem Closed.of_suffix {s r : Text} (h : Closed s) (hr : r <:+ s) (hne : r ≠ []) : Closed r := by
  obtain ⟨y, rfl⟩ := h
  rcases List.suffix_concat_iff.mp hr with rfl | ⟨z, rfl, -⟩
  · exact absurd rfl hne
  · exact ⟨z, rfl⟩

theorem Closed.tail {c : Char} {s : Text} (h : Closed (c :: s)) (hs : s ≠ []) : Closed s :=
  h.of_suffix (List.suffix_cons c s) hs

theorem ne_nil_of_length_le {s rest : Text} (hne : rest ≠ []) (hle : rest.length ≤ s.length) :
    s ≠ [] := by
  rintro rfl
  exact hne (List.length_eq_zero_iff.mp (Nat.le_zero.mp hle))

/-! ## Layout -/

theorem skipLayout_suffix (comment : Bool) (s : Text) : skipLayout comment s <:+ s := by
  induction s generalizing comment with
  | nil => exact List.suffix_refl _
  | cons c s ih =>
    have hc := List.suffix_cons c s
    unfold skipLayout
    split
    · exact (ih _).trans hc
    · split
      · exact (ih _).trans hc
      · split
        · exact (ih _).trans hc
        · exact List.suffix_refl _

theorem skip_suffix (verbose : Bool) (s : Text) : skip verbose s <:+ s := by
  unfold skip
  split
  · exact skipLayout_suffix false s
  · exact List.suffix_refl s

theorem skipLayout_append {comment : Bool} {s : Text} (h : skipLayout comment s ≠ []) (t : Text) :
    skipLayout comment (s ++ t) = skipLayout comment s ++ t := by
  induction s generalizing comment with
  | nil => exact absurd rfl h
  | cons c s ih =>
    rw [List.cons_append]
    unfold skipLayout at h ⊢
    split
    · next hc =>
      rw [if_pos hc] at h
      exact ih h
    · next hc =>
      rw [if_neg hc] at h
      split
      · next hw =>
        rw [if_pos hw] at h
        exact ih h
      · next hw =>
        rw [if_neg hw] at h
        split
        · next hn =>
          rw [if_pos hn] at h
          exact ih h
        · rfl

theorem skip_append {verbose : Bool} {s : Text} (h : skip verbose s ≠ []) (t : Text) :
    skip verbose (s ++ t) = skip verbose s ++ t := by
  unfold skip at h ⊢
  split
  · next hv =>
    rw [if_pos hv] at h
    exact skipLayout_append h t
  · rfl

theorem skip_append_of_cons {verbose : Bool} {s r : Text} {c : Char} (h : skip verbose s = c :: r)
    (t : Text) : skip verbose (s ++ t) = c :: (r ++ t) := by
  rw [skip_append (h ▸ List.cons_ne_nil c r), h, List.cons_append]

theorem Closed.skip {s : Text} (h : Closed s) {verbose : Bool} (hne : skip verbose s ≠ []) :
    Closed (Regex.skip verbose s) := h.of_suffix (skip_suffix verbose s) hne

theorem Closed.skip_cons {s r : Text} (h : Closed s) {verbose : Bool} {c : Char}
    (hs : Regex.skip verbose s = c :: r) (hne : r ≠ []) : Closed r :=
  h.of_suffix ((List.suffix_cons c r).trans (hs ▸ skip_suffix verbose s)) hne

theorem dropWhile_append_of_ne_nil {ok : Char → Bool} {s : Text} (h : s.dropWhile ok ≠ [])
    (t : Text) : (s ++ t).dropWhile ok = s.dropWhile ok ++ t := by
  rw [List.dropWhile_append, if_neg (by rwa [List.isEmpty_iff])]

theorem takeWhile_append_of_ne_nil {ok : Char → Bool} {s : Text} (h : s.dropWhile ok ≠ [])
    (t : Text) : (s ++ t).takeWhile ok = s.takeWhile ok := by
  induction s with
  | nil => exact absurd rfl h
  | cons c s ih =>
    rw [List.cons_append, List.takeWhile_cons, List.takeWhile_cons]
    split
    · next hc =>
      rw [List.dropWhile_cons, if_pos hc] at h
      rw [ih h]
    · rfl

/-! ## Readers -/

/-- A reader that does not depend on what follows the text that it leaves. -/
structure Local {α : Type} (read : Text → Option (α × Text)) : Prop where
  length_le : ∀ {s rest a}, read s = some (a, rest) → rest.length ≤ s.length
  append : ∀ {s rest a}, Closed s → read s = some (a, rest) → rest ≠ [] →
    Closed rest ∧ ∀ t, read (s ++ t) = some (a, rest ++ t)

section

variable {α β : Type} {read : Text → Option (α × Text)}

theorem Local.map (h : Local read) (f : α → β) :
    Local fun s => (read s).map fun (a, r) => (f a, r) where
  length_le := by
    intro s rest b hr
    obtain ⟨⟨a, r⟩, ha, he⟩ := Option.map_eq_some_iff.mp hr
    cases he
    exact h.length_le ha
  append := by
    intro s rest b hs hr hne
    obtain ⟨⟨a, r⟩, ha, he⟩ := Option.map_eq_some_iff.mp hr
    cases he
    obtain ⟨hc, happ⟩ := h.append hs ha hne
    exact ⟨hc, fun t => Option.map_eq_some_iff.mpr ⟨(a, rest ++ t), happ t, rfl⟩⟩

theorem Local.bind (h : Local read) {next : α → Text → Option (β × Text)}
    (hn : ∀ a, Local (next a)) : Local fun s => (read s).bind fun (a, r) => next a r where
  length_le := by
    intro s rest b hr
    obtain ⟨⟨a, r⟩, ha, hb⟩ := Option.bind_eq_some_iff.mp hr
    exact Nat.le_trans ((hn a).length_le hb) (h.length_le ha)
  append := by
    intro s rest b hs hr hne
    obtain ⟨⟨a, r⟩, ha, hb⟩ := Option.bind_eq_some_iff.mp hr
    obtain ⟨hc, happ⟩ := h.append hs ha (ne_nil_of_length_le hne ((hn a).length_le hb))
    obtain ⟨hc', happ'⟩ := (hn a).append hc hb hne
    exact ⟨hc', fun t => Option.bind_eq_some_iff.mpr ⟨(a, r ++ t), happ t, happ' t⟩⟩

/-- A reader that begins behind layout. -/
theorem Local.skip (h : Local read) (verbose : Bool) : Local fun s => read (skip verbose s) where
  length_le := fun hr => Nat.le_trans (h.length_le hr) (skip_length_le verbose _)
  append := by
    intro s rest a hs hr hne
    have hskip := ne_nil_of_length_le hne (h.length_le hr)
    obtain ⟨hc, happ⟩ := h.append (hs.skip hskip) hr hne
    exact ⟨hc, fun t => by rw [skip_append hskip, happ]⟩

/-- A reader that begins behind a character. -/
theorem Local.behind (h : Local read) {c : Char} {s rest : Text} {a : α} (hs : Closed (c :: s))
    (hr : read s = some (a, rest)) (hne : rest ≠ []) :
    Closed rest ∧ ∀ t, read (s ++ t) = some (a, rest ++ t) :=
  h.append (hs.tail (ne_nil_of_length_le hne (h.length_le hr))) hr hne

/-- A reader that looks at the first character to choose how it goes on behind it, or to choose
another reader. -/
theorem Local.of_head {first other : Text → Option (α × Text)} (c : Char) (hf : Local first)
    (ho : Local other) (hfirst : ∀ r, read (c :: r) = first r)
    (hother : ∀ s, (¬ ∃ r, s = c :: r) → read s = other s) : Local read where
  length_le := by
    intro s rest a hr
    by_cases hc : ∃ r, s = c :: r
    · obtain ⟨r, rfl⟩ := hc
      rw [hfirst] at hr
      exact Nat.le_succ_of_le (hf.length_le hr)
    · rw [hother s hc] at hr
      exact ho.length_le hr
  append := by
    intro s rest a hs hr hne
    by_cases hc : ∃ r, s = c :: r
    · obtain ⟨r, rfl⟩ := hc
      rw [hfirst] at hr
      obtain ⟨hcl, happ⟩ := hf.behind hs hr hne
      exact ⟨hcl, fun t => by rw [List.cons_append, hfirst, happ]⟩
    · rw [hother s hc] at hr
      obtain ⟨hcl, happ⟩ := ho.append hs hr hne
      refine ⟨hcl, fun t => ?_⟩
      cases s with
      | nil => exact absurd rfl (ne_nil_of_length_le hne (ho.length_le hr))
      | cons d s =>
        have hd : ¬ ∃ r, d :: s ++ t = c :: r := by
          rintro ⟨r, h⟩
          cases h
          exact hc ⟨s, rfl⟩
        rw [hother _ hd, happ]

/-- A reader that does so behind layout. -/
theorem Local.of_head_skip {first other : Text → Option (α × Text)} (c : Char) (verbose : Bool)
    (hf : Local first) (ho : Local other)
    (hfirst : ∀ s r, Regex.skip verbose s = c :: r → read s = first r)
    (hother : ∀ s, (¬ ∃ r, Regex.skip verbose s = c :: r) →
      read s = other (Regex.skip verbose s)) : Local read := by
  have hread : Local fun s : Text => if s.head? = some c then first s.tail else other s :=
    of_head c hf ho (fun _ => if_pos rfl) fun s hs =>
      if_neg fun h => hs (List.head?_eq_some_iff.mp h)
  have heq : read = fun s => if (Regex.skip verbose s).head? = some c then
      first (Regex.skip verbose s).tail else other (Regex.skip verbose s) := by
    funext s
    split
    · next h =>
      obtain ⟨r, hr⟩ := List.head?_eq_some_iff.mp h
      rw [hfirst s r hr, hr]
      rfl
    · next h => exact hother s fun ⟨r, hr⟩ => h (List.head?_eq_some_iff.mpr ⟨r, hr⟩)
  rw [heq]
  exact hread.skip verbose

/-- A reader that needs a first character. -/
theorem Local.of_cons {next : Char → Text → Option (α × Text)} (hnil : read [] = none)
    (hcons : ∀ c s, read (c :: s) = next c s) (hn : ∀ c, Local (next c)) : Local read where
  length_le := by
    intro s rest a hr
    cases s with
    | nil =>
      rw [hnil] at hr
      cases hr
    | cons c s =>
      rw [hcons] at hr
      exact Nat.le_succ_of_le ((hn c).length_le hr)
  append := by
    intro s rest a hs hr hne
    cases s with
    | nil =>
      rw [hnil] at hr
      cases hr
    | cons c s =>
      rw [hcons] at hr
      obtain ⟨hcl, happ⟩ := (hn c).behind hs hr hne
      exact ⟨hcl, fun t => by rw [List.cons_append, hcons, happ]⟩

/-- A reader that refuses. -/
theorem local_none : Local fun _ : Text => (none : Option (α × Text)) where
  length_le := by
    intro s rest a hr
    cases hr
  append := by
    intro s rest a _ hr
    cases hr

/-- A reader that reads nothing. -/
theorem local_some (a : α) : Local fun s => some (a, s) where
  length_le := by
    intro s rest b hr
    cases hr
    exact Nat.le_refl _
  append := by
    intro s rest b hs hr _
    cases hr
    exact ⟨hs, fun t => rfl⟩

/-- A reader that reads nothing and may refuse. -/
theorem local_of_value {γ : Type} (b? : Option β) (f : β → γ) :
    Local fun s => b?.map fun b => (f b, s) := by
  cases b? with
  | none => exact local_none
  | some b => exact local_some (f b)

end

/-- Readers of a run of characters with layout after each of them. -/
theorem run_append (verbose : Bool) (ok : Char → Bool) {read : Text → Text × Text}
    (hnil : read [] = ([], []))
    (hcons : ∀ c s, read (c :: s) =
      if ok c then (c :: (read (skip verbose s)).1, (read (skip verbose s)).2) else ([], c :: s))
    {s : Text} (hs : Closed s) (hne : (read s).2 ≠ []) :
    Closed (read s).2 ∧ ∀ t, read (s ++ t) = ((read s).1, (read s).2 ++ t) := by
  generalize hn : s.length = n
  induction n using Nat.strongRecOn generalizing s with
  | ind n ih =>
    cases s with
    | nil =>
      rw [hnil] at hne
      exact absurd rfl hne
    | cons c s =>
      rw [hcons] at hne ⊢
      by_cases hc : ok c = true
      · rw [if_pos hc] at hne ⊢
        have hskip : skip verbose s ≠ [] := by
          intro h0
          rw [h0, hnil] at hne
          exact hne rfl
        have hlt : (skip verbose s).length < n := by
          have := skip_length_le verbose s
          rw [List.length_cons] at hn
          omega
        have hclosed : Closed (skip verbose s) :=
          hs.of_suffix ((skip_suffix verbose s).trans (List.suffix_cons c s)) hskip
        obtain ⟨hcl, happ⟩ := ih _ hlt hclosed hne rfl
        refine ⟨hcl, fun t => ?_⟩
        rw [List.cons_append, hcons, if_pos hc, skip_append hskip, happ]
      · rw [if_neg hc] at hne ⊢
        refine ⟨hs, fun t => ?_⟩
        rw [List.cons_append, hcons, if_neg hc]

theorem readDigits_append (verbose : Bool) {s : Text} (hs : Closed s)
    (hne : (readDigits verbose s).2 ≠ []) : Closed (readDigits verbose s).2 ∧
      ∀ t, readDigits verbose (s ++ t) = ((readDigits verbose s).1, (readDigits verbose s).2 ++ t) :=
  run_append verbose Char.isDigit (by rw [readDigits]) (fun c s => by rw [readDigits]) hs hne

theorem local_readCount (verbose : Bool) : Local (readCount verbose) := by
  refine ⟨readCount_length_le, fun {s rest n} hs hr hne => ?_⟩
  unfold readCount at hr ⊢
  have hd := readDigits_append verbose (s := s.dropWhile Unicode.isWhiteSpace)
  split at hr
  · cases hr
  · next digits r hdigits heq =>
    rw [heq] at hd
    split at hr
    · next hb =>
      cases hr
      have hr0 : r ≠ [] := by
        rintro rfl
        exact hne rfl
      have hs0 : s.dropWhile Unicode.isWhiteSpace ≠ [] := by
        intro h0
        rw [h0, readDigits] at heq
        cases heq
        exact hr0 rfl
      obtain ⟨hclosed, happ⟩ := hd (hs.of_suffix (List.dropWhile_suffix _) hs0) hr0
      refine ⟨hclosed.of_suffix (List.dropWhile_suffix _) hne, fun t => ?_⟩
      rw [dropWhile_append_of_ne_nil hs0, happ]
      cases digits with
      | nil => exact (hdigits rfl).elim
      | cons d ds =>
        dsimp only
        rw [if_pos hb, dropWhile_append_of_ne_nil hne]
    · cases hr

end TextParsing.Regex
