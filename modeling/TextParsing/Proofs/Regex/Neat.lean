import TextParsing.Proofs.Regex.Composing
import TextParsing.Regex.Syntax

/-!
# The form of expressions

In an expression that has been read from a pattern, sequences are nested to the right, and nothing in
them is empty.  Such an expression is put together again from its factors:

    ofPattern? f s = some r → r.Neat                                            (neat_of_ofPattern?)
    r.Neat → seqAll r.factors = r                                                (seqAll_factors)
-/

namespace TextParsing.Regex

/-- Sequences are nested to the right and have no empty parts. -/
def Neat : Regex → Prop
  | cat a b => a.factors = [a] ∧ b ≠ empty ∧ Neat a ∧ Neat b
  | alt a b => Neat a ∧ Neat b
  | _ => True

/-! ## Sequences -/

theorem neat_of_mem_factors {r f : Regex} (h : r.Neat) (hf : f ∈ r.factors) :
    f.factors = [f] ∧ f.Neat := by
  induction r with
  | empty => cases hf
  | cat a b _ ih =>
    obtain ⟨ha, -, hneat, hneat'⟩ := h
    rcases List.mem_cons.mp hf with rfl | hf
    · exact ⟨ha, hneat⟩
    · exact ih hneat' hf
  | _ =>
    obtain rfl := List.mem_singleton.mp hf
    exact ⟨rfl, h⟩

theorem neat_seq {r s : Regex} (hr : r.Neat) (hs : s.Neat) : (seq r s).Neat := by
  have hone {a : Regex} (ha : a.factors = [a]) (hneat : a.Neat) :
      Neat (if s = empty then a else cat a s) := by
    split
    · exact hneat
    · next hne => exact ⟨ha, hne, hneat, hs⟩
  induction r with
  | empty => exact hs
  | cat a b _ ih =>
    obtain ⟨ha, hb, hneat, hneat'⟩ := hr
    exact ⟨ha, fun h => hb (seq_eq_empty_iff.mp h).1, hneat, ih hneat'⟩
  | _ => exact hone rfl hr

theorem neat_seqAll {rs : List Regex} (h : ∀ r ∈ rs, r.Neat) : (seqAll rs).Neat := by
  induction rs with
  | nil => trivial
  | cons r rs ih =>
    exact neat_seq (h r List.mem_cons_self) (ih fun r hr => h r (List.mem_cons_of_mem _ hr))

/-! ## Choices -/

theorem neat_of_mem_branches {r b : Regex} (h : r.Neat) (hb : b ∈ r.branches) : b.Neat := by
  induction r with
  | alt a c _ ih =>
    rcases List.mem_cons.mp hb with rfl | hb
    · exact h.1
    · exact ih h.2 hb
  | _ => exact List.mem_singleton.mp hb ▸ h

theorem neat_of_mem_flatMap_branches {rs : List Regex} (h : ∀ r ∈ rs, r.Neat) :
    ∀ b ∈ rs.flatMap branches, b.Neat := by
  intro b hb
  obtain ⟨r, hr, hb⟩ := List.mem_flatMap.mp hb
  exact neat_of_mem_branches (h r hr) hb

theorem neat_altAll {rs : List Regex} (h : ∀ r ∈ rs, r.Neat) : (altAll rs).Neat := by
  fun_induction altAll rs with
  | case1 => trivial
  | case2 r => exact h r (List.mem_singleton_self r)
  | case3 r rs _ ih =>
    exact ⟨h r List.mem_cons_self, ih fun r hr => h r (List.mem_cons_of_mem _ hr)⟩

theorem neat_union? {rs : List Regex} {u : Regex} (h : union? rs = some u) : u.Neat := by
  obtain ⟨rfl, -⟩ := exists_set_of_union? h
  trivial

theorem neat_choiceOf {rs : List Regex} (h : ∀ r ∈ rs, r.Neat) : (choiceOf rs).Neat := by
  rw [choiceOf]
  cases hu : union? rs with
  | some u => exact neat_union? hu
  | none => exact neat_altAll h

theorem mem_factors_of_begins {r f : Regex} {shared : List (List Regex)} (h : shared <+: r.parts)
    (hf : f ∈ shared.flatten ∨ f ∈ (r.parts.drop shared.length).flatten) : f ∈ r.factors := by
  rw [factors_eq_of_begins h]
  exact List.mem_append.mpr hf

theorem neat_tails {rs : List Regex} {shared : List (List Regex)} (h : ∀ r ∈ rs, r.Neat)
    (hshared : ∀ r ∈ rs, shared <+: r.parts) : ∀ t ∈ tails shared.length rs, t.Neat := by
  intro t ht
  obtain ⟨r, hr, rfl⟩ := List.mem_map.mp ht
  exact neat_seqAll fun f hf =>
    (neat_of_mem_factors (h r hr) (mem_factors_of_begins (hshared r hr) (.inr hf))).2

theorem neat_choice {rs : List Regex} (h : ∀ r ∈ rs, r.Neat) : (choice rs).Neat := by
  by_cases hlen : rs.length = 1
  · obtain ⟨r, rfl⟩ := List.length_eq_one_iff.mp hlen
    exact h r (List.mem_singleton_self r)
  · have hbs := neat_of_mem_flatMap_branches h
    rw [choice_of_two hlen]
    generalize rs.flatMap branches = bs at hbs
    cases hu : union? bs with
    | some u => exact neat_union? hu
    | none =>
      rw [leadOut?_eq]
      split
      · exact neat_altAll hbs
      · next hlead =>
        obtain ⟨b, bs', rfl⟩ : ∃ b bs', bs = b :: bs' :=
          List.exists_cons_of_ne_nil fun h => hlead (h ▸ rfl)
        refine neat_seqAll fun f hf => ?_
        rcases List.mem_append.mp hf with hf | hf
        · exact (neat_of_mem_factors (hbs b List.mem_cons_self)
            (mem_factors_of_begins (lead_parts_begins b List.mem_cons_self) (.inl hf))).2
        · obtain rfl := List.mem_singleton.mp hf
          exact neat_choiceOf (neat_of_mem_flatMap_branches (neat_tails hbs lead_parts_begins))

/-! ## Repetitions -/

theorem neat_repeated {greedy : Bool} {r : Regex} {least : Nat} {most : Option Nat} (h : r.Neat) :
    (repeated greedy r least most).Neat := by
  have hbounded {least : Nat} {most : Option Nat} : (bounded greedy r least most).Neat := by
    unfold bounded
    split
    · trivial
    · split
      · exact h
      · trivial
  unfold repeated
  split
  · exact hbounded
  · exact hbounded

/-! ## Reading -/

/-- An atom is a set of characters or a test. -/
theorem Atom.eq_of_toRegex? {f : Flags} {a : Atom} {r : Regex} (h : a.toRegex? f = some r) :
    (∃ set unicode, r = chars set unicode) ∨ ∃ test, r = look test := by
  have hchars {p : Prop} [Decidable p] {set : CharSet}
      (h : (if p then none else some (ofSet f set)) = some r) :
      ∃ set unicode, r = chars set unicode := by
    split at h
    · cases h
    · exact ⟨set, _, (Option.some.inj h).symm⟩
  cases a with
  | char c narrow => exact .inl (hchars h)
  | dot =>
    rw [toRegex?] at h
    split at h
    · exact .inl ⟨_, _, (Option.some.inj h).symm⟩
    · cases h
  | letter name negated => exact .inl (hchars h)
  | bracketed set =>
    rw [toRegex?] at h
    split at h
    · exact .inl ⟨_, _, (Option.some.inj h).symm⟩
    · cases h
  | assertion a => exact .inr ⟨_, (Option.some.inj h).symm⟩

theorem Atom.neat_of_toRegex? {f : Flags} {a : Atom} {r : Regex} (h : a.toRegex? f = some r) :
    r.Neat := by
  rcases eq_of_toRegex? h with ⟨set, unicode, rfl⟩ | ⟨test, rfl⟩
  · trivial
  · trivial

/-- All expressions of the level are neat. -/
structure Level.Neat (l : Level) : Prop where
  pieces : ∀ r, Piece.regex r ∈ l.pieces → r.Neat
  branches : ∀ r ∈ l.branches, r.Neat

namespace Level

variable {l : Level}

theorem neat_start (number : Option Nat) (f : Flags) : (start number f).Neat where
  pieces := by
    intro r hr
    cases hr
  branches := by
    intro r hr
    cases hr

theorem Neat.add (h : l.Neat) {r : Regex} (hr : r.Neat) : (l.add r).Neat where
  pieces := by
    intro s hs
    rcases List.mem_cons.mp hs with hs | hs
    · cases hs
      exact hr
    · exact h.pieces s hs
  branches := h.branches

theorem Neat.branch (h : l.Neat) : l.branch.Neat := by
  refine neat_seqAll fun r hr => ?_
  obtain ⟨p, hp, hregex⟩ := List.mem_filterMap.mp hr
  cases p with
  | directive => cases hregex
  | regex s =>
    cases hregex
    exact h.pieces r (List.mem_reverse.mp hp)

theorem Neat.newBranch (h : l.Neat) : l.newBranch.Neat where
  pieces := by
    intro r hr
    cases hr
  branches := by
    intro r hr
    rcases List.mem_cons.mp hr with rfl | hr
    · exact h.branch
    · exact h.branches r hr

theorem Neat.direct (h : l.Neat) (change : FlagChange) : (l.direct change).Neat where
  pieces := by
    intro r hr
    rcases List.mem_cons.mp hr with hr | hr
    · cases hr
    · exact h.pieces r hr
  branches := h.branches

theorem Neat.close (h : l.Neat) : l.close.Neat := by
  rw [Level.close]
  split
  · trivial
  · refine neat_choice fun r hr => ?_
    rcases List.mem_cons.mp (List.mem_reverse.mp hr) with rfl | hr
    · exact h.branch
    · exact h.branches r hr

theorem Neat.repeatLast? (h : l.Neat) {least : Nat} {most : Option Nat} {reluctant : Bool}
    {l' : Level} (hl : l.repeatLast? least most reluctant = some l') : l'.Neat := by
  obtain ⟨number, flags, pieces, branches⟩ := l
  cases pieces with
  | nil => cases hl
  | cons p ps =>
    cases p with
    | directive => cases hl
    | regex r =>
      cases hl
      refine ⟨fun s hs => ?_, h.branches⟩
      rcases List.mem_cons.mp hs with hs | hs
      · cases hs
        exact neat_repeated (h.pieces r List.mem_cons_self)
      · exact h.pieces s (List.mem_cons_of_mem _ hs)

end Level

namespace Reading

variable {st st' : Reading}

/-- All expressions of the state are neat. -/
def Neat (st : Reading) : Prop := st.level.Neat ∧ ∀ l ∈ st.outer, l.Neat

theorem Neat.next? (h : st.Neat) {t : Token} (hn : st.next? t = some st') : st'.Neat := by
  obtain ⟨hlevel, houter⟩ := h
  have hopen : ∀ l ∈ st.level :: st.outer, l.Neat := by
    intro l hl
    rcases List.mem_cons.mp hl with rfl | hl
    · exact hlevel
    · exact houter l hl
  cases t with
  | atom a =>
    obtain ⟨r, hr, rfl⟩ := Option.map_eq_some_iff.mp hn
    exact ⟨hlevel.add (Atom.neat_of_toRegex? hr), houter⟩
  | bar =>
    cases hn
    exact ⟨hlevel.newBranch, houter⟩
  | openGroup start =>
    cases start with
    | numbered =>
      cases hn
      exact ⟨Level.neat_start _ _, hopen⟩
    | named name =>
      rw [Reading.next?] at hn
      split at hn
      · cases hn
      · cases hn
        exact ⟨Level.neat_start _ _, hopen⟩
    | plain change =>
      cases hn
      exact ⟨Level.neat_start _ _, hopen⟩
  | directive change =>
    cases hn
    exact ⟨hlevel.direct change, houter⟩
  | closeGroup =>
    obtain ⟨level, outer, names, count⟩ := st
    cases outer with
    | nil => cases hn
    | cons o os =>
      cases hn
      exact ⟨(houter o List.mem_cons_self).add hlevel.close,
        fun l hl => houter l (List.mem_cons_of_mem _ hl)⟩
  | count least most reluctant =>
    obtain ⟨l, hl, rfl⟩ := Option.map_eq_some_iff.mp hn
    exact ⟨hlevel.repeatLast? hl, houter⟩

theorem Neat.readAll? (h : st.Neat) {s : Text} (hr : st.readAll? s = some st') : st'.Neat := by
  fun_induction Reading.readAll? st s with
  | case1 =>
    cases hr
    exact h
  | case2 => cases hr
  | case3 => cases hr
  | case4 st s c r hs t rest ht st₁ hn ih => exact ih (h.next? hn) hr

end Reading

end TextParsing.Regex
