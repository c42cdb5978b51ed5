import Mathlib.Data.List.SplitBy
import TextParsing.Proofs.Regex.Matches
import TextParsing.Regex.Compose

/-!
# What composed expressions match

A sequence matches what its parts match one after the other, and a choice matches what one of its
branches matches, although sets of characters are united and a common beginning is written only once:

    (seq r s).Matches w i j ↔ ∃ k, r.Matches w i k ∧ s.Matches w k j                (matches_seq)
    (choice rs).Matches w i j ↔ ∃ r ∈ rs, r.Matches w i j                        (matches_choice)
-/

namespace TextParsing.Regex

variable {w : Text} {i j : Nat}

/-! ## Sequences -/

/-- An empty second part may be left out. -/
theorem matches_cat_unless_empty {r s : Regex} :
    (if s = empty then r else cat r s).Matches w i j ↔
      ∃ k, r.Matches w i k ∧ s.Matches w k j := by
  split
  · next hs =>
    subst hs
    constructor
    · intro h
      exact ⟨j, h, rfl⟩
    · rintro ⟨k, h, rfl⟩
      exact h
  · rfl

theorem matches_seq {r s : Regex} :
    (seq r s).Matches w i j ↔ ∃ k, r.Matches w i k ∧ s.Matches w k j := by
  induction r generalizing i with
  | empty =>
    constructor
    · intro h
      exact ⟨i, rfl, h⟩
    · rintro ⟨k, rfl, h⟩
      exact h
  | cat a b _ ih =>
    constructor
    · rintro ⟨l, ha, h⟩
      obtain ⟨k, hb, hs⟩ := ih.mp h
      exact ⟨k, ⟨l, ha, hb⟩, hs⟩
    · rintro ⟨k, ⟨l, ha, hb⟩, hs⟩
      exact ⟨l, ha, ih.mpr ⟨k, hb, hs⟩⟩
  | _ => exact matches_cat_unless_empty

theorem matches_seqAll_append {rs ss : List Regex} : (seqAll (rs ++ ss)).Matches w i j ↔
    ∃ k, (seqAll rs).Matches w i k ∧ (seqAll ss).Matches w k j := by
  rw [seqAll_append, matches_seq]

theorem matches_factors {r : Regex} : (seqAll r.factors).Matches w i j ↔ r.Matches w i j := by
  induction r generalizing i with
  | empty => rfl
  | cat a b _ ih =>
    show (seq a (seqAll b.factors)).Matches w i j ↔ _
    rw [matches_seq]
    exact exists_congr fun k => and_congr_right fun _ => ih
  | _ => rfl

theorem flatten_parts (r : Regex) : r.parts.flatten = r.factors := List.flatten_splitBy _ _

/-! ## Common beginnings -/

theorem common_prefix_left {α : Type} [DecidableEq α] (as bs : List α) : common as bs <+: as := by
  fun_induction common as bs with
  | case1 a as bs ih => exact List.cons_prefix_cons.mpr ⟨rfl, ih⟩
  | case2 => exact List.nil_prefix
  | case3 => exact List.nil_prefix

theorem common_prefix_right {α : Type} [DecidableEq α] (as bs : List α) : common as bs <+: bs := by
  fun_induction common as bs with
  | case1 a as bs ih => exact List.cons_prefix_cons.mpr ⟨rfl, ih⟩
  | case2 => exact List.nil_prefix
  | case3 => exact List.nil_prefix

theorem foldl_common_begins {α : Type} [DecidableEq α] (as : List α) (bss : List (List α)) :
    bss.foldl common as <+: as ∧ ∀ bs ∈ bss, bss.foldl common as <+: bs := by
  induction bss generalizing as with
  | nil => exact ⟨List.prefix_rfl, fun _ h => absurd h List.not_mem_nil⟩
  | cons bs bss ih =>
    obtain ⟨hfirst, hrest⟩ := ih (common as bs)
    refine ⟨hfirst.trans (common_prefix_left as bs), fun cs hcs => ?_⟩
    rcases List.mem_cons.mp hcs with rfl | hcs
    · exact hfirst.trans (common_prefix_right as cs)
    · exact hrest cs hcs

theorem lead_begins {pss : List (List (List Regex))} {ps : List (List Regex)} (h : ps ∈ pss) :
    lead pss <+: ps := by
  cases pss with
  | nil => cases h
  | cons qs pss =>
    rw [lead]
    split
    · obtain ⟨hfirst, hrest⟩ := foldl_common_begins qs pss
      rcases List.mem_cons.mp h with rfl | h
      · exact hfirst
      · exact hrest ps h
    · exact List.nil_prefix

/-- What follows a common beginning. -/
theorem factors_eq_of_begins {r : Regex} {shared : List (List Regex)} (h : shared <+: r.parts) :
    r.factors = shared.flatten ++ (r.parts.drop shared.length).flatten := by
  obtain ⟨rest, hrest⟩ := h
  rw [← flatten_parts, ← hrest, List.drop_left, List.flatten_append]

/-! ## Choices -/

theorem matches_branches {r : Regex} : r.Matches w i j ↔ ∃ b ∈ r.branches, b.Matches w i j := by
  induction r with
  | alt a b _ ih =>
    rw [branches, List.exists_mem_cons_iff, ← ih]
    rfl
  | _ => simp [branches]

theorem matches_flatMap_branches {rs : List Regex} :
    (∃ b ∈ rs.flatMap branches, b.Matches w i j) ↔ ∃ r ∈ rs, r.Matches w i j := by
  constructor
  · rintro ⟨b, hb, h⟩
    obtain ⟨r, hr, hb⟩ := List.mem_flatMap.mp hb
    exact ⟨r, hr, matches_branches.mpr ⟨b, hb, h⟩⟩
  · rintro ⟨r, hr, h⟩
    obtain ⟨b, hb, h⟩ := matches_branches.mp h
    exact ⟨b, List.mem_flatMap.mpr ⟨r, hr, hb⟩, h⟩

theorem matches_altAll {rs : List Regex} :
    (altAll rs).Matches w i j ↔ ∃ r ∈ rs, r.Matches w i j := by
  fun_induction altAll rs with
  | case1 =>
    constructor
    · rintro ⟨h, -⟩
      cases hc : w[i]? <;> rw [hc] at h <;> cases h
    · rintro ⟨r, hr, -⟩
      cases hr
  | case2 r => simp
  | case3 r rs hrs ih =>
    rw [List.exists_mem_cons_iff, ← ih]
    rfl

theorem matches_of_set? {r : Regex} {set : CharSet} (h : r.set? = some set) :
    r.Matches w i j ↔ w[i]?.any set.contains = true ∧ j = i + 1 := by
  cases r with
  | chars set' unicode =>
    cases h
    rfl
  | _ => cases h

/-- If branches are united, they are sets of characters. -/
theorem exists_set_of_union? {rs : List Regex} {u : Regex} (h : union? rs = some u) :
    u = chars (.unionAll (rs.filterMap set?)) ∧ ∀ r ∈ rs, ∃ set, r.set? = some set := by
  have hset {r : Regex} {p : CharSet → Bool} (h : r.set?.any p = true) :
      ∃ set, r.set? = some set := by
    obtain ⟨set, hset, -⟩ := (Option.any_eq_true _ _).mp h
    exact ⟨set, hset⟩
  rw [union?] at h
  split at h
  · next hall =>
    refine ⟨(Option.some.inj h).symm, fun r hr => ?_⟩
    rcases Bool.or_eq_true_iff.mp hall with hall | hall
    · exact hset (List.all_eq_true.mp hall r hr)
    · exact hset (List.all_eq_true.mp hall r hr)
  · cases h

theorem any_contains_union? {rs : List Regex} {c : Option Char} :
    c.any (CharSet.unionAll (rs.filterMap set?)).contains = true ↔
      ∃ r ∈ rs, ∃ set, r.set? = some set ∧ c.any set.contains = true := by
  cases c with
  | none => simp
  | some c =>
    rw [Option.any_some, CharSet.contains_unionAll_iff]
    simp only [List.mem_filterMap, Option.any_some]
    constructor
    · rintro ⟨set, ⟨r, hr, hset⟩, hc⟩
      exact ⟨r, hr, set, hset, hc⟩
    · rintro ⟨r, hr, set, hset, hc⟩
      exact ⟨set, ⟨r, hr, hset⟩, hc⟩

theorem matches_union? {rs : List Regex} {u : Regex} (h : union? rs = some u) :
    u.Matches w i j ↔ ∃ r ∈ rs, r.Matches w i j := by
  obtain ⟨rfl, hsets⟩ := exists_set_of_union? h
  constructor
  · rintro ⟨hc, rfl⟩
    obtain ⟨r, hr, set, hset, hc⟩ := any_contains_union?.mp hc
    exact ⟨r, hr, (matches_of_set? hset).mpr ⟨hc, rfl⟩⟩
  · rintro ⟨r, hr, h⟩
    obtain ⟨set, hset⟩ := hsets r hr
    have h := (matches_of_set? hset).mp h
    exact ⟨any_contains_union?.mpr ⟨r, hr, set, hset, h.1⟩, h.2⟩

theorem matches_choiceOf {rs : List Regex} :
    (choiceOf rs).Matches w i j ↔ ∃ r ∈ rs, r.Matches w i j := by
  rw [choiceOf]
  cases h : union? rs with
  | some u => exact matches_union? h
  | none => exact matches_altAll

/-- What is left of the expressions behind their first parts. -/
def tails (n : Nat) (rs : List Regex) : List Regex :=
  rs.map fun r => seqAll (r.parts.drop n).flatten

/-- What all expressions begin with, with the choice between what is left of them behind it. -/
def behind (shared : List (List Regex)) (rs : List Regex) : Regex :=
  seqAll (shared.flatten ++ [choiceOf ((tails shared.length rs).flatMap branches)])

theorem leadOut?_eq (rs : List Regex) :
    leadOut? rs = if lead (rs.map parts) = [] then none else some (behind (lead (rs.map parts)) rs) := by
  rw [leadOut?]
  cases lead (rs.map parts) with
  | nil => rfl
  | cons s shared => rfl

theorem matches_behind {shared : List (List Regex)} {rs : List Regex}
    (h : ∀ r ∈ rs, shared <+: r.parts) :
    (behind shared rs).Matches w i j ↔ ∃ r ∈ rs, r.Matches w i j := by
  have hone (r : Regex) (hr : r ∈ rs) : r.Matches w i j ↔
      ∃ k, (seqAll shared.flatten).Matches w i k ∧
        (seqAll (r.parts.drop shared.length).flatten).Matches w k j := by
    rw [← matches_factors, factors_eq_of_begins (h r hr), matches_seqAll_append]
  rw [behind, matches_seqAll_append]
  show (∃ k, _ ∧ (seq (choiceOf _) empty).Matches w k j) ↔ _
  simp only [seq_empty, matches_choiceOf, matches_flatMap_branches]
  constructor
  · rintro ⟨k, hk, t, ht, h⟩
    obtain ⟨r, hr, rfl⟩ := List.mem_map.mp ht
    exact ⟨r, hr, (hone r hr).mpr ⟨k, hk, h⟩⟩
  · rintro ⟨r, hr, h⟩
    obtain ⟨k, hk, h⟩ := (hone r hr).mp h
    exact ⟨k, hk, _, List.mem_map_of_mem hr, h⟩

theorem lead_parts_begins {rs : List Regex} : ∀ r ∈ rs, lead (rs.map parts) <+: r.parts :=
  fun _ hr => lead_begins (List.mem_map_of_mem hr)

/-- A choice between two expressions or more. -/
theorem choice_of_two {rs : List Regex} (h : rs.length ≠ 1) :
    choice rs = ((union? (rs.flatMap branches)).or (leadOut? (rs.flatMap branches))).getD
      (altAll (rs.flatMap branches)) := by
  unfold choice
  split
  · exact absurd rfl h
  · rfl

theorem matches_choice {rs : List Regex} :
    (choice rs).Matches w i j ↔ ∃ r ∈ rs, r.Matches w i j := by
  by_cases h : rs.length = 1
  · obtain ⟨r, rfl⟩ := List.length_eq_one_iff.mp h
    simp [choice]
  · rw [choice_of_two h, ← matches_flatMap_branches]
    generalize rs.flatMap branches = bs
    cases hu : union? bs with
    | some u => exact matches_union? hu
    | none =>
      rw [leadOut?_eq]
      split
      · exact matches_altAll
      · exact matches_behind lead_parts_begins

end TextParsing.Regex
