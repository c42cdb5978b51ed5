/-!
# Sets of characters

A `CharSet` keeps the code points at which membership changes, in ascending order: below the first
bound there is no member, from the first to the second every character is one, and so on.  All
operations on sets are one walk along two lists of bounds, `merge`.

    (s.combine f t).contains c = f (s.contains c) (t.contains c)       (contains_combine)
    (range a b).contains c = true ↔ a ≤ c ∧ c ≤ b                      (contains_range_iff)
    (unionAll l).contains c = true ↔ ∃ s ∈ l, s.contains c = true      (contains_unionAll_iff)

No bound is written between or after the code points of characters, so sets made by these
operations that have the same members are equal, and equality can be decided.
-/

namespace TextParsing

/-- A set of characters, given by the code points at which membership changes. -/
structure CharSet where
  bounds : List Nat
  ascending : bounds.Pairwise (· < ·)
  deriving DecidableEq

namespace CharSet

/-! ## Membership -/

/-- Whether a code point is a member, if those below the first bound are (`inside`) or are not. -/
def holds (inside : Bool) : List Nat → Nat → Bool
  | [], _ => inside
  | b :: bs, n => if n < b then inside else holds (!inside) bs n

/-- Whether a character is a member. -/
def contains (s : CharSet) (c : Char) : Bool := holds false s.bounds c.toNat

theorem holds_of_lt {inside : Bool} {bs : List Nat} {n : Nat} (h : ∀ b ∈ bs, n < b) :
    holds inside bs n = inside := by
  cases bs with
  | nil => rfl
  | cons b bs => simp [holds, h b List.mem_cons_self]

/-! ## The walk along two lists of bounds -/

/-- Writes a bound where membership changes. -/
def note (before after : Bool) (b : Nat) (bs : List Nat) : List Nat :=
  if before = after then bs else b :: bs

/-- The bounds of the set whose members are determined by `f` from membership in two sets; `a` and
`b` tell whether the walk is inside these. -/
def merge (f : Bool → Bool → Bool) (a b : Bool) : List Nat → List Nat → List Nat
  | [], [] => []
  | x :: xs, [] => note (f a b) (f (!a) b) x (merge f (!a) b xs [])
  | [], y :: ys => note (f a b) (f a (!b)) y (merge f a (!b) [] ys)
  | x :: xs, y :: ys =>
    if x < y then note (f a b) (f (!a) b) x (merge f (!a) b xs (y :: ys))
    else if y < x then note (f a b) (f a (!b)) y (merge f a (!b) (x :: xs) ys)
    else note (f a b) (f (!a) (!b)) x (merge f (!a) (!b) xs ys)
termination_by xs ys => xs.length + ys.length

theorem mem_note {before after : Bool} {b z : Nat} {bs : List Nat}
    (h : z ∈ note before after b bs) : z = b ∨ z ∈ bs := by
  unfold note at h
  split at h
  · exact Or.inr h
  · exact List.mem_cons.mp h

theorem mem_merge {f : Bool → Bool → Bool} {a b : Bool} {xs ys : List Nat} {z : Nat}
    (h : z ∈ merge f a b xs ys) : z ∈ xs ∨ z ∈ ys := by
  fun_induction merge f a b xs ys with
  | case1 => cases h
  | case2 a b x xs ih => rcases mem_note h with h | h <;> grind
  | case3 a b y ys ih => rcases mem_note h with h | h <;> grind
  | case4 a b x xs y ys hxy ih => rcases mem_note h with h | h <;> grind
  | case5 a b x xs y ys hxy hyx ih => rcases mem_note h with h | h <;> grind
  | case6 a b x xs y ys hxy hyx ih => rcases mem_note h with h | h <;> grind

theorem pairwise_note {before after : Bool} {b : Nat} {bs : List Nat}
    (hb : ∀ z ∈ bs, b < z) (h : bs.Pairwise (· < ·)) :
    (note before after b bs).Pairwise (· < ·) := by
  unfold note
  split
  · exact h
  · exact List.pairwise_cons.mpr ⟨hb, h⟩

theorem pairwise_merge {f : Bool → Bool → Bool} {a b : Bool} {xs ys : List Nat}
    (hx : xs.Pairwise (· < ·)) (hy : ys.Pairwise (· < ·)) :
    (merge f a b xs ys).Pairwise (· < ·) := by
  fun_induction merge f a b xs ys with
  | case1 => exact List.Pairwise.nil
  | case2 a b x xs ih =>
    rw [List.pairwise_cons] at hx
    exact pairwise_note (fun z hz => by rcases mem_merge hz with h | h <;> grind) (ih hx.2 hy)
  | case3 a b y ys ih =>
    rw [List.pairwise_cons] at hy
    exact pairwise_note (fun z hz => by rcases mem_merge hz with h | h <;> grind) (ih hx hy.2)
  | case4 a b x xs y ys hxy ih =>
    have hy' := List.pairwise_cons.mp hy
    rw [List.pairwise_cons] at hx
    refine pairwise_note (fun z hz => ?_) (ih hx.2 hy)
    rcases mem_merge hz with h | h <;> grind
  | case5 a b x xs y ys hxy hyx ih =>
    have hx' := List.pairwise_cons.mp hx
    rw [List.pairwise_cons] at hy
    refine pairwise_note (fun z hz => ?_) (ih hx hy.2)
    rcases mem_merge hz with h | h <;> grind
  | case6 a b x xs y ys hxy hyx ih =>
    rw [List.pairwise_cons] at hx hy
    refine pairwise_note (fun z hz => ?_) (ih hx.2 hy.2)
    rcases mem_merge hz with h | h <;> grind

theorem holds_note {before after : Bool} {b n : Nat} {bs : List Nat} :
    holds before (note before after b bs) n =
      if n < b ∧ before ≠ after then before else holds after bs n := by
  unfold note
  split
  · next h => simp [h]
  · next h =>
    have ha : after = !before := by cases before <;> cases after <;> simp_all
    subst ha
    simp [holds]

theorem holds_merge {f : Bool → Bool → Bool} {a b : Bool} {xs ys : List Nat}
    (hx : xs.Pairwise (· < ·)) (hy : ys.Pairwise (· < ·)) (n : Nat) :
    holds (f a b) (merge f a b xs ys) n = f (holds a xs n) (holds b ys n) := by
  fun_induction merge f a b xs ys with
  | case1 => rfl
  | case2 a b x xs ih =>
    have hx' := List.pairwise_cons.mp hx
    rw [holds_note, ih hx'.2 hy]
    by_cases h : n < x
    · have : holds (!a) xs n = !a := holds_of_lt fun z hz => Nat.lt_trans h (hx'.1 z hz)
      grind [holds]
    · simp [holds, h]
  | case3 a b y ys ih =>
    have hy' := List.pairwise_cons.mp hy
    rw [holds_note, ih hx hy'.2]
    by_cases h : n < y
    · have : holds (!b) ys n = !b := holds_of_lt fun z hz => Nat.lt_trans h (hy'.1 z hz)
      grind [holds]
    · simp [holds, h]
  | case4 a b x xs y ys hxy ih =>
    have hx' := List.pairwise_cons.mp hx
    rw [holds_note, ih hx'.2 hy]
    by_cases h : n < x
    · have h1 : holds (!a) xs n = !a := holds_of_lt fun z hz => Nat.lt_trans h (hx'.1 z hz)
      have h2 : n < y := Nat.lt_trans h hxy
      grind [holds]
    · simp [holds, h]
  | case5 a b x xs y ys hxy hyx ih =>
    have hy' := List.pairwise_cons.mp hy
    rw [holds_note, ih hx hy'.2]
    by_cases h : n < y
    · have h1 : holds (!b) ys n = !b := holds_of_lt fun z hz => Nat.lt_trans h (hy'.1 z hz)
      have h2 : n < x := Nat.lt_trans h hyx
      grind [holds]
    · simp [holds, h]
  | case6 a b x xs y ys hxy hyx ih =>
    have hx' := List.pairwise_cons.mp hx
    have hy' := List.pairwise_cons.mp hy
    have he : y = x := by omega
    subst he
    rw [holds_note, ih hx'.2 hy'.2]
    by_cases h : n < y
    · have h1 : holds (!a) xs n = !a := holds_of_lt fun z hz => Nat.lt_trans h (hx'.1 z hz)
      have h2 : holds (!b) ys n = !b := holds_of_lt fun z hz => Nat.lt_trans h (hy'.1 z hz)
      grind [holds]
    · simp [holds, h]

/-! ## Operations -/

/-- The set whose members are determined by `f` from membership in two sets. -/
def combine (f : Bool → Bool → Bool) (s t : CharSet) : CharSet :=
  ⟨merge f false false s.bounds t.bounds, pairwise_merge s.ascending t.ascending⟩

theorem contains_combine {f : Bool → Bool → Bool} (hf : f false false = false) (s t : CharSet)
    (c : Char) : (s.combine f t).contains c = f (s.contains c) (t.contains c) := by
  have h := holds_merge (f := f) (a := false) (b := false) s.ascending t.ascending c.toNat
  rw [hf] at h
  exact h

/-- The set without members. -/
def none : CharSet := ⟨[], List.Pairwise.nil⟩

/-- The set of all characters. -/
def all : CharSet := ⟨[0], List.pairwise_singleton _ _⟩

/-- The members of either set. -/
def union : CharSet → CharSet → CharSet := combine fun a b => a || b

/-- The members of both sets. -/
def inter : CharSet → CharSet → CharSet := combine fun a b => a && b

/-- The members of the first set that are not in the second. -/
def diff : CharSet → CharSet → CharSet := combine fun a b => a && !b

/-- The members of exactly one of the sets. -/
def symmDiff : CharSet → CharSet → CharSet := combine fun a b => a != b

/-- The characters that are no members. -/
def compl (s : CharSet) : CharSet := all.diff s

@[simp] theorem contains_none (c : Char) : none.contains c = false := rfl

@[simp] theorem contains_all (c : Char) : all.contains c = true := rfl

@[simp] theorem contains_union (s t : CharSet) (c : Char) :
    (s.union t).contains c = (s.contains c || t.contains c) := contains_combine rfl s t c

@[simp] theorem contains_inter (s t : CharSet) (c : Char) :
    (s.inter t).contains c = (s.contains c && t.contains c) := contains_combine rfl s t c

@[simp] theorem contains_diff (s t : CharSet) (c : Char) :
    (s.diff t).contains c = (s.contains c && !t.contains c) := contains_combine rfl s t c

@[simp] theorem contains_symmDiff (s t : CharSet) (c : Char) :
    (s.symmDiff t).contains c = (s.contains c != t.contains c) := contains_combine rfl s t c

@[simp] theorem contains_compl (s : CharSet) (c : Char) :
    s.compl.contains c = !s.contains c := by
  simp [compl]

/-! ## Ranges -/

/-- The bound after a character: the code point of the next one, if there is one. -/
def boundAfter (c : Char) : List Nat :=
  if c.toNat = 0x10FFFF then []
  else if c.toNat = 0xD7FF then [0xE000]
  else [c.toNat + 1]

theorem lt_of_mem_boundAfter {c : Char} {b : Nat} (h : b ∈ boundAfter c) : c.toNat < b := by
  unfold boundAfter at h
  repeat' split at h
  all_goals simp_all

/-- The characters from the first to the last, both included. -/
def range (first last : Char) : CharSet :=
  if h : first.toNat ≤ last.toNat then
    ⟨first.toNat :: boundAfter last, List.pairwise_cons.mpr
      ⟨fun _ hb => Nat.lt_of_le_of_lt h (lt_of_mem_boundAfter hb), by
        unfold boundAfter
        repeat' split
        all_goals simp⟩⟩
  else none

/-- The set with a single member. -/
def single (c : Char) : CharSet := range c c

theorem toNat_cases (c : Char) : c.toNat < 0xD800 ∨ (0xE000 ≤ c.toNat ∧ c.toNat < 0x110000) := by
  have v := c.valid
  have e : c.val.toNat = c.toNat := rfl
  simp only [UInt32.isValidChar, Nat.isValidChar] at v
  rw [e] at v
  omega

theorem holds_boundAfter (last c : Char) :
    holds true (boundAfter last) c.toNat = decide (c.toNat ≤ last.toNat) := by
  have hc := toNat_cases c
  have hl := toNat_cases last
  unfold boundAfter
  repeat' split
  all_goals simp only [holds]
  all_goals grind

theorem contains_range (first last c : Char) :
    (range first last).contains c = (decide (first.toNat ≤ c.toNat) && decide (c.toNat ≤ last.toNat)) := by
  unfold range contains
  split
  · next h =>
    rw [holds]
    split
    · next hc => simp [Nat.not_le.mpr hc]
    · next hc => simp [holds_boundAfter, Nat.not_lt.mp hc]
  · next h =>
    simp only [none, holds]
    grind

theorem contains_range_iff {first last c : Char} :
    (range first last).contains c = true ↔ first ≤ c ∧ c ≤ last := by
  rw [contains_range, Bool.and_eq_true, decide_eq_true_eq, decide_eq_true_eq]
  exact Iff.rfl

theorem contains_single_iff {d c : Char} : (single d).contains c = true ↔ c = d := by
  rw [single, contains_range_iff]
  constructor
  · rintro ⟨h1, h2⟩
    exact Char.le_antisymm h2 h1
  · rintro rfl
    exact ⟨Char.le_refl c, Char.le_refl c⟩

/-- Whether a set has exactly one member. -/
def isSingle (s : CharSet) : Bool :=
  match s.bounds with
  | [] => false
  | b :: _ => s == single (Char.ofNat b)

/-- Whether a set has no members. -/
def isNone (s : CharSet) : Bool := s.bounds.isEmpty

/-! ## Unions of many sets -/

/-- The unions of neighbouring sets. -/
def unionPairs : List CharSet → List CharSet
  | s :: t :: l => s.union t :: unionPairs l
  | l => l

theorem length_unionPairs_le (l : List CharSet) : (unionPairs l).length ≤ l.length := by
  fun_induction unionPairs l with
  | case1 s t l ih => simp; omega
  | case2 => exact Nat.le_refl _

/-- The union of any number of sets. -/
def unionAll : List CharSet → CharSet
  | [] => none
  | [s] => s
  | s :: t :: l => unionAll (s.union t :: unionPairs l)
termination_by l => l.length
decreasing_by
  have := length_unionPairs_le l
  simp
  omega

theorem exists_mem_unionPairs {l : List CharSet} {c : Char} :
    (∃ s ∈ unionPairs l, s.contains c = true) ↔ ∃ s ∈ l, s.contains c = true := by
  fun_induction unionPairs l with
  | case1 s t l ih => simp [ih, or_assoc]
  | case2 => exact Iff.rfl

theorem contains_unionAll_iff {l : List CharSet} {c : Char} :
    (unionAll l).contains c = true ↔ ∃ s ∈ l, s.contains c = true := by
  fun_induction unionAll l with
  | case1 => simp
  | case2 s => simp
  | case3 s t l ih =>
    rw [ih]
    simp [exists_mem_unionPairs, or_assoc]

/-- The set of the given characters. -/
def ofList (cs : List Char) : CharSet := unionAll (cs.map single)

theorem contains_ofList_iff {cs : List Char} {c : Char} :
    (ofList cs).contains c = true ↔ c ∈ cs := by
  rw [ofList, contains_unionAll_iff]
  constructor
  · rintro ⟨s, hs, hc⟩
    obtain ⟨d, hd, rfl⟩ := List.mem_map.mp hs
    exact contains_single_iff.mp hc ▸ hd
  · exact fun hc => ⟨_, List.mem_map_of_mem hc, contains_single_iff.mpr rfl⟩

/-- The set of the characters whose code points lie in one of the ranges, ends included. -/
def ofCodes (ranges : List (Nat × Nat)) : CharSet :=
  unionAll (ranges.map fun r => range (Char.ofNat r.1) (Char.ofNat r.2))

theorem contains_ofCodes_iff {ranges : List (Nat × Nat)} {c : Char} :
    (ofCodes ranges).contains c = true ↔
      ∃ r ∈ ranges, Char.ofNat r.1 ≤ c ∧ c ≤ Char.ofNat r.2 := by
  rw [ofCodes, contains_unionAll_iff]
  constructor
  · rintro ⟨s, hs, hc⟩
    obtain ⟨r, hr, rfl⟩ := List.mem_map.mp hs
    exact ⟨r, hr, contains_range_iff.mp hc⟩
  · rintro ⟨r, hr, hc⟩
    exact ⟨_, List.mem_map_of_mem hr, contains_range_iff.mpr hc⟩

end CharSet

end TextParsing
