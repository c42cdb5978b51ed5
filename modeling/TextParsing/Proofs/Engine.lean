import Mathlib.Data.Nat.Find
import TextParsing.Engine

/-!
# Anchored patterns in an engine

What the laws of an engine say of a pattern that is put between `^(?:` and `)`.  If nothing is open
behind the pattern, the anchored one is found where the pattern matches at the start of the text:

    E.ending s = some ⟨0, false⟩ → E.compile (anchor s) = .ok p →
      p.find? w = (E.endAt s w 0).map (Match.mk 0)                                (find?_anchor)

If a comment is open behind it, the anchored one cannot be compiled (`exists_compile_anchor_iff`).
-/

namespace TextParsing.Engine

open PatternParser (anchor grouped)

variable {E : Engine} {s w : Text} {p q : Pattern} {i j : Nat}

/-! ## Searches -/

/-- If anything matches, something is found that begins no later. -/
theorem exists_find? (hp : E.compile s = .ok p) (h : E.endAt s w i = some j) :
    ∃ m, p.find? w = some m ∧ m.start ≤ i := by
  have hi : (E.endAt s w i).isSome := Option.isSome_of_eq_some h
  have hsome : ∃ k, (E.endAt s w k).isSome := ⟨i, hi⟩
  obtain ⟨l, hl⟩ := Option.isSome_iff_exists.mp (Nat.find_spec hsome)
  have hfirst : ∀ k < Nat.find hsome, E.endAt s w k = none := fun k hk =>
    Option.not_isSome_iff_eq_none.mp (Nat.find_min hsome hk)
  exact ⟨⟨Nat.find hsome, l⟩, (E.find?_iff hp).mpr ⟨hl, hfirst⟩, Nat.find_min' hsome hi⟩

theorem find?_eq_none_iff (hp : E.compile s = .ok p) :
    p.find? w = none ↔ ∀ i, E.endAt s w i = none := by
  constructor
  · intro hnone i
    cases hi : E.endAt s w i with
    | none => rfl
    | some j =>
      obtain ⟨m, hm, -⟩ := exists_find? hp hi
      rw [hnone] at hm
      cases hm
  · intro hnone
    cases hm : p.find? w with
    | none => rfl
    | some m =>
      have hend := ((E.find?_iff hp).mp hm).1
      rw [hnone] at hend
      cases hend

/-- What is found is a part of the text. -/
theorem le_of_find? (hp : E.compile s = .ok p) {m : Match} (h : p.find? w = some m) :
    m.start ≤ m.stop ∧ m.stop ≤ w.length :=
  E.endAt_bounds ((E.find?_iff hp).mp h).1

/-- A match at the start of the text is found if there is one. -/
theorem find?_start_iff (hp : E.compile s = .ok p) :
    p.find? w = some ⟨0, j⟩ ↔ E.endAt s w 0 = some j := by
  rw [E.find?_iff hp]
  exact ⟨fun h => h.1, fun h => ⟨h, fun i hi => absurd hi (Nat.not_lt_zero i)⟩⟩

/-! ## Behind a caret -/

theorem anchor_eq (s : Text) : anchor s = '^' :: grouped s := by
  have hcaret : "^(?:".toList = '^' :: "(?:".toList := by decide
  rw [anchor, hcaret]
  rfl

theorem ending_anchor (h : E.ending s = some ⟨0, false⟩) :
    E.ending (anchor s) = some ⟨0, false⟩ :=
  E.ending_close (E.ending_open h)

/-- A comment takes in the parenthesis that should close the group. -/
theorem ending_anchor_of_comment (h : E.ending s = some ⟨0, true⟩) :
    ∃ comment, E.ending (anchor s) = some ⟨1, comment⟩ :=
  (E.ending_comment (E.ending_open h)).1

/-- A pattern that can be compiled can be anchored if nothing is open behind it. -/
theorem exists_compile_anchor_iff (hq : E.compile s = .ok q) :
    (∃ p, E.compile (anchor s) = .ok p) ↔ E.ending s = some ⟨0, false⟩ ∧ E.Fits (anchor s) := by
  rw [E.exists_compile_iff]
  refine and_congr_left fun _ => ⟨fun ⟨comment, hanchor⟩ => ?_, fun hs => ⟨_, ending_anchor hs⟩⟩
  obtain ⟨⟨comment', hs⟩, -⟩ := (E.exists_compile_iff s).mp ⟨q, hq⟩
  cases comment' with
  | false => exact hs
  | true =>
    obtain ⟨comment', hopen⟩ := ending_anchor_of_comment hs
    rw [hopen] at hanchor
    cases hanchor

/-- Nothing is open behind a pattern that can be compiled and can be anchored. -/
theorem ending_of_compile (hq : E.compile s = .ok q) (hp : E.compile (anchor s) = .ok p) :
    E.ending s = some ⟨0, false⟩ :=
  ((exists_compile_anchor_iff hq).mp ⟨p, hp⟩).1

theorem endAt_anchor (h : E.ending s = some ⟨0, false⟩) :
    E.endAt (anchor s) w i = if i = 0 then E.endAt s w i else none := by
  rw [anchor_eq, E.endAt_caret h, E.endAt_group h]

/-- An anchored pattern is found where the pattern matches at the start of the text. -/
theorem find?_anchor (h : E.ending s = some ⟨0, false⟩) (hp : E.compile (anchor s) = .ok p) :
    p.find? w = (E.endAt s w 0).map (Match.mk 0) := by
  have hzero : E.endAt (anchor s) w 0 = E.endAt s w 0 := by rw [endAt_anchor h, if_pos rfl]
  cases hend : E.endAt s w 0 with
  | some j =>
    rw [hend] at hzero
    exact (find?_start_iff hp).mpr hzero
  | none =>
    refine (find?_eq_none_iff hp).mpr fun i => ?_
    rw [endAt_anchor h]
    split
    · next hi => rw [hi, hend]
    · rfl

end TextParsing.Engine
