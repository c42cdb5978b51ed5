import Mathlib.Data.List.Infix
import TextParsing.Proofs.Parser.Remainder
import TextParsing.Proofs.Parser.Taking

/-!
# Literals one after the other

Literals in sequence are read like the one literal that they make up, and a repeated literal is read
like its powers.  `power t n` is the text `t` written `n` times; a text begins with the powers of `t` up
to a largest one, behind which `t` does not follow:

    Takes (sequence (ts.map literal)) ts.flatten ts rest                    (takes_sequence_literals)
    ¬ ts.flatten <+: s → FailsAt (sequence (ts.map literal)) s            (failsAt_sequence_literals)
    ¬ t <+: rest → (power t m <+: power t n ++ rest ↔ m ≤ n)                       (power_prefix_iff)
    t ≠ [] → ¬ t <+: rest →
      rounds (literal t) (power t n ++ rest) leaves rest after n rounds              (rounds_literal)
-/

namespace TextParsing

namespace Text

variable {t s rest : Text} {m n : Nat}

/-! ## Powers of a text -/

/-- A text, written so many times. -/
def power (t : Text) (n : Nat) : Text := (List.replicate n t).flatten

@[simp] theorem power_zero (t : Text) : power t 0 = [] := rfl

theorem power_succ (t : Text) (n : Nat) : power t (n + 1) = t ++ power t n := by
  rw [power, List.replicate_succ, List.flatten_cons, power]

theorem power_add (t : Text) (m n : Nat) : power t (m + n) = power t m ++ power t n := by
  rw [power, ← List.replicate_append_replicate, List.flatten_append, power, power]

theorem power_prefix_of_le (t : Text) (h : m ≤ n) : power t m <+: power t n := by
  obtain ⟨k, rfl⟩ := Nat.exists_eq_add_of_le h
  rw [power_add]
  exact List.prefix_append _ _

/-- Behind the largest power the text does not follow once more. -/
theorem power_prefix_iff (h : ¬ t <+: rest) : power t m <+: power t n ++ rest ↔ m ≤ n := by
  constructor
  · intro hprefix
    by_contra hlt
    have hnext : power t (n + 1) <+: power t n ++ rest :=
      (power_prefix_of_le t (by omega)).trans hprefix
    rw [power_add, power_succ, power_zero, List.append_nil, List.prefix_append_right_inj] at hnext
    exact h hnext
  · intro hle
    exact (power_prefix_of_le t hle).trans (List.prefix_append _ _)

/-- Every text begins with a largest power of a text that is not empty. -/
theorem exists_power_append (ht : t ≠ []) (s : Text) :
    ∃ n rest, s = power t n ++ rest ∧ ¬ t <+: rest := by
  generalize hlength : s.length = length
  induction length using Nat.strongRecOn generalizing s with
  | ind length ih =>
    by_cases hfirst : t <+: s
    · obtain ⟨mid, rfl⟩ := hfirst
      have hpos := List.length_pos_iff.mpr ht
      rw [List.length_append] at hlength
      obtain ⟨n, rest, rfl, hrest⟩ := ih mid.length (by omega) mid rfl
      exact ⟨n + 1, rest, by rw [power_succ, List.append_assoc], hrest⟩
    · exact ⟨0, s, rfl, hfirst⟩

end Text

namespace Parser

open Text

variable {t s rest : Text} {ts : List Text} {n : Nat}

/-! ## Literals in sequence -/

theorem takes_sequence_literals (ts : List Text) (rest : Text) :
    Takes (sequence (ts.map literal)) ts.flatten ts rest := by
  apply Takes.sequence
  induction ts with
  | nil => rfl
  | cons t ts ih => exact (takes_literal t (ts.flatten ++ rest)).inOrder_cons ih

/-- Where the literals do not all follow, one of them is missing. -/
theorem failsAt_sequence_literals (h : ¬ ts.flatten <+: s) :
    FailsAt (sequence (ts.map literal)) s := by
  apply failsAt_sequence
  induction ts generalizing s with
  | nil => exact absurd List.nil_prefix h
  | cons t ts ih =>
    by_cases hfirst : t <+: s
    · obtain ⟨mid, rfl⟩ := hfirst
      rw [List.flatten_cons, List.prefix_append_right_inj] at h
      exact (takes_literal t mid).inOrder_cons_failsAt (ih h)
    · exact (failsAt_literal hfirst).inOrder

/-! ## A repeated literal -/

theorem rounds_literal (ht : t ≠ []) (hrest : ¬ t <+: rest) (n : Nat) :
    rounds (literal t) (.ofText (power t n ++ rest)) =
      some (List.replicate n t, .ofText rest) := by
  have hitem : ∀ i ∈ List.replicate n t, i = t := fun i hi => List.eq_of_mem_replicate hi
  have hne : ∀ i ∈ List.replicate n t, i ≠ [] := fun i hi => hitem i hi ▸ ht
  have htakes : ∀ i ∈ List.replicate n t, ∀ u, True → Takes (literal t) i i u := by
    intro i hi u _
    rw [hitem i hi]
    exact takes_literal t u
  have h := rounds_flatMap hne htakes (fun _ _ _ h => h) trivial (.inr (failsAt_literal hrest))
  rwa [List.flatMap_id', List.map_id'] at h

/-- A sequence of literals succeeds exactly where the literal that they make up does, with the literals
as its values and with the same rest; elsewhere both fail and leave their input.  Every input begins
with a largest power of a text that is not empty.  A repetition of the text as a literal finds it as
often as that, and succeeds exactly where the power that it requires is no larger. -/
theorem literals_read_as_text (ts : List Text) {t : Text} (ht : t ≠ []) (input : Input) :
    (ts.flatten <+: input.text → ∃ rest,
      sequence (ts.map literal) input = some (.success ts rest) ∧
      literal ts.flatten input = some (.success ts.flatten rest)) ∧
    (¬ ts.flatten <+: input.text → ∃ e e',
      sequence (ts.map literal) input = some (.failure e) ∧ e.rest = input.text ∧
      literal ts.flatten input = some (.failure e') ∧ e'.rest = input.text) ∧
    ∃ n rest, input.text = power t n ++ rest ∧ (∀ m, power t m <+: input.text ↔ m ≤ n) ∧
      ∀ required,
        (power t required <+: input.text → repeatAtLeast required (literal t) input =
          some (.success (List.replicate n t) (.ofText rest))) ∧
        (¬ power t required <+: input.text → ∃ e,
          repeatAtLeast required (literal t) input = some (.failure e) ∧ e.rest = input.text ∧
          e.message = "expected at least ".toList ++ decimal required ++
            " repetitions, found ".toList ++ decimal n) := by
  refine ⟨?_, ?_, ?_⟩
  · rintro ⟨rest, htext⟩
    obtain rfl := Input.eq_ofText_iff.mpr htext.symm
    exact ⟨_, takes_sequence_literals ts rest, takes_literal ts.flatten rest⟩
  · intro hmissing
    obtain ⟨e, he⟩ := failsAt_sequence_literals hmissing
    obtain ⟨e', he'⟩ := failsAt_literal hmissing
    rw [Input.ofText_text] at he he'
    have hrest := (sequence_eq_failure_iff.mp he).1
    exact ⟨e, e', he, by rw [hrest], he', failsInPlace_literal _ input e' he'⟩
  · obtain ⟨n, rest, htext, hrest⟩ := exists_power_append ht input.text
    obtain rfl := Input.eq_ofText_iff.mpr htext
    have hpower (m : Nat) : power t m <+: power t n ++ rest ↔ m ≤ n := power_prefix_iff hrest
    have hrounds := rounds_literal ht hrest n
    refine ⟨n, rest, htext, hpower, fun required => ⟨?_, ?_⟩⟩
    · intro hle
      rw [Input.text_ofText, hpower] at hle
      exact repeatAtLeast_eq_success_iff.mpr ⟨hrounds, by rwa [List.length_replicate]⟩
    · intro hlt
      rw [Input.text_ofText, hpower, Nat.not_le] at hlt
      have hrepeat := repeatAtLeast_of_rounds required hrounds
      rw [List.length_replicate, if_pos hlt] at hrepeat
      exact ⟨_, hrepeat, rfl, rfl⟩

/-- Literals that overlap themselves, in text that ends in the middle of one: `éré` stands twice at the
beginning of `éréérér`, and not a third time. -/
theorem literals_read_as_text_overlap :
    (∃ rest, sequence [literal "ér".toList, literal [], literal "éé".toList]
        (.ofText "éréérér".toList) = some (.success ["ér".toList, [], "éé".toList] rest) ∧
      literal "éréé".toList (.ofText "éréérér".toList) =
        some (.success "éréé".toList rest)) ∧
    repeatAtLeast 2 (literal "éré".toList) (.ofText "éréérér".toList) =
      some (.success ["éré".toList, "éré".toList] (.ofText "r".toList)) ∧
    ∃ e, repeatAtLeast 3 (literal "éré".toList) (.ofText "éréérér".toList) = some (.failure e) ∧
      e.message = "expected at least 3 repetitions, found 2".toList := by
  obtain ⟨hsequence, -, n, rest, htext, hn, hrepeat⟩ :=
    literals_read_as_text ["ér".toList, [], "éé".toList] (t := "éré".toList) (by decide)
      (.ofText "éréérér".toList)
  obtain rfl : n = 2 := by
    have htwo := (hn 2).mp (by decide)
    have hthree := mt (hn 3).mpr (by decide)
    omega
  have htext : "érééré".toList ++ "r".toList = "érééré".toList ++ rest := htext
  obtain rfl : "r".toList = rest := List.append_cancel_left htext
  refine ⟨hsequence (by decide), (hrepeat 2).1 (by decide), ?_⟩
  obtain ⟨e, he, -, hmessage⟩ := (hrepeat 3).2 (by decide)
  exact ⟨e, he, hmessage.trans (by decide)⟩

end Parser

end TextParsing
