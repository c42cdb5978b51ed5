import TextParsing.Proofs.Parser.Taking
import TextParsing.Proofs.Text.Run

/-!
# Runs of characters, one by one

A run of characters is what a repetition of single characters finds.  `oneOf ok refusal` consumes one
character that satisfies `ok`, and the rounds of its repetition are the characters of the run:

    (∀ c ∈ run, ok c = true) → (∀ c ∈ rest.head?, ok c = false) →
      rounds (oneOf ok refusal) (.ofText (run ++ rest)) = some (run.map ([·]), .ofText rest)
                                                                                   (rounds_oneOf)

So `runAtLeast` and the repetition succeed together and leave the same, and where the run is too short
both say how long it is.
-/

namespace TextParsing.Parser

variable {ok : Char → Bool} {run rest : Text}

/-- Consumes one character that satisfies `ok`.  If there is none, the failure leaves the whole input,
and its cause may depend on the input. -/
def oneOf (ok : Char → Bool) (refusal : Text → Cause) : Parser Text := ofFunction fun input =>
  match input.text with
  | c :: _ => if ok c then .success [c] (input.drop 1) else .failure ⟨refusal input.text, input.text⟩
  | [] => .failure ⟨refusal input.text, input.text⟩

theorem takes_oneOf (refusal : Text → Cause) {c : Char} (h : ok c = true) (rest : Text) :
    Takes (oneOf ok refusal) [c] [c] rest := by
  have hdrop : (Input.ofText (c :: rest)).drop 1 = .ofText rest := Input.ext rfl
  show some (if ok c then _ else _) = _
  rw [if_pos h, ← hdrop]
  rfl

theorem failsAt_oneOf (refusal : Text → Cause) (h : ∀ c ∈ rest.head?, ok c = false) :
    FailsAt (oneOf ok refusal) rest := by
  cases rest with
  | nil => exact ⟨_, rfl⟩
  | cons c rest => exact ⟨_, congrArg some (if_neg (ne_true_of_eq_false (h c rfl)))⟩

/-- The rounds of single characters are the characters of the run. -/
theorem rounds_oneOf (refusal : Text → Cause) (hrun : ∀ c ∈ run, ok c = true)
    (hrest : ∀ c ∈ rest.head?, ok c = false) :
    rounds (oneOf ok refusal) (.ofText (run ++ rest)) = some (run.map ([·]), .ofText rest) := by
  have hany : ∀ c ∈ run, ∀ t, True → Takes (oneOf ok refusal) [c] [c] t :=
    fun c hc t _ => takes_oneOf refusal (hrun c hc) t
  have h := rounds_flatMap (by simp) hany (fun _ _ _ h => h) trivial
    (.inr (failsAt_oneOf refusal hrest))
  rwa [List.flatMap_singleton'] at h

/-- Every input begins with a run of characters that satisfy `ok` and goes on with something else; the
run ends at the byte that a walk along the bytes finds, with the number of characters that it counts.
A parser of such runs and a repetition of a parser of single characters both take the run, as a text
and as the list of its characters, if it has as many characters as they require.  Otherwise both fail
at their input and tell the number required and the length of the whole run. -/
theorem runAtLeast_agrees_with_repetition (ok : Char → Bool) (refusal : Text → Cause)
    (required : Nat) (input : Input) :
    ∃ taken rest, input.text = taken ++ rest ∧
      (∀ c ∈ taken, ok c = true) ∧ (∀ c ∈ rest.head?, ok c = false) ∧
      Text.scanRun ok (Text.byteLength input.text) 0 (Text.withOffsets 0 input.text) =
        (Text.byteLength taken, taken.length) ∧
      Text.fromByte? (Text.byteLength taken) input.text = some rest ∧
      (required ≤ taken.length →
        runAtLeast required ok input = some (.success taken (.ofText rest)) ∧
        ∃ chars, repeatAtLeast required (oneOf ok refusal) input =
            some (.success chars (.ofText rest)) ∧
          chars = taken.map ([·]) ∧ chars.flatten = taken ∧ chars.length = taken.length) ∧
      (taken.length < required → ∃ e e',
        runAtLeast required ok input = some (.failure e) ∧
        repeatAtLeast required (oneOf ok refusal) input = some (.failure e') ∧
        e.rest = input.text ∧ e'.rest = input.text ∧
        e.message = "expected at least ".toList ++ Text.decimal required ++
          " matching characters, found ".toList ++ Text.decimal taken.length ∧
        e'.message = "expected at least ".toList ++ Text.decimal required ++
          " repetitions, found ".toList ++ Text.decimal taken.length) := by
  obtain ⟨taken, rest, htext, htaken, hrest⟩ := Text.exists_run_append ok input.text
  obtain rfl := Input.eq_ofText_iff.mpr htext
  have hnone := Text.takeWhile_eq_nil_of_head? hrest
  have hrounds := rounds_oneOf refusal htaken hrest
  refine ⟨taken, rest, htext, htaken, hrest, ?_, ?_, ?_, ?_⟩
  · have h := Text.scanRun_withOffsets htaken hrest 0 0
    rwa [Nat.zero_add, Nat.zero_add, Nat.zero_add] at h
  · exact Text.fromByte?_byteLength taken rest
  · intro hle
    refine ⟨takes_runAtLeast hle htaken hnone, taken.map ([·]), ?_, rfl, ?_, ?_⟩
    · exact repeatAtLeast_eq_success_iff.mpr ⟨hrounds, by rwa [List.length_map]⟩
    · rw [← List.flatMap_def, List.flatMap_singleton']
    · exact List.length_map _
  · intro hlt
    have hrepeat := repeatAtLeast_of_rounds required hrounds
    rw [List.length_map, if_pos hlt] at hrepeat
    exact ⟨_, _, runAtLeast_of_short hlt htaken hnone, hrepeat, rfl, rfl, rfl, rfl⟩

/-- A run of two characters with two bytes each: it is long enough for two, as a run and as a
repetition, and where three are required both have found two. -/
theorem runAtLeast_agrees_with_repetition_accents :
    (∃ chars, repeatAtLeast 2 (oneOf (· != '.') fun _ => .noAlternative) (.ofText "éà.x".toList) =
        some (.success chars (.ofText ".x".toList)) ∧ chars.length = 2) ∧
    ∃ e, repeatAtLeast 3 (oneOf (· != '.') fun _ => .noAlternative) (.ofText "éà.x".toList) =
        some (.failure e) ∧
      e.message = "expected at least 3 repetitions, found 2".toList := by
  constructor
  · obtain ⟨taken, rest, htext, htaken, hrest, -, -, hlong, -⟩ :=
      runAtLeast_agrees_with_repetition (· != '.') (fun _ => .noAlternative) 2
        (.ofText "éà.x".toList)
    obtain rfl : taken = "éà".toList := by
      rw [← Text.takeWhile_append htaken hrest, ← htext]
      decide
    have htext : "éà".toList ++ ".x".toList = "éà".toList ++ rest := htext
    obtain rfl : ".x".toList = rest := List.append_cancel_left htext
    obtain ⟨-, chars, hchars, -, -, hlength⟩ := hlong (by decide)
    exact ⟨chars, hchars, hlength⟩
  · obtain ⟨taken, rest, htext, htaken, hrest, -, -, -, hshort⟩ :=
      runAtLeast_agrees_with_repetition (· != '.') (fun _ => .noAlternative) 3
        (.ofText "éà.x".toList)
    obtain rfl : taken = "éà".toList := by
      rw [← Text.takeWhile_append htaken hrest, ← htext]
      decide
    obtain ⟨-, e, -, he, -, -, -, hmessage⟩ := hshort (by decide)
    exact ⟨e, he, hmessage.trans (by decide)⟩

end TextParsing.Parser
