import TextParsing.Parser.Run
import TextParsing.Proofs.Parser.Combinators

/-!
# Greedy repetition, round by round

The rounds of a repetition are determined by its parser alone.  `Greedy p cursor rounds` says that
`rounds` is the list of the values that `p` finds one after the other from `cursor` on, each with the
input that it leaves: every round consumes something, and no further round could follow.  There is
exactly one such list, and a repetition answers as it says:

    Greedy p cursor rs → rounds p cursor = some (rs.map Prod.fst, lastCursor cursor rs)
                                                                              (Greedy.rounds_eq)

The loop compares the lengths of inputs; where rests are suffixes, it may compare them in characters or
in bytes (`roundsFrom_of_suffix`).

How often the parser is run is told by the same loop in a monad (`roundsIn`): for `Option` it is the
loop of the repetition, and with a log it lists the inputs on which the parser is run.
-/

namespace TextParsing.Parser

variable {α : Type} {p : Parser α}

/-- Whether the rest of every success is a suffix of the input. -/
def SucceedsOnSuffix (p : Parser α) : Prop :=
  ∀ input v rest, p input = some (.success v rest) → rest.text <:+ input.text

/-- A suffix has been reached without consuming anything if and only if its length in bytes is that of
the input. -/
theorem byteLength_eq_iff_of_suffix {rest input : Input} (h : rest.text <:+ input.text) :
    rest.text.byteLength = input.text.byteLength ↔ ¬ rest.length < input.length := by
  rw [rest.length_eq, input.length_eq]
  constructor
  · obtain ⟨lead, hlead⟩ := h
    intro heq hlt
    cases lead with
    | nil => simp [← hlead] at hlt
    | cons c lead =>
      have := Char.utf8Size_pos c
      simp [← hlead] at heq
      omega
  · intro hle
    rw [h.eq_of_length (Nat.le_antisymm h.length_le (Nat.not_lt.mp hle))]

/-- Where rests are suffixes, the loop of the repetition may as well compare lengths in bytes: it stops
if they are equal, and else it goes on. -/
theorem roundsFrom_of_suffix (hs : SucceedsOnSuffix p) (found : List α) (cursor : Input) :
    roundsFrom p found cursor =
      if cursor.length = 0 then some (found.reverse, cursor)
      else
        match p cursor with
        | none => none
        | some (.failure _) => some (found.reverse, cursor)
        | some (.success v rest) =>
          if rest.text.byteLength = cursor.text.byteLength then some (found.reverse, cursor)
          else roundsFrom p (v :: found) rest := by
  rw [roundsFrom]
  split
  · rfl
  · cases ho : p cursor with
    | none => rfl
    | some o =>
      cases o with
      | failure e => rfl
      | success v rest =>
        dsimp only
        by_cases hlt : rest.length < cursor.length
        · rw [if_pos hlt, if_neg fun h =>
            (byteLength_eq_iff_of_suffix (hs cursor v rest ho)).mp h hlt]
        · rw [if_neg hlt, if_pos ((byteLength_eq_iff_of_suffix (hs cursor v rest ho)).mpr hlt)]

/-! ## Chains of rounds -/

/-- Whether no round begins at the cursor: nothing is left, or the parser fails there, or it succeeds
there and leaves all of it. -/
def NoRound (p : Parser α) (cursor : Input) : Prop :=
  cursor.text = [] ∨ (∃ e, p cursor = some (.failure e)) ∨
    ∃ v, p cursor = some (.success v cursor)

/-- The rounds from a cursor on, each with its value and the cursor after it. -/
inductive Greedy (p : Parser α) : Input → List (α × Input) → Prop where
  | stop {cursor : Input} (h : NoRound p cursor) : Greedy p cursor []
  | round {cursor rest : Input} {v : α} {rs : List (α × Input)} (hne : cursor.text ≠ [])
      (hp : p cursor = some (.success v rest)) (hlt : rest.text.length < cursor.text.length)
      (hs : Greedy p rest rs) : Greedy p cursor ((v, rest) :: rs)

/-- The cursor after the last round. -/
def lastCursor (cursor : Input) (rs : List (α × Input)) : Input :=
  (rs.map Prod.snd).getLastD cursor

@[simp] theorem lastCursor_nil (cursor : Input) :
    lastCursor cursor ([] : List (α × Input)) = cursor := rfl

@[simp] theorem lastCursor_cons (cursor : Input) (r : α × Input) (rs : List (α × Input)) :
    lastCursor cursor (r :: rs) = lastCursor r.2 rs := by
  rw [lastCursor, List.map_cons, List.getLastD_cons]
  rfl

namespace Greedy

variable {cursor : Input} {rs rs' : List (α × Input)}

/-- A round that consumes something does not begin where there is none. -/
theorem not_noRound {rest : Input} {v : α} (hne : cursor.text ≠ [])
    (hp : p cursor = some (.success v rest)) (hlt : rest.text.length < cursor.text.length) :
    ¬ NoRound p cursor := by
  rintro (h | ⟨e, h⟩ | ⟨u, h⟩)
  · exact hne h
  · rw [hp] at h
    cases h
  · rw [hp] at h
    cases h
    exact Nat.lt_irrefl _ hlt

theorem unique (h : Greedy p cursor rs) (h' : Greedy p cursor rs') : rs' = rs := by
  induction h generalizing rs' with
  | stop hstop =>
    cases h' with
    | stop => rfl
    | round hne hp hlt => exact absurd hstop (not_noRound hne hp hlt)
  | round hne hp hlt _ ih =>
    cases h' with
    | stop hstop => exact absurd hstop (not_noRound hne hp hlt)
    | round _ hp' _ hs' =>
      rw [hp] at hp'
      cases hp'
      rw [ih hs']

theorem exists_of_answers (hs : SucceedsOnSuffix p)
    (hp : ∀ cursor, cursor.text ≠ [] → ∃ o, p cursor = some o) (cursor : Input) :
    ∃ rs, Greedy p cursor rs := by
  generalize hn : cursor.text.length = n
  induction n using Nat.strongRecOn generalizing cursor with
  | ind n ih =>
    by_cases hne : cursor.text = []
    · exact ⟨[], .stop (.inl hne)⟩
    · obtain ⟨o, ho⟩ := hp cursor hne
      cases o with
      | failure e => exact ⟨[], .stop (.inr (.inl ⟨e, ho⟩))⟩
      | success v rest =>
        have hsuf := hs cursor v rest ho
        by_cases hlt : rest.text.length < cursor.text.length
        · obtain ⟨rs, hrs⟩ := ih _ (hn ▸ hlt) rest rfl
          exact ⟨(v, rest) :: rs, .round hne ho hlt hrs⟩
        · -- a suffix that is no shorter is the whole
          have heq : rest = cursor :=
            Input.ext (hsuf.eq_of_length (Nat.le_antisymm hsuf.length_le (Nat.not_lt.mp hlt)))
          exact ⟨[], .stop (.inr (.inr ⟨v, heq ▸ ho⟩))⟩

theorem rounds_of_noRound (h : NoRound p cursor) : rounds p cursor = some ([], cursor) := by
  rcases h with h | ⟨e, h⟩ | ⟨v, h⟩
  · exact rounds_of_length_eq_zero (by rw [cursor.length_eq, h]; rfl)
  · exact rounds_of_failure h
  · exact rounds_of_idle h (Nat.le_refl _)

/-- The repetition goes through the rounds of the chain. -/
theorem rounds_eq (h : Greedy p cursor rs) :
    rounds p cursor = some (rs.map Prod.fst, lastCursor cursor rs) := by
  induction h with
  | stop hstop => exact rounds_of_noRound hstop
  | @round cursor rest v rs hne hp hlt hs ih =>
    rw [← cursor.length_eq, ← rest.length_eq] at hlt
    rw [rounds_of_success hp hlt, ih]
    simp

/-- Every round takes at least one character. -/
theorem exists_taken (hs : SucceedsOnSuffix p) (h : Greedy p cursor rs) :
    ∃ taken, cursor.text = taken ++ (lastCursor cursor rs).text ∧ rs.length ≤ taken.length := by
  induction h with
  | stop => exact ⟨[], rfl, Nat.le_refl _⟩
  | @round cursor rest v rs hne hp hlt _ ih =>
    obtain ⟨lead, hlead⟩ := hs cursor v rest hp
    obtain ⟨taken, htaken, hle⟩ := ih
    refine ⟨lead ++ taken, ?_, ?_⟩
    · rw [lastCursor_cons, List.append_assoc, ← htaken, hlead]
    · rw [← hlead, List.length_append] at hlt
      rw [List.length_cons, List.length_append]
      omega

end Greedy

/-! ## How often the parser is run -/

section

variable {m : Type → Type} [Monad m]

/-- The loop of a repetition, for a parser that is run in a monad. -/
def roundsIn (p : Input → m (Outcome α)) (found : List α) (cursor : Input) : m (List α × Input) :=
  if cursor.length = 0 then pure (found.reverse, cursor)
  else
    p cursor >>= fun
      | .failure _ => pure (found.reverse, cursor)
      | .success v rest =>
        if rest.length < cursor.length then roundsIn p (v :: found) rest
        else pure (found.reverse, cursor)
termination_by cursor.length

/-- A repetition of a parser that is run in a monad. -/
def repeatIn (required : Nat) (p : Input → m (Outcome α)) (input : Input) : m (Outcome (List α)) :=
  roundsIn p [] input >>= fun (vs, rest) =>
    pure <| if vs.length < required then .failure ⟨.repetitionTooShort required vs.length, input.text⟩
    else .success vs rest

end

theorem roundsIn_eq_roundsFrom (p : Parser α) (found : List α) (cursor : Input) :
    roundsIn p found cursor = roundsFrom p found cursor := by
  fun_induction roundsFrom p found cursor with
  | case1 found cursor h => rw [roundsIn, if_pos h]; rfl
  | case2 found cursor h hp => rw [roundsIn, if_neg h, hp]; rfl
  | case3 found cursor h e hp => rw [roundsIn, if_neg h, hp]; rfl
  | case4 found cursor h v rest hp hlt ih =>
    rw [roundsIn, if_neg h, hp]
    exact (if_pos hlt).trans ih
  | case5 found cursor h v rest hp hlt =>
    rw [roundsIn, if_neg h, hp]
    exact if_neg hlt

theorem repeatIn_eq_repeatAtLeast (required : Nat) (p : Parser α) (input : Input) :
    repeatIn required p input = repeatAtLeast required p input := by
  unfold repeatIn repeatAtLeast rounds
  rw [roundsIn_eq_roundsFrom]
  cases roundsFrom p [] input with
  | none => rfl
  | some r => rfl

/-- A parser that notes on what it is run, the last input at the end of the log. -/
def noted (p : Parser α) : Input → StateT (List Input) Option (Outcome α) :=
  fun cursor log => (p cursor).map fun o => (o, log ++ [cursor])

/-- The inputs on which the parser is run in the course of the rounds: all cursors with something
left, the one behind the last round included. -/
def calls (cursor : Input) (rs : List (α × Input)) : List Input :=
  (cursor :: rs.map Prod.snd).filter (·.text ≠ [])

theorem calls_of_ne_nil {cursor : Input} (hne : cursor.text ≠ []) (rs : List (α × Input)) :
    calls cursor rs = cursor :: (rs.map Prod.snd).filter (·.text ≠ []) :=
  List.filter_cons_of_pos (decide_eq_true hne)

theorem calls_of_eq_nil {cursor : Input} (h : cursor.text = []) :
    calls cursor ([] : List (α × Input)) = [] :=
  List.filter_cons_of_neg (by simp [h])

/-- With something left, the loop notes the cursor and goes on with what the parser answers. -/
theorem roundsIn_noted_of_ne_nil {cursor : Input} (hne : cursor.text ≠ []) {o : Outcome α}
    (hp : p cursor = some o) (found : List α) (log : List Input) :
    roundsIn (noted p) found cursor log =
      match o with
      | .failure _ => some ((found.reverse, cursor), log ++ [cursor])
      | .success v rest =>
        if rest.length < cursor.length then roundsIn (noted p) (v :: found) rest (log ++ [cursor])
        else some ((found.reverse, cursor), log ++ [cursor]) := by
  have h0 : cursor.length ≠ 0 := by
    rw [cursor.length_eq]
    exact mt List.length_eq_zero_iff.mp hne
  have hnoted : noted p cursor log = some (o, log ++ [cursor]) := by
    rw [noted, hp]
    rfl
  rw [roundsIn, if_neg h0]
  show (noted p cursor log).bind _ = _
  rw [hnoted, Option.bind_some]
  cases o with
  | failure e => rfl
  | success v rest =>
    dsimp only
    split <;> rfl

namespace Greedy

variable {cursor : Input} {rs : List (α × Input)}

/-- The log of the rounds is the list of the cursors with something left. -/
theorem roundsIn_noted (h : Greedy p cursor rs) (found : List α) (log : List Input) :
    roundsIn (noted p) found cursor log =
      some ((found.reverse ++ rs.map Prod.fst, lastCursor cursor rs), log ++ calls cursor rs) := by
  induction h generalizing found log with
  | @stop cursor hstop =>
    rw [List.map_nil, List.append_nil, lastCursor_nil]
    by_cases hne : cursor.text = []
    · have h0 : cursor.length = 0 := by rw [cursor.length_eq, hne]; rfl
      rw [roundsIn, if_pos h0, calls_of_eq_nil hne, List.append_nil]
      rfl
    · rw [calls_of_ne_nil hne]
      rcases hstop with h | ⟨e, h⟩ | ⟨v, h⟩
      · exact absurd h hne
      · exact roundsIn_noted_of_ne_nil hne h found log
      · exact (roundsIn_noted_of_ne_nil hne h found log).trans (if_neg (Nat.lt_irrefl _))
  | @round cursor rest v rs hne hrun hlt hs ih =>
    rw [← cursor.length_eq, ← rest.length_eq] at hlt
    rw [roundsIn_noted_of_ne_nil hne hrun]
    dsimp only
    rw [if_pos hlt, ih, lastCursor_cons, calls_of_ne_nil hne]
    simp [calls]

theorem length_calls_le (h : Greedy p cursor rs) :
    (calls cursor rs).length ≤ cursor.text.length := by
  induction h with
  | @stop cursor =>
    by_cases hne : cursor.text = []
    · rw [calls_of_eq_nil hne]
      exact Nat.zero_le _
    · rw [calls_of_ne_nil hne]
      exact List.length_pos_iff.mpr hne
  | @round cursor rest v rs hne _ hlt _ ih =>
    rw [calls_of_ne_nil hne]
    exact Nat.succ_le_of_lt (Nat.lt_of_le_of_lt ih hlt)

/-- A repetition succeeds with the values of the chain if it is long enough. -/
theorem repeatAtLeast_of_le (h : Greedy p cursor rs) {required : Nat} (hle : required ≤ rs.length) :
    repeatAtLeast required p cursor = some (.success (rs.map Prod.fst) (lastCursor cursor rs)) :=
  repeatAtLeast_eq_success_iff.mpr ⟨h.rounds_eq, by rwa [List.length_map]⟩

/-- A repetition of a chain that is too short fails and tells how long it is. -/
theorem repeatAtLeast_of_lt (h : Greedy p cursor rs) {required : Nat} (hlt : rs.length < required) :
    repeatAtLeast required p cursor =
      some (.failure ⟨.repetitionTooShort required rs.length, cursor.text⟩) := by
  rw [repeatAtLeast_of_rounds required h.rounds_eq, List.length_map, if_pos hlt]

/-- A repetition whose parser is noted down answers as it does without the notes. -/
theorem repeatIn_noted (h : Greedy p cursor rs) (required : Nat) :
    repeatIn required (noted p) cursor [] =
      (repeatAtLeast required p cursor).map fun o => (o, calls cursor rs) := by
  show (roundsIn (noted p) [] cursor []).bind _ = _
  rw [h.roundsIn_noted, repeatAtLeast, h.rounds_eq]
  rfl

end Greedy

/-- A parser whose successes leave suffixes determines one chain of rounds from every input, and a
repetition of it succeeds with the values of the chain and leaves the cursor behind its last round,
or fails at its input if the chain is too short.  At least one character belongs to each round.  The
loop runs the parser on the cursors of the chain that have something left, of which there are no
more than characters. -/
theorem repeatAtLeast_greedy (hs : SucceedsOnSuffix p)
    (hp : ∀ cursor, cursor.text ≠ [] → ∃ o, p cursor = some o) (required : Nat) (input : Input) :
    ∃ rs, Greedy p input rs ∧ (∀ rs', Greedy p input rs' → rs' = rs) ∧
      (required ≤ rs.length → repeatAtLeast required p input =
        some (.success (rs.map Prod.fst) (lastCursor input rs))) ∧
      (rs.length < required → ∃ e, repeatAtLeast required p input = some (.failure e) ∧
        e.rest = input.text ∧
        e.message = "expected at least ".toList ++ Text.decimal required ++
          " repetitions, found ".toList ++ Text.decimal rs.length) ∧
      (∃ taken, input.text = taken ++ (lastCursor input rs).text ∧ rs.length ≤ taken.length) ∧
      repeatIn required p input = repeatAtLeast required p input ∧
      repeatIn required (noted p) input [] =
        (repeatAtLeast required p input).map (fun o => (o, calls input rs)) ∧
      (∀ cursor ∈ calls input rs, cursor.text ≠ []) ∧
      (calls input rs).length ≤ input.text.length := by
  obtain ⟨rs, hrs⟩ := Greedy.exists_of_answers hs hp input
  refine ⟨rs, hrs, fun rs' hrs' => hrs.unique hrs', hrs.repeatAtLeast_of_le, ?_,
    hrs.exists_taken hs, repeatIn_eq_repeatAtLeast required p input, hrs.repeatIn_noted required,
    ?_, hrs.length_calls_le⟩
  · intro hlt
    exact ⟨_, hrs.repeatAtLeast_of_lt hlt, rfl, rfl⟩
  · intro cursor hcursor
    exact of_decide_eq_true (List.mem_filter.mp hcursor).2

/-- A run of one letter, which may be empty, is found once in `aab`; the empty run before the `b` is
no second one. -/
theorem repeatAtLeast_greedy_run :
    ∃ e, repeatAtLeast 2 (run (· == 'a')) (.ofText "aab".toList) = some (.failure e) ∧
      e.rest = "aab".toList ∧ e.message = "expected at least 2 repetitions, found 1".toList := by
  have hs : SucceedsOnSuffix (run (· == 'a')) := by
    intro input v rest h
    rw [(runAtLeast_eq_success_iff.mp h).2.2]
    exact List.dropWhile_suffix _
  have hp (cursor : Input) (_ : cursor.text ≠ []) : ∃ o, run (· == 'a') cursor = some o := ⟨_, rfl⟩
  have hchain : Greedy (run (· == 'a')) (.ofText "aab".toList)
      [("aa".toList, .ofText "b".toList)] :=
    .round (by decide) rfl (by decide) (.stop (.inr (.inr ⟨[], rfl⟩)))
  obtain ⟨rs, -, hunique, -, hfail, -⟩ := repeatAtLeast_greedy hs hp 2 (.ofText "aab".toList)
  obtain rfl := hunique _ hchain
  obtain ⟨e, he, hrest, hmessage⟩ := hfail (by decide)
  exact ⟨e, he, hrest, hmessage.trans (by decide)⟩

end TextParsing.Parser
