import TextParsing.Proofs.Parser.Remainder
import TextParsing.Session

/-!
# Sessions and sequences

A session goes on after a failure, a sequence does not.  For parsers that answer every input, leave
suffixes and fail in place (`Orderly`), the cursor of a session stays inside the source, and the
bytes before it are those that the successes so far have consumed:

    run ps cursor = some os →
      consumed cursor os + (cursorAfter cursor os).text.byteLength = cursor.text.byteLength
                                                                            (consumed_add_byteLength)

Hence every failure tells where parsing stopped.  A session without a failure is a sequence:

    run ps cursor = some os → os.map Outcome.value? = vs.map some →
      inOrder ps cursor = some (.success vs (cursorAfter cursor os))         (inOrder_of_values)
-/

namespace TextParsing

variable {α : Type}

/-- The value of an outcome, if it is a success. -/
def Outcome.value? : Outcome α → Option α
  | .success v _ => some v
  | .failure _ => none

/-- A parser that answers every input, leaves a suffix of it, and leaves all of it when it fails. -/
structure Parser.Orderly (p : Parser α) : Prop where
  answers : ∀ input, ∃ o, p input = some o
  leavesSuffix : p.LeavesSuffix
  failsInPlace : p.FailsInPlace

namespace Session

open TextParsing.Parser

variable {p : Parser α} {ps : List (Parser α)} {cursor : Input} {o : Outcome α}
  {os before after : List (Outcome α)}

/-! ## Cursors -/

/-- The cursor behind some outcomes. -/
def cursorAfter (cursor : Input) (os : List (Outcome α)) : Input :=
  (os.map Outcome.rest).getLastD cursor

@[simp] theorem cursorAfter_nil (cursor : Input) :
    cursorAfter cursor ([] : List (Outcome α)) = cursor := rfl

@[simp] theorem cursorAfter_cons (cursor : Input) (o : Outcome α) (os : List (Outcome α)) :
    cursorAfter cursor (o :: os) = cursorAfter o.rest os := by
  rw [cursorAfter, List.map_cons, List.getLastD_cons]
  rfl

theorem cursorAfter_concat (cursor : Input) (os : List (Outcome α)) (o : Outcome α) :
    cursorAfter cursor (os ++ [o]) = o.rest := by
  rw [cursorAfter, List.map_append, List.map_singleton, List.getLastD_concat]

/-- The number of bytes that the successes among some outcomes have consumed. -/
def consumed (cursor : Input) : List (Outcome α) → Nat
  | [] => 0
  | .success _ rest :: os =>
    Text.byteLength cursor.text - Text.byteLength rest.text + consumed rest os
  | .failure e :: os => consumed (.ofText e.rest) os

/-! ## Runs -/

theorem run_cons_eq_some_iff : run (p :: ps) cursor = some os ↔
    ∃ o os', p cursor = some o ∧ run ps o.rest = some os' ∧ os = o :: os' := by
  rw [run_cons, Option.bind_eq_some_iff]
  simp only [Option.map_eq_some_iff, eq_comm (b := os), exists_and_left]

/-- A run of several parsers is a run of the first of them and a run of the others from where these
stop. -/
theorem run_append_split (h : run ps cursor = some (before ++ after)) :
    ∃ qs rs, ps = qs ++ rs ∧ run qs cursor = some before ∧
      run rs (cursorAfter cursor before) = some after := by
  induction before generalizing ps cursor with
  | nil => exact ⟨[], ps, rfl, rfl, h⟩
  | cons o before ih =>
    cases ps with
    | nil => cases h
    | cons p ps =>
      obtain ⟨o', os', hp, hrun, heq⟩ := run_cons_eq_some_iff.mp h
      obtain ⟨rfl, rfl⟩ := List.cons.inj heq
      obtain ⟨qs, rs, rfl, hqs, hrs⟩ := ih hrun
      refine ⟨p :: qs, rs, rfl, run_cons_eq_some_iff.mpr ⟨o, before, hp, hqs, rfl⟩, ?_⟩
      rw [cursorAfter_cons]
      exact hrs

theorem exists_run (h : ∀ p ∈ ps, ∀ input, ∃ o, p input = some o) (cursor : Input) :
    ∃ os, run ps cursor = some os ∧ os.length = ps.length := by
  induction ps generalizing cursor with
  | nil => exact ⟨[], rfl, rfl⟩
  | cons p ps ih =>
    obtain ⟨o, ho⟩ := h p List.mem_cons_self cursor
    obtain ⟨os, hos, hlen⟩ := ih (fun q hq => h q (List.mem_cons_of_mem _ hq)) o.rest
    exact ⟨o :: os, run_cons_eq_some_iff.mpr ⟨o, os, ho, hos, rfl⟩, congrArg (· + 1) hlen⟩

theorem suffix_of_run (h : ∀ p ∈ ps, LeavesSuffix p) (hrun : run ps cursor = some os) :
    (cursorAfter cursor os).text <:+ cursor.text := by
  induction ps generalizing cursor os with
  | nil =>
    cases hrun
    exact List.suffix_refl _
  | cons p ps ih =>
    obtain ⟨o, os, hp, hps, rfl⟩ := run_cons_eq_some_iff.mp hrun
    rw [cursorAfter_cons]
    have hrest := ih (fun q hq => h q (List.mem_cons_of_mem _ hq)) hps
    exact hrest.trans (h p List.mem_cons_self cursor o hp)

/-- The bytes that have been consumed and those that are left are those of the cursor. -/
theorem consumed_add_byteLength (h : ∀ p ∈ ps, Orderly p) (hrun : run ps cursor = some os) :
    consumed cursor os + Text.byteLength (cursorAfter cursor os).text =
      Text.byteLength cursor.text := by
  induction ps generalizing cursor os with
  | nil =>
    cases hrun
    exact Nat.zero_add _
  | cons p ps ih =>
    obtain ⟨o, os, hp, hps, rfl⟩ := run_cons_eq_some_iff.mp hrun
    have hrest := ih (fun q hq => h q (List.mem_cons_of_mem _ hq)) hps
    have horderly := h p List.mem_cons_self
    rw [cursorAfter_cons]
    cases o with
    | success v rest =>
      have hle : rest.text.byteLength ≤ cursor.text.byteLength :=
        Text.byteLength_le_of_suffix (horderly.leavesSuffix cursor _ hp)
      have hrest : consumed rest os + (cursorAfter rest os).text.byteLength =
        rest.text.byteLength := hrest
      calc cursor.text.byteLength - rest.text.byteLength + consumed rest os +
            (cursorAfter rest os).text.byteLength
          = cursor.text.byteLength - rest.text.byteLength + rest.text.byteLength := by
            rw [Nat.add_assoc, hrest]
        _ = cursor.text.byteLength := Nat.sub_add_cancel hle
    | failure e =>
      have hplace : e.rest = cursor.text := horderly.failsInPlace cursor e hp
      rw [← hplace]
      exact hrest

/-! ## Failures -/

/-- A failure leaves the source from its offset on, and the successes before it have consumed what is
in front. -/
theorem failure_located (h : ∀ p ∈ ps, Orderly p) {source : Text} {e : ParseError}
    (hrun : run ps (.ofText source) = some (before ++ .failure e :: after)) :
    e.rest = (cursorAfter (.ofText source) before).text ∧
      Text.fromByte? (e.offsetIn source) source = some e.rest ∧
      e.offsetIn source = consumed (.ofText source) before := by
  obtain ⟨qs, rs, rfl, hqs, hrs⟩ := run_append_split hrun
  have hq (q : Parser α) (hq : q ∈ qs) : Orderly q := h q (List.mem_append_left _ hq)
  cases rs with
  | nil => cases hrs
  | cons p rs =>
    obtain ⟨o, os, hp, -, heq⟩ := run_cons_eq_some_iff.mp hrs
    obtain ⟨rfl, -⟩ := List.cons.inj heq
    have hrest : e.rest = (cursorAfter (.ofText source) before).text :=
      (h p (List.mem_append_right _ List.mem_cons_self)).failsInPlace _ e hp
    have hbytes := consumed_add_byteLength hq hqs
    have hsuffix := suffix_of_run (fun q hmem => (hq q hmem).leavesSuffix) hqs
    -- what the failure leaves is what the outcomes before it have left
    rw [← hrest, Input.text_ofText] at hbytes hsuffix
    obtain ⟨lead, rfl⟩ := hsuffix
    have hoffset : e.offsetIn (lead ++ e.rest) = Text.byteLength lead :=
      ParseError.offsetIn_append e.cause lead e.rest
    refine ⟨hrest, hoffset ▸ Text.fromByte?_byteLength lead e.rest, ?_⟩
    rw [Text.byteLength_append] at hbytes
    omega

/-! ## Sequences -/

theorem inOrder_of_values {vs : List α} (hrun : run ps cursor = some os)
    (hvs : os.map Outcome.value? = vs.map some) :
    inOrder ps cursor = some (.success vs (cursorAfter cursor os)) := by
  induction ps generalizing cursor os vs with
  | nil =>
    cases hrun
    obtain rfl : vs = [] := List.map_eq_nil_iff.mp hvs.symm
    rfl
  | cons p ps ih =>
    obtain ⟨o, os, hp, hps, rfl⟩ := run_cons_eq_some_iff.mp hrun
    cases vs with
    | nil => cases hvs
    | cons v vs =>
      obtain ⟨hv, htail⟩ := List.cons.inj hvs
      cases o with
      | failure e => cases hv
      | success u rest =>
        obtain rfl := Option.some.inj hv
        have hrest : inOrder ps rest = some (.success vs (cursorAfter rest os)) := ih hps htail
        rw [inOrder_cons_of_success hp, hrest, cursorAfter_cons]
        rfl

theorem inOrder_of_failure (hrun : run ps cursor = some os)
    (hos : ∃ o ∈ os, o.isSuccess = false) :
    ∃ e, inOrder ps cursor = some (.failure e) := by
  induction ps generalizing cursor os with
  | nil =>
    cases hrun
    simp at hos
  | cons p ps ih =>
    obtain ⟨o, os, hp, hps, rfl⟩ := run_cons_eq_some_iff.mp hrun
    cases o with
    | failure e => exact ⟨e, inOrder_cons_of_failure hp⟩
    | success v rest =>
      have htail : ∃ o ∈ os, o.isSuccess = false := by simpa [Outcome.isSuccess] using hos
      obtain ⟨e, he⟩ := ih hps htail
      have hrest : inOrder ps rest = some (.failure e) := he
      refine ⟨e, ?_⟩
      rw [inOrder_cons_of_success hp, hrest]
      rfl

/-- Outcomes have values, or there is a failure among them. -/
theorem exists_values_or_failure (os : List (Outcome α)) :
    (∃ vs : List α, os.map Outcome.value? = vs.map some) ∨ ∃ o ∈ os, o.isSuccess = false := by
  induction os with
  | nil => exact .inl ⟨[], rfl⟩
  | cons o os ih =>
    cases o with
    | failure e => exact .inr ⟨_, List.mem_cons_self, rfl⟩
    | success v rest =>
      rcases ih with ⟨vs, hvs⟩ | ⟨o, ho, hfail⟩
      · exact .inl ⟨v :: vs, congrArg (some v :: ·) hvs⟩
      · exact .inr ⟨o, List.mem_cons_of_mem _ ho, hfail⟩

theorem isSuccess_of_values {vs : List α} (hvs : os.map Outcome.value? = vs.map some)
    (ho : o ∈ os) : o.isSuccess = true := by
  have hmem : o.value? ∈ vs.map some := hvs ▸ List.mem_map_of_mem ho
  obtain ⟨v, -, hv⟩ := List.mem_map.mp hmem
  cases o with
  | success u rest => rfl
  | failure e => cases hv

/-- What a sequence answers are the values of the session and the cursor behind it. -/
theorem values_of_sequence (hrun : run ps cursor = some os) {vs : List α} {rest : Input}
    (hseq : sequence ps cursor = some (.success vs rest)) :
    os.map Outcome.value? = vs.map some ∧ rest = cursorAfter cursor os := by
  rw [sequence_eq_success_iff] at hseq
  rcases exists_values_or_failure os with ⟨us, hus⟩ | hfail
  · rw [inOrder_of_values hrun hus] at hseq
    cases hseq
    exact ⟨hus, rfl⟩
  · obtain ⟨e, he⟩ := inOrder_of_failure hrun hfail
    rw [hseq] at he
    cases he

/-- Where orderly parsers are run one after the other, each on what the outcome before left, the
cursor is always a suffix of the source, and a failure does not move it.  The offset of a failure is
the number of bytes that the successes before it have consumed, and what it leaves is the source from
there on.  The sequence of the same parsers succeeds exactly if nothing fails, with the same values
and the same rest; otherwise it fails at the very beginning. -/
theorem run_agrees_with_sequence (h : ∀ p ∈ ps, Orderly p) (source : Text) :
    ∃ os, run ps (.ofText source) = some os ∧ os.length = ps.length ∧
      (∀ before after, os = before ++ after →
        (cursorAfter (.ofText source) before).text <:+ source) ∧
      (∀ before e after, os = before ++ .failure e :: after →
        cursorAfter (.ofText source) (before ++ [.failure e]) =
          cursorAfter (.ofText source) before ∧
        Text.fromByte? (e.offsetIn source) source = some e.rest ∧
        e.offsetIn source = consumed (.ofText source) before) ∧
      ((∀ o ∈ os, o.isSuccess = true) ↔
        ∃ vs rest, sequence ps (.ofText source) = some (.success vs rest)) ∧
      (∀ vs rest, sequence ps (.ofText source) = some (.success vs rest) →
        os.map Outcome.value? = vs.map some ∧ rest = cursorAfter (.ofText source) os) ∧
      ((∃ o ∈ os, o.isSuccess = false) →
        ∃ e, sequence ps (.ofText source) = some (.failure e) ∧ e.message = "not a tuple".toList ∧
          e.rest = source ∧ e.offsetIn source = 0) := by
  obtain ⟨os, hrun, hlen⟩ := exists_run (fun p hp => (h p hp).answers) (.ofText source)
  have hsuffix (before after : List (Outcome α)) (hos : os = before ++ after) :
      (cursorAfter (.ofText source) before).text <:+ source := by
    obtain ⟨qs, rs, rfl, hqs, -⟩ := run_append_split (hos ▸ hrun)
    exact suffix_of_run (fun p hp => (h p (List.mem_append_left _ hp)).leavesSuffix) hqs
  refine ⟨os, hrun, hlen, hsuffix, ?_, ?_, ?_, ?_⟩
  · rintro before e after rfl
    obtain ⟨hrest, hfrom, hoffset⟩ := failure_located h hrun
    exact ⟨(cursorAfter_concat _ _ _).trans (Input.ext hrest), hfrom, hoffset⟩
  · constructor
    · intro hall
      rcases exists_values_or_failure os with ⟨vs, hvs⟩ | ⟨o, ho, hfail⟩
      · exact ⟨vs, _, sequence_eq_success_iff.mpr (inOrder_of_values hrun hvs)⟩
      · exact absurd (hall o ho) (ne_true_of_eq_false hfail)
    · rintro ⟨vs, rest, hseq⟩ o ho
      exact isSuccess_of_values (values_of_sequence hrun hseq).1 ho
  · intro vs rest hseq
    exact values_of_sequence hrun hseq
  · intro hfail
    obtain ⟨e, he⟩ := inOrder_of_failure hrun hfail
    exact ⟨_, sequence_eq_failure_iff.mpr ⟨rfl, e, he⟩, rfl, rfl, Nat.sub_self _⟩

/-- A literal that is there, one that is not, and a run of digits. -/
theorem run_agrees_with_sequence_literals :
    ∃ e, run [literal ['é'], literal ['x'], runAtLeast 1 Char.isDigit] (.ofText "é12".toList) =
        some [.success ['é'] (.ofText "12".toList), .failure e,
          .success "12".toList (.ofText [])] ∧
      e.offsetIn "é12".toList = 2 ∧ Text.fromByte? 2 "é12".toList = some e.rest ∧
      ∃ e', sequence [literal ['é'], literal ['x'], runAtLeast 1 Char.isDigit]
          (.ofText "é12".toList) = some (.failure e') ∧ e'.offsetIn "é12".toList = 0 := by
  have hliteral (s : Text) : Orderly (literal s) :=
    ⟨fun _ => ⟨_, rfl⟩, leavesSuffix_literal s, failsInPlace_literal s⟩
  have hdigits : Orderly (runAtLeast 1 Char.isDigit) :=
    ⟨fun _ => ⟨_, rfl⟩, leavesSuffix_runAtLeast _ _, failsInPlace_runAtLeast _ _⟩
  have horderly : ∀ p ∈ [literal ['é'], literal ['x'], runAtLeast 1 Char.isDigit], Orderly p := by
    intro p hp
    simp only [List.mem_cons, List.not_mem_nil, or_false] at hp
    rcases hp with rfl | rfl | rfl
    · exact hliteral ['é']
    · exact hliteral ['x']
    · exact hdigits
  obtain ⟨os, hrun, -, -, hfail, -, -, hseq⟩ := run_agrees_with_sequence horderly "é12".toList
  obtain rfl := Option.some.inj hrun
  obtain ⟨-, hfrom, hoffset⟩ := hfail [_] _ [_] rfl
  have htwo := hoffset.trans (show _ = 2 by decide)
  obtain ⟨e', he', -, -, hzero⟩ := hseq ⟨_, List.mem_cons_of_mem _ List.mem_cons_self, rfl⟩
  exact ⟨_, hrun, htwo, htwo ▸ hfrom, e', he', hzero⟩

end Session

end TextParsing
