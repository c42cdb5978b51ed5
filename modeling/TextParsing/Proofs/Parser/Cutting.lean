import TextParsing.Parser.Literal
import TextParsing.Proofs.Parser.Answering
import TextParsing.Proofs.Parser.Taking
import TextParsing.Proofs.Parser.UpTo
import TextParsing.Proofs.Text.Boundary
import TextParsing.Proofs.Text.Run

/-!
# Parsers that cut their input at a byte

A parser of text can be told by the byte at which it cuts its input, or by the cause for which it
refuses it.  `cutBy place` is the parser that is told by `place`; it has no answer where the cut would
fall inside a character or beyond the end.  The places of literals, newlines, runs and markers are
found among the bytes, by comparing them, by walking along them and by searching them:

    cutBy (literalPlace t) = literal t                                           (cutBy_literalPlace)
    cutBy newlinePlace = newline                                                 (cutBy_newlinePlace)
    cutBy (runPlace required ok) = runAtLeast required ok                            (cutBy_runPlace)
    cutBy (upToPlace marker) = upTo marker                                          (cutBy_upToPlace)

The parsers on the right answer every input, and so do those on the left: all the cuts are possible
(`CutsAt`).
-/

namespace TextParsing.Parser

open Text

variable {place : Text → Except Cause Nat} {p : Parser Text} {input : Input} {s t rest : Text}
  {cause : Cause} {n : Nat}

/-! ## Places -/

/-- The parser that cuts its input at the byte that `place` finds, or refuses it.  A cut that is not
possible is no answer. -/
def cutBy (place : Text → Except Cause Nat) : Parser Text := fun input =>
  match place input.text with
  | .error cause => some (.failure ⟨cause, input.text⟩)
  | .ok n => (splitAtByte? n input.text).map fun (taken, rest) => .success taken (.ofText rest)

/-- Behind the bytes of a literal, if the text begins with them. -/
def literalPlace (t : Text) (s : Text) : Except Cause Nat :=
  if bytes t <+: bytes s then .ok (byteLength t) else .error (.literalMissing t)

/-- Behind the one byte of a newline, if the text begins with it. -/
def newlinePlace (s : Text) : Except Cause Nat :=
  if bytes ['\n'] <+: bytes s then .ok 1 else .error .newlineMissing

/-- The offset of the first character that does not satisfy `ok`, or else the end, if enough characters
were counted on the way. -/
def runPlace (required : Nat) (ok : Char → Bool) (s : Text) : Except Cause Nat :=
  match scanRun ok (byteLength s) 0 (withOffsets 0 s) with
  | (stop, count) => if count < required then .error (.runTooShort required count) else .ok stop

/-- The offset at which the bytes of the marker are found, or else the end. -/
def upToPlace (marker : Text) (s : Text) : Except Cause Nat :=
  .ok ((findBytes? (bytes marker) (bytes s)).getD (byteLength s))

/-! ## Cuts -/

theorem cutBy_of_error (h : place s = .error cause) :
    cutBy place (.ofText s) = some (.failure ⟨cause, s⟩) := by
  unfold cutBy
  rw [Input.text_ofText, h]

/-- A cut behind the characters of a text is possible. -/
theorem takes_cutBy (h : place (s ++ rest) = .ok (byteLength s)) : Takes (cutBy place) s s rest := by
  have hsplit : splitAtByte? (byteLength s) (s ++ rest) = some (s, rest) :=
    splitAtByte?_eq_some_iff.mpr ⟨rfl, rfl⟩
  unfold Takes cutBy
  rw [Input.text_ofText, h]
  dsimp only
  rw [hsplit]
  rfl

/-- A parser that takes `t` where the text begins with it, and refuses the text for one cause elsewhere,
is told by a place that does the same. -/
theorem cutBy_eq_of_prefix (cause : Cause) (hplace : ∀ rest, place (t ++ rest) = .ok (byteLength t))
    (htakes : ∀ rest, Takes p t t rest)
    (hmissing : ∀ s, ¬ t <+: s → place s = .error cause ∧
      p (.ofText s) = some (.failure ⟨cause, s⟩)) : cutBy place = p := by
  funext input
  rw [← input.ofText_text]
  by_cases hfound : t <+: input.text
  · obtain ⟨rest, htext⟩ := hfound
    rw [← htext]
    exact (takes_cutBy (hplace rest)).trans (htakes rest).symm
  · obtain ⟨herror, hfails⟩ := hmissing input.text hfound
    exact (cutBy_of_error herror).trans hfails.symm

theorem cutBy_literalPlace (t : Text) : cutBy (literalPlace t) = literal t := by
  have hplace (rest : Text) : literalPlace t (t ++ rest) = .ok (byteLength t) :=
    if_pos (bytes_prefix_iff.mpr (List.prefix_append t rest))
  refine cutBy_eq_of_prefix (.literalMissing t) hplace (takes_literal t) fun s hs => ⟨?_, ?_⟩
  · exact if_neg (mt bytes_prefix_iff.mp hs)
  · exact congrArg some (if_neg hs)

theorem cutBy_newlinePlace : cutBy newlinePlace = newline := by
  have hplace (rest : Text) : newlinePlace (['\n'] ++ rest) = .ok (byteLength ['\n']) :=
    if_pos (bytes_prefix_iff.mpr (List.prefix_append ['\n'] rest))
  refine cutBy_eq_of_prefix .newlineMissing hplace takes_newline fun s hs => ⟨?_, ?_⟩
  · exact if_neg (mt bytes_prefix_iff.mp hs)
  · exact orFail_eq_failure_iff.mpr ⟨rfl, failsAt_literal hs⟩

theorem cutBy_runPlace (required : Nat) (ok : Char → Bool) :
    cutBy (runPlace required ok) = runAtLeast required ok := by
  funext input
  obtain ⟨run, rest, htext, hrun, hrest⟩ := exists_run_append ok input.text
  obtain rfl := Input.eq_ofText_iff.mpr htext
  have hscan := scanRun_withOffsets hrun hrest 0 0
  rw [Nat.zero_add, Nat.zero_add, Nat.zero_add] at hscan
  have hnone := takeWhile_eq_nil_of_head? hrest
  by_cases hshort : run.length < required
  · have hplace : runPlace required ok (run ++ rest) = .error (.runTooShort required run.length) := by
      rw [runPlace, hscan]
      exact if_pos hshort
    exact (cutBy_of_error hplace).trans (runAtLeast_of_short hshort hrun hnone).symm
  · have hplace : runPlace required ok (run ++ rest) = .ok (byteLength run) := by
      rw [runPlace, hscan]
      exact if_neg hshort
    exact (takes_cutBy hplace).trans (takes_runAtLeast (Nat.not_lt.mp hshort) hrun hnone).symm

theorem cutBy_upToPlace (marker : Text) : cutBy (upToPlace marker) = upTo marker := by
  funext input
  have hsplit := List.take_append_drop (firstAt marker input.text) input.text
  have hplace : upToPlace marker (input.text.take (firstAt marker input.text) ++
      input.text.drop (firstAt marker input.text)) =
        .ok (byteLength (input.text.take (firstAt marker input.text))) := by
    rw [hsplit, upToPlace, findBytes?_getD]
  have htakes := takes_cutBy hplace
  rw [Takes, hsplit, Input.ofText_text, Input.ofText_drop] at htakes
  rw [htakes, upTo_eq]

/-! ## All cuts are possible -/

/-- Whether a parser cuts its input where `place` says, and every cut is possible. -/
structure CutsAt (place : Text → Except Cause Nat) (p : Parser Text) : Prop where
  /-- Cutting at that byte answers as the parser does. -/
  agrees : ∀ input, cutBy place input = p input
  /-- No cut is without an answer. -/
  answers : ∀ input, (cutBy place).Answers input
  /-- The cut is in the input, at the end or in front of a character. -/
  boundary : ∀ s n, place s = .ok n → n ≤ byteLength s ∧ IsBoundary s n
  /-- What is taken and what is left are the bytes in front of the cut and behind it. -/
  pieces : ∀ input v rest, p input = some (.success v rest) → ∃ n, place input.text = .ok n ∧
    byteLength v = n ∧ byteLength v + byteLength rest.text = byteLength input.text ∧
    bytes v = (bytes input.text).take n ∧ bytes rest.text = (bytes input.text).drop n

theorem exists_place_of_success {v : Text} {rest : Input}
    (h : cutBy place input = some (.success v rest)) :
    ∃ n, place input.text = .ok n ∧ splitAtByte? n input.text = some (v, rest.text) := by
  unfold cutBy at h
  split at h
  · cases h
  · next n hn =>
    obtain ⟨⟨taken, left⟩, hsplit, heq⟩ := Option.map_eq_some_iff.mp h
    cases heq
    exact ⟨n, hn, hsplit⟩

/-- A parser that answers every input makes no impossible cut. -/
theorem cutsAt_of_eq (h : cutBy place = p) (hp : ∀ input, p.Answers input) : CutsAt place p where
  agrees input := congrFun h input
  answers := h ▸ hp
  boundary := by
    intro s n hn
    obtain ⟨o, ho⟩ := hp (.ofText s)
    rw [← h] at ho
    unfold cutBy at ho
    rw [Input.text_ofText, hn] at ho
    obtain ⟨pieces, hsplit, -⟩ := Option.map_eq_some_iff.mp ho
    have hboundary : IsBoundary s n :=
      isSome_splitAtByte?_iff.mp (Option.isSome_iff_exists.mpr ⟨pieces, hsplit⟩)
    exact ⟨hboundary.le_byteLength, hboundary⟩
  pieces := by
    intro input v rest hv
    rw [← h] at hv
    obtain ⟨n, hn, hsplit⟩ := exists_place_of_success hv
    obtain ⟨htext, hlength⟩ := splitAtByte?_eq_some_iff.mp hsplit
    exact ⟨n, hn, hlength, by rw [htext, byteLength_append], bytes_of_splitAtByte? hsplit⟩

/-- Literals, newlines, runs and markers cut their input at its end or in front of a character, whatever
the input is: no cut falls inside a character, and none beyond the end.  What is taken has as many bytes
as the cut says, and with what is left it has those of the input.  Comparing bytes finds a literal where
comparing characters does, and searching bytes finds a marker where searching characters does: the
offset is the size of the characters in front of it, and bytes of a marker occur nowhere else. -/
theorem cuts_between_characters (t marker : Text) (required : Nat) (ok : Char → Bool) :
    CutsAt (literalPlace t) (literal t) ∧ CutsAt newlinePlace newline ∧
    CutsAt (runPlace required ok) (runAtLeast required ok) ∧
    CutsAt (upToPlace marker) (upTo marker) ∧
    (∀ s, bytes t <+: bytes s ↔ t <+: s) ∧
    (∀ s, findBytes? (bytes marker) (bytes s) =
      (find? marker s).map fun i => byteLength (s.take i)) ∧
    ∀ s i, marker ≠ [] → (bytes marker <+: (bytes s).drop i ↔
      ∃ lead tail, s = lead ++ tail ∧ byteLength lead = i ∧ marker <+: tail) := by
  refine ⟨?_, ?_, ?_, ?_, fun s => bytes_prefix_iff, findBytes?_eq marker, ?_⟩
  · exact cutsAt_of_eq (cutBy_literalPlace t) fun _ => ⟨_, rfl⟩
  · exact cutsAt_of_eq cutBy_newlinePlace fun _ => .orFail ⟨_, rfl⟩ _
  · exact cutsAt_of_eq (cutBy_runPlace required ok) fun _ => ⟨_, rfl⟩
  · exact cutsAt_of_eq (cutBy_upToPlace marker) fun _ => ⟨_, rfl⟩
  · intro s i hmarker
    constructor
    · exact split_of_bytes_prefix_drop hmarker
    · rintro ⟨lead, tail, rfl, rfl, htail⟩
      exact bytes_prefix_drop lead htail

/-- The first bytes of `à` and `é` are the same.  The marker `éa` is found in `àéaé` behind byte 2, and
not inside a character; a run of two characters ends there with its fourth byte. -/
theorem cuts_between_characters_accents :
    ¬ IsBoundary "àéaé".toList 1 ∧ IsBoundary "àéaé".toList 2 ∧
    (∃ lead tail, "àéaé".toList = lead ++ tail ∧ byteLength lead = 2 ∧ "éa".toList <+: tail) ∧
    ∃ v rest, runAtLeast 2 (· != 'a') (.ofText "àéaé".toList) = some (.success v rest) ∧
      byteLength v = 4 := by
  obtain ⟨-, -, hrun, hupTo, -, -, hoccurs⟩ :=
    cuts_between_characters "à".toList "éa".toList 2 (· != 'a')
  have hplace : upToPlace "éa".toList "àéaé".toList = .ok 2 := by rfl
  refine ⟨by decide, (hupTo.boundary _ 2 hplace).2, ?_, ?_⟩
  · exact (hoccurs "àéaé".toList 2 (by decide)).mp (by decide)
  · have hparse : runAtLeast 2 (· != 'a') (.ofText "àéaé".toList) =
        some (.success "àé".toList (.ofText "aé".toList)) := rfl
    obtain ⟨n, hn, hlength, -⟩ := hrun.pieces _ _ _ hparse
    obtain rfl : 4 = n := Except.ok.inj hn
    exact ⟨_, _, hparse, hlength⟩

end TextParsing.Parser
