import TextParsing.Regex.Escape

/-!
# Reading bracketed classes

`readClass` reads a class after its opening bracket, brackets nested in it included.  A class is a
union of items (characters, ranges, named classes, classes in brackets), or such unions joined by
set operations, which group to the left.

    readClass verbose s = some (set, rest) → rest.length ≤ s.length    (readClass_length_le)
-/

namespace TextParsing.Regex

/-! ## Items -/

/-- Reads one end of a range, or an item that is no range. -/
def readClassAtom (verbose : Bool) : Text → Option (Escape × Text)
  | [] => none
  | c :: s => if c = '\\' then readEscape verbose s else some (.char c false, s)

/-- The class of an item that is no range; zero-width assertions are none. -/
def Escape.toClass? : Escape → Option ClassSet
  | .char c _ => some (.single c)
  | .letter name negated => some (.letter name negated)
  | .assertion _ => none

/-- The range between two ends, which must be characters in order. -/
def rangeOf? : Escape → Escape → Option ClassSet
  | .char first _, .char last _ => if first ≤ last then some (.range first last) else none
  | _, _ => none

/-- Reads a range or a single item.  A hyphen before a closing bracket or before another hyphen
forms no range. -/
def readItem (verbose : Bool) (s : Text) : Option (ClassSet × Text) :=
  (readClassAtom verbose s).bind fun (first, r) =>
    match skip verbose r with
    | [] => none
    | c :: r' =>
      if c = '-' ∧ peek verbose r' ≠ some ']' ∧ peek verbose r' ≠ some '-' then
        (readClassAtom verbose (skip verbose r')).bind fun (last, rest) =>
          (rangeOf? first last).map fun set => (set, rest)
      else first.toClass?.map fun set => (set, c :: r')

/-- Reads a class that is written by name between colons, after the bracket that opens it. -/
def readPosix : Text → Option (ClassSet × Text)
  | ':' :: s =>
    let negated := s.head? == some '^'
    let s := if negated then s.tail else s
    match s.dropWhile (· != ':') with
    | ':' :: ']' :: rest =>
      (PosixClass.ofName? (s.takeWhile (· != ':'))).map fun name => (.posix name negated, rest)
    | _ => none
  | _ => none

/-- Reads a set operation whose first character is `c`. -/
def readSetOp (c : Char) : Text → Option (SetOp × Text)
  | [] => none
  | d :: s =>
    if c = '&' ∧ d = '&' then some (.intersection, s)
    else if c = '-' ∧ d = '-' then some (.difference, s)
    else if c = '~' ∧ d = '~' then some (.symmetricDifference, s)
    else none

theorem readClassAtom_length_lt {verbose : Bool} {s rest : Text} {e : Escape}
    (h : readClassAtom verbose s = some (e, rest)) : rest.length < s.length := by
  cases s with
  | nil => cases h
  | cons c s =>
    rw [readClassAtom] at h
    split at h
    · have := readEscape_length_le h
      simp
      omega
    · cases h
      simp

theorem readItem_length_lt {verbose : Bool} {s rest : Text} {set : ClassSet}
    (h : readItem verbose s = some (set, rest)) : rest.length < s.length := by
  obtain ⟨⟨first, r⟩, hf, h⟩ := Option.bind_eq_some_iff.mp h
  have hf := readClassAtom_length_lt hf
  have hs := skip_length_le verbose r
  dsimp only at h
  split at h
  · cases h
  · next c r' heq =>
    rw [heq] at hs
    split at h
    · obtain ⟨⟨last, r''⟩, hl, h⟩ := Option.bind_eq_some_iff.mp h
      obtain ⟨set', -, he⟩ := Option.map_eq_some_iff.mp h
      cases he
      have hl := readClassAtom_length_lt hl
      have := skip_length_le verbose r'
      simp at hs hl ⊢
      omega
    · obtain ⟨set', -, he⟩ := Option.map_eq_some_iff.mp h
      cases he
      omega

theorem readPosix_length_le {s rest : Text} {set : ClassSet}
    (h : readPosix s = some (set, rest)) : rest.length ≤ s.length := by
  unfold readPosix at h
  split at h
  · next s =>
    dsimp only at h
    split at h
    · next t rest' heq =>
      obtain ⟨name, -, he⟩ := Option.map_eq_some_iff.mp h
      cases he
      have hd := (List.dropWhile_suffix (· != ':')
        (l := if (s.head? == some '^') = true then s.tail else s)).length_le
      rw [heq] at hd
      have ht : (if (s.head? == some '^') = true then s.tail else s).length ≤ s.length := by
        split <;> simp
      rw [List.length_cons, List.length_cons] at hd
      rw [List.length_cons]
      omega
    · cases h
  · cases h

theorem readSetOp_length_le {c : Char} {s rest : Text} {op : SetOp}
    (h : readSetOp c s = some (op, rest)) : rest.length ≤ s.length := by
  cases s with
  | nil => cases h
  | cons d s =>
    rw [readSetOp] at h
    repeat' split at h
    all_goals cases h
    all_goals exact Nat.le_succ _

/-! ## Open brackets -/

/-- A bracket that is being read: the items since the last set operation, and before them the
left side of that operation. -/
structure OpenBracket where
  negated : Bool
  pending : Option (SetOp × ClassSet)
  items : ClassSet

namespace OpenBracket

/-- The bracket with one more item. -/
def add (b : OpenBracket) (item : ClassSet) : OpenBracket :=
  { b with items := .union b.items item }

/-- What has been read so far. -/
def content (b : OpenBracket) : ClassSet :=
  match b.pending with
  | none => b.items
  | some (op, left) => .op op left b.items

/-- The bracket after a set operation has been read. -/
def operate (b : OpenBracket) (op : SetOp) : OpenBracket :=
  { b with pending := some (op, b.content), items := .nothing }

/-- The class of the whole bracket. -/
def close (b : OpenBracket) : ClassSet := .bracket b.negated b.content

end OpenBracket

/-- Reads the hyphens at the beginning of a class, which stand for themselves. -/
def readHyphens (verbose : Bool) (b : OpenBracket) : Text → OpenBracket × Text
  | [] => (b, [])
  | c :: s =>
    if c = '-' then readHyphens verbose (b.add (.single '-')) (skip verbose s)
    else (b, c :: s)
termination_by s => s.length
decreasing_by
  have := skip_length_le verbose s
  simp
  omega

theorem readHyphens_length_le (verbose : Bool) (b : OpenBracket) (s : Text) :
    (readHyphens verbose b s).2.length ≤ s.length := by
  fun_induction readHyphens verbose b s with
  | case1 => simp
  | case2 b s ih =>
    have := skip_length_le verbose s
    simp
    omega
  | case3 => simp

/-- Reads the beginning of a class after its bracket: a negation, then hyphens, or else a closing
bracket, that stand for themselves. -/
def openBracket (verbose : Bool) (s : Text) : OpenBracket × Text :=
  let s := skip verbose s
  let negated := s.head? == some '^'
  let s := if negated then skip verbose s.tail else s
  let b : OpenBracket := ⟨negated, none, .nothing⟩
  match s with
  | ']' :: r => (b.add (.single ']'), skip verbose r)
  | s => readHyphens verbose b s

theorem openBracket_length_le (verbose : Bool) (s : Text) :
    (openBracket verbose s).2.length ≤ s.length := by
  unfold openBracket
  have h1 := skip_length_le verbose s
  dsimp only
  have h2 : (if ((skip verbose s).head? == some '^') = true then skip verbose (skip verbose s).tail
      else skip verbose s).length ≤ s.length := by
    split
    · have := skip_length_le verbose (skip verbose s).tail
      simp at this
      omega
    · exact h1
  split
  · next r heq =>
    rw [heq] at h2
    have := skip_length_le verbose r
    simp at h2 ⊢
    omega
  · exact Nat.le_trans (readHyphens_length_le _ _ _) h2

/-! ## Whole classes -/

/-- Reads on inside the bracket `b`, which stands inside the brackets `outer`. -/
def readBracket (verbose : Bool) (outer : List OpenBracket) (b : OpenBracket) (s : Text) :
    Option (ClassSet × Text) :=
  match _h : skip verbose s with
  | [] => none
  | c :: r =>
    if c = ']' then
      match outer with
      | [] => some (b.close, r)
      | o :: outer => readBracket verbose outer (o.add b.close) r
    else if c = '[' then
      match _hp : readPosix r with
      | some (item, rest) => readBracket verbose outer (b.add item) rest
      | none =>
        readBracket verbose (b :: outer) (openBracket verbose r).1 (openBracket verbose r).2
    else
      match _ho : readSetOp c r with
      | some (op, rest) => readBracket verbose outer (b.operate op) rest
      | none =>
        match _hi : readItem verbose (c :: r) with
        | none => none
        | some (item, rest) => readBracket verbose outer (b.add item) rest
termination_by s.length
decreasing_by
  all_goals have := length_lt_of_skip _h
  · omega
  · have := readPosix_length_le _hp
    omega
  · have := openBracket_length_le verbose r
    omega
  · have := readSetOp_length_le _ho
    omega
  · have := readItem_length_lt _hi
    simp only [List.length_cons] at this
    omega

/-- Reads a class after its opening bracket. -/
def readClass (verbose : Bool) (s : Text) : Option (ClassSet × Text) :=
  readBracket verbose [] (openBracket verbose s).1 (openBracket verbose s).2

theorem readBracket_length_le {verbose : Bool} {outer : List OpenBracket} {b : OpenBracket}
    {s rest : Text} {set : ClassSet} (h : readBracket verbose outer b s = some (set, rest)) :
    rest.length ≤ s.length := by
  fun_induction readBracket verbose outer b s with
  | case1 => cases h
  | case2 b s r hs =>
    cases h
    exact Nat.le_of_lt (length_lt_of_skip hs)
  | case3 b s r o outer hs ih =>
    exact Nat.le_trans (ih h) (Nat.le_of_lt (length_lt_of_skip hs))
  | case4 outer b s r item rest' hp hs hc ih =>
    have := length_lt_of_skip hs
    have := readPosix_length_le hp
    have := ih h
    omega
  | case5 outer b s r hp hs hc ih =>
    have := length_lt_of_skip hs
    have := openBracket_length_le verbose r
    have := ih h
    omega
  | case6 outer b s c r hs hc hc' op rest' ho ih =>
    have := length_lt_of_skip hs
    have := readSetOp_length_le ho
    have := ih h
    omega
  | case7 => cases h
  | case8 outer b s c r hs hc hc' ho item rest' hi ih =>
    have := length_lt_of_skip hs
    have hi := readItem_length_lt hi
    have := ih h
    rw [List.length_cons] at hi
    omega

theorem readClass_length_le {verbose : Bool} {s rest : Text} {set : ClassSet}
    (h : readClass verbose s = some (set, rest)) : rest.length ≤ s.length :=
  Nat.le_trans (readBracket_length_le h) (openBracket_length_le verbose s)

end TextParsing.Regex
