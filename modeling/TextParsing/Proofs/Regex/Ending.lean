import TextParsing.Engine
import TextParsing.Proofs.Regex.Local.Token
import TextParsing.Proofs.Regex.Renumber
import TextParsing.Proofs.Regex.Trailing.Token

/-!
# What is open behind a pattern

`ending s` tells how many groups are open behind a text, and whether a comment is: this is so if a
closing parenthesis closes none of the groups.  Either the parenthesis is left to be read when the rest
of the text has been read, whatever stands behind it, or a comment on the last line takes it in:

    ending s = some ⟨k, false⟩ →
      ∃ last, last.outer.length = k ∧ ∀ t, (Reading.start {}).Reaches (s ++ ')' :: t) last t
                                                                    (exists_reaches)
    ending s = some ⟨k, true⟩ → ending (s ++ [')']) = some ⟨k, comment⟩ ∧ HashInLastLine s
                                                                    (ending_comment)

`Reading.within ls` is a state of the reading with more levels around it.  Inside, a pattern that can
be read by itself is read in the same way, token by token, until its end.  There the parenthesis is
left to be read (`Reading.Reaches`), or a comment has taken it in, which does not depend on the levels
around (`readAll?_trailing`).
-/

namespace TextParsing.Regex

namespace Reading

/-- The state with more levels around all others. -/
def within (ls : List Level) (st : Reading) : Reading := { st with outer := st.outer ++ ls }

@[simp] theorem level_within (ls : List Level) (st : Reading) :
    (st.within ls).level = st.level := rfl

@[simp] theorem within_nil (st : Reading) : st.within [] = st := by
  rw [within, List.append_nil]

/-- The levels stand around it after no group at all. -/
theorem within_eq_amid (ls : List Level) (st : Reading) : st.within ls = st.amid 0 [] ls := by
  have hlevels : st.outer.map (Level.renumber 0) = st.outer :=
    List.map_id'' Level.renumber_zero st.outer
  rw [amid, hlevels, Level.renumber_zero, List.append_nil]
  rfl

theorem next?_within (ls : List Level) {st st' : Reading} {t : Token}
    (h : st.next? t = some st') : (st.within ls).next? t = some (st'.within ls) := by
  rw [within_eq_amid, within_eq_amid]
  exact next?_amid h fun _ _ => List.not_mem_nil

/-- What can be read is read in the same way with more levels around it. -/
theorem readAll?_within (ls : List Level) {st last : Reading} {s : Text}
    (h : st.readAll? s = some last) : (st.within ls).readAll? s = some (last.within ls) := by
  generalize hn : s.length = n
  induction n using Nat.strongRecOn generalizing st s with
  | ind n ih =>
    cases hs : skip st.level.flags.verbose s with
    | nil =>
      rw [readAll?_of_skip_nil hs] at h
      obtain rfl := Option.some.inj h
      exact readAll?_of_skip_nil hs
    | cons c r =>
      rw [readAll?_of_skip_cons hs] at h
      obtain ⟨⟨t, rest⟩, hr, h⟩ := Option.bind_eq_some_iff.mp h
      obtain ⟨st', hnext, h⟩ := Option.bind_eq_some_iff.mp h
      have hlt : rest.length < n := by
        have := length_lt_of_skip hs
        have := readToken_length_le hr
        omega
      have hs' : skip (st.within ls).level.flags.verbose s = c :: r := hs
      rw [readAll?_of_skip_cons hs', level_within, hr, Option.bind_some]
      dsimp only
      rw [next?_within ls hnext, Option.bind_some, ih rest.length hlt h rfl]

theorem skip_paren (verbose : Bool) (t : Text) : skip verbose (')' :: t) = ')' :: t := by
  cases verbose with
  | false => rfl
  | true => rw [skip, if_pos rfl, skipLayout, isWhiteSpace_eq_false (by simp)]; rfl

/-- Reading a text comes to a closing parenthesis, token by token: `last` is the state in front of the
parenthesis, and `t` is what stands behind it. -/
inductive Reaches : Reading → Text → Reading → Text → Prop where
  | stop {st : Reading} {s t : Text} (hs : skip st.level.flags.verbose s = ')' :: t) :
      Reaches st s st t
  | token {st st' last : Reading} {c : Char} {s r rest t : Text} {token : Token}
      (hs : skip st.level.flags.verbose s = c :: r)
      (hr : readToken st.level.flags.verbose c r = some (token, rest))
      (hn : st.next? token = some st') (h : Reaches st' rest last t) : Reaches st s last t

theorem Reaches.readAll? {st last : Reading} {s t : Text} (h : st.Reaches s last t) :
    st.readAll? s = last.readAll? (')' :: t) := by
  induction h with
  | stop hs => rw [readAll?_of_skip_cons hs, readAll?_of_skip_cons (skip_paren _ _)]
  | token hs hr hn _ ih =>
    rw [readAll?_of_skip_cons hs, hr, Option.bind_some]
    dsimp only
    rw [hn, Option.bind_some, ih]

theorem Reaches.names_subset {st last : Reading} {s t : Text} (h : st.Reaches s last t) :
    st.names ⊆ last.names := by
  induction h with
  | stop => exact List.Subset.refl _
  | token _ _ hn _ ih => exact List.Subset.trans (names_subset_of_next? hn) ih

/-- A pattern is read in the same way behind another one, if their groups have different names. -/
theorem Reaches.amid {st last : Reading} {s t : Text} {k : Nat} {names : List Text}
    {ls : List Level} (h : st.Reaches s last t) (hn : ∀ n ∈ last.names, n ∉ names) :
    (st.amid k names ls).Reaches s (last.amid k names ls) t := by
  induction h with
  | stop hs => exact .stop hs
  | token hs hr hnext h ih =>
    exact .token hs hr (next?_amid hnext fun n hmem => hn n (h.names_subset hmem)) (ih hn)

theorem Reaches.within {st last : Reading} {s t : Text} (h : st.Reaches s last t) (ls : List Level) :
    (st.within ls).Reaches s (last.within ls) t := by
  rw [within_eq_amid, within_eq_amid]
  exact h.amid fun _ _ => List.not_mem_nil

/-- What stands behind the parenthesis does not matter. -/
theorem Reaches.append {st last : Reading} {s u : Text} (h : st.Reaches s last u) (hs : Closed s) (t : Text) :
    st.Reaches (s ++ t) last (u ++ t) := by
  induction h with
  | stop hskip => exact .stop (skip_append_of_cons hskip t)
  | @token st st' last c s r rest u token hskip hr hn h ih =>
    have hrest : rest ≠ [] := by
      rintro rfl
      cases h with
      | stop hskip' =>
        rw [skip_nil] at hskip'
        cases hskip'
      | token hskip' =>
        rw [skip_nil] at hskip'
        cases hskip'
    have hread := local_readToken st.level.flags.verbose c
    have hr0 := hs.skip_cons hskip (ne_nil_of_length_le hrest (hread.length_le hr))
    obtain ⟨hcl, happ⟩ := hread.append hr0 hr hrest
    exact .token (skip_append_of_cons hskip t) (happ t) hn (ih hcl)

/-- What can be read by itself is read in the same way with a parenthesis behind it, up to its end.
There the parenthesis has been taken in by a comment on the last line, or it is left to be read. -/
theorem readAll?_trailing {w : Text} {st last : Reading} {s s' : Text}
    (h : st.readAll? s = some last) (ht : Trailing w s s') :
    (HashInLastLine w ∧ ∀ ls, (st.within ls).readAll? s' = some (last.within ls)) ∨
      st.Reaches s' last [] := by
  generalize hn : s.length = n
  induction n using Nat.strongRecOn generalizing st s s' with
  | ind n ih =>
    cases hs : skip st.level.flags.verbose s with
    | nil =>
      have hs' := ht.skip st.level.flags.verbose
      rw [hs] at hs'
      rw [readAll?_of_skip_nil hs] at h
      obtain rfl := Option.some.inj h
      generalize hu : skip st.level.flags.verbose s' = u at hs'
      cases hs' with
      | swallowed hhash => exact .inl ⟨hhash, fun ls => readAll?_of_skip_nil hu⟩
      | kept => exact .inr (.stop hu)
    | cons c r =>
      rw [readAll?_of_skip_cons hs] at h
      obtain ⟨⟨t, rest⟩, hr, h⟩ := Option.bind_eq_some_iff.mp h
      obtain ⟨st', hnext, h⟩ := Option.bind_eq_some_iff.mp h
      obtain ⟨r', hs', ht'⟩ := ht.skip_cons hs
      obtain ⟨rest', hr', htr⟩ := (steady_readToken _ c).follow ht' hr
      have hlt : rest.length < n := by
        have := length_lt_of_skip hs
        have := readToken_length_le hr
        omega
      refine (ih rest.length hlt h htr rfl).imp ?_ (.token hs' hr' hnext)
      rintro ⟨hhash, hread⟩
      refine ⟨hhash, fun ls => ?_⟩
      have hs' : skip (st.within ls).level.flags.verbose s' = c :: r' := hs'
      rw [readAll?_of_skip_cons hs', level_within, hr', Option.bind_some]
      dsimp only
      rw [next?_within ls hnext, Option.bind_some, hread]

/-- A closing parenthesis closes a group, if one is open. -/
theorem readAll?_paren_eq (st : Reading) (t : Text) :
    st.readAll? (')' :: t) = (st.next? .closeGroup).bind fun st' => st'.readAll? t := by
  have htoken : readToken st.level.flags.verbose ')' t = some (.closeGroup, t) := rfl
  rw [readAll?_of_skip_cons (skip_paren _ t), htoken, Option.bind_some]

theorem readAll?_paren {st : Reading} {l : Level} {ls : List Level} (h : st.outer = l :: ls)
    (t : Text) : st.readAll? (')' :: t) =
      Reading.readAll? { st with level := l.add st.level.close, outer := ls } t := by
  rw [readAll?_paren_eq, next?, h]
  rfl

/-- Where no group is open, a closing parenthesis is refused. -/
theorem readAll?_paren_of_nil {st : Reading} (h : st.outer = []) (t : Text) :
    st.readAll? (')' :: t) = none := by
  rw [readAll?_paren_eq, next?, h]
  rfl

end Reading

/-! ## What is open -/

/-- How many groups are open behind a text, if a pattern can begin with it. -/
def openGroups (s : Text) : Option Nat := ((Reading.start {}).readAll? s).map (·.outer.length)

/-- What is open behind a text, if a pattern can begin with it.  A comment is open where a closing
parenthesis closes nothing. -/
def ending (s : Text) : Option Ending :=
  (openGroups s).map fun k => ⟨k, openGroups (s ++ [')']) = some k⟩

section

variable {s : Text} {k : Nat}

theorem ending_eq_some_iff {comment : Bool} : ending s = some ⟨k, comment⟩ ↔
    openGroups s = some k ∧ (comment = true ↔ openGroups (s ++ [')']) = some k) := by
  rw [ending, Option.map_eq_some_iff]
  constructor
  · rintro ⟨k', hk, h⟩
    cases h
    exact ⟨hk, decide_eq_true_iff⟩
  · rintro ⟨hk, h⟩
    refine ⟨k, hk, ?_⟩
    rw [Ending.mk.injEq]
    exact ⟨rfl, (Bool.eq_iff_iff.mpr (h.trans decide_eq_true_iff.symm)).symm⟩

theorem openGroups_of_readAll? {last : Reading} (h : (Reading.start {}).readAll? s = some last) :
    openGroups s = some last.outer.length := by
  rw [openGroups, h]
  rfl

theorem readAll?_of_openGroups (h : openGroups s = some k) :
    ∃ last : Reading, (Reading.start {}).readAll? s = some last ∧ last.outer.length = k :=
  Option.map_eq_some_iff.mp h

/-- A parenthesis that is read does not leave as many groups open. -/
theorem Reading.map_length_readAll?_paren_ne (st : Reading) :
    (st.readAll? [')']).map (·.outer.length) ≠ some st.outer.length := by
  cases ho : st.outer with
  | nil =>
    rw [readAll?_paren_of_nil ho]
    exact fun h => nomatch h
  | cons l ls =>
    rw [readAll?_paren ho, readAll?_nil]
    intro h
    have : ls.length = ls.length + 1 := Option.some.inj h
    omega

/-- If a comment is open, the last line has the sign that opens it, and with more levels around the text
is read in the same way. -/
theorem readAll?_of_comment (h : ending s = some ⟨k, true⟩) :
    ∃ last : Reading, last.outer.length = k ∧ HashInLastLine s ∧
      ∀ ls, ((Reading.start {}).within ls).readAll? (s ++ [')']) = some (last.within ls) := by
  obtain ⟨hk, hcomment⟩ := ending_eq_some_iff.mp h
  obtain ⟨last, hlast, rfl⟩ := readAll?_of_openGroups hk
  rcases Reading.readAll?_trailing hlast (.kept (List.suffix_refl s)) with ⟨hhash, hread⟩ | hreach
  · exact ⟨last, rfl, hhash, hread⟩
  · have hparen := hcomment.mp rfl
    rw [openGroups, hreach.readAll?] at hparen
    exact absurd hparen last.map_length_readAll?_paren_ne

/-- If no comment is open, a closing parenthesis is read, whatever stands behind it. -/
theorem exists_reaches (h : ending s = some ⟨k, false⟩) :
    ∃ last : Reading, (Reading.start {}).readAll? s = some last ∧ last.outer.length = k ∧
      ∀ t, (Reading.start {}).Reaches (s ++ ')' :: t) last t := by
  obtain ⟨hk, hcomment⟩ := ending_eq_some_iff.mp h
  obtain ⟨last, hlast, rfl⟩ := readAll?_of_openGroups hk
  refine ⟨last, hlast, rfl, ?_⟩
  rcases Reading.readAll?_trailing hlast (.kept (List.suffix_refl s)) with ⟨-, hread⟩ | hreach
  · have hopen := openGroups_of_readAll? (hread [])
    rw [Reading.within_nil] at hopen
    exact absurd (hcomment.mpr hopen) Bool.false_ne_true
  · intro t
    have happ := hreach.append ⟨s, rfl⟩ t
    rwa [List.append_assoc] at happ

/-! ## What is put around a text -/

/-- The level around a pattern that is asked to match where the text begins. -/
def anchorLevel : Level := (Level.start none {}).add (look .textStart)

theorem readAll?_open (s : Text) :
    (Reading.start {}).readAll? ("^(?:".toList ++ s) =
      ((Reading.start {}).within [anchorLevel]).readAll? s := by
  have hcaret : skip false ("^(?:".toList ++ s) = '^' :: '(' :: '?' :: ':' :: s := rfl
  have hgroup : skip false ('(' :: '?' :: ':' :: s) = '(' :: '?' :: ':' :: s := rfl
  rw [Reading.readAll?_of_skip_cons hcaret]
  show (((Reading.start {}).add (look .textStart)).readAll? ('(' :: '?' :: ':' :: s)) = _
  rw [Reading.readAll?_of_skip_cons hgroup]
  rfl

theorem length_outer_within (last : Reading) :
    (last.within [anchorLevel]).outer.length = last.outer.length + 1 :=
  List.length_append

/-- Inside a group, behind a caret, a text is read as it is by itself. -/
theorem ending_open {comment : Bool} (h : ending s = some ⟨k, comment⟩) :
    ending ("^(?:".toList ++ s) = some ⟨k + 1, comment⟩ := by
  have hopen {t : Text} {last : Reading}
      (hread : ((Reading.start {}).within [anchorLevel]).readAll? t =
        some (last.within [anchorLevel])) :
      openGroups ("^(?:".toList ++ t) = some (last.outer.length + 1) := by
    rw [openGroups, readAll?_open, hread, Option.map_some, length_outer_within]
  rw [ending_eq_some_iff, List.append_assoc]
  cases comment with
  | true =>
    obtain ⟨last, rfl, -, hread⟩ := readAll?_of_comment h
    obtain ⟨last', hlast', hk⟩ := readAll?_of_openGroups (ending_eq_some_iff.mp h).1
    refine ⟨?_, fun _ => hopen (hread _), fun _ => rfl⟩
    rw [hopen (Reading.readAll?_within _ hlast'), hk]
  | false =>
    obtain ⟨last, hlast, rfl, hreach⟩ := exists_reaches h
    refine ⟨hopen (Reading.readAll?_within _ hlast), ⟨nofun, fun hparen => ?_⟩⟩
    rw [openGroups, readAll?_open, ((hreach []).within [anchorLevel]).readAll?,
      ← length_outer_within] at hparen
    exact absurd hparen (Reading.map_length_readAll?_paren_ne _)

/-- A closing parenthesis closes a group. -/
theorem ending_close (h : ending s = some ⟨k + 1, false⟩) :
    ending (s ++ [')']) = some ⟨k, false⟩ := by
  obtain ⟨last, -, hk, hreach⟩ := exists_reaches h
  obtain ⟨l, ls, ho⟩ := List.exists_cons_of_length_eq_add_one hk
  rw [ho] at hk
  obtain rfl := Nat.succ.inj hk
  have hopen (t : Text) : openGroups (s ++ ')' :: t) = (Reading.readAll?
      { last with level := l.add last.level.close, outer := ls } t).map (·.outer.length) := by
    rw [openGroups, (hreach t).readAll?, Reading.readAll?_paren ho]
  rw [ending_eq_some_iff, List.append_assoc]
  refine ⟨(hopen []).trans (by rw [Reading.readAll?_nil]; rfl), ⟨nofun, fun hparen => ?_⟩⟩
  exact absurd ((hopen [')']).symm.trans hparen) (Reading.map_length_readAll?_paren_ne _)

/-- A closing parenthesis is refused if no group is open. -/
theorem ending_unopened (h : ending s = some ⟨0, false⟩) : ending (s ++ [')']) = none := by
  obtain ⟨last, -, hk, hreach⟩ := exists_reaches h
  have ho : last.outer = [] := List.length_eq_zero_iff.mp hk
  have hnone : openGroups (s ++ [')']) = none := by
    rw [openGroups, (hreach []).readAll?, Reading.readAll?_paren_of_nil ho]
    rfl
  rw [ending, hnone]
  rfl

/-- A comment takes in a closing parenthesis. -/
theorem ending_comment (h : ending s = some ⟨k, true⟩) :
    (∃ comment, ending (s ++ [')']) = some ⟨k, comment⟩) ∧ HashInLastLine s := by
  obtain ⟨last, rfl, hhash, hread⟩ := readAll?_of_comment h
  have hopen := openGroups_of_readAll? (hread [])
  rw [Reading.within_nil] at hopen
  exact ⟨⟨_, ending_eq_some_iff.mpr ⟨hopen, decide_eq_true_iff⟩⟩, hhash⟩

end

end TextParsing.Regex
