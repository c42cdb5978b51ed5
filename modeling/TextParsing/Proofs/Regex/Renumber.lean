import TextParsing.Proofs.Regex.Neat
import TextParsing.Regex.Plan

/-!
# Moving the numbers of groups

The groups of a pattern are numbered in the order in which they are opened.  Where a pattern stands
behind another one, the numbers of its groups are larger, and nothing else is different: expressions
are put together in the same way, a search does the same, and so does each token that is read.

    choice (rs.map (renumber k)) = (choice rs).renumber k                         (choice_renumber)
    plan (r.renumber k) = plan r                                                    (plan_renumber)
    st.next? t = some st' → (st.amid k names ls).next? t = some (st'.amid k names ls)   (next?_amid)

`Reading.amid k names ls` is a state of the reading with the levels `ls` around it, after `k` groups
that have the names `names`; the last of these holds if `t` does not name a group once more.
-/

namespace TextParsing.Regex

/-- The expression with the numbers of its groups moved. -/
def renumber (k : Nat) : Regex → Regex
  | empty => empty
  | chars set unicode => chars set unicode
  | look test => look test
  | group n a => group (n + k) (renumber k a)
  | cat a b => cat (renumber k a) (renumber k b)
  | alt a b => alt (renumber k a) (renumber k b)
  | times greedy least most a => times greedy least most (renumber k a)

variable {k : Nat}

theorem renumber_zero (r : Regex) : r.renumber 0 = r := by
  induction r <;> simp_all [renumber]

theorem renumber_injective (k : Nat) : Function.Injective (renumber k) := by
  intro r
  induction r with
  | empty =>
    intro s h
    cases s <;> cases h
    rfl
  | chars set =>
    intro s h
    cases s <;> cases h
    rfl
  | look test =>
    intro s h
    cases s <;> cases h
    rfl
  | group n a ih =>
    intro s h
    cases s with
    | group m b =>
      rw [renumber, renumber, group.injEq] at h
      rw [ih h.2, Nat.add_right_cancel h.1]
    | _ => cases h
  | cat a b iha ihb =>
    intro s h
    cases s with
    | cat c d =>
      rw [renumber, renumber, cat.injEq] at h
      rw [iha h.1, ihb h.2]
    | _ => cases h
  | alt a b iha ihb =>
    intro s h
    cases s with
    | alt c d =>
      rw [renumber, renumber, alt.injEq] at h
      rw [iha h.1, ihb h.2]
    | _ => cases h
  | times greedy least most a ih =>
    intro s h
    cases s with
    | times =>
      rw [renumber, renumber, times.injEq] at h
      obtain ⟨rfl, rfl, rfl, h⟩ := h
      rw [ih h]
    | _ => cases h

theorem renumber_eq_empty_iff {r : Regex} : r.renumber k = empty ↔ r = empty := by
  cases r <;> simp [renumber]

theorem onlyEmpty_renumber (r : Regex) : (r.renumber k).onlyEmpty = r.onlyEmpty := by
  induction r <;> simp_all [renumber, onlyEmpty]

theorem seq_renumber (r s : Regex) : seq (r.renumber k) (s.renumber k) = (seq r s).renumber k := by
  have hother (a : Regex) : (if s.renumber k = empty then a.renumber k
      else cat (a.renumber k) (s.renumber k)) = (if s = empty then a else cat a s).renumber k := by
    by_cases hs : s = empty
    · rw [if_pos hs, if_pos (renumber_eq_empty_iff.mpr hs)]
    · rw [if_neg hs, if_neg (mt renumber_eq_empty_iff.mp hs), renumber]
  induction r with
  | empty => rfl
  | cat a b _ ih => rw [renumber, seq, seq, renumber, ih]
  | chars => exact hother _
  | look => exact hother _
  | group => exact hother _
  | alt => exact hother _
  | times => exact hother _

theorem seqAll_renumber (rs : List Regex) :
    seqAll (rs.map (renumber k)) = (seqAll rs).renumber k := by
  induction rs with
  | nil => rfl
  | cons r rs ih =>
    show seq (r.renumber k) (seqAll (rs.map (renumber k))) = _
    rw [ih, seq_renumber]
    rfl

theorem factors_renumber (r : Regex) : (r.renumber k).factors = r.factors.map (renumber k) := by
  induction r with
  | cat a b _ ih => rw [renumber, factors, ih, factors, List.map_cons]
  | _ => rfl

theorem branches_renumber (r : Regex) : (r.renumber k).branches = r.branches.map (renumber k) := by
  induction r with
  | alt a b _ ih => rw [renumber, branches, ih, branches, List.map_cons]
  | _ => rfl

theorem flatMap_branches_renumber (rs : List Regex) :
    (rs.map (renumber k)).flatMap branches = (rs.flatMap branches).map (renumber k) := by
  rw [List.flatMap_map, List.map_flatMap]
  exact List.flatMap_congr fun r _ => branches_renumber r

theorem altAll_renumber (rs : List Regex) :
    altAll (rs.map (renumber k)) = (altAll rs).renumber k := by
  fun_induction altAll rs with
  | case1 => rfl
  | case2 r => rfl
  | case3 r rs hrs ih =>
    cases rs with
    | nil => exact absurd rfl hrs
    | cons s rs =>
      show alt (r.renumber k) (altAll ((s :: rs).map (renumber k))) = _
      rw [ih, renumber]

theorem set?_renumber (r : Regex) : (r.renumber k).set? = r.set? := by
  cases r <;> rfl

theorem isChar_renumber (r : Regex) : (r.renumber k).isChar = r.isChar := by
  rw [isChar, isChar, set?_renumber]

theorem union?_renumber (rs : List Regex) :
    union? (rs.map (renumber k)) = (union? rs).map (renumber k) := by
  rw [union?, union?, List.all_map, List.all_map, List.filterMap_map]
  have hchar : isChar ∘ renumber k = isChar := funext isChar_renumber
  have hset : set? ∘ renumber k = set? := funext set?_renumber
  have hsets : (fun r => r.set?.any fun s => !s.isSingle) ∘ renumber k =
      fun r => r.set?.any fun s => !s.isSingle :=
    funext fun r => congrArg (Option.any _) (set?_renumber r)
  rw [hchar, hset, hsets]
  split
  · rfl
  · rfl

theorem splitBy_map {α β : Type} {f : α → β} {p : α → α → Bool} {q : β → β → Bool}
    (h : ∀ a b, q (f a) (f b) = p a b) (l : List α) :
    (l.map f).splitBy q = (l.splitBy p).map (List.map f) := by
  have hp : q.onFun f = p := funext fun a => funext fun b => h a b
  obtain ⟨hflat, hnil, hchain, hbounds⟩ := List.splitBy_eq_iff.mp (rfl : l.splitBy p = l.splitBy p)
  refine List.splitBy_eq_iff.mpr ⟨?_, ?_, ?_, ?_⟩
  · rw [← List.map_flatten, ← hflat]
  · simp [hnil]
  · intro m hm
    obtain ⟨m', hm', rfl⟩ := List.mem_map.mp hm
    rw [List.isChain_map]
    simpa only [h] using hchain m' hm'
  · rw [List.isChain_map]
    refine hbounds.imp fun a b hab => ?_
    obtain ⟨ha, hb, hab⟩ := hab
    refine ⟨by simpa using ha, by simpa using hb, ?_⟩
    rw [List.getLast_map, List.head_map, h, hab]

theorem parts_renumber (r : Regex) : (r.renumber k).parts = r.parts.map (List.map (renumber k)) := by
  rw [parts, parts, factors_renumber]
  exact splitBy_map (fun a b => by rw [isChar_renumber, isChar_renumber]) _

theorem common_map {α β : Type} [DecidableEq α] [DecidableEq β] {f : α → β}
    (hf : Function.Injective f) (as bs : List α) :
    common (as.map f) (bs.map f) = (common as bs).map f := by
  fun_induction common as bs with
  | case1 a as bs ih =>
    rw [List.map_cons, List.map_cons, common, if_pos rfl, ih, List.map_cons]
  | case2 a as b bs hab =>
    rw [List.map_cons, List.map_cons, common, if_neg fun h => hab (hf h), List.map_nil]
  | case3 as bs h =>
    cases as with
    | nil => rfl
    | cons a as =>
      cases bs with
      | nil => rfl
      | cons b bs => exact (h a as b bs rfl rfl).elim

theorem foldl_common_map {α β : Type} [DecidableEq α] [DecidableEq β] {f : α → β}
    (hf : Function.Injective f) (as : List α) (bss : List (List α)) :
    (bss.map (List.map f)).foldl common (as.map f) = (bss.foldl common as).map f := by
  induction bss generalizing as with
  | nil => rfl
  | cons bs bss ih => rw [List.map_cons, List.foldl_cons, common_map hf, ih, List.foldl_cons]

theorem lead_map {f : List Regex → List Regex} (hf : Function.Injective f)
    (pss : List (List (List Regex))) : lead (pss.map (List.map f)) = (lead pss).map f := by
  cases pss with
  | nil => rfl
  | cons ps pss =>
    have hall : ((ps :: pss).map (List.map f)).all (fun qs => 2 ≤ qs.length) =
        (ps :: pss).all fun qs => 2 ≤ qs.length := by
      rw [List.all_map]
      simp [Function.comp_def]
    rw [List.map_cons] at hall
    rw [List.map_cons, lead, lead, hall]
    split
    · exact foldl_common_map hf ps pss
    · rfl

theorem choiceOf_renumber (rs : List Regex) :
    choiceOf (rs.map (renumber k)) = (choiceOf rs).renumber k := by
  rw [choiceOf, choiceOf, union?_renumber, altAll_renumber]
  cases union? rs <;> rfl

theorem tails_renumber (n : Nat) (rs : List Regex) :
    tails n (rs.map (renumber k)) = (tails n rs).map (renumber k) := by
  rw [tails, tails, List.map_map, List.map_map]
  refine List.map_congr_left fun r _ => ?_
  show seqAll ((r.renumber k).parts.drop n).flatten = _
  rw [parts_renumber, ← List.map_drop, ← List.map_flatten, seqAll_renumber]
  rfl

theorem behind_renumber (shared : List (List Regex)) (rs : List Regex) :
    behind (shared.map (List.map (renumber k))) (rs.map (renumber k)) =
      (behind shared rs).renumber k := by
  rw [behind, behind, List.length_map, tails_renumber, flatMap_branches_renumber, choiceOf_renumber,
    ← List.map_flatten, ← seqAll_renumber, List.map_append]
  rfl

theorem lead_renumber (rs : List Regex) :
    lead ((rs.map (renumber k)).map parts) = (lead (rs.map parts)).map (List.map (renumber k)) := by
  rw [← lead_map (List.map_injective_iff.mpr (renumber_injective k)), List.map_map, List.map_map]
  exact congrArg lead (List.map_congr_left fun r _ => parts_renumber r)

theorem leadOut?_renumber (rs : List Regex) :
    leadOut? (rs.map (renumber k)) = (leadOut? rs).map (renumber k) := by
  rw [leadOut?_eq, leadOut?_eq, lead_renumber, behind_renumber]
  cases lead (rs.map parts) with
  | nil => rfl
  | cons s shared => rfl

theorem choice_renumber (rs : List Regex) :
    choice (rs.map (renumber k)) = (choice rs).renumber k := by
  by_cases h : rs.length = 1
  · obtain ⟨r, rfl⟩ := List.length_eq_one_iff.mp h
    rfl
  · rw [choice_of_two h, choice_of_two (by rwa [List.length_map]), flatMap_branches_renumber,
      union?_renumber, leadOut?_renumber, altAll_renumber]
    cases union? (rs.flatMap branches) with
    | some r => rfl
    | none => cases leadOut? (rs.flatMap branches) <;> rfl

/-! ## Repetitions -/

theorem bounded_renumber (greedy : Bool) (r : Regex) (least : Nat) (most : Option Nat) :
    bounded greedy (r.renumber k) least most = (bounded greedy r least most).renumber k := by
  unfold bounded
  split
  · rfl
  · split <;> rfl

theorem repeated_renumber (greedy : Bool) (r : Regex) (least : Nat) (most : Option Nat) :
    repeated greedy (r.renumber k) least most = (repeated greedy r least most).renumber k := by
  rw [repeated, repeated, onlyEmpty_renumber]
  split
  · exact bounded_renumber greedy r _ _
  · exact bounded_renumber greedy r _ _

/-! ## Levels -/

/-- The part of a branch with the numbers of its groups moved. -/
def Piece.renumber (k : Nat) : Piece → Piece
  | directive => directive
  | regex r => regex (r.renumber k)

/-- The level with the numbers of its groups moved. -/
def Level.renumber (k : Nat) (l : Level) : Level :=
  ⟨l.number.map (· + k), l.flags, l.pieces.map (Piece.renumber k), l.branches.map (Regex.renumber k)⟩

namespace Level

theorem renumber_zero (l : Level) : l.renumber 0 = l := by
  have hpiece : Piece.renumber 0 = id := by
    funext p
    cases p with
    | directive => rfl
    | regex r => exact congrArg Piece.regex (Regex.renumber_zero r)
  have hregex : Regex.renumber 0 = id := funext Regex.renumber_zero
  simp [renumber, hpiece, hregex]

theorem branch_renumber (l : Level) : (l.renumber k).branch = l.branch.renumber k := by
  have hregex : Piece.regex? ∘ Piece.renumber k = fun p => p.regex?.map (Regex.renumber k) := by
    funext p
    cases p <;> rfl
  rw [branch, branch, ← seqAll_renumber, renumber, ← List.map_reverse, List.filterMap_map, hregex,
    List.map_filterMap]

theorem close_renumber (l : Level) : (l.renumber k).close = l.close.renumber k := by
  have hbody : (l.renumber k).body = l.body.renumber k := by
    rw [body, body, branch_renumber, ← choice_renumber, List.map_reverse, List.map_cons]
    rfl
  obtain ⟨number, flags, pieces, branches⟩ := l
  cases number with
  | none => exact hbody
  | some n => exact congrArg (group (n + k)) hbody

theorem add_renumber (l : Level) (r : Regex) :
    (l.renumber k).add (r.renumber k) = (l.add r).renumber k := rfl

theorem newBranch_renumber (l : Level) : (l.renumber k).newBranch = l.newBranch.renumber k := by
  rw [newBranch, branch_renumber]
  rfl

theorem repeatLast?_renumber {l l' : Level} {least : Nat} {most : Option Nat} {reluctant : Bool}
    (h : l.repeatLast? least most reluctant = some l') :
    (l.renumber k).repeatLast? least most reluctant = some (l'.renumber k) := by
  obtain ⟨number, flags, pieces, branches⟩ := l
  cases pieces with
  | nil => cases h
  | cons p ps =>
    cases p with
    | directive => cases h
    | regex r =>
      cases h
      simp [repeatLast?, renumber, Piece.renumber, repeated_renumber]

end Level

theorem Atom.renumber_of_toRegex? {f : Flags} {a : Atom} {r : Regex} (h : a.toRegex? f = some r) :
    r.renumber k = r := by
  rcases eq_of_toRegex? h with ⟨set, unicode, rfl⟩ | ⟨test, rfl⟩
  · rfl
  · rfl

/-! ## States of the reading -/

namespace Reading

/-- The state with more levels around all others, after `k` groups that have the names `names`. -/
def amid (k : Nat) (names : List Text) (ls : List Level) (st : Reading) : Reading :=
  ⟨st.level.renumber k, st.outer.map (Level.renumber k) ++ ls, st.names ++ names, st.count + k⟩

variable {names : List Text} {ls : List Level} {st st' : Reading}

theorem names_subset_of_next? {t : Token} (h : st.next? t = some st') : st.names ⊆ st'.names := by
  cases t with
  | atom a =>
    obtain ⟨r, -, rfl⟩ := Option.map_eq_some_iff.mp h
    exact List.Subset.refl _
  | openGroup start =>
    cases start with
    | numbered =>
      cases h
      exact List.Subset.refl _
    | named name =>
      rw [next?] at h
      split at h
      · cases h
      · cases h
        exact List.subset_cons_self _ _
    | plain change =>
      cases h
      exact List.Subset.refl _
  | closeGroup =>
    rw [next?] at h
    split at h
    · cases h
    · cases h
      exact List.Subset.refl _
  | count least most reluctant =>
    obtain ⟨l, -, rfl⟩ := Option.map_eq_some_iff.mp h
    exact List.Subset.refl _
  | _ =>
    cases h
    exact List.Subset.refl _

theorem enterNumbered_amid (name : Option Text) :
    (st.amid k names ls).enterNumbered name = (st.enterNumbered name).amid k names ls := by
  simp [enterNumbered, amid, Level.renumber, Level.start, List.append_assoc, Nat.add_right_comm]

theorem next?_amid {t : Token} (h : st.next? t = some st') (hn : ∀ n ∈ st'.names, n ∉ names) :
    (st.amid k names ls).next? t = some (st'.amid k names ls) := by
  cases t with
  | atom a =>
    obtain ⟨r, hr, rfl⟩ := Option.map_eq_some_iff.mp h
    refine Option.map_eq_some_iff.mpr ⟨r, hr, ?_⟩
    have hadd := st.level.add_renumber (k := k) r
    rw [Atom.renumber_of_toRegex? hr] at hadd
    show { st.amid k names ls with level := (st.level.renumber k).add r } = _
    rw [hadd]
    rfl
  | bar =>
    cases h
    show some { st.amid k names ls with level := (st.level.renumber k).newBranch } = _
    rw [Level.newBranch_renumber]
    rfl
  | openGroup start =>
    cases start with
    | numbered =>
      cases h
      rw [next?, enterNumbered_amid]
    | named name =>
      rw [next?] at h
      split at h
      · cases h
      · next hnew =>
        cases h
        rw [next?, if_neg, enterNumbered_amid]
        show name ∉ st.names ++ names
        rw [List.mem_append, not_or]
        exact ⟨hnew, hn name List.mem_cons_self⟩
    | plain change =>
      cases h
      rfl
  | directive change =>
    cases h
    rfl
  | closeGroup =>
    obtain ⟨level, outer, names, count⟩ := st
    cases outer with
    | nil => cases h
    | cons o os =>
      cases h
      show some (Reading.mk ((o.renumber k).add (level.renumber k).close) _ _ _) = _
      rw [Level.close_renumber, Level.add_renumber]
      rfl
  | count least most reluctant =>
    obtain ⟨level, hl, rfl⟩ := Option.map_eq_some_iff.mp h
    exact Option.map_eq_some_iff.mpr ⟨_, Level.repeatLast?_renumber hl, rfl⟩

end Reading

end TextParsing.Regex
