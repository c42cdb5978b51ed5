import Mathlib.Data.List.TakeWhile
import TextParsing.Proofs.Regex.Local.Escape
import TextParsing.Proofs.Regex.Trailing.Bracket

/-!
# Bracketed classes in a text that goes on

    Local (readClass verbose)                                                     (local_readClass)
-/

namespace TextParsing.Regex

theorem Closed.paren_mem {s : Text} (h : Closed s) : ')' ∈ s := by
  obtain ⟨y, rfl⟩ := h
  exact List.mem_append_right y (List.mem_singleton_self _)

theorem Closed.exists_cons {c : Char} {s : Text} (h : Closed (c :: s)) (hc : c ≠ ')') :
    ∃ d r, s = d :: r := by
  cases s with
  | nil => exact absurd (List.mem_singleton.mp h.paren_mem).symm hc
  | cons d r => exact ⟨d, r, rfl⟩

theorem readSetOp_append (c : Char) {s : Text} (hs : s ≠ []) (t : Text) :
    readSetOp c (s ++ t) = (readSetOp c s).map fun (op, rest) => (op, rest ++ t) := by
  cases s with
  | nil => exact absurd rfl hs
  | cons d s =>
    rw [List.cons_append, readSetOp, readSetOp]
    split
    · rfl
    · split
      · rfl
      · split
        · rfl
        · rfl

theorem readSetOp_suffix {c : Char} {s rest : Text} {op : SetOp}
    (h : readSetOp c s = some (op, rest)) : rest <:+ s := by
  cases s with
  | nil => cases h
  | cons d s =>
    rw [readSetOp] at h
    repeat' split at h
    all_goals cases h
    all_goals exact List.suffix_cons d _

/-! ## Classes by name -/

theorem PosixClass.ofName?_eq_none {name : Text} (h : ')' ∈ name) : ofName? name = none := by
  rw [ofName?, List.findSome?_eq_none_iff]
  intro entry hentry
  refine if_neg ?_
  rintro rfl
  revert entry
  decide

/-- What is read of a class by name does not depend on what follows a parenthesis, not even if the
class is refused. -/
theorem readPosixName_append (negated : Bool) {s : Text} (hs : Closed s) (t : Text) :
    readPosixName negated (s ++ t) =
      (readPosixName negated s).map fun (item, rest) => (item, rest ++ t) := by
  unfold readPosixName
  by_cases hd : s.dropWhile (· != ':') = []
  · -- the name goes on behind the parenthesis, and no name contains one
    have hall : ∀ c ∈ s, (c != ':') = true := List.dropWhile_eq_nil_iff.mp hd
    have hname : PosixClass.ofName? ((s ++ t).takeWhile (· != ':')) = none := by
      rw [List.takeWhile_append_of_pos hall]
      exact PosixClass.ofName?_eq_none (List.mem_append_left _ hs.paren_mem)
    rw [hname, hd]
    split
    · rfl
    · rfl
  · have hclosed := hs.of_suffix (List.dropWhile_suffix _) hd
    rw [dropWhile_append_of_ne_nil hd, takeWhile_append_of_ne_nil hd]
    generalize s.dropWhile (· != ':') = u at hd hclosed
    generalize PosixClass.ofName? (s.takeWhile (· != ':')) = name
    cases u with
    | nil => exact absurd rfl hd
    | cons c u =>
      by_cases hc : c = ':'
      · subst hc
        obtain ⟨d, r, rfl⟩ := hclosed.exists_cons (by decide)
        by_cases hb : d = ']'
        · subst hb
          cases name with
          | none => rfl
          | some name => rfl
        · simp [hb]
      · simp [hc]

theorem readPosix_append {s : Text} (hs : Closed s) (t : Text) :
    readPosix (s ++ t) = (readPosix s).map fun (item, rest) => (item, rest ++ t) := by
  cases s with
  | nil => exact absurd hs.paren_mem List.not_mem_nil
  | cons c s =>
    by_cases hc : c = ':'
    · subst hc
      obtain ⟨d, r, rfl⟩ := hs.exists_cons (by decide)
      have htail := hs.tail (List.cons_ne_nil d r)
      rw [List.cons_append, readPosix_cons, readPosix_cons]
      show readPosixName (some d == some '^') (if some d == some '^' then r ++ t else d :: r ++ t) = _
      show _ = (readPosixName (some d == some '^')
        (if some d == some '^' then r else d :: r)).map _
      by_cases hd : d = '^'
      · subst hd
        obtain ⟨e, u, rfl⟩ := htail.exists_cons (by decide)
        exact readPosixName_append true (htail.tail (List.cons_ne_nil e u)) t
      · rw [beq_eq_false_iff_ne.mpr fun h => hd (Option.some.inj h)]
        exact readPosixName_append false htail t
    · have none_of (u : Text) : readPosix (c :: u) = none := by
        unfold readPosix
        split
        · next h =>
          cases h
          exact absurd rfl hc
        · rfl
      rw [List.cons_append, none_of, none_of]
      rfl

theorem readPosixName_suffix {negated : Bool} {s rest : Text} {item : ClassSet}
    (h : readPosixName negated s = some (item, rest)) : rest <:+ s := by
  unfold readPosixName at h
  split at h
  · next rest' heq =>
    obtain ⟨name, -, he⟩ := Option.map_eq_some_iff.mp h
    cases he
    have hsuffix : ':' :: ']' :: rest <:+ s := heq ▸ List.dropWhile_suffix _
    exact ((List.suffix_cons _ _).trans (List.suffix_cons _ _)).trans hsuffix
  · cases h

theorem readPosix_suffix {s rest : Text} {item : ClassSet} (h : readPosix s = some (item, rest)) :
    rest <:+ s := by
  unfold readPosix at h
  split at h
  · next u =>
    have hsuffix := readPosixName_suffix h
    refine hsuffix.trans ?_
    split
    · exact (List.tail_suffix u).trans (List.suffix_cons _ u)
    · exact List.suffix_cons _ u
  · cases h

/-! ## Items -/

theorem peekLayout_append_of_closed {opened : Bool} {s : Text} (h : Closed s) (t : Text) :
    peekLayout opened (s ++ t) = peekLayout opened s := by
  obtain ⟨y, rfl⟩ := h
  rw [List.append_assoc]
  induction y generalizing opened with
  | nil => simp [peekLayout, isWhiteSpace_eq_false]
  | cons c y ih =>
    show peekLayout opened (c :: (y ++ ([')'] ++ t))) = peekLayout opened (c :: (y ++ [')']))
    rw [peekLayout, peekLayout, ih, ih]

theorem Closed.peek_append {s : Text} (h : Closed s) (verbose : Bool) (t : Text) :
    peek verbose (s ++ t) = peek verbose s := by
  have hhead : (s ++ t).head? = s.head? := by
    cases s with
    | nil => exact absurd h.paren_mem List.not_mem_nil
    | cons c s => rfl
  rw [peek, peek, peekLayout_append_of_closed h, hhead]

theorem local_readClassAtom (verbose : Bool) : Local (readClassAtom verbose) := by
  refine Local.of_cons rfl (fun c s => by rw [readClassAtom]) fun c => ?_
  split
  · exact local_readEscape verbose
  · exact local_some (Escape.char c false)

theorem readItemFrom_length_le {verbose : Bool} {first : Escape} {s rest : Text} {set : ClassSet}
    (h : readItemFrom verbose first s = some (set, rest)) : rest.length ≤ s.length := by
  have hskip := skip_length_le verbose s
  unfold readItemFrom at h
  split at h
  · cases h
  · next c r heq =>
    rw [heq, List.length_cons] at hskip
    split at h
    · have hlast := (((local_readClassAtom verbose).skip verbose).bind fun last =>
        local_of_value (rangeOf? first last) id).length_le h
      omega
    · obtain ⟨set', -, he⟩ := Option.map_eq_some_iff.mp h
      cases he
      rwa [List.length_cons]

theorem local_readItemFrom (verbose : Bool) (first : Escape) :
    Local (readItemFrom verbose first) := by
  refine ⟨readItemFrom_length_le, fun {s rest set} hs hr hne => ?_⟩
  unfold readItemFrom at hr ⊢
  split at hr
  · cases hr
  · next c r heq =>
    have hlast := ((local_readClassAtom verbose).skip verbose).bind fun last =>
      local_of_value (rangeOf? first last) id
    simp only [skip_append_of_cons heq]
    split at hr
    · next hc =>
      have hr0 := hs.skip_cons heq (ne_nil_of_length_le hne (hlast.length_le hr))
      obtain ⟨hcl, happ⟩ := hlast.append hr0 hr hne
      refine ⟨hcl, fun t => ?_⟩
      rw [hr0.peek_append, if_pos hc]
      exact happ t
    · next hc =>
      obtain ⟨set', hset, he⟩ := Option.map_eq_some_iff.mp hr
      cases he
      have hcr : Closed (c :: r) := heq ▸ hs.skip (heq ▸ List.cons_ne_nil c r)
      refine ⟨hcr, fun t => ?_⟩
      rw [if_neg, hset]
      · rfl
      · rintro ⟨rfl, hpeek⟩
        obtain ⟨d, u, rfl⟩ := hcr.exists_cons (by decide)
        rw [(hcr.tail (List.cons_ne_nil d u)).peek_append] at hpeek
        exact hc ⟨rfl, hpeek⟩

theorem local_readItem (verbose : Bool) : Local (readItem verbose) := by
  rw [readItem_eq]
  exact (local_readClassAtom verbose).bind (local_readItemFrom verbose)

/-! ## Brackets -/

theorem local_readHyphens (verbose : Bool) (b : OpenBracket) :
    Local fun s => some (readHyphens verbose b s) := by
  have hle {s rest : Text} {b' : OpenBracket} (h : some (readHyphens verbose b s) = some (b', rest)) :
      rest.length ≤ s.length := by
    have := readHyphens_length_le verbose b s
    rwa [Option.some.inj h] at this
  refine ⟨hle, fun {s rest b'} hs hr hne => ?_⟩
  clear hle
  fun_induction readHyphens verbose b s with
  | case1 b => 
    cases hr
    exact absurd rfl hne
  | case2 b s ih =>
    have hskip : skip verbose s ≠ [] := by
      intro h0
      rw [h0, readHyphens] at hr
      cases hr
      exact hne rfl
    have hs0 := hs.tail (ne_nil_of_length_le hskip (skip_length_le verbose s))
    obtain ⟨hcl, happ⟩ := ih (hs0.skip hskip) hr
    refine ⟨hcl, fun t => ?_⟩
    rw [List.cons_append, readHyphens, if_pos rfl, skip_append hskip]
    exact happ t
  | case3 b c s hc =>
    cases hr
    refine ⟨hs, fun t => ?_⟩
    rw [List.cons_append, readHyphens, if_neg hc]

theorem local_readOpening (verbose : Bool) (b : OpenBracket) :
    Local fun s => some (readOpening verbose b s) :=
  Local.of_head ']' ((local_some (b.add (.single ']'))).skip verbose) (local_readHyphens verbose b)
    (fun _ => rfl) fun _ hs => congrArg some (readOpening_of_ne hs)

theorem local_openBracket (verbose : Bool) : Local fun s => some (openBracket verbose s) := by
  have hstart (negated : Bool) := local_readOpening verbose ⟨negated, none, .nothing⟩
  refine Local.of_head_skip '^' verbose ((hstart true).skip verbose) (hstart false)
    (fun s r h => ?_) fun s hs => ?_
  · rw [openBracket, h]
    rfl
  · have hhead : ((skip verbose s).head? == some '^') = false :=
      beq_eq_false_iff_ne.mpr fun h => hs (List.head?_eq_some_iff.mp h)
    rw [openBracket, hhead]
    rfl

theorem local_readBracket (verbose : Bool) (outer : List OpenBracket) (b : OpenBracket) :
    Local (readBracket verbose outer b) := by
  refine ⟨readBracket_length_le, fun {s rest set} hs hr hne => ?_⟩
  fun_induction readBracket verbose outer b s with
  | case1 => cases hr
  | case2 b s r heq =>
    cases hr
    refine ⟨hs.skip_cons heq hne, fun t => ?_⟩
    rw [readBracket_of_skip (skip_append_of_cons heq t), if_pos rfl]
  | case3 b s r o outer heq ih =>
    have hr0 := ne_nil_of_length_le hne (readBracket_length_le hr)
    obtain ⟨hcl, happ⟩ := ih (hs.skip_cons heq hr0) hr
    refine ⟨hcl, fun t => ?_⟩
    rw [readBracket_of_skip (skip_append_of_cons heq t), if_pos rfl]
    exact happ t
  | case4 outer b s r item rest1 hp heq hc ih =>
    have hrest := ne_nil_of_length_le hne (readBracket_length_le hr)
    have hr0 := hs.skip_cons heq (ne_nil_of_length_le hrest (readPosix_length_le hp))
    obtain ⟨hcl, happ⟩ := ih (hr0.of_suffix (readPosix_suffix hp) hrest) hr
    refine ⟨hcl, fun t => ?_⟩
    rw [readBracket_of_skip (skip_append_of_cons heq t), if_neg hc, if_pos rfl,
      readPosix_append hr0, hp]
    exact happ t
  | case5 outer b s r hp heq hc ih =>
    have hrest := ne_nil_of_length_le hne (readBracket_length_le hr)
    have hr0 := hs.skip_cons heq (ne_nil_of_length_le hrest (openBracket_length_le verbose r))
    obtain ⟨hopen, hopen'⟩ := (local_openBracket verbose).append hr0 rfl hrest
    obtain ⟨hcl, happ⟩ := ih hopen hr
    refine ⟨hcl, fun t => ?_⟩
    rw [readBracket_of_skip (skip_append_of_cons heq t), if_neg hc, if_pos rfl,
      readPosix_append hr0, hp]
    show readBracket verbose (b :: outer) (openBracket verbose (r ++ t)).1
      (openBracket verbose (r ++ t)).2 = _
    rw [Option.some.inj (hopen' t)]
    exact happ t
  | case6 outer b s c r heq hc hc' op rest1 ho ih =>
    have hrest := ne_nil_of_length_le hne (readBracket_length_le hr)
    have hr0 := hs.skip_cons heq (ne_nil_of_length_le hrest (readSetOp_length_le ho))
    obtain ⟨hcl, happ⟩ := ih (hr0.of_suffix (readSetOp_suffix ho) hrest) hr
    refine ⟨hcl, fun t => ?_⟩
    rw [readBracket_of_skip (skip_append_of_cons heq t), if_neg hc, if_neg hc',
      readSetOp_append c (ne_nil_of_length_le hrest (readSetOp_length_le ho)), ho]
    exact happ t
  | case7 => cases hr
  | case8 outer b s c r heq hc hc' ho item rest1 hi ih =>
    have hrest := ne_nil_of_length_le hne (readBracket_length_le hr)
    have hcr : Closed (c :: r) := heq ▸ hs.skip (heq ▸ List.cons_ne_nil c r)
    obtain ⟨hitem, hitem'⟩ := (local_readItem verbose).append hcr hi hrest
    obtain ⟨hcl, happ⟩ := ih hitem hr
    have hr0 : r ≠ [] := by
      refine ne_nil_of_length_le hrest ?_
      have := readItem_length_lt hi
      rw [List.length_cons] at this
      omega
    refine ⟨hcl, fun t => ?_⟩
    rw [readBracket_of_skip (skip_append_of_cons heq t), if_neg hc, if_neg hc',
      readSetOp_append c hr0, ho]
    simp only [← List.cons_append, hitem']
    exact happ t

theorem local_readClass (verbose : Bool) : Local (readClass verbose) :=
  (local_openBracket verbose).bind fun b => local_readBracket verbose [] b

end TextParsing.Regex
