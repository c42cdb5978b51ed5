import TextParsing.Proofs.Regex.Ending

/-!
# Reading groups

A group is read as what is inside it would be read by itself (`Reading.Reaches.readAll?_group`), also if
a caret or another group stands in front of it:

    ofPattern? {} (grouped s) = some a
    ofPattern? {} ('^' :: grouped s) = some (seq (look .textStart) a)
    ofPattern? {} (either s t) = some (choice [a, b.renumber (groupCount s)])     (ofPattern?_either)

where `a` and `b` are the expressions of `s` and `t`.  The groups of the second pattern are numbered
after those of the first.
-/

namespace TextParsing.Regex

open PatternParser (grouped either)

/-- How many groups of a pattern have numbers. -/
def groupCount (s : Text) : Nat := (((Reading.start {}).readAll? s).map Reading.count).getD 0

/-- The names of the groups of a pattern. -/
def groupNames (s : Text) : List Text := (((Reading.start {}).readAll? s).map Reading.names).getD []

/-! ## Whole patterns -/

theorem close_of_finish? {last : Reading} {r : Regex} (h : last.finish? = some r) :
    last.outer = [] ∧ last.level.close = r := by
  unfold Reading.finish? at h
  split at h
  · next ho => exact ⟨ho, Option.some.inj h⟩
  · cases h

theorem finish?_of_outer {last : Reading} (h : last.outer = []) :
    last.finish? = some last.level.close := by
  rw [Reading.finish?, h]

theorem ofPattern?_of_readAll? {s : Text} {last : Reading}
    (h : (Reading.start {}).readAll? s = some last) (ho : last.outer = []) :
    ofPattern? {} s = some last.level.close := by
  rw [ofPattern?, h, Option.bind_some, finish?_of_outer ho]

/-- The texts that denote expressions are those behind which no group is open. -/
theorem exists_ofPattern?_iff {s : Text} :
    (∃ r, ofPattern? {} s = some r) ↔ ∃ comment, ending s = some ⟨0, comment⟩ := by
  constructor
  · rintro ⟨r, hr⟩
    obtain ⟨last, hlast, hfin⟩ := Option.bind_eq_some_iff.mp hr
    have hopen := openGroups_of_readAll? hlast
    rw [(close_of_finish? hfin).1] at hopen
    exact ⟨_, ending_eq_some_iff.mpr ⟨hopen, decide_eq_true_iff⟩⟩
  · rintro ⟨comment, h⟩
    obtain ⟨last, hlast, hk⟩ := readAll?_of_openGroups (ending_eq_some_iff.mp h).1
    exact ⟨_, ofPattern?_of_readAll? hlast (List.length_eq_zero_iff.mp hk)⟩

/-- A pattern behind which nothing is open is read up to its end if a parenthesis and any text stand
behind it. -/
theorem exists_reaches_of_ofPattern? {s : Text} {r : Regex} (h : ending s = some ⟨0, false⟩)
    (hr : ofPattern? {} s = some r) :
    ∃ last : Reading, last.outer = [] ∧ last.level.close = r ∧ last.names = groupNames s ∧
      last.count = groupCount s ∧ ∀ t, (Reading.start {}).Reaches (s ++ ')' :: t) last t := by
  obtain ⟨last, hlast, hk, hreach⟩ := exists_reaches h
  have ho : last.outer = [] := List.length_eq_zero_iff.mp hk
  rw [ofPattern?_of_readAll? hlast ho] at hr
  exact ⟨last, ho, Option.some.inj hr, by rw [groupNames, hlast]; rfl, by rw [groupCount, hlast]; rfl,
    hreach⟩

/-! ## Behind a group -/

namespace Reading

/-- The state behind a group without a number: `last` is the state in which reading what is inside it
comes to its end. -/
def after (st last : Reading) : Reading :=
  ⟨st.level.add (last.level.close.renumber st.count), st.outer, last.names ++ st.names,
    last.count + st.count⟩

variable {last : Reading} {s t : Text}

/-- A group without a number is read as what is inside it would be read by itself. -/
theorem Reaches.readAll?_group (h : (start {}).Reaches (s ++ ')' :: t) last t) (st : Reading)
    (hflags : st.level.flags = {}) (hout : last.outer = []) (hn : ∀ n ∈ last.names, n ∉ st.names) :
    st.readAll? (grouped s ++ t) = (st.after last).readAll? t := by
  have htext : grouped s ++ t = '(' :: '?' :: ':' :: (s ++ ')' :: t) := by
    show "(?:".toList ++ s ++ ")".toList ++ t = ['(', '?', ':'] ++ (s ++ ([')'] ++ t))
    simp only [List.append_assoc]
    rfl
  have hskip (u : Text) : skip st.level.flags.verbose ('(' :: u) = '(' :: u := by
    rw [hflags]
    rfl
  have henter : st.enterPlain [] = (start {}).amid st.count st.names (st.level :: st.outer) := by
    simp [enterPlain, Reading.amid, Reading.start, Level.start, Level.renumber, Flags.apply, hflags]
  have houter : (last.amid st.count st.names (st.level :: st.outer)).outer =
      st.level :: st.outer := by
    rw [Reading.amid, hout]
    rfl
  rw [htext, readAll?_of_skip_cons (hskip _), hflags]
  show (st.enterPlain []).readAll? (s ++ ')' :: t) = _
  rw [henter, (h.amid hn).readAll?, readAll?_paren houter]
  show Reading.readAll? ⟨st.level.add (last.level.renumber st.count).close, _, _, _⟩ t = _
  rw [Level.close_renumber]
  rfl

theorem readAll?_bar {st : Reading} (h : st.level.flags = {}) (s : Text) :
    st.readAll? ('|' :: s) = Reading.readAll? { st with level := st.level.newBranch } s := by
  have hskip : skip st.level.flags.verbose ('|' :: s) = '|' :: s := by
    rw [h]
    rfl
  rw [readAll?_of_skip_cons hskip, h]
  rfl

theorem readAll?_caret (s : Text) :
    (start {}).readAll? ('^' :: s) = ((start {}).add (look .textStart)).readAll? s := by
  have hskip : skip false ('^' :: s) = '^' :: s := rfl
  rw [readAll?_of_skip_cons hskip]
  rfl

end Reading

section

variable {s t : Text} {a b : Regex}

/-- A group denotes what is inside it. -/
theorem ofPattern?_group (h : ending s = some ⟨0, false⟩) (ha : ofPattern? {} s = some a) :
    ofPattern? {} (grouped s) = some a := by
  obtain ⟨last, hout, hclose, -, -, hreach⟩ := exists_reaches_of_ofPattern? h ha
  have hread := (hreach []).readAll?_group (Reading.start {}) rfl hout nofun
  rw [List.append_nil, Reading.readAll?_nil] at hread
  rw [ofPattern?_of_readAll? hread rfl]
  show some (seq (last.level.close.renumber 0) empty) = _
  rw [seq_empty, renumber_zero, hclose]

/-- A group behind a caret denotes what is inside it where the text begins. -/
theorem ofPattern?_caret (h : ending s = some ⟨0, false⟩) (ha : ofPattern? {} s = some a) :
    ofPattern? {} ('^' :: grouped s) = some (seq (look .textStart) a) := by
  obtain ⟨last, hout, hclose, -, -, hreach⟩ := exists_reaches_of_ofPattern? h ha
  have hread := (hreach []).readAll?_group ((Reading.start {}).add (look .textStart)) rfl hout nofun
  rw [List.append_nil, Reading.readAll?_nil, ← Reading.readAll?_caret] at hread
  rw [ofPattern?_of_readAll? hread rfl]
  show some (seq (look .textStart) (seq (last.level.close.renumber 0) empty)) = _
  rw [seq_empty, renumber_zero, hclose]

/-- Two groups with a bar between them are read as the choice between what is inside them. -/
theorem exists_readAll?_either (h : ending s = some ⟨0, false⟩) (h' : ending t = some ⟨0, false⟩)
    (ha : ofPattern? {} s = some a) (hb : ofPattern? {} t = some b)
    (hn : ∀ n ∈ groupNames t, n ∉ groupNames s) :
    ∃ last : Reading, last.outer = [] ∧
      last.level.close = choice [a, b.renumber (groupCount s)] ∧
      ∀ u, (Reading.start {}).readAll? (either s t ++ u) = last.readAll? u := by
  obtain ⟨last, hout, hclose, hnames, hcount, hreach⟩ := exists_reaches_of_ofPattern? h ha
  obtain ⟨last', hout', hclose', hnames', -, hreach'⟩ := exists_reaches_of_ofPattern? h' hb
  have hnew : ∀ n ∈ last'.names, n ∉ last.names ++ [] := by
    rw [List.append_nil, hnames, hnames']
    exact hn
  refine ⟨Reading.after { (Reading.start {}).after last with
    level := ((Reading.start {}).after last).level.newBranch } last', rfl, ?_, ?_⟩
  · show choice [seq (last.level.close.renumber 0) empty,
      seq (last'.level.close.renumber (last.count + 0)) empty] = _
    rw [seq_empty, seq_empty, renumber_zero, hclose, hclose', Nat.add_zero, hcount]
  · intro u
    rw [either, List.append_assoc, List.cons_append, (hreach _).readAll?_group _ rfl hout
      (fun _ _ => List.not_mem_nil), Reading.readAll?_bar rfl,
      (hreach' _).readAll?_group _ rfl hout' hnew]

/-- Nothing is open behind two groups with a bar between them. -/
theorem ending_either (h : ending s = some ⟨0, false⟩) (h' : ending t = some ⟨0, false⟩)
    (hn : ∀ n ∈ groupNames t, n ∉ groupNames s) : ending (either s t) = some ⟨0, false⟩ := by
  obtain ⟨a, ha⟩ := exists_ofPattern?_iff.mpr ⟨_, h⟩
  obtain ⟨b, hb⟩ := exists_ofPattern?_iff.mpr ⟨_, h'⟩
  obtain ⟨last, hout, -, hread⟩ := exists_readAll?_either h h' ha hb hn
  have hopen (u : Text) : openGroups (either s t ++ u) =
      (last.readAll? u).map (·.outer.length) := by rw [openGroups, hread]
  have hlen : last.outer.length = 0 := by rw [hout]; rfl
  rw [ending_eq_some_iff]
  constructor
  · have hopen := hopen []
    rwa [List.append_nil, Reading.readAll?_nil, Option.map_some, hlen] at hopen
  · refine ⟨fun h => absurd h Bool.false_ne_true, fun hparen => ?_⟩
    refine absurd ?_ last.map_length_readAll?_paren_ne
    rw [← hopen, hparen, hlen]

end

end TextParsing.Regex
