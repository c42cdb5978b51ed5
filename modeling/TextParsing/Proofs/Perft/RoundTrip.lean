import TextParsing.Perft
import TextParsing.Proofs.Parser.Taking

/-!
# Perft records are read as they are written

Each line is taken by the expression for it, and nothing behind it is.  A repetition of lines ends
where a line of another kind begins, since the kinds differ in how they begin; behind the last record
it ends at a text on which the expressions for lines and records fail.

    Ends rest → Takes (parse record) e.text e.record.value rest                   (takes_record)
    2 ≤ entries.length → …no line and no record begins at rest… →
      records (.ofText (render before entries ++ rest)) =
        some (.success (.list (entries.map fun e => e.record.value)) (.ofText rest))
                                                                                 (records_render)
-/

namespace TextParsing.Perft

open TextParsing.Parser

variable {rest : Text}

theorem takeWhile_newline_cons (rest : Text) : ('\n' :: rest).takeWhile inLine = [] := rfl

theorem inLine_of_not_mem {s : Text} (h : '\n' ∉ s) : ∀ c ∈ s, inLine c = true := by
  intro c hc
  have hne : c ≠ '\n' := fun heq => h (heq ▸ hc)
  exact bne_iff_ne.mpr hne

/-- The value of a record tells it from every other. -/
theorem Record.value_injective : Function.Injective Record.value := by
  intro r r' h
  have hcaseValue : ∀ c c', caseValue c = caseValue c' → c = c' := by
    intro c c' hc
    simpa [caseValue, Prod.ext_iff] using hc
  have hparts : r.id = r'.id ∧ r.epd = r'.epd ∧ r.cases.map caseValue = r'.cases.map caseValue := by
    simpa [Record.value, recordValue] using h
  obtain ⟨hid, hepd, hcases⟩ := hparts
  have hcases := (List.map_inj_right hcaseValue).mp hcases
  cases r
  cases r'
  cases hid
  cases hepd
  cases hcases
  rfl

/-! ## Lines -/

/-- A mapped sequence takes what its parts take one after the other. -/
theorem takes_map_sequence (f : Value → Value) (es : List (Expr 0)) {s : Text} {vs : List Value}
    (h : Takes (inOrder (Expr.parsers (fun i => i.elim0) es)) s vs rest) :
    Takes (parse (.map f (.sequence es))) s (f (.tuple vs)) rest := by
  rw [parse_eq]
  exact (h.sequence.map Value.tuple).map f

/-- A mapped sequence that begins with a literal fails where the text does not begin with it. -/
theorem failsAt_map_sequence (f : Value → Value) {es : List (Expr 0)} {s t : Text}
    (h : ¬ s <+: t) : FailsAt (parse (.map f (.sequence (.literal s :: es)))) t := by
  rw [parse_eq]
  exact (((failsAt_literal h).map Value.text).sequence.map Value.tuple).map f

/-- What follows a mark up to the end of the line is taken whole. -/
theorem takes_marked (mark : Text) {required : Nat} {s : Text} (hlen : required ≤ s.length)
    (hs : '\n' ∉ s) (rest : Text) :
    Takes (parse (.map (Value.pick 1) (.sequence [.literal mark, .charRun required inLine])))
      (mark ++ s) (.text s) ('\n' :: rest) := by
  have hmark := (takes_literal mark (s ++ '\n' :: rest)).map Value.text
  have hrun := (takes_runAtLeast hlen (inLine_of_not_mem hs) (takeWhile_newline_cons rest)).map
    Value.text
  exact takes_map_sequence (Value.pick 1) [.literal mark, .charRun required inLine]
    (hmark.inOrder_cons hrun.inOrder_one)

theorem takes_idLine (r : Record) (rest : Text) :
    Takes (parse idLine) ("id ".toList ++ r.id) (.text r.id) ('\n' :: rest) :=
  takes_marked _ (Nat.zero_le _) r.id_line rest

theorem takes_epdLine (r : Record) (rest : Text) :
    Takes (parse epdLine) ("epd ".toList ++ r.epd) (.text r.epd) ('\n' :: rest) :=
  takes_marked _ r.epd_length r.epd_line rest

theorem takes_caseLine (c : UInt64 × UInt64) (rest : Text) :
    Takes (parse caseLine) (caseText c) (caseValue c) rest := by
  have hparts : Takes (inOrder [(literal "perft ".toList).map Value.text, number.map .word,
      (literal [' ']).map .text, number.map .word, newline.map .text]) (caseText c)
      [.text "perft ".toList, .word c.1, .text [' '], .word c.2, .text ['\n']] rest := by
    unfold caseText line
    simp only [List.append_assoc]
    refine .inOrder_cons (.map Value.text (takes_literal _ _)) ?_
    refine .inOrder_cons (.map Value.word (takes_number c.1 rfl)) ?_
    refine .inOrder_cons (.map Value.text (takes_literal _ _)) ?_
    refine .inOrder_cons (.map Value.word (takes_number c.2 rfl)) ?_
    exact .inOrder_one (.map Value.text (takes_newline rest))
  exact takes_map_sequence _ [.literal _, .number, .literal _, .number, .newline] hparts

theorem takes_comment {content : Text} (h : '\n' ∉ content) (rest : Text) :
    Takes (parse comment) (line (['#'] ++ content)) (.text content) rest := by
  have hparts : Takes (inOrder [(literal ['#']).map Value.text, (upTo ['\n']).map .text,
      newline.map .text]) (line (['#'] ++ content))
      [.text ['#'], .text content, .text ['\n']] rest := by
    simp only [line, List.append_assoc]
    refine .inOrder_cons (.map Value.text (takes_literal _ _)) ?_
    refine .inOrder_cons (.map Value.text (takes_upTo h)) ?_
    exact .inOrder_one (.map Value.text (takes_newline rest))
  exact takes_map_sequence _ [.literal _, .upTo _, .newline] hparts

theorem parse_ignored : parse ignored = orElse (parse comment) (newline.map .text) := by
  rw [parse_eq, parse_eq]
  rfl

theorem takes_ignored (l : Filler) (rest : Text) : Takes (parse ignored) l.text l.value rest := by
  rw [parse_ignored]
  cases l with
  | blank =>
    have hcomment : FailsAt (parse comment) (['\n'] ++ rest) := failsAt_map_sequence _ (by simp)
    exact .orElse_right hcomment (.map Value.text (takes_newline rest))
  | comment content line => exact .orElse_left (takes_comment line rest)

/-! ## Texts on which an expression fails -/

theorem failsAt_caseLine {t : Text} (h : ¬ "perft ".toList <+: t) : FailsAt (parse caseLine) t :=
  failsAt_map_sequence _ h

theorem failsAt_ignored {t : Text} (hcomment : ¬ ['#'] <+: t) (hblank : ¬ ['\n'] <+: t) :
    FailsAt (parse ignored) t := by
  rw [parse_ignored]
  exact .orElse (failsAt_map_sequence _ hcomment) ((failsAt_newline hblank).map Value.text)

theorem failsAt_record {t : Text} (h : ¬ "id ".toList <+: t) : FailsAt (parse record) t := by
  have hid : FailsAt (idLine.parser fun i => i.elim0) t := by
    rw [← parse_eq]
    exact failsAt_map_sequence _ h
  rw [parse_eq]
  exact (hid.sequence.map Value.tuple).map _

/-! ## Repeated lines -/

/-- A further case is not found at the text, nor is a line to pass over. -/
def Ends (t : Text) : Prop := StopsAt (parse caseLine) t ∧ StopsAt (parse ignored) t

theorem ends_record (r : Record) (t : Text) : Ends (r.text ++ t) := by
  have hcase : ¬ "perft ".toList <+: r.text ++ t := by simp [Record.text, line]
  have hcomment : ¬ ['#'] <+: r.text ++ t := by simp [Record.text, line]
  have hblank : ¬ ['\n'] <+: r.text ++ t := by simp [Record.text, line]
  exact ⟨.inr (failsAt_caseLine hcase), .inr (failsAt_ignored hcomment hblank)⟩

theorem stopsAt_caseLine_filler (l : Filler) (t : Text) :
    StopsAt (parse caseLine) (l.text ++ t) := by
  cases l <;> exact .inr (failsAt_caseLine (by simp [Filler.text, line]))

theorem takes_repeated {required : Nat} {e : Expr 0} {s : Text} {vs : List Value}
    (h : Takes (repeatAtLeast required (parse e)) s vs rest) :
    Takes (parse (.repeatAtLeast required e)) s (.list vs) rest := by
  rw [parse_eq] at h ⊢
  exact h.map Value.list

theorem takes_fillers (ls : List Filler) (h : StopsAt (parse ignored) rest) :
    Takes (parse (.many ignored)) (ls.flatMap Filler.text) (.list (ls.map Filler.value)) rest := by
  have htext : ∀ l ∈ ls, l.text ≠ [] := by
    intro l _
    cases l <;> simp [Filler.text, line]
  exact takes_repeated
    (takes_repeatAtLeast_of_forall htext (fun l _ t => takes_ignored l t) h (Nat.zero_le _))

theorem takes_cases (r : Record) (h : StopsAt (parse caseLine) rest) :
    Takes (parse (.several caseLine)) (r.cases.flatMap caseText) (.list (r.cases.map caseValue))
      rest := by
  have htext : ∀ c ∈ r.cases, caseText c ≠ [] := by
    intro c _
    unfold caseText line
    exact List.append_ne_nil_of_right_ne_nil _ (List.cons_ne_nil _ _)
  have hle : severalRounds ≤ r.cases.length := r.cases_length
  exact takes_repeated
    (takes_repeatAtLeast_of_forall htext (fun c _ t => takes_caseLine c t) h hle)

/-! ## Records -/

theorem takes_record (e : Entry) (h : Ends rest) :
    Takes (parse record) e.text e.record.value rest := by
  obtain ⟨r, after⟩ := e
  have htext : Entry.text ⟨r, after⟩ = ("id ".toList ++ r.id) ++ (['\n'] ++
      (("epd ".toList ++ r.epd) ++ (['\n'] ++
        (r.cases.flatMap caseText ++ after.flatMap Filler.text)))) := by
    simp only [Entry.text, Record.text, line, List.append_assoc]
  have hparts : Takes (inOrder [parse idLine, newline.map .text, parse epdLine, newline.map .text,
      parse (.several caseLine), parse (.many ignored)]) (Entry.text ⟨r, after⟩)
      [.text r.id, .text ['\n'], .text r.epd, .text ['\n'], .list (r.cases.map caseValue),
        .list (after.map Filler.value)] rest := by
    -- the cases end at the first line behind them, or where the record itself does
    have hcases : StopsAt (parse caseLine) (after.flatMap Filler.text ++ rest) :=
      follow_flatMap (fun l _ t _ => stopsAt_caseLine_filler l t) h.1
    rw [htext]
    refine .inOrder_cons (takes_idLine r _) ?_
    refine .inOrder_cons (.map Value.text (takes_newline _)) ?_
    refine .inOrder_cons (takes_epdLine r _) ?_
    refine .inOrder_cons (.map Value.text (takes_newline _)) ?_
    refine .inOrder_cons (takes_cases r hcases) ?_
    exact .inOrder_one (takes_fillers after h.2)
  simp only [parse_eq] at hparts
  exact takes_map_sequence _
    [idLine, .newline, epdLine, .newline, .several caseLine, .many ignored] hparts

theorem Entry.text_ne_nil (e : Entry) : e.text ≠ [] := by
  simp [Entry.text, Record.text, line]

theorem ends_entry (e : Entry) (t : Text) : Ends (e.text ++ t) := by
  unfold Entry.text
  rw [List.append_assoc]
  exact ends_record e.record _

/-- Two records or more are read as they were written, up to a text on which the expressions for
cases, for lines that are passed over and for records fail. -/
theorem records_render (before : List Filler) (entries : List Entry) (rest : Text)
    (hlength : 2 ≤ entries.length)
    (hrest : rest = [] ∨
      FailsAt (parse caseLine) rest ∧ FailsAt (parse ignored) rest ∧ FailsAt (parse record) rest) :
    records (.ofText (render before entries ++ rest)) =
      some (.success (.list (entries.map fun e => e.record.value)) (.ofText rest)) := by
  have hends : Ends rest := by
    rcases hrest with rfl | ⟨hcase, hignored, -⟩
    · exact ⟨.inl rfl, .inl rfl⟩
    · exact ⟨.inr hcase, .inr hignored⟩
  have hstop : StopsAt (parse record) rest := hrest.imp id fun h => h.2.2
  have hle : severalRounds ≤ entries.length := hlength
  have hentries : Takes (parse (.several record)) (entries.flatMap Entry.text)
      (.list (entries.map fun e => e.record.value)) rest :=
    takes_repeated (takes_repeatAtLeast (fun e _ => e.text_ne_nil) (fun e _ _ => takes_record e)
      (fun e _ t _ => ends_entry e t) hends hstop hle)
  -- the lines before the first record end there, since it is not one of them
  have hfirst : Ends (entries.flatMap Entry.text ++ rest) :=
    follow_flatMap (fun e _ t _ => ends_entry e t) hends
  have hbefore := takes_fillers before hfirst.2
  unfold records render
  rw [List.append_assoc, hbefore]
  exact hentries

/-- A record without a number, with a comment and an empty line behind it, and another one. -/
def pair : List Entry :=
  [{ record := { id := [], epd := "8/8 w".toList, cases := [(0, 1), (64, 18446744073709551615)]
                 id_line := by decide, epd_line := by decide, epd_length := by decide
                 cases_length := by decide }
     after := [.comment "perft 1 2".toList (by decide), .blank] },
   { record := { id := "id 7".toList, epd := "# ".toList, cases := [(1, 20), (2, 400), (2, 400)]
                 id_line := by decide, epd_line := by decide, epd_length := by decide
                 cases_length := by decide }
     after := [] }]

theorem records_render_pair :
    records (.ofText ("\n#\nid \nepd 8/8 w\nperft 0 1\nperft 64 18446744073709551615\n" ++
        "#perft 1 2\n\nid id 7\nepd # \nperft 1 20\nperft 2 400\nperft 2 400\nperft 3").toList) =
      some (.success (.list [
        recordValue (.text []) (.text "8/8 w".toList)
          (.list [.tuple [.word 0, .word 1], .tuple [.word 64, .word 18446744073709551615]]),
        recordValue (.text "id 7".toList) (.text "# ".toList)
          (.list [.tuple [.word 1, .word 20], .tuple [.word 2, .word 400],
            .tuple [.word 2, .word 400]])]) (.ofText "perft 3".toList)) := by
  have hcase : FailsAt (parse caseLine) "perft 3".toList := ⟨_, rfl⟩
  have h := records_render [.blank, .comment [] (by decide)] pair "perft 3".toList (by decide)
    (.inr ⟨hcase, failsAt_ignored (by decide) (by decide), failsAt_record (by decide)⟩)
  refine (congrArg (fun t => records (.ofText t)) ?_).trans h
  decide +kernel

end TextParsing.Perft
