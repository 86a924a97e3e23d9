import DocMark.Proofs.Source.Extraction

/-!
Sources that consist of one comment and one declaration.

`sections_singleComment`: such a source has one section, whose text is made from exactly what was
written between the opening and the end mark.
-/

namespace DocMark.Source

/-- Without carriage returns there is no line ending to normalize. -/
theorem normalizeNewlines_eq_self {s : Text} (h : '\r' ∉ s) : Text.normalizeNewlines s = s := by
  induction s with
  | nil => rfl
  | cons c r ih =>
    have hc : c ≠ '\r' := fun heq => h (heq ▸ List.mem_cons_self)
    rw [Text.normalizeNewlines, if_neg hc, ih fun hmem => h (List.mem_cons_of_mem c hmem)]

/-- A comment with the given body, a declaration run behind it, and a semicolon. -/
def singleComment (body run : Text) : Text :=
  "/**".toList ++ (body ++ ("*/".toList ++ (run ++ [';'])))

/-- Where the one comment of such a source stands. -/
def singleSpan (body run : Text) : Span :=
  ⟨0, 3 + body.length, 3 + body.length + 2 + run.length⟩

theorem drop_close_singleComment (body run : Text) :
    (singleComment body run).drop (3 + body.length) = "*/".toList ++ (run ++ [';']) := by
  rw [singleComment, ← List.drop_drop, show (3 : Nat) = "/**".toList.length from rfl,
    List.drop_left, List.drop_left]

theorem drop_run_singleComment (body run : Text) :
    (singleComment body run).drop (3 + body.length + 2) = run ++ [';'] := by
  rw [← List.drop_drop, drop_close_singleComment, show (2 : Nat) = "*/".toList.length from rfl,
    List.drop_left]

theorem drop_stop_singleComment (body run : Text) :
    (singleComment body run).drop (3 + body.length + 2 + run.length) = [';'] := by
  rw [← List.drop_drop, drop_run_singleComment, List.drop_left]

section Single

variable {body run : Text}

theorem takeWhile_run_singleComment (hrun : ∀ c ∈ run, isRunChar c = true) :
    ((singleComment body run).drop (3 + body.length + 2)).takeWhile isRunChar = run := by
  rw [drop_run_singleComment, List.takeWhile_append_of_pos hrun,
    List.takeWhile_cons_of_neg (by decide), List.append_nil]

/-- No end of a comment stands before the one that was written. -/
theorem le_of_standsClose (hbody : ¬ "*/".toList <:+: body) {m : Nat} (hm : 3 ≤ m)
    (h : "*/".toList <+: (singleComment body run).drop m) : 3 + body.length ≤ m := by
  by_contra hlt
  apply hbody
  obtain ⟨h0, h1⟩ := standsClose_iff.mp h
  have hget : ∀ k, (singleComment body run)[3 + k]? =
      (body ++ ("*/".toList ++ (run ++ [';'])))[k]? := by
    intro k
    rw [← List.getElem?_drop]
    rfl
  obtain ⟨k, rfl⟩ : ∃ k, m = 3 + k := ⟨m - 3, by omega⟩
  rw [hget, List.getElem?_append_left (by omega)] at h0
  rw [Nat.add_assoc, hget] at h1
  have hk : k + 1 < body.length := by
    by_contra hge
    -- Behind the last character of the body stands a star.
    have heq : k + 1 = body.length := by omega
    rw [heq, List.getElem?_append_right (Nat.le_refl _), Nat.sub_self] at h1
    exact absurd h1 (by simp)
  rw [List.getElem?_append_left hk] at h1
  exact (standsClose_iff.mpr ⟨h0, h1⟩).isInfix.trans (List.drop_suffix _ _).isInfix

/-- The one comment of such a source is a comment with its declaration. -/
theorem isComment_singleSpan (hbody : ¬ "*/".toList <:+: body) (hne : run ≠ [])
    (hrun : ∀ c ∈ run, isRunChar c = true) :
    IsComment (singleComment body run) (singleSpan body run) := by
  have hbounds := (run_bounds_iff (t := singleComment body run)
    (Nat.le_add_right (3 + body.length + 2) run.length)).mpr
      (by rw [takeWhile_run_singleComment hrun])
  exact
    { opens := ⟨_, rfl⟩
      open_le_close := by simp [singleSpan]
      closes := by
        obtain ⟨c, r, rfl⟩ := List.exists_cons_of_ne_nil hne
        refine ⟨?_, c, ?_, hrun c List.mem_cons_self⟩
        · change "*/".toList <+: (singleComment body (c :: r)).drop (3 + body.length)
          rw [drop_close_singleComment]
          exact List.prefix_append _ _
        · change (singleComment body (c :: r))[3 + body.length + 2]? = some c
          have hget := congrArg (·[0]?) (drop_run_singleComment body (c :: r))
          simpa [List.getElem?_drop] using hget
      closes_first := by
        intro j hle hj
        exact le_of_standsClose hbody (by simpa [singleSpan] using hle) hj.1
      close_le_stop := by simp [singleSpan]
      run_chars := hbounds.1
      run_stops := hbounds.2 }

/-- The one comment of such a source is all there is. -/
theorem leftmost_singleSpan (hbody : ¬ "*/".toList <:+: body) (hne : run ≠ [])
    (hrun : ∀ c ∈ run, isRunChar c = true) :
    Leftmost (singleComment body run) 0 [singleSpan body run] := by
  refine .next (isComment_singleSpan hbody hne hrun) (Nat.zero_le _) (fun s' _ _ => Nat.zero_le _) ?_
  refine .done ?_
  intro s hs
  by_contra hge
  -- Only the semicolon is left, and no comment opens there.
  have hge : 3 + body.length + 2 + run.length ≤ s.start := by simpa [singleSpan] using hge
  have hlen := hs.opens.length_le
  have htail : ((singleComment body run).drop s.start).length ≤ 1 := by
    have hdrop := congrArg List.length (drop_stop_singleComment body run)
    simp only [List.length_drop, List.length_singleton] at hdrop ⊢
    omega
  have hopen : "/**".toList.length = 3 := rfl
  omega

end Single

/-- **One comment and one declaration give one section.** -/
theorem sections_singleComment {body run : Text} (hbr : '\r' ∉ body) (hrr : '\r' ∉ run)
    (hbody : ¬ "*/".toList <:+: body) (hne : run ≠ []) (hrun : ∀ c ∈ run, isRunChar c = true)
    (himp : ¬ IsImportLine (Text.strip run)) :
    sections (singleComment body run) = [⟨Text.strip run, docOf body⟩] := by
  have hnorm : Text.normalizeNewlines (singleComment body run) = singleComment body run := by
    apply normalizeNewlines_eq_self
    simp [singleComment, hbr, hrr]
  have hleft := leftmost_singleSpan hbody hne hrun
  have hcomment := isComment_singleSpan hbody hne hrun
  have hline : (singleSpan body run).line (singleComment body run) = Text.strip run := by
    rw [Span.line, hcomment.run_eq]
    exact congrArg Text.strip (takeWhile_run_singleComment hrun)
  have hbodyEq : (singleSpan body run).body (singleComment body run) = body := by
    rw [Span.body, List.extract_eq_take_drop, singleComment]
    simp [singleSpan]
  rw [← hnorm] at hleft
  rw [sections_eq_of_leftmost hleft, hnorm, List.filter_cons_of_pos (by simpa [hline] using himp),
    List.filter_nil, List.map_singleton, Span.toSection_eq, hline, hbodyEq]

end DocMark.Source
