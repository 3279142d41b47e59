import DocComments.Proofs.Token.Scan

/-!
# Comments are decided by markers alone

Where the comments of a file stand depends on nothing but the places of the markers: not on code, indent or blank
lines.

* `Grammar.blocks`: the first and last lines of the comments, found by markers.
* `Grammar.mem_blocks_lines_iff`: in the line form, these are **the maximal runs of lines with the marker**.
* `Scanner.bounds_scan`: the tokens of a scan have these bounds.
* `Scanner.exists_turn`: each token of a scan is the one of a line that opens a comment, and the tokens behind it are
  those of the lines behind its comment.
-/

namespace DocComments

theorem getElem?_of_drop {α : Type} {lines ls : List α} {n : Nat} (h : lines.drop n = ls) (k : Nat) :
    lines[n + k]? = ls[k]? := by
  rw [← h, List.getElem?_drop]

theorem getElem?_of_drop_cons {α : Type} {lines ls : List α} {l : α} {n : Nat} (h : lines.drop n = l :: ls) :
    lines[n]? = some l := by
  rw [← List.head?_drop, h, List.head?_cons]

theorem drop_of_drop_cons {α : Type} {lines ls : List α} {l : α} {n : Nat} (h : lines.drop n = l :: ls) (k : Nat) :
    lines.drop (n + 1 + k) = ls.drop k := by
  rw [Nat.add_assoc, ← List.drop_drop, h, Nat.add_comm 1, List.drop_succ_cons]

namespace Grammar

/-- A comment ends on a line that is there. -/
theorem tail_lt_length (g : Grammar) {lines tl : List String} {l : String} {p : Nat} (h : lines.drop p = l :: tl) :
    p + g.tail l tl < lines.length := by
  have htail := g.tail_le l tl
  have hlen := congrArg List.length h
  rw [List.length_drop, List.length_cons] at hlen
  omega

/-- The first and last lines of the comments in the lines from `n` on: go to the first line that opens a comment, take
the lines of that comment, and go on behind them. -/
def blocks (g : Grammar) (n : Nat) : List String → List (Nat × Nat)
  | [] => []
  | l :: ls =>
    if g.opens l then
      (n, n + g.tail l ls) :: g.blocks (n + 1 + g.tail l ls) (ls.drop (g.tail l ls))
    else g.blocks (n + 1) ls
termination_by ls => ls.length
decreasing_by
  · simp only [List.length_drop, List.length_cons]; omega
  · simp only [List.length_cons]; omega

theorem blocks_cons_pos {g : Grammar} {l : String} (h : g.opens l = true) (n : Nat) (ls : List String) :
    g.blocks n (l :: ls) =
      (n, n + g.tail l ls) :: g.blocks (n + 1 + g.tail l ls) (ls.drop (g.tail l ls)) := by
  rw [blocks, if_pos h]

theorem blocks_cons_neg {g : Grammar} {l : String} (h : g.opens l = false) (n : Nat) (ls : List String) :
    g.blocks n (l :: ls) = g.blocks (n + 1) ls := by
  rw [blocks, if_neg (by simp [h])]

/-- Comments start where the scan starts or later, and end on a line that is there. -/
theorem bounds_of_mem_blocks {g : Grammar} {n : Nat} {ls : List String} {b : Nat × Nat}
    (h : b ∈ g.blocks n ls) : n ≤ b.1 ∧ b.1 ≤ b.2 ∧ b.2 < n + ls.length := by
  induction n, ls using blocks.induct (g := g) with
  | case1 n => simp [blocks] at h
  | case2 n l ls ho ih =>
    have ht := g.tail_le l ls
    rw [blocks_cons_pos ho] at h
    rcases List.mem_cons.1 h with rfl | h
    · simp only [List.length_cons]; omega
    · have := ih h
      simp only [List.length_drop] at this
      simp only [List.length_cons]; omega
  | case3 n l ls ho ih =>
    rw [blocks_cons_neg (by simpa using ho)] at h
    have := ih h
    simp only [List.length_cons]; omega

/-- Comments are listed in order and do not overlap. -/
theorem pairwise_blocks (g : Grammar) (n : Nat) (ls : List String) :
    (g.blocks n ls).Pairwise fun a b => a.2 < b.1 := by
  induction n, ls using blocks.induct (g := g) with
  | case1 n => simp [blocks]
  | case2 n l ls ho ih =>
    rw [blocks_cons_pos ho]
    refine List.Pairwise.cons ?_ ih
    intro b hb
    have := (bounds_of_mem_blocks hb).1
    simp only; omega
  | case3 n l ls ho ih => rw [blocks_cons_neg (by simpa using ho)]; exact ih

end Grammar

/-- The lines from `i` to `j` are a maximal run of lines with the property `p`, among the lines from `start` on. -/
structure MaximalRun (p : String → Bool) (lines : List String) (start i j : Nat) : Prop where
  start_le : start ≤ i
  le : i ≤ j
  inside : ∀ k, i ≤ k → k ≤ j → lines[k]?.any p = true
  before : start < i → lines[i - 1]?.any p = false
  after : lines[j + 1]?.any p = false

namespace Grammar

/-- A line without the property is in no run. -/
theorem maximalRun_skip {p : String → Bool} {lines : List String} {n : Nat} (h : lines[n]?.any p = false)
    (i j : Nat) : MaximalRun p lines n i j ↔ MaximalRun p lines (n + 1) i j := by
  constructor
  · rintro ⟨h1, h2, h3, h4, h5⟩
    have hne : n ≠ i := by
      rintro rfl
      rw [h3 n le_rfl h2] at h; cases h
    exact ⟨by omega, h2, h3, fun _ => h4 (by omega), h5⟩
  · rintro ⟨h1, h2, h3, h4, h5⟩
    refine ⟨by omega, h2, h3, fun _ => ?_, h5⟩
    rcases Nat.eq_or_lt_of_le h1 with he | hlt
    · rw [← he, Nat.add_sub_cancel]; exact h
    · exact h4 hlt

/-- The run at the front is the first of the maximal runs. -/
theorem maximalRun_first {p : String → Bool} {lines : List String} {n t : Nat}
    (hin : ∀ k, n ≤ k → k ≤ n + t → lines[k]?.any p = true) (hout : lines[n + t + 1]?.any p = false)
    (i j : Nat) :
    MaximalRun p lines n i j ↔ (i, j) = (n, n + t) ∨ MaximalRun p lines (n + 1 + t) i j := by
  rw [show n + t + 1 = n + 1 + t by omega] at hout
  constructor
  · rintro ⟨h1, h2, h3, h4, h5⟩
    by_cases hi : i ≤ n + t
    · -- a run that starts in the front run starts at its first line, and ends where it ends
      left
      have hin' : i = n := by
        by_contra hne
        have := h4 (by omega)
        rw [hin (i - 1) (by omega) (by omega)] at this; cases this
      have hj1 : ¬ j < n + t := by
        intro hlt
        rw [hin (j + 1) (by omega) (by omega)] at h5; cases h5
      have hj2 : ¬ n + t < j := by
        intro hlt
        rw [h3 (n + 1 + t) (by omega) (by omega)] at hout; cases hout
      rw [Prod.mk.injEq]
      omega
    · exact Or.inr ⟨by omega, h2, h3, fun _ => h4 (by omega), h5⟩
  · rintro (h | ⟨h1, h2, h3, h4, h5⟩)
    · obtain ⟨rfl, rfl⟩ := Prod.mk.inj h
      refine ⟨le_rfl, by omega, hin, fun h => by omega, ?_⟩
      rw [show i + t + 1 = i + 1 + t by omega]; exact hout
    · refine ⟨by omega, h2, h3, fun _ => ?_, h5⟩
      rcases Nat.eq_or_lt_of_le h1 with he | hlt
      · subst he
        rw [h3 _ le_rfl h2] at hout; cases hout
      · exact h4 hlt

variable {g : Grammar} {m : Option String} {lines ls : List String} {l : String} {n : Nat}

theorem tail_lines (hs : g.shape = .lines m) (l : String) (ls : List String) :
    g.tail l ls = (ls.takeWhile g.opens).length := by
  simp only [tail, hs]

/-- In the line form, all lines of a comment have the marker. -/
theorem opens_of_le_tail (hs : g.shape = .lines m) (ho : g.opens l = true) (hls : lines.drop n = l :: ls) {k : Nat}
    (h1 : n ≤ k) (h2 : k ≤ n + g.tail l ls) : lines[k]?.any g.opens = true := by
  rw [tail_lines hs] at h2
  obtain ⟨q, rfl⟩ := Nat.exists_eq_add_of_le h1
  rw [getElem?_of_drop hls]
  cases q with
  | zero => exact ho
  | succ q =>
    have hlt : q < (ls.takeWhile g.opens).length := by omega
    obtain ⟨tl, htl⟩ := List.takeWhile_prefix g.opens (l := ls)
    have hx : ls[q]? = some (ls.takeWhile g.opens)[q] := by
      conv_lhs => rw [← htl]
      rw [List.getElem?_append_left hlt, List.getElem?_eq_getElem hlt]
    rw [List.getElem?_cons_succ, hx, Option.any_some]
    exact List.mem_takeWhile_imp (List.getElem_mem hlt)

/-- In the line form, the line behind a comment does not have the marker. -/
theorem not_opens_behind_tail (hs : g.shape = .lines m) (hls : lines.drop n = l :: ls) :
    lines[n + g.tail l ls + 1]?.any g.opens = false := by
  have hdrop : ls.drop (ls.takeWhile g.opens).length = ls.dropWhile g.opens := by
    have : (ls.takeWhile g.opens ++ ls.dropWhile g.opens).drop (ls.takeWhile g.opens).length =
        ls.dropWhile g.opens := List.drop_left
    rwa [List.takeWhile_append_dropWhile] at this
  have hnot := List.head?_dropWhile_not g.opens ls
  rw [Nat.add_assoc, getElem?_of_drop hls, List.getElem?_cons_succ, tail_lines hs, ← List.head?_drop, hdrop]
  cases hx : (ls.dropWhile g.opens).head? with
  | none => rfl
  | some x => rw [hx] at hnot; simpa using hnot

/-- **In the line form, comments are the maximal runs of lines with the marker.** -/
theorem mem_blocks_lines_iff (hs : g.shape = .lines m) (hls : lines.drop n = ls) (i j : Nat) :
    (i, j) ∈ g.blocks n ls ↔ MaximalRun g.opens lines n i j := by
  induction n, ls using blocks.induct (g := g) with
  | case1 n =>
    -- there is no line left, and a run has at least one
    simp only [blocks, List.not_mem_nil, false_iff]
    intro h
    have hnone := getElem?_of_drop hls (i - n)
    rw [Nat.add_sub_cancel' h.start_le, List.getElem?_nil] at hnone
    have hinside := h.inside i le_rfl h.le
    rw [hnone] at hinside; cases hinside
  | case2 n l ls ho ih =>
    have hrest : (i, j) ∈ g.blocks (n + 1 + g.tail l ls) (ls.drop (g.tail l ls)) ↔
        MaximalRun g.opens lines (n + 1 + g.tail l ls) i j := ih (drop_of_drop_cons hls _)
    rw [blocks_cons_pos ho, List.mem_cons, hrest]
    exact (maximalRun_first (fun k h1 h2 => opens_of_le_tail hs ho hls h1 h2) (not_opens_behind_tail hs hls) i j).symm
  | case3 n l ls ho ih =>
    have hnot : lines[n]?.any g.opens = false := by
      rw [getElem?_of_drop_cons hls]; simpa using ho
    have hrest : (i, j) ∈ g.blocks (n + 1) ls ↔ MaximalRun g.opens lines (n + 1) i j :=
      ih (drop_of_drop_cons hls 0)
    rw [blocks_cons_neg (by simpa using ho), hrest, maximalRun_skip hnot]

end Grammar

namespace Scanner

variable {s : Scanner}

theorem rest_of_body (hk : s.kind = .body) : s.rest = .outside := by simp [rest, hk]

/-- The comment of a token, from the lines that the scanner keeps. -/
theorem comment_tokenAt (n : Nat) (l : String) (ls : List String) :
    (s.tokenAt n l ls).comment =
      .ofLines (some n) (some (n + s.grammar.tail l ls))
        (s.grammar.headText l :: (ls.take (s.grammar.tail l ls)).filterMap s.grammar.kept?) := by
  have hlen : (ls.take (s.grammar.tail l ls)).length = s.grammar.tail l ls :=
    List.length_take_of_le (s.grammar.tail_le l ls)
  unfold tokenAt close
  dsimp only
  rw [(gather_comment _ _ _).1, (gather_comment _ _ _).2]
  unfold closed
  rw [hlen, List.reverse_reverse]

theorem first_tokenAt (n : Nat) (l : String) (ls : List String) : (s.tokenAt n l ls).comment.first = some n := by
  rw [comment_tokenAt]; rfl

theorem last_tokenAt (n : Nat) (l : String) (ls : List String) :
    (s.tokenAt n l ls).comment.last = some (n + s.grammar.tail l ls) := by
  rw [comment_tokenAt]; rfl

/-- The tokens of a scan have the bounds that markers decide. -/
theorem bounds_scan (hv : s.grammar.Visible) (hk : s.kind = .body) (n : Nat) (ls : List String) :
    (s.scan .outside n ls).map (fun t => (t.comment.first, t.comment.last)) =
      (s.grammar.blocks n ls).map fun b => (some b.1, some b.2) := by
  induction n, ls using Grammar.blocks.induct (g := s.grammar) with
  | case1 n => simp [scan, finish, Grammar.blocks]
  | case2 n l ls ho ih =>
    rw [scan_outside_opens hv ho, Grammar.blocks_cons_pos ho, rest_of_body hk, List.map_cons, List.map_cons, ih,
      first_tokenAt, last_tokenAt]
  | case3 n l ls ho ih =>
    have ho' : s.grammar.opens l = false := by simpa using ho
    rw [scan_outside_skip ho', Grammar.blocks_cons_neg ho', ih]

/-- **Each token is the one of a line that opens a comment**, and the tokens behind it are those of the lines behind
its comment. -/
theorem exists_turn (hv : s.grammar.Visible) {lines ls : List String} {n i : Nat} {t : Token}
    (hls : lines.drop n = ls) (h : (s.scan .outside n ls)[i]? = some t) :
    ∃ p l tl, n ≤ p ∧ lines.drop p = l :: tl ∧ s.grammar.opens l = true ∧ t = s.tokenAt p l tl ∧
      (s.scan .outside n ls).drop (i + 1) =
        s.scan s.rest (p + 1 + s.grammar.tail l tl) (tl.drop (s.grammar.tail l tl)) := by
  induction n, ls using Grammar.blocks.induct (g := s.grammar) generalizing i with
  | case1 n => simp [scan, finish] at h
  | case2 n l ls ho ih =>
    rw [scan_outside_opens hv ho] at h ⊢
    cases i with
    | zero =>
      rw [List.getElem?_cons_zero] at h
      exact ⟨n, l, ls, le_rfl, hls, ho, (Option.some.inj h).symm, rfl⟩
    | succ i =>
      rw [List.getElem?_cons_succ] at h
      cases hk : s.kind with
      | header =>
        -- a header scan has no second token
        simp [rest, hk, scan_done] at h
      | body =>
        rw [rest_of_body hk] at h ⊢
        obtain ⟨p, l', tl, h1, h2, h3, h4, h5⟩ := ih (drop_of_drop_cons hls _) h
        rw [rest_of_body hk] at h5
        exact ⟨p, l', tl, by omega, h2, h3, h4, by rw [List.drop_succ_cons]; exact h5⟩
  | case3 n l ls ho ih =>
    rw [scan_outside_skip (by simpa using ho)] at h ⊢
    obtain ⟨p, l', tl, h1, h2⟩ := ih (drop_of_drop_cons hls 0) h
    exact ⟨p, l', tl, by omega, h2⟩

end Scanner

/-- **Comments are decided by markers alone.** The bounds of the comments are those of `Grammar.blocks`, in the line
form the maximal runs of lines with the marker, and the number of blank lines that end a run of code changes nothing
about them. -/
theorem comment_bounds_eq_blocks {g : Grammar} {blankLines : Nat} {s : Scanner}
    (hs : Scanner.ofGrammar g blankLines .body = .ok s) (hv : s.grammar.Visible) (lines : List String)
    (start : Nat) :
    (s.tokenize lines start).map (fun t => (t.comment.first, t.comment.last)) =
        (s.grammar.blocks start (lines.drop start)).map (fun b => (some b.1, some b.2)) ∧
      (s.grammar.blocks start (lines.drop start)).Pairwise (fun a b => a.2 < b.1) ∧
      (∀ m, s.grammar.shape = .lines m → ∀ i j,
        (i, j) ∈ s.grammar.blocks start (lines.drop start) ↔
          MaximalRun (fun l => (m.bind (findMarker l)).isSome) lines start i j) ∧
      ∀ blankLines' s', Scanner.ofGrammar g blankLines' .body = .ok s' →
        (s'.tokenize lines start).map (fun t => (t.comment.first, t.comment.last)) =
          (s.tokenize lines start).map (fun t => (t.comment.first, t.comment.last)) := by
  have hk : s.kind = .body := by rw [Scanner.eq_of_ofGrammar hs]
  have hb := Scanner.bounds_scan hv hk start (lines.drop start)
  refine ⟨hb, s.grammar.pairwise_blocks _ _, ?_, ?_⟩
  · intro m hm i j
    have ho : s.grammar.opens = fun l => (m.bind (findMarker l)).isSome := by
      funext l; simp only [Grammar.opens, hm]
    rw [← ho]
    exact Grammar.mem_blocks_lines_iff hm rfl i j
  · intro b' s' hs'
    have hg : s'.grammar = s.grammar := by
      rw [Scanner.eq_of_ofGrammar hs, Scanner.eq_of_ofGrammar hs']
    have hk' : s'.kind = .body := by rw [Scanner.eq_of_ofGrammar hs']
    have hb' := Scanner.bounds_scan (hg ▸ hv) hk' start (lines.drop start)
    rw [hg] at hb'
    exact hb'.trans hb.symm

/-- Delimiters that are the same open and close in turn, and the last comment runs to the end of the file. -/
theorem comment_bounds_toggle :
    ∃ s, Scanner.ofGrammar (.ofDelimiters "###" "###") 0 .body = .ok s ∧ s.grammar.Visible ∧
      (s.grammar.blocks 1 ["###", "", "###", "b", "### c ###", "### d"]).map (fun b => (some b.1, some b.2)) =
        [(some 1, some 3), (some 5, some 5), (some 6, some 6)] := by
  have hv : (Grammar.ofDelimiters "###" "###").cleaned.Visible := ⟨by decide, by decide, by decide⟩
  have hs : Scanner.ofGrammar (.ofDelimiters "###" "###") 0 .body =
      .ok ⟨(Grammar.ofDelimiters "###" "###").cleaned, 1, .body⟩ := rfl
  refine ⟨_, hs, hv, ?_⟩
  have h := (comment_bounds_eq_blocks hs hv ["a", "###", "", "###", "b", "### c ###", "### d"] 1).1
  exact h.symm.trans (by decide)

end DocComments
