import DocComments.Parser
import DocComments.Proofs.Token.Scan

/-!
# Spans do not overlap

The comments of a file and the code behind them follow one another. This needs nothing of the markers, not even that
they can be seen: each bound is the number of a line that the scanner is at, and the scanner only goes down.

* `Span.Follow`: spans one behind the other, between two lines.
* `Scanner.Phase.Reached`: where the parts of what is open stand, when the scanner comes to a line.
* `Scanner.follow_scan`: **the spans of a scan follow one another**, step by step.
* `Scanner.scan_header`: a header scan has one token at most, without code.
* `spans_in_order`: the comment at the head of a file, and behind it the spans of its body.
-/

namespace DocComments

namespace Span

/-- Spans one behind the other from the line `lo` on, that all end before the line `hi`. -/
def Follow : (lo : Nat) → List Span → (hi : Nat) → Prop
  | lo, [], hi => lo ≤ hi
  | lo, s :: ss, hi => ∃ i j, s.first = some i ∧ s.last = some j ∧ lo ≤ i ∧ i ≤ j ∧ Follow (j + 1) ss hi

variable {ss us : List Span} {lo mid hi : Nat}

theorem Follow.le (h : Follow lo ss hi) : lo ≤ hi := by
  induction ss generalizing lo with
  | nil => exact h
  | cons s ss ih =>
    obtain ⟨i, j, -, -, hlo, hij, hss⟩ := h
    have := ih hss
    omega

theorem Follow.of_le (hlo : lo ≤ mid) (h : Follow mid ss hi) : Follow lo ss hi := by
  cases ss with
  | nil => exact le_trans hlo h
  | cons s ss =>
    obtain ⟨i, j, hi', hj, hmid, hrest⟩ := h
    exact ⟨i, j, hi', hj, le_trans hlo hmid, hrest⟩

theorem Follow.append (hs : Follow lo ss mid) (hu : Follow mid us hi) : Follow lo (ss ++ us) hi := by
  induction ss generalizing lo with
  | nil => exact hu.of_le hs
  | cons s ss ih =>
    obtain ⟨i, j, hi', hj, hlo, hij, hss⟩ := hs
    exact ⟨i, j, hi', hj, hlo, hij, ih hss⟩

/-- **Spans that follow one another are ranges in increasing order.** -/
theorem Follow.exists_ranges (h : Follow lo ss hi) :
    ∃ rs : List (Nat × Nat), ss.map (fun s => (s.first, s.last)) = rs.map (fun r => (some r.1, some r.2)) ∧
      (∀ r ∈ rs, lo ≤ r.1 ∧ r.1 ≤ r.2 ∧ r.2 < hi) ∧ rs.Pairwise fun a b => a.2 < b.1 := by
  induction ss generalizing lo with
  | nil => exact ⟨[], rfl, by simp, List.Pairwise.nil⟩
  | cons s ss ih =>
    obtain ⟨i, j, hi', hj, hlo, hij, hss⟩ := h
    obtain ⟨rs, hmap, hin, hpair⟩ := ih hss
    have hle := hss.le
    refine ⟨(i, j) :: rs, ?_, ?_, List.Pairwise.cons ?_ hpair⟩
    · rw [List.map_cons, List.map_cons, hmap, hi', hj]
    · intro r hr
      rcases List.mem_cons.1 hr with rfl | hr
      · exact ⟨hlo, hij, by omega⟩
      · have := hin r hr
        exact ⟨by omega, this.2⟩
    · intro r hr
      have := (hin r hr).1
      simp only; omega

end Span

/-- Of ranges in increasing order, at most one holds a given line. -/
theorem countP_ranges_le_one {rs : List (Nat × Nat)} (h : rs.Pairwise fun a b => a.2 < b.1) (i : Nat) :
    rs.countP (fun r => r.1 ≤ i ∧ i ≤ r.2) ≤ 1 := by
  induction rs with
  | nil => simp
  | cons r rs ih =>
    obtain ⟨hr, hrs⟩ := List.pairwise_cons.1 h
    by_cases hi : r.1 ≤ i ∧ i ≤ r.2
    · -- the later ranges start behind this one
      have hnone : rs.countP (fun r => r.1 ≤ i ∧ i ≤ r.2) = 0 := by
        rw [List.countP_eq_zero]
        intro x hx
        have := hr x hx
        simp only [decide_eq_true_eq]
        omega
      rw [List.countP_cons, hnone]
      split <;> omega
    · rw [List.countP_cons_of_neg (by simpa using hi)]
      exact ih hrs

/-- The spans of a token: its comment, and its code when that has a bound. -/
def Token.spans (t : Token) : List Span :=
  t.comment :: if t.code.first.isSome || t.code.last.isSome then [t.code] else []

namespace Scanner

variable {s : Scanner} {lo n : Nat}

/-- A closed comment and its code stand in order between the lines `lo` and `n`. -/
structure Pending.Reached (lo n : Nat) (u : Pending) : Prop where
  first : lo ≤ u.comment.first
  comment : u.comment.first ≤ u.last
  last : u.last < n
  code : (u.codeFirst = none ∧ u.codeLast = none) ∨
    ∃ i j, u.codeFirst = some i ∧ u.codeLast = some j ∧ u.last < i ∧ i ≤ j ∧ j < n

/-- What is open when the scanner comes to the line `n` stands between the lines `lo` and `n`. -/
def Phase.Reached (lo n : Nat) : Phase → Prop
  | .outside => lo ≤ n
  | .inComment c => lo ≤ c.first ∧ c.first < n
  | .behind u => u.Reached lo n
  | .done => lo ≤ n

theorem Phase.reached_rest (s : Scanner) (h : lo ≤ n) : Phase.Reached lo n s.rest := by
  unfold rest
  split <;> exact h

theorem Pending.Reached.succ {u : Pending} (h : u.Reached lo n) : u.Reached lo (n + 1) := by
  refine ⟨h.first, h.comment, by have := h.last; omega, ?_⟩
  rcases h.code with hnone | ⟨i, j, hi, hj, hlast, hij, hjn⟩
  · exact .inl hnone
  · exact .inr ⟨i, j, hi, hj, hlast, hij, by omega⟩

/-- The spans of a token that is closed. -/
theorem Pending.Reached.follow_close {u : Pending} (h : u.Reached lo n) : Span.Follow lo (s.close u).spans n := by
  have hlast := h.last
  rcases h.code with ⟨hi, hj⟩ | ⟨i, j, hi, hj, hui, hij, hjn⟩
  · have hspans : (s.close u).spans = [(s.close u).comment] := by simp [Token.spans, close, Span.ofLines, hi, hj]
    rw [hspans]
    exact ⟨_, _, rfl, rfl, h.first, h.comment, hlast⟩
  · have hspans : (s.close u).spans = [(s.close u).comment, (s.close u).code] := by
      simp [Token.spans, close, Span.ofLines, hi]
    rw [hspans]
    exact ⟨_, _, rfl, rfl, h.first, h.comment, i, j, hi, hj, hui, hij, hjn⟩

/-! ## One line -/

theorem goOn_cases (c : OpenComment) (n : Nat) (next : Option String) :
    s.goOn c n next = .inComment c ∨ s.goOn c n next = .behind { comment := c, last := n } := by
  unfold goOn
  split
  · exact .inl rfl
  · exact .inr rfl

/-- A comment opens on the line that the scanner is at, and may end there. -/
theorem open?_cases {text : String} {next : Option String} {p : Phase} (h : s.open? n text next = some p) :
    ∃ c : OpenComment, c.first = n ∧ (p = .inComment c ∨ p = .behind { comment := c, last := n }) := by
  unfold open? at h
  cases hs : s.grammar.shape with
  | delimited o e =>
    simp only [hs] at h
    obtain ⟨k, -, rfl⟩ := Option.map_eq_some_iff.1 h
    cases findMarker k.after e with
    | some k' => exact ⟨_, rfl, .inr rfl⟩
    | none => exact ⟨_, rfl, .inl rfl⟩
  | lines m =>
    simp only [hs] at h
    obtain ⟨k, -, rfl⟩ := Option.map_eq_some_iff.1 h
    exact ⟨_, rfl, goOn_cases _ n next⟩

/-- An open comment stays open or ends on the line that the scanner is at. -/
theorem continueComment_cases (c : OpenComment) (n : Nat) (text : String) (next : Option String) :
    ∃ c' : OpenComment, c'.first = c.first ∧ (s.continueComment c n text next = .inComment c' ∨
      s.continueComment c n text next = .behind { comment := c', last := n }) := by
  unfold continueComment
  split
  · split
    · refine ⟨_, ?_, .inr rfl⟩
      split <;> rfl
    · refine ⟨_, ?_, .inl rfl⟩
      rfl
  · refine ⟨_, ?_, goOn_cases _ n next⟩
    rfl

theorem reached_of_cases {c : OpenComment} {p : Phase} (hlo : lo ≤ c.first) (hn : c.first ≤ n)
    (h : p = .inComment c ∨ p = .behind { comment := c, last := n }) : p.Reached lo (n + 1) := by
  rcases h with rfl | rfl
  · exact ⟨hlo, Nat.lt_succ_of_le hn⟩
  · exact ⟨hlo, hn, Nat.lt_succ_self n, .inl ⟨rfl, rfl⟩⟩

theorem reached_open? {text : String} {next : Option String} {p : Phase} (h : s.open? n text next = some p) :
    p.Reached n (n + 1) := by
  obtain ⟨c, hc, hp⟩ := open?_cases h
  exact reached_of_cases hc.ge hc.le hp

theorem reached_continueComment {c : OpenComment} (hlo : lo ≤ c.first) (hn : c.first < n) (text : String)
    (next : Option String) : (s.continueComment c n text next).Reached lo (n + 1) := by
  obtain ⟨c', hc, hp⟩ := continueComment_cases (s := s) c n text next
  exact reached_of_cases (hc ▸ hlo) (hc ▸ hn.le) hp

theorem reached_stepBlank {p : Phase} (h : p.Reached lo n) :
    ∃ mid, Span.Follow lo ((s.stepBlank p).1.flatMap Token.spans) mid ∧ (s.stepBlank p).2.Reached mid (n + 1) := by
  cases p with
  | outside => exact ⟨lo, le_rfl, Nat.le_succ_of_le h⟩
  | done => exact ⟨lo, le_rfl, Nat.le_succ_of_le h⟩
  | inComment c =>
    obtain ⟨hlo, hn⟩ := h
    unfold stepBlank
    dsimp only
    split
    · exact ⟨lo, le_rfl, hlo, Nat.lt_succ_of_lt hn⟩
    · exact ⟨lo, le_rfl, hlo, Nat.lt_succ_of_lt hn⟩
  | behind u =>
    have hu : u.Reached lo n := h
    have hblank : ∀ ls, Pending.Reached lo n { u with code := ls, blanks := u.blanks + 1 } :=
      fun ls => ⟨hu.first, hu.comment, hu.last, hu.code⟩
    unfold stepBlank
    dsimp only
    split
    · refine ⟨n, ?_, Phase.reached_rest s (Nat.le_succ n)⟩
      simpa using (hblank _).follow_close
    · exact ⟨lo, le_rfl, (hblank _).succ⟩

theorem reached_stepCode {u : Pending} (h : u.Reached lo n) (text : String) :
    ∃ mid, Span.Follow lo ((s.stepCode u n text).1.flatMap Token.spans) mid ∧
      (s.stepCode u n text).2.Reached mid (n + 1) := by
  have hclose : Span.Follow lo ([s.close u].flatMap Token.spans) n := by simpa using h.follow_close
  unfold stepCode
  split
  · exact ⟨n, hclose, Nat.le_succ n⟩
  · split
    · exact ⟨n, hclose, Nat.le_succ n⟩
    · -- the line becomes the last line of the code, and the first one if there is none yet
      have hlast := h.last
      refine ⟨lo, le_rfl, h.first, h.comment, Nat.lt_succ_of_lt h.last, .inr ?_⟩
      rcases h.code with ⟨hi, -⟩ | ⟨i, j, hi, -, hui, hij, hjn⟩
      · exact ⟨n, n, by simp [hi], rfl, hlast, le_rfl, Nat.lt_succ_self n⟩
      · exact ⟨i, n, by simp [hi], rfl, hui, by omega, Nat.lt_succ_self n⟩

/-- **What one line does**: the spans of the token that it ends come first, and what is open behind it comes later. -/
theorem reached_step {p : Phase} (h : p.Reached lo n) (text : String) (next : Option String) :
    ∃ mid, Span.Follow lo ((s.step p n text next).1.flatMap Token.spans) mid ∧
      (s.step p n text next).2.Reached mid (n + 1) := by
  unfold step
  split
  · exact reached_stepBlank h
  · cases p with
    | done => exact ⟨lo, le_rfl, Nat.le_succ_of_le h⟩
    | inComment c => exact ⟨lo, le_rfl, reached_continueComment h.1 h.2 text next⟩
    | outside =>
      have hlo : lo ≤ n := h
      cases hp : s.open? n text next with
      | none => exact ⟨lo, le_rfl, Nat.le_succ_of_le hlo⟩
      | some p => exact ⟨n, hlo, reached_open? hp⟩
    | behind u =>
      have hu : u.Reached lo n := h
      dsimp only
      cases hp : s.open? n text next with
      | none => exact reached_stepCode hu text
      | some p =>
        have hclose : Span.Follow lo ([s.close u].flatMap Token.spans) n := by simpa using hu.follow_close
        dsimp only
        split
        · exact ⟨n, hclose, Nat.le_succ n⟩
        · exact ⟨n, hclose, reached_open? hp⟩

/-! ## A whole scan -/

theorem follow_finish {p : Phase} (h : p.Reached lo n) : Span.Follow lo ((s.finish p n).flatMap Token.spans) n := by
  cases p with
  | outside => exact h
  | done => exact h
  | inComment c =>
    -- a comment that is still open ends on the last line
    obtain ⟨hlo, hn⟩ := h
    have hu : Pending.Reached lo n { comment := c, last := n - 1 } :=
      ⟨hlo, by simp only; omega, by simp only; omega, .inl ⟨rfl, rfl⟩⟩
    simpa [finish] using hu.follow_close
  | behind u =>
    have hu : u.Reached lo n := h
    simpa [finish] using hu.follow_close

/-- **The spans of a scan follow one another**, down to the end of the lines. -/
theorem follow_scan {p : Phase} (h : p.Reached lo n) (ls : List String) :
    Span.Follow lo ((s.scan p n ls).flatMap Token.spans) (n + ls.length) := by
  induction ls generalizing lo n p with
  | nil => exact follow_finish h
  | cons l ls ih =>
    obtain ⟨mid, hfollow, hreached⟩ := reached_step h l ls.head?
    rw [scan_cons, List.flatMap_append, List.length_cons, Nat.add_comm ls.length, ← Nat.add_assoc]
    exact hfollow.append (ih hreached)

theorem follow_tokenize (lines : List String) {start : Nat} (h : start ≤ lines.length) :
    Span.Follow start ((s.tokenize lines start).flatMap Token.spans) lines.length := by
  have hscan := follow_scan (s := s) (p := .outside) (le_refl start) (lines.drop start)
  rwa [List.length_drop, Nat.add_sub_cancel' h] at hscan

/-! ## The header -/

/-- What is open has no code. -/
def Phase.Codeless : Phase → Prop
  | .behind u => u.code = [] ∧ u.codeFirst = none ∧ u.codeLast = none
  | _ => True

theorem codeless_of_cases {c : OpenComment} {p : Phase}
    (h : p = .inComment c ∨ p = .behind { comment := c, last := n }) : p.Codeless := by
  rcases h with rfl | rfl
  · trivial
  · exact ⟨rfl, rfl, rfl⟩

theorem code_close {u : Pending} (h : (Phase.behind u).Codeless) : (s.close u).code = {} := by
  obtain ⟨hcode, hfirst, hlast⟩ := h
  unfold close
  rw [hcode, hfirst, hlast]
  rfl

/-- What one line does in a header scan: when it ends a token, the scan is done. -/
theorem step_header (hk : s.kind = .header) {p : Phase} (h : p.Codeless) (n : Nat) (text : String)
    (next : Option String) :
    ((s.step p n text next).1 = [] ∧ (s.step p n text next).2.Codeless) ∨
      ∃ t, s.step p n text next = ([t], .done) ∧ t.code = {} := by
  unfold step
  split
  · cases p with
    | outside => exact .inl ⟨rfl, trivial⟩
    | done => exact .inl ⟨rfl, trivial⟩
    | inComment c =>
      unfold stepBlank
      dsimp only
      split <;> exact .inl ⟨rfl, trivial⟩
    | behind u =>
      -- no code has started, so blank lines are only counted
      obtain ⟨hcode, hfirst, hlast⟩ := h
      have hblank : (Phase.behind { u with
          code := if u.codeFirst.isSome then "" :: u.code else u.code, blanks := u.blanks + 1 }).Codeless :=
        ⟨by simp [hfirst, hcode], hfirst, hlast⟩
      unfold stepBlank rest
      simp only [hk]
      split
      · exact .inr ⟨_, rfl, code_close hblank⟩
      · exact .inl ⟨rfl, hblank⟩
  · cases p with
    | done => exact .inl ⟨rfl, trivial⟩
    | inComment c =>
      obtain ⟨c', -, hp⟩ := continueComment_cases (s := s) c n text next
      exact .inl ⟨rfl, codeless_of_cases hp⟩
    | outside =>
      cases hp : s.open? n text next with
      | none => exact .inl ⟨rfl, trivial⟩
      | some p =>
        obtain ⟨c, -, hcases⟩ := open?_cases hp
        exact .inl ⟨rfl, codeless_of_cases hcases⟩
    | behind u =>
      unfold stepCode
      simp only [hk]
      split <;> exact .inr ⟨_, rfl, code_close h⟩

/-- **A header scan has one token at most**, and that has no code. -/
theorem scan_header (hk : s.kind = .header) {p : Phase} (h : p.Codeless) (n : Nat) (ls : List String) :
    s.scan p n ls = [] ∨ ∃ t, s.scan p n ls = [t] ∧ t.code = {} := by
  induction ls generalizing p n with
  | nil =>
    cases p with
    | outside => exact .inl rfl
    | done => exact .inl rfl
    | inComment c => exact .inr ⟨_, rfl, rfl⟩
    | behind u => exact .inr ⟨_, rfl, code_close h⟩
  | cons l ls ih =>
    rw [scan_cons]
    rcases step_header hk h n l ls.head? with ⟨hnil, hcodeless⟩ | ⟨t, hstep, hcode⟩
    · rw [hnil]
      exact ih hcodeless (n + 1)
    · rw [hstep]
      exact .inr ⟨t, by simp [scan_done], hcode⟩

end Scanner

/-- **Spans do not overlap.** The tokens of a file are that of its header and those of its body, which starts behind the
header. The header has a comment only. All comments have their bounds, and so does code that has one of them; these
ranges are not empty, lie in the file and increase strictly, so that no line is in two of them. -/
theorem spans_in_order {gh gb : Grammar} {blankLines : Nat} {header body : Scanner}
    (hheader : Scanner.ofGrammar gh blankLines .header = .ok header)
    (hbody : Scanner.ofGrammar gb blankLines .body = .ok body) (lines : List String) {heads units : List Token}
    (hheads : header.tokenize lines 0 = heads)
    (hunits : body.tokenize lines (((heads.head?.bind (·.comment.last)).map (· + 1)).getD 0) = units) :
    (∀ (p : Parser) (f : SourceFile), p.config.blankLines = blankLines → f.language = ⟨gh, gb⟩ → f.lines = lines →
      p.tokens f = .ok (heads, units)) ∧
    (heads = [] ∨ ∃ t, heads = [t] ∧ t.spans = [t.comment]) ∧
    ∃ rs : List (Nat × Nat),
      ((heads ++ units).flatMap Token.spans).map (fun s => (s.first, s.last)) = rs.map (fun r => (some r.1, some r.2)) ∧
      (∀ r ∈ rs, r.1 ≤ r.2 ∧ r.2 < lines.length) ∧
      rs.Pairwise (fun a b => a.2 < b.1) ∧
      ∀ i, rs.countP (fun r => r.1 ≤ i ∧ i ≤ r.2) ≤ 1 := by
  have hkind : header.kind = .header := by rw [Scanner.eq_of_ofGrammar hheader]
  have hone := Scanner.scan_header hkind (p := .outside) trivial 0 (lines.drop 0)
  rw [show header.scan .outside 0 (lines.drop 0) = heads from hheads] at hone
  -- the spans of the body follow those of the header
  have hfollow : Span.Follow 0 ((heads ++ units).flatMap Token.spans) lines.length := by
    have hhead := Scanner.follow_tokenize (s := header) lines (Nat.zero_le _)
    rw [hheads] at hhead
    rw [List.flatMap_append, ← hunits]
    rcases hone with hnil | ⟨t, ht, hcode⟩
    · rw [hnil]
      exact Scanner.follow_tokenize lines (Nat.zero_le _)
    · have hspans : t.spans = [t.comment] := by simp [Token.spans, hcode]
      rw [ht, List.flatMap_singleton, hspans] at hhead ⊢
      obtain ⟨i, j, hi, hj, h0, hij, hjn⟩ := hhead
      have hstart : (([t].head?.bind (·.comment.last)).map (· + 1)).getD 0 = j + 1 := by simp [hj]
      rw [hstart]
      exact ⟨i, j, hi, hj, h0, hij, Scanner.follow_tokenize lines hjn⟩
  refine ⟨?_, ?_, ?_⟩
  · rintro p f rfl hlang rfl
    unfold Parser.tokens
    rw [hlang, hheader, hbody, ← hunits, ← hheads]
    rfl
  · rcases hone with hnil | ⟨t, ht, hcode⟩
    · exact .inl hnil
    · exact .inr ⟨t, ht, by simp [Token.spans, hcode]⟩
  · obtain ⟨rs, hmap, hin, hpair⟩ := hfollow.exists_ranges
    exact ⟨rs, hmap, fun r hr => (hin r hr).2, hpair, countP_ranges_le_one hpair⟩

/-- A header between delimiters, then one comment whose code goes on behind a blank line, and one without code. -/
theorem spans_in_order_gaps :
    let lines := ["/* a", "*/", "", "// b", "// c", "", "f", "", "g", "// d"]
    ∃ header body, Scanner.ofGrammar (.ofDelimiters "/*" "*/") 2 .header = .ok header ∧
      Scanner.ofGrammar (.ofSingle "//") 2 .body = .ok body ∧
      ∃ rs : List (Nat × Nat),
        ((header.tokenize lines 0 ++ body.tokenize lines 2).flatMap Token.spans).map (fun s => (s.first, s.last)) =
          rs.map (fun r => (some r.1, some r.2)) ∧
        rs.map (fun r => (some r.1, some r.2)) =
          [(some 0, some 1), (some 3, some 4), (some 6, some 8), (some 9, some 9)] ∧
        rs.Pairwise (fun a b => a.2 < b.1) := by
  intro lines
  have hheader : Scanner.ofGrammar (.ofDelimiters "/*" "*/") 2 .header =
      .ok ⟨.ofDelimiters "/*" "*/", 2, .header⟩ := rfl
  have hbody : Scanner.ofGrammar (.ofSingle "//") 2 .body = .ok ⟨.ofSingle "//", 2, .body⟩ := rfl
  obtain ⟨-, -, rs, hmap, -, hpair, -⟩ := spans_in_order hheader hbody lines rfl rfl
  exact ⟨_, _, hheader, hbody, rs, hmap, hmap.symm.trans (by decide +kernel), hpair⟩

end DocComments
