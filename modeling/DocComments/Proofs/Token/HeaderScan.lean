import DocComments.Proofs.Token.Disjoint

/-!
# The header is the first comment

A header scan and a body scan of one grammar are in the same phase at every line up to the end of the first comment.
From there on they part: the limits on blank lines may differ, only the body scan takes code, and the header scan stops.
What closes the token and when does not matter, since a comment that has ended is not changed any more.

* `step_congr`: before a comment has ended, a line does the same in both scans, and it gives no token.
* `step_behind_cases`: behind a comment, a line leaves the comment as it is.
* `comment_scan`: **the first comments of two scans of one grammar are the same**, whatever the kinds and limits.
* `tokenize_header`: the tokens of a header scan, from those of a body scan.
-/

namespace DocComments

namespace Scanner

variable {s s' : Scanner}

/-- The comment of a token that waits for its code to end. -/
def Pending.span (u : Pending) : Span :=
  .ofLines (some u.comment.first) (some u.last) u.comment.lines.reverse

theorem comment_close (u : Pending) : (s.close u).comment = u.span := rfl

/-- No comment has ended yet. -/
def Phase.Early : Phase → Prop
  | .outside => True
  | .inComment _ => True
  | .behind _ => False
  | .done => False

/-! ## One line -/

/-- Where a comment opens and what it holds is a matter of the grammar. -/
theorem open?_congr (hg : s.grammar = s'.grammar) (n : Nat) (text : String) (next : Option String) :
    s.open? n text next = s'.open? n text next := by
  unfold open? goOn inner hasSingle
  rw [hg]

theorem continueComment_congr (hg : s.grammar = s'.grammar) (c : OpenComment) (n : Nat) (text : String)
    (next : Option String) : s.continueComment c n text next = s'.continueComment c n text next := by
  unfold continueComment goOn inner behindSingle hasSingle
  rw [hg]

theorem ne_done_of_cases {c : OpenComment} {n : Nat} {p : Phase}
    (h : p = .inComment c ∨ p = .behind { comment := c, last := n }) : p ≠ .done := by
  rcases h with rfl | rfl
  · nofun
  · nofun

/-- **Before a comment has ended**, a line does the same in both scans, and it gives no token. -/
theorem step_congr (hg : s.grammar = s'.grammar) {p : Phase} (hp : p.Early) (n : Nat) (text : String)
    (next : Option String) :
    s.step p n text next = s'.step p n text next ∧ (s.step p n text next).1 = [] ∧
      (s.step p n text next).2 ≠ .done := by
  cases hb : Text.isBlank text with
  | true =>
    rw [step_blank hb, step_blank hb]
    cases p with
    | outside => exact ⟨rfl, rfl, nofun⟩
    | inComment c =>
      unfold stepBlank
      rw [hg]
      cases s'.grammar.shape with
      | delimited o e => exact ⟨rfl, rfl, nofun⟩
      | lines m => exact ⟨rfl, rfl, nofun⟩
    | behind u => exact hp.elim
    | done => exact hp.elim
  | false =>
    cases p with
    | outside =>
      rw [step_outside hb, step_outside hb, open?_congr hg]
      refine ⟨rfl, rfl, ?_⟩
      cases ho : s'.open? n text next with
      | none => exact nofun
      | some p =>
        obtain ⟨c, -, hcases⟩ := open?_cases ho
        exact ne_done_of_cases hcases
    | inComment c =>
      rw [step_inComment hb, step_inComment hb, continueComment_congr hg]
      refine ⟨rfl, rfl, ?_⟩
      obtain ⟨c', -, hcases⟩ := continueComment_cases (s := s') c n text next
      exact ne_done_of_cases hcases
    | behind u => exact hp.elim
    | done => exact hp.elim

/-- **Behind a comment**, a line leaves the comment as it is: the token is closed with it, or it goes on waiting. -/
theorem step_behind_cases (u : Pending) (n : Nat) (text : String) (next : Option String) :
    (∃ u' : Pending, s.step (.behind u) n text next = ([], .behind u') ∧ u'.span = u.span) ∨
      ∃ u' : Pending, (s.step (.behind u) n text next).1 = [s.close u'] ∧ u'.span = u.span := by
  cases hb : Text.isBlank text with
  | true =>
    rw [step_blank hb]
    unfold stepBlank
    dsimp only
    split
    · exact .inr ⟨_, rfl, rfl⟩
    · exact .inl ⟨_, rfl, rfl⟩
  | false =>
    rw [step_behind hb]
    split
    · exact .inr ⟨u, rfl, rfl⟩
    · unfold stepCode
      split
      · exact .inr ⟨u, rfl, rfl⟩
      · split
        · exact .inr ⟨u, rfl, rfl⟩
        · exact .inl ⟨_, rfl, rfl⟩

/-! ## A whole scan -/

/-- Behind a comment, the next token is that of the comment. -/
theorem comment_scan_behind (u : Pending) (n : Nat) (ls : List String) :
    (s.scan (.behind u) n ls).head?.map Token.comment = some u.span := by
  induction ls generalizing u n with
  | nil => rfl
  | cons l ls ih =>
    rw [scan_cons]
    rcases step_behind_cases (s := s) u n l ls.head? with ⟨u', hstep, hspan⟩ | ⟨u', htokens, hspan⟩
    · rw [hstep, List.nil_append, ih, hspan]
    · rw [htokens, List.singleton_append, List.head?_cons, Option.map_some, comment_close, hspan]

/-- **The first comments of two scans of one grammar are the same**, whatever their kinds and limits. -/
theorem comment_scan (hg : s.grammar = s'.grammar) {p : Phase} (hp : p.Early) (n : Nat) (ls : List String) :
    (s.scan p n ls).head?.map Token.comment = (s'.scan p n ls).head?.map Token.comment := by
  induction ls generalizing p n with
  | nil =>
    cases p with
    | outside => rfl
    | inComment c => rfl
    | behind u => exact hp.elim
    | done => exact hp.elim
  | cons l ls ih =>
    obtain ⟨hsame, hnil, hdone⟩ := step_congr hg hp n l ls.head?
    rw [scan_cons, scan_cons, ← hsame, hnil, List.nil_append, List.nil_append]
    -- the comment has ended on this line, or both scans go on in one phase
    cases hphase : (s.step p n l ls.head?).2 with
    | outside => exact ih (p := .outside) trivial (n + 1)
    | inComment c => exact ih (p := .inComment c) trivial (n + 1)
    | behind u => rw [comment_scan_behind, comment_scan_behind]
    | done => exact absurd hphase hdone

end Scanner

/-- **The header is the first comment of the body.** Whatever the two limits on blank lines are and wherever the scans start,
a header scan has a token exactly when a body scan of the same grammar has one. It has one only: that of the first
comment of the body scan, without code. -/
theorem tokenize_header {g : Grammar} {headerLimit bodyLimit : Nat} {header body : Scanner}
    (hheader : Scanner.ofGrammar g headerLimit .header = .ok header)
    (hbody : Scanner.ofGrammar g bodyLimit .body = .ok body) (lines : List String) (start : Nat) :
    header.tokenize lines start =
      ((body.tokenize lines start).head?.map fun t =>
        { kind := .header, comment := t.comment,
          code := { contents := [], first := none, last := none, offset := 0 } }).toList := by
  have hkind : header.kind = .header := by rw [Scanner.eq_of_ofGrammar hheader]
  have hgrammar : header.grammar = body.grammar := by
    rw [Scanner.eq_of_ofGrammar hheader, Scanner.eq_of_ofGrammar hbody]
  have hfirst : (header.tokenize lines start).head?.map Token.comment =
      (body.tokenize lines start).head?.map Token.comment :=
    Scanner.comment_scan hgrammar (p := .outside) trivial start (lines.drop start)
  have hone : header.tokenize lines start = [] ∨ ∃ t, header.tokenize lines start = [t] ∧ t.code = {} :=
    Scanner.scan_header hkind (p := .outside) trivial start (lines.drop start)
  rcases hone with hnil | ⟨t, ht, hcode⟩
  · rw [hnil] at hfirst ⊢
    rw [Option.map_eq_none_iff.1 hfirst.symm]
    rfl
  · have hmem : t ∈ header.tokenize lines start := by rw [ht]; exact List.mem_singleton_self t
    have htkind : t.kind = .header := (Scanner.kind_of_mem_scan hmem).trans hkind
    rw [ht] at hfirst ⊢
    obtain ⟨b, hb, hcomment⟩ := Option.map_eq_some_iff.1 hfirst.symm
    rw [hb, Option.map_some, Option.toList_some, hcomment, ← htkind]
    cases t
    dsimp only at hcode
    rw [hcode]

/-- The header scan ends at the first blank line, where the body scan goes on to code and to a second comment. -/
theorem tokenize_header_early :
    let lines := ["// a", "  // b", "  //", "  // c", "", "  f", "// d"]
    ∃ header body, Scanner.ofGrammar (.ofSingle "//") 0 .header = .ok header ∧
      Scanner.ofGrammar (.ofSingle "//") 3 .body = .ok body ∧ (body.tokenize lines 1).length = 2 ∧
      header.tokenize lines 1 =
        [{ kind := .header, comment := { contents := ["b", "", "c"], first := some 1, last := some 3, offset := 0 },
           code := { contents := [], first := none, last := none, offset := 0 } }] := by
  intro lines
  have hheader : Scanner.ofGrammar (.ofSingle "//") 0 .header = .ok ⟨.ofSingle "//", 1, .header⟩ := rfl
  have hbody : Scanner.ofGrammar (.ofSingle "//") 3 .body = .ok ⟨.ofSingle "//", 3, .body⟩ := rfl
  refine ⟨_, _, hheader, hbody, by decide +kernel, ?_⟩
  rw [tokenize_header hheader hbody lines 1]
  decide +kernel

end DocComments
