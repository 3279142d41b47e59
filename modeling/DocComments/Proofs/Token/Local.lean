import DocComments.Proofs.Text.NormalForm
import DocComments.Proofs.Token.Disjoint
import DocComments.Proofs.Token.Shift

/-!
# Blank lines part a scan

As many blank lines as end a run of code part the lines before them from those behind: nothing that the scanner knows
outlives them. The lines before end the same way as at the end of a file, and the lines behind are scanned as if they
were a file of their own. Only a comment between delimiters may run over blank lines.

* `run`: the scan of some lines, up to what is open behind them.
* `scan_append`: a scan is the run over its first lines and the scan of the others.
* `run_next`: a blank line that comes next changes nothing about a run.
* `scan_blanks`: **behind the blank lines the scan starts anew.**
* `tokenize_parted`: the tokens of two files with the blank lines between them.
-/

namespace DocComments

namespace Scanner

variable {s : Scanner} {p : Phase} {n : Nat} {l : String}

/-- The tokens that end on some lines, and what is open behind them, when the line `next` comes next. -/
def run (s : Scanner) : Phase → Nat → List String → Option String → List Token × Phase
  | p, _, [], _ => ([], p)
  | p, n, l :: ls, next =>
    let here := s.step p n l (ls.head?.or next)
    let later := run s here.2 (n + 1) ls next
    (here.1 ++ later.1, later.2)

/-- The lines end inside a comment that none of them closes. -/
def EndsOpen (s : Scanner) (lines : List String) : Prop :=
  ∃ c, (s.run .outside 0 lines none).2 = .inComment c

theorem run_cons (p : Phase) (n : Nat) (l : String) (ls : List String) (next : Option String) :
    s.run p n (l :: ls) next =
      ((s.step p n l (ls.head?.or next)).1 ++ (s.run (s.step p n l (ls.head?.or next)).2 (n + 1) ls next).1,
        (s.run (s.step p n l (ls.head?.or next)).2 (n + 1) ls next).2) := rfl

/-- **A scan is the run over its first lines and the scan of the others.** -/
theorem scan_append (p : Phase) (n : Nat) (ls more : List String) :
    s.scan p n (ls ++ more) =
      (s.run p n ls more.head?).1 ++ s.scan (s.run p n ls more.head?).2 (n + ls.length) more := by
  induction ls generalizing p n with
  | nil => rfl
  | cons l ls ih =>
    rw [List.cons_append, scan_cons, List.head?_append, ih, run_cons, List.append_assoc, List.length_cons,
      Nat.add_assoc n, Nat.add_comm 1]

theorem scan_eq_run (p : Phase) (n : Nat) (ls : List String) :
    s.scan p n ls = (s.run p n ls none).1 ++ s.finish (s.run p n ls none).2 (n + ls.length) := by
  have h := scan_append (s := s) p n ls []
  rwa [List.append_nil] at h

/-! ## The line that comes next -/

theorem goOn_next {next next' : Option String} (h : next.any s.hasSingle = next'.any s.hasSingle) (c : OpenComment)
    (n : Nat) : s.goOn c n next = s.goOn c n next' := by
  unfold goOn
  rw [h]

/-- Of the line that comes next, a line only asks whether it has the marker. -/
theorem step_next {next next' : Option String} (h : next.any s.hasSingle = next'.any s.hasSingle) (p : Phase) (n : Nat)
    (l : String) : s.step p n l next = s.step p n l next' := by
  have hopen : s.open? n l next = s.open? n l next' := by
    unfold open?
    simp only [goOn_next h]
  have hcontinue : ∀ c, s.continueComment c n l next = s.continueComment c n l next' := by
    intro c
    unfold continueComment
    simp only [goOn_next h]
  unfold step
  simp only [hopen, hcontinue]

theorem run_next {next next' : Option String} (h : next.any s.hasSingle = next'.any s.hasSingle) (p : Phase) (n : Nat)
    (ls : List String) : s.run p n ls next = s.run p n ls next' := by
  induction ls generalizing p n with
  | nil => rfl
  | cons l ls ih =>
    have hnext : (ls.head?.or next).any s.hasSingle = (ls.head?.or next').any s.hasSingle := by
      cases ls with
      | nil => exact h
      | cons l' ls => rfl
    rw [run_cons, run_cons, step_next hnext, ih]

theorem hasSingle_blank (hv : s.grammar.Visible) (h : Text.isBlank l = true) : s.hasSingle l = false := by
  unfold hasSingle
  cases hm : s.grammar.single with
  | none => rfl
  | some m => rw [Option.bind_some, findMarker_of_blank (hv.single m hm) h]; rfl

/-! ## What is open behind some lines -/

/-- Code that has begun has a line that is not blank. -/
def Pending.Filled (u : Pending) : Prop :=
  u.codeFirst.isSome = true → ∃ l ∈ u.code, Text.isBlank l = false

/-- What can be open in the body of a file before the line `next`: a comment between delimiters, a comment of the line
form that goes on there, or a closed comment with its code. -/
def Settled (s : Scanner) (next : Option String) : Phase → Prop
  | .outside => True
  | .inComment _ => s.grammar.isDelimited = true ∨ next.any s.hasSingle = true
  | .behind u => u.Filled
  | .done => False

variable {next : Option String}

theorem filled_of_codeFirst {u : Pending} (h : u.codeFirst = none) : u.Filled := by
  intro hsome
  rw [h] at hsome
  cases hsome

theorem isDelimited_of_shape {g : Grammar} {o e : String} (h : g.shape = .delimited o e) : g.isDelimited = true := by
  obtain ⟨ho, he⟩ := Grammar.shape_delimited h
  rw [Grammar.isDelimited, ho, he]
  rfl

theorem settled_goOn (c : OpenComment) (n : Nat) : s.Settled next (s.goOn c n next) := by
  unfold goOn
  split
  · next hany => exact .inr hany
  · exact filled_of_codeFirst rfl

theorem settled_open? {q : Phase} (h : s.open? n l next = some q) : s.Settled next q := by
  unfold open? at h
  cases hs : s.grammar.shape with
  | delimited o e =>
    rw [hs] at h
    obtain ⟨k, -, rfl⟩ := Option.map_eq_some_iff.1 h
    dsimp only
    split
    · exact filled_of_codeFirst rfl
    · exact .inl (isDelimited_of_shape hs)
  | lines m =>
    rw [hs] at h
    obtain ⟨k, -, rfl⟩ := Option.map_eq_some_iff.1 h
    exact settled_goOn _ n

theorem settled_continueComment (c : OpenComment) : s.Settled next (s.continueComment c n l next) := by
  unfold continueComment
  cases hs : s.grammar.shape with
  | delimited o e =>
    dsimp only
    split
    · exact filled_of_codeFirst rfl
    · exact .inl (isDelimited_of_shape hs)
  | lines m => exact settled_goOn _ n

theorem Pending.Filled.blank {u : Pending} (h : u.Filled) (b : Nat) :
    Pending.Filled { u with code := if u.codeFirst.isSome then "" :: u.code else u.code, blanks := b } := by
  intro hsome
  have hsome : u.codeFirst.isSome = true := hsome
  obtain ⟨l, hl, hb⟩ := h hsome
  refine ⟨l, ?_, hb⟩
  dsimp only
  rw [if_pos hsome]
  exact List.mem_cons_of_mem _ hl

theorem settled_stepBlank (hv : s.grammar.Visible) (hk : s.kind = .body) (hb : Text.isBlank l = true)
    (h : s.Settled (some l) p) : s.Settled next (s.stepBlank p).2 := by
  cases p with
  | outside => trivial
  | done => exact h.elim
  | inComment c =>
    rcases h with hdelimited | hsingle
    · unfold stepBlank
      dsimp only
      split
      · exact .inl hdelimited
      · exact .inl hdelimited
    · -- the line would go on with the comment, but a blank line has no marker
      rw [Option.any_some, hasSingle_blank hv hb] at hsingle
      cases hsingle
  | behind u =>
    have hu : u.Filled := h
    unfold stepBlank rest
    rw [hk]
    dsimp only
    split
    · trivial
    · exact hu.blank _

theorem settled_stepCode (hk : s.kind = .body) (hb : Text.isBlank l = false) {u : Pending} :
    s.Settled next (s.stepCode u n l).2 := by
  unfold stepCode
  rw [hk]
  dsimp only
  split
  · trivial
  · exact fun _ => ⟨l, List.mem_cons_self, hb⟩

/-- What a line leaves open. -/
theorem settled_step (hv : s.grammar.Visible) (hk : s.kind = .body) (h : s.Settled (some l) p) :
    s.Settled next (s.step p n l next).2 := by
  cases hb : Text.isBlank l with
  | true =>
    rw [step_blank hb]
    exact settled_stepBlank hv hk hb h
  | false =>
    have houtside : s.Settled next (s.step .outside n l next).2 := by
      rw [step_outside hb]
      cases ho : s.open? n l next with
      | none => trivial
      | some q => exact settled_open? ho
    cases p with
    | outside => exact houtside
    | done => exact h.elim
    | inComment c =>
      rw [step_inComment hb]
      exact settled_continueComment c
    | behind u =>
      rw [step_behind hb, rest, hk]
      split
      · exact houtside
      · exact settled_stepCode hk hb

/-- **What some lines leave open.** -/
theorem settled_run (hv : s.grammar.Visible) (hk : s.kind = .body) {ls : List String}
    (h : s.Settled (ls.head?.or next) p) : s.Settled next (s.run p n ls next).2 := by
  induction ls generalizing p n with
  | nil => exact h
  | cons l ls ih =>
    rw [run_cons]
    exact ih (settled_step hv hk h)

/-! ## Blank lines behind a comment and its code -/

/-- A blank line behind the code leaves no trace in the token. -/
theorem close_blank {u : Pending} (h : u.Filled) (b : Nat) :
    s.close { u with code := if u.codeFirst.isSome then "" :: u.code else u.code, blanks := b } = s.close u := by
  cases hfirst : u.codeFirst.isSome with
  | false => rfl
  | true =>
    obtain ⟨l, hl, hb⟩ := h hfirst
    have hblank : ∀ x ∈ [""], Text.isBlank x = true := fun x hx => by rw [List.mem_singleton.1 hx]; rfl
    have hoffset : (u.code.reverse ++ [""]).takeWhile Text.isBlank = u.code.reverse.takeWhile Text.isBlank := by
      rw [List.takeWhile_append, if_neg]
      intro hlen
      have hall : u.code.reverse.takeWhile Text.isBlank = u.code.reverse :=
        (List.takeWhile_prefix _).eq_of_length hlen
      have hline := List.takeWhile_eq_self_iff.1 hall l (List.mem_reverse.2 hl)
      rw [hb] at hline
      cases hline
    have hcode : Span.ofLines u.codeFirst u.codeLast (u.code.reverse ++ [""]) =
        Span.ofLines u.codeFirst u.codeLast u.code.reverse := by
      unfold Span.ofLines
      rw [Text.normalize_append_blank hblank, hoffset]
    unfold close
    rw [if_pos rfl, List.reverse_cons, hcode]

/-- Blank lines that reach the limit close a comment as it is. -/
theorem close_gather_blanks {u : Pending} (h : u.Filled) {b : Nat} (hpos : 0 < b) (hlimit : s.blankLimit ≤ u.blanks + b)
    (n : Nat) (more : List String) : s.close (s.gather u n (List.replicate b "" ++ more)) = s.close u := by
  induction b generalizing u n with
  | zero => exact absurd hpos (Nat.lt_irrefl 0)
  | succ b ih =>
    have hblank : Text.isBlank "" = true := rfl
    rw [List.replicate_succ, List.cons_append, gather, if_pos hblank]
    dsimp only
    split
    · exact close_blank h _
    · next hmore =>
      rw [ih (h.blank _) (by omega) (by dsimp only; omega)]
      exact close_blank h _

/-- **Behind the blank lines the scan starts anew.** -/
theorem scan_blanks (hv : s.grammar.Visible) (hk : s.kind = .body) (hpos : 0 < s.blankLimit)
    (h : s.Settled none p) (hopen : ∀ c, p ≠ .inComment c) (n : Nat) (more : List String) :
    s.scan p n (List.replicate s.blankLimit "" ++ more) =
      s.finish p n ++ s.scan .outside (n + s.blankLimit) more := by
  have hskip : s.scan .outside n (List.replicate s.blankLimit "" ++ more) =
      s.scan .outside (n + s.blankLimit) more := by
    have hblank : ∀ l ∈ List.replicate s.blankLimit "", s.grammar.opens l = false := by
      intro l hl
      exact hv.opens_blank (by rw [List.eq_of_mem_replicate hl]; rfl)
    rw [scan_outside_append hblank, List.length_replicate]
  cases p with
  | outside => exact hskip
  | done => exact h.elim
  | inComment c => exact absurd rfl (hopen c)
  | behind u =>
    rw [scan_behind hv, close_gather_blanks h hpos (Nat.le_add_left _ _), rest, hk]
    exact congrArg _ hskip

end Scanner

/-- **Scanning is local.** Two files with blank lines between them, as many as end a run of code, have the tokens of the
first one and those of the second one further down, unless the first one ends inside a comment between delimiters. -/
theorem tokenize_parted {g : Grammar} {blankLines : Nat} {s : Scanner}
    (hs : Scanner.ofGrammar g blankLines .body = .ok s) (hv : s.grammar.Visible) (A C : List String)
    (hA : s.grammar.isDelimited = true → ¬ s.EndsOpen A) :
    s.tokenize (A ++ List.replicate (max blankLines 1) "" ++ C) 0 =
      s.tokenize A 0 ++ (s.tokenize C 0).map (·.shift (A.length + max blankLines 1)) := by
  have hk : s.kind = .body := by rw [Scanner.eq_of_ofGrammar hs]
  have hlimit : max blankLines 1 = s.blankLimit := by rw [Scanner.eq_of_ofGrammar hs]
  have hpos : 0 < s.blankLimit := by omega
  have hsettled : s.Settled none (s.run .outside 0 A none).2 := Scanner.settled_run hv hk trivial
  have hopen : ∀ c, (s.run .outside 0 A none).2 ≠ .inComment c := by
    intro c hc
    rw [hc] at hsettled
    rcases hsettled with hdelimited | hnext
    · exact hA hdelimited ⟨c, hc⟩
    · cases hnext
  -- the first blank line is what comes next behind the first file
  have hnext : s.run .outside 0 A (List.replicate s.blankLimit "" ++ C).head? = s.run .outside 0 A none := by
    refine Scanner.run_next ?_ _ _ _
    obtain ⟨b, hb⟩ := Nat.exists_eq_succ_of_ne_zero hpos.ne'
    rw [hb, List.replicate_succ, List.cons_append, List.head?_cons, Option.any_some,
      Scanner.hasSingle_blank hv rfl]
    rfl
  have hshift := Scanner.scan_shift (s := s) (p := .outside) (n := 0) (by rintro c ⟨⟩) (A.length + s.blankLimit) C
  rw [hlimit]
  calc s.tokenize (A ++ List.replicate s.blankLimit "" ++ C) 0
    _ = s.scan .outside 0 (A ++ (List.replicate s.blankLimit "" ++ C)) := by rw [← List.append_assoc]; rfl
    _ = (s.run .outside 0 A none).1 ++
          s.scan (s.run .outside 0 A none).2 (0 + A.length) (List.replicate s.blankLimit "" ++ C) := by
        rw [Scanner.scan_append, hnext]
    _ = (s.run .outside 0 A none).1 ++ (s.finish (s.run .outside 0 A none).2 (0 + A.length) ++
          s.scan .outside (0 + A.length + s.blankLimit) C) := by
        rw [Scanner.scan_blanks hv hk hpos hsettled hopen]
    _ = s.scan .outside 0 A ++ s.scan .outside (0 + (A.length + s.blankLimit)) C := by
        rw [Scanner.scan_eq_run .outside 0 A, List.append_assoc, Nat.add_assoc]
    _ = s.tokenize A 0 ++ (s.tokenize C 0).map (·.shift (A.length + s.blankLimit)) := by
        exact congrArg (s.scan .outside 0 A ++ ·) hshift

/-- The code of the first comment ends with one blank line of its own. The two that follow end it, and the second comment
is where it would be in a file of its own, six lines further down. -/
theorem tokenize_parted_delimited :
    ∃ s, Scanner.ofGrammar (.ofDelimiters "/*" "*/") 2 .body = .ok s ∧ s.grammar.Visible ∧
      ¬ s.EndsOpen ["/* a", "*/", "b", ""] ∧
      s.tokenize ["/* a", "*/", "b", "", "", "", "c", "/* d */"] 0 =
        s.tokenize ["/* a", "*/", "b", ""] 0 ++ [⟨.body, ⟨["d"], some 7, some 7, 0⟩, {}⟩] := by
  have hv : (Grammar.ofDelimiters "/*" "*/").cleaned.Visible := ⟨by decide, by decide, by decide⟩
  have hs : Scanner.ofGrammar (.ofDelimiters "/*" "*/") 2 .body =
      .ok ⟨(Grammar.ofDelimiters "/*" "*/").cleaned, 2, .body⟩ := rfl
  have hopen : ¬ Scanner.EndsOpen ⟨(Grammar.ofDelimiters "/*" "*/").cleaned, 2, .body⟩ ["/* a", "*/", "b", ""] := by
    rintro ⟨c, hc⟩
    cases hc
  have h := tokenize_parted hs hv ["/* a", "*/", "b", ""] ["c", "/* d */"] fun _ => hopen
  exact ⟨_, hs, hv, hopen, h.trans (congrArg _ (by decide))⟩

end DocComments
