import DocComments.Parser
import DocComments.Proofs.Token.Scan

/-!
# Files without comments

A file whose text does not hold the markers of its language is not scanned at all. For a grammar with delimiters that
test asks for both of them, so it also turns away a file with a comment that is opened and never closed.

* `tokenize_eq_nil_iff`: when the markers do not appear, there are no tokens unless a comment is left open.
* `tokenize_leftOpen`: **what is left open is one comment up to the end of the file.**
* `unscanned_iff`: the files for which the shortcut loses nothing.
-/

namespace DocComments

variable {text : String} {lines : List String}

namespace Grammar

/-- A comment between delimiters is opened on some line. Blank lines do not count. -/
def leftOpen (g : Grammar) (lines : List String) : Bool :=
  g.isDelimited && lines.any fun l => ! Text.isBlank l && g.opens l

theorem isDelimited_eq (g : Grammar) :
    g.isDelimited = match g.shape with
      | .delimited _ _ => true
      | .lines _ => false := by
  unfold isDelimited shape
  cases g.opening <;> cases g.closing <;> rfl

end Grammar

/-- A marker that is nowhere in a text stands on no piece of it. -/
theorem findMarker_of_not_contains {m l : String} (h : Text.contains text m = false)
    (hl : l.toList <:+: text.toList) : findMarker l m = none := by
  cases hf : findMarker l m with
  | none => rfl
  | some k =>
    have hm : m.toList <:+: l.toList := by
      rw [line_eq_of_findMarker hf, String.toList_append, String.toList_append]
      exact ⟨k.before.toList, k.after.toList, rfl⟩
    rw [Text.contains_iff.2 (hm.trans hl)] at h
    cases h

/-- When the markers of a grammar do not appear, a line opens a comment only between delimiters of which the closing
one is nowhere. -/
theorem Grammar.closing_of_opens {g : Grammar} (h : g.appearsIn text = false) {l : String}
    (hl : l.toList <:+: text.toList) (ho : g.opens l = true) :
    ∃ o c, g.shape = .delimited o c ∧ Text.contains text c = false := by
  unfold Grammar.appearsIn at h
  unfold Grammar.opens at ho
  cases hs : g.shape with
  | delimited o c =>
    rw [hs] at h ho
    refine ⟨o, c, rfl, ?_⟩
    rcases Bool.and_eq_false_iff.1 h with hno | hno
    · dsimp only at ho
      rw [findMarker_of_not_contains hno hl] at ho
      cases ho
    · exact hno
  | lines m =>
    rw [hs] at h ho
    cases m with
    | none => cases ho
    | some m =>
      dsimp only [Option.bind_some] at ho
      rw [findMarker_of_not_contains h hl] at ho
      cases ho

namespace Scanner

variable {s : Scanner}

/-- Outside of comments a blank line is skipped too, whatever the markers are. -/
theorem scan_outside_silent {l : String} (h : (! Text.isBlank l && s.grammar.opens l) = false) (n : Nat)
    (ls : List String) : s.scan .outside n (l :: ls) = s.scan .outside (n + 1) ls := by
  cases hb : Text.isBlank l with
  | true => rw [scan_cons, step_blank hb]; rfl
  | false => exact scan_outside_skip (by simpa [hb] using h) n ls

theorem scan_outside_eq_nil {ls : List String} (h : ∀ l ∈ ls, (! Text.isBlank l && s.grammar.opens l) = false)
    (n : Nat) : s.scan .outside n ls = [] := by
  induction ls generalizing n with
  | nil => rfl
  | cons l ls ih =>
    rw [scan_outside_silent (h l List.mem_cons_self)]
    exact ih (fun x hx => h x (List.mem_cons_of_mem l hx)) (n + 1)

/-- A comment that no line closes runs to the last line. -/
theorem scan_unclosed {o e : String} (hs : s.grammar.shape = .delimited o e) {ls : List String}
    (h : ∀ l ∈ ls, findMarker l e = none) (c : OpenComment) (n : Nat) :
    ∃ t, s.scan (.inComment c) n ls = [t] ∧ t.comment.first = some c.first ∧
      t.comment.last = some (n + ls.length - 1) := by
  induction ls generalizing c n with
  | nil => exact ⟨_, rfl, rfl, rfl⟩
  | cons l ls ih =>
    -- whatever the line is, the comment stays open behind it
    have hstep : ∃ c', s.step (.inComment c) n l ls.head? = ([], .inComment c') ∧ c'.first = c.first := by
      cases hb : Text.isBlank l with
      | true =>
        rw [step_blank hb]
        simp only [stepBlank, hs]
        exact ⟨_, rfl, rfl⟩
      | false =>
        rw [step_inComment hb]
        simp only [continueComment, hs, h l List.mem_cons_self]
        exact ⟨_, rfl, rfl⟩
    obtain ⟨c', hc', hfirst⟩ := hstep
    obtain ⟨t, ht, htfirst, htlast⟩ := ih (fun x hx => h x (List.mem_cons_of_mem l hx)) c' (n + 1)
    refine ⟨t, ?_, htfirst.trans (by rw [hfirst]), ?_⟩
    · rw [scan_cons, hc']
      exact ht
    · rw [htlast, List.length_cons]
      congr 1
      omega

/-- The first line that opens a comment opens one that runs to the last line. -/
theorem scan_outside_unclosed (h : s.grammar.appearsIn text = false) {ls : List String}
    (hl : ∀ l ∈ ls, l.toList <:+: text.toList)
    (hopen : (ls.any fun l => ! Text.isBlank l && s.grammar.opens l) = true) (n : Nat) :
    ∃ t, s.scan .outside n ls = [t] ∧ t.comment.last = some (n + ls.length - 1) := by
  induction ls generalizing n with
  | nil => cases hopen
  | cons l ls ih =>
    have htail : ∀ x ∈ ls, x.toList <:+: text.toList := fun x hx => hl x (List.mem_cons_of_mem l hx)
    have hlen : n + (l :: ls).length - 1 = n + 1 + ls.length - 1 := by rw [List.length_cons]; omega
    rw [hlen]
    cases hlo : ! Text.isBlank l && s.grammar.opens l with
    | false =>
      rw [List.any_cons, hlo, Bool.false_or] at hopen
      rw [scan_outside_silent hlo]
      exact ih htail hopen (n + 1)
    | true =>
      obtain ⟨hb, ho⟩ := Bool.and_eq_true_iff.1 hlo
      have hin := hl l List.mem_cons_self
      obtain ⟨o, e, hs, hclose⟩ := Grammar.closing_of_opens h hin ho
      simp only [Grammar.opens, hs] at ho
      obtain ⟨k, hk⟩ := Option.isSome_iff_exists.1 ho
      have hafter : findMarker k.after e = none :=
        findMarker_of_not_contains hclose ((after_isInfix hk).trans hin)
      have hrest : ∀ x ∈ ls, findMarker x e = none := fun x hx => findMarker_of_not_contains hclose (htail x hx)
      rw [scan_cons, step_outside (by simpa using hb)]
      simp only [open?, hs, hk, hafter, Option.map_some, Option.getD_some, List.nil_append]
      obtain ⟨t, ht, -, hlast⟩ := scan_unclosed hs hrest
        { first := n, indent := Text.indent l, lines := [s.inner k.after] } (n + 1)
      exact ⟨t, ht, hlast⟩

/-- **A comment that is left open is the only one**, and it runs to the end of the file. -/
theorem tokenize_leftOpen (h : s.grammar.appearsIn text = false) (hl : ∀ l ∈ lines, l.toList <:+: text.toList)
    (hopen : s.grammar.leftOpen lines = true) :
    ∃ t, s.tokenize lines 0 = [t] ∧ t.comment.last = some (lines.length - 1) := by
  obtain ⟨t, ht, hlast⟩ := scan_outside_unclosed h hl (Bool.and_eq_true_iff.1 hopen).2 0
  exact ⟨t, ht, by rw [hlast, Nat.zero_add]⟩

/-- **Without the markers there are no tokens**, unless a comment is left open. -/
theorem tokenize_eq_nil_iff (h : s.grammar.appearsIn text = false) (hl : ∀ l ∈ lines, l.toList <:+: text.toList) :
    s.tokenize lines 0 = [] ↔ s.grammar.leftOpen lines = false := by
  constructor
  · intro hnil
    by_contra hopen
    obtain ⟨t, ht, -⟩ := tokenize_leftOpen h hl (by simpa using hopen)
    rw [ht] at hnil
    cases hnil
  · intro hopen
    apply scan_outside_eq_nil
    intro l hmem
    have hmem' : l ∈ lines := List.mem_of_mem_drop hmem
    by_contra hlo
    have hlo' : (! Text.isBlank l && s.grammar.opens l) = true := by simpa using hlo
    -- a line that opens a comment without its markers in the text opens one between delimiters
    obtain ⟨o, e, hs, -⟩ := Grammar.closing_of_opens h (hl l hmem') (Bool.and_eq_true_iff.1 hlo').2
    have hany : (lines.any fun l => ! Text.isBlank l && s.grammar.opens l) = true :=
      List.any_eq_true.2 ⟨l, hmem', hlo'⟩
    rw [Grammar.leftOpen, Grammar.isDelimited_eq, hs, hany] at hopen
    cases hopen

end Scanner

theorem SourceFile.isInfix_of_mem_lines {f : SourceFile} {l : String} (h : l ∈ f.lines) :
    l.toList <:+: f.contents.toList :=
  Text.isInfix_of_mem_splitOnChar h

namespace Parser

/-- The tokens of a file whose grammars can be scanned. -/
theorem tokens_of_scannable (p : Parser) {f : SourceFile} (hh : f.language.header.Scannable)
    (hb : f.language.body.Scannable) :
    p.tokens f =
      let header := Scanner.tokenize ⟨f.language.header, max p.config.blankLines 1, .header⟩ f.lines 0
      .ok (header, Scanner.tokenize ⟨f.language.body, max p.config.blankLines 1, .body⟩ f.lines
        (((header.head?.bind (·.comment.last)).map (· + 1)).getD 0)) := by
  unfold tokens
  rw [Scanner.ofGrammar_of_scannable hh, Scanner.ofGrammar_of_scannable hb]
  rfl

/-- **When the shortcut loses nothing.** A file without the markers of its language has no tokens exactly when it
leaves no comment between delimiters open, and then its documentation is empty whether it is scanned or not. -/
theorem unscanned_iff (p : Parser) {f : SourceFile} (hh : f.language.header.Scannable)
    (hb : f.language.body.Scannable) (h : f.language.appearsIn f.contents = false) :
    (p.tokens f = .ok ([], []) ↔
      f.language.header.leftOpen f.lines = false ∧ f.language.body.leftOpen f.lines = false) ∧
    (f.language.header.leftOpen f.lines = false → f.language.body.leftOpen f.lines = false →
      (p.parseBlocks f).2 = (p.parseAll f).2 ∧ (p.parseAll f).2 = .ok {}) := by
  obtain ⟨hheader, hbody⟩ := Bool.or_eq_false_iff.1 h
  have hl : ∀ l ∈ f.lines, l.toList <:+: f.contents.toList := fun l => SourceFile.isInfix_of_mem_lines
  have hhead := Scanner.tokenize_eq_nil_iff (s := ⟨f.language.header, max p.config.blankLines 1, .header⟩) hheader hl
  have hbod := Scanner.tokenize_eq_nil_iff (s := ⟨f.language.body, max p.config.blankLines 1, .body⟩) hbody hl
  have htokens : p.tokens f = .ok ([], []) ↔
      f.language.header.leftOpen f.lines = false ∧ f.language.body.leftOpen f.lines = false := by
    rw [tokens_of_scannable p hh hb, ← hhead, ← hbod]
    simp only [Except.ok.injEq, Prod.mk.injEq]
    constructor
    · rintro ⟨h1, h2⟩
      rw [h1] at h2
      exact ⟨h1, h2⟩
    · rintro ⟨h1, h2⟩
      rw [h1]
      exact ⟨rfl, h2⟩
  refine ⟨htokens, fun h1 h2 => ?_⟩
  have hall : (p.parseAll f).2 = .ok {} := by
    unfold parseAll
    rw [h]
    rfl
  refine ⟨?_, hall⟩
  rw [hall, parseBlocks, htokens.2 ⟨h1, h2⟩]
  rfl

/-- A text in which an opening delimiter stands, but not free: it opens nothing. -/
theorem unscanned_bound_opener :
    ∃ f : SourceFile, f.language.header.Scannable ∧ f.language.body.Scannable ∧
      f.language.appearsIn f.contents = false ∧ Text.contains f.contents "/**" = true ∧
      ∀ p : Parser, p.tokens f = .ok ([], []) := by
  let f : SourceFile := ⟨"a.css", "a /**b\nc", ⟨.ofDelimiters "/***" "***/", .ofDelimiters "/**" "**/"⟩⟩
  have hh : f.language.header.Scannable := ⟨rfl, rfl⟩
  have hb : f.language.body.Scannable := ⟨rfl, rfl⟩
  have h : f.language.appearsIn f.contents = false := by decide +kernel
  refine ⟨f, hh, hb, h, by decide +kernel, fun p => ?_⟩
  exact (unscanned_iff p hh hb h).1.2 ⟨by decide +kernel, by decide +kernel⟩

/-- A comment that is opened and never closed has a block, but the file counts as one without documentation. -/
theorem unscanned_leftOpen :
    ∃ (p : Parser) (f : SourceFile), f.language.header.Scannable ∧ f.language.body.Scannable ∧
      f.language.appearsIn f.contents = false ∧ p.tokens f ≠ .ok ([], []) ∧
      (p.parseBlocks f).2.toOption.map (·.body.length) = some 1 ∧
      (p.parseAll f).2.toOption.map (·.body.length) = some 0 := by
  let l : Language := ⟨.ofDelimiters "/***" "***/", .ofDelimiters "/**" "**/"⟩
  exact ⟨⟨Registry.builtin, {}, ⟨l, ∅⟩⟩, ⟨"a.css", "/** @name Foo", l⟩, ⟨rfl, rfl⟩, ⟨rfl, rfl⟩, by decide +kernel,
    by decide +kernel, by decide +kernel, by decide +kernel⟩

end Parser

end DocComments
