import Mathlib.Order.Bounds.Basic
import DocComments.Proofs.Token.Blocks

/-!
# The code that belongs to a comment

Three rules end the code behind a comment: the next comment, a line with less indent than the comment, and too many
blank lines in a row. The scanner applies them line by line; `CodeOf` says what comes out of it, by the lines of the
file alone.

* `Starts`: the line where code starts, if there is one.
* `Reaches`: how far code may reach. **It ends on the last line that it reaches.**
* `Gathered`: what the scanner knows on its way, with a step lemma for each kind of line.
* `Gathered.codeOf`: what it has gathered where it stops is the code of the comment.
-/

namespace DocComments

open Text (blankOut isBlank_blankOut normalize)

/-- Whether there is a line `i` and it is not blank. -/
def solidAt (lines : List String) (i : Nat) : Bool :=
  lines[i]?.any (! Text.isBlank ·)

/-- The indent of the line `i`. -/
def indentAt (lines : List String) (i : Nat) : Nat :=
  Text.indent (lines.getD i "")

/-- The code of a comment that ends on the line `e` starts on the line `f`: the first line that is not blank, before the
line `n`, with fewer than `B` blank lines above it and at least the indent `d`. -/
structure Starts (lines : List String) (B d e n f : Nat) : Prop where
  gt : e < f
  lt : f < n
  solid : solidAt lines f = true
  blank : ∀ j, e < j → j < f → solidAt lines j = false
  near : f - e - 1 < B
  indent : d ≤ indentAt lines f

/-- Code that starts on the line `f` may reach the line `g`: that line is not blank and comes before the line `n`, no
line up to it has less indent than `d`, unless it is blank, and there are no `B` blank lines in a row. -/
structure Reaches (lines : List String) (B d n f g : Nat) : Prop where
  le : f ≤ g
  lt : g < n
  solid : solidAt lines g = true
  indent : ∀ j, f ≤ j → j ≤ g → solidAt lines j = true → d ≤ indentAt lines j
  runs : ∀ j, f ≤ j → j + B ≤ g + 1 → ∃ k < B, solidAt lines (j + k) = true

/-- A span is the code of a comment with the indent `d` that ends on the line `e`, when the next comment starts on the
line `n`. -/
structure CodeOf (lines : List String) (B d e n : Nat) (code : Span) : Prop where
  isSome_iff : code.first.isSome = true ↔ ∃ f, Starts lines B d e n f
  span : ∀ f, Starts lines B d e n f → ∃ g, IsGreatest {g | Reaches lines B d n f g} g ∧
    code = { contents := normalize ((lines.take (g + 1)).drop f), first := some f, last := some g, offset := 0 }
  empty : (¬ ∃ f, Starts lines B d e n f) → code = { contents := [], first := none, last := none, offset := 0 }

section Lines

variable {lines : List String} {B d e n : Nat}

theorem solidAt_of_getElem? {i : Nat} {l : String} (h : lines[i]? = some l) :
    solidAt lines i = ! Text.isBlank l := by
  simp [solidAt, h]

theorem indentAt_of_getElem? {i : Nat} {l : String} (h : lines[i]? = some l) :
    indentAt lines i = Text.indent l := by
  simp [indentAt, List.getD_eq_getElem?_getD, h]

theorem lt_length_of_solidAt {i : Nat} (h : solidAt lines i = true) : i < lines.length := by
  by_contra hi
  rw [solidAt, List.getElem?_eq_none (by omega)] at h
  cases h

/-- One more blank line. -/
theorem blank_succ {a p : Nat} (h : ∀ j, a < j → j < p → solidAt lines j = false) (hp : solidAt lines p = false) :
    ∀ j, a < j → j < p + 1 → solidAt lines j = false := by
  intro j h1 h2
  rcases Nat.eq_or_lt_of_le (Nat.le_of_lt_succ h2) with rfl | h2
  · exact hp
  · exact h j h1 h2

/-- Code starts on one line only. -/
theorem Starts.eq {f f' : Nat} (h : Starts lines B d e n f) (h' : Starts lines B d e n f') : f = f' := by
  have h1 := h.gt
  have h2 := h'.gt
  rcases Nat.lt_trichotomy f f' with hlt | heq | hlt
  · have := h'.blank f h1 hlt
    rw [h.solid] at this; cases this
  · exact heq
  · have := h.blank f' h2 hlt
    rw [h'.solid] at this; cases this

/-- The lines from `a` to before `b`, when there is nothing but white space on those from `c` on. -/
theorem normalize_slice {a b c : Nat} (hac : a ≤ c) (hcb : c ≤ b) (hc : c ≤ lines.length)
    (hblank : ∀ j, c ≤ j → j < b → solidAt lines j = false) :
    normalize ((lines.take b).drop a) = normalize ((lines.take c).drop a) := by
  have htake : (lines.take b).take c = lines.take c := by
    rw [List.take_take, Nat.min_eq_left hcb]
  have hsplit : (lines.take b).drop a = (lines.take c).drop a ++ (lines.take b).drop c := by
    conv_lhs => rw [← List.take_append_drop c (lines.take b), htake]
    rw [List.drop_append_of_le_length (by rw [List.length_take]; omega)]
  rw [hsplit]
  apply Text.normalize_append_blank
  intro l hl
  obtain ⟨k, hk⟩ := List.mem_iff_getElem?.1 hl
  rw [List.getElem?_drop, List.getElem?_take] at hk
  split at hk
  · have := hblank (c + k) (by omega) (by omega)
    rw [solidAt_of_getElem? hk] at this
    simpa using this
  · cases hk

/-- One more line of a slice. -/
theorem slice_succ {a p : Nat} {l : String} (hap : a ≤ p) (hl : lines[p]? = some l) :
    (lines.take (p + 1)).drop a = (lines.take p).drop a ++ [l] := by
  have hp : p < lines.length := (List.getElem?_eq_some_iff.1 hl).1
  rw [List.take_add_one, hl, Option.toList_some, List.drop_append_of_le_length (by rw [List.length_take]; omega)]

end Lines

/-- What the scanner has gathered on its way from the line behind a comment to the line `p`. -/
inductive Gathered (lines : List String) (B d e n : Nat) (u : Scanner.Pending) (p : Nat) : Prop
  /-- Nothing but blank lines so far. -/
  | before (first : u.codeFirst = none) (last : u.codeLast = none) (code : u.code = [])
      (blank : ∀ j, e < j → j < p → solidAt lines j = false) (blanks : u.blanks + e + 1 = p)
  /-- Code from the line `f` on, the last of it on the line `g`. -/
  | within {f g : Nat} (first : u.codeFirst = some f) (last : u.codeLast = some g)
      (code : u.code.reverse = ((lines.take p).drop f).map blankOut) (starts : Starts lines B d e n f)
      (reaches : Reaches lines B d n f g) (blank : ∀ j, g < j → j < p → solidAt lines j = false)
      (blanks : u.blanks + g + 1 = p)

/-- Why the scanner stops at the line `p`: the next comment or the end of the file, too many blank lines, or a line with
less indent than the comment. -/
def Stops (lines : List String) (B d n : Nat) (u : Scanner.Pending) (p : Nat) : Prop :=
  p = n ∨ B ≤ u.blanks ∨ solidAt lines p = true ∧ indentAt lines p < d

section Steps

variable {lines : List String} {B d e n : Nat} {u : Scanner.Pending} {p : Nat}

/-- **A blank line** is one more blank line, of the code if there is any. -/
theorem Gathered.step_blank (h : Gathered lines B d e n u p) {l : String} (hl : lines[p]? = some l)
    (hb : Text.isBlank l = true) :
    Gathered lines B d e n
      { u with code := if u.codeFirst.isSome then "" :: u.code else u.code, blanks := u.blanks + 1 } (p + 1) := by
  have hsolid : solidAt lines p = false := by rw [solidAt_of_getElem? hl, hb]; rfl
  cases h with
  | before first last code blank blanks =>
    refine .before first last ?_ (blank_succ blank hsolid) ?_
    · simp [first, code]
    · simp only; omega
  | @within f g first last code starts reaches blank blanks =>
    have hle := reaches.le
    refine .within first last ?_ starts reaches (blank_succ blank hsolid) ?_
    · simp only [first, Option.isSome_some, if_true, List.reverse_cons, code]
      rw [slice_succ (by omega) hl, List.map_append, List.map_cons, List.map_nil, Text.blankOut_of_blank hb]
    · simp only; omega

/-- **A line of code** is reached when there were not too many blank lines before it. -/
theorem Gathered.step_code (h : Gathered lines B d e n u p) (hB : u.blanks < B) (hpn : p < n) {l : String}
    (hl : lines[p]? = some l) (hb : Text.isBlank l = false) (hd : d ≤ Text.indent l) :
    Gathered lines B d e n
      { u with code := l :: u.code, codeFirst := u.codeFirst <|> some p, codeLast := some p, blanks := 0 }
      (p + 1) := by
  have hsolid : solidAt lines p = true := by rw [solidAt_of_getElem? hl, hb]; rfl
  have hind : d ≤ indentAt lines p := by rw [indentAt_of_getElem? hl]; exact hd
  have hrest : ∀ j, p < j → j < p + 1 → solidAt lines j = false := fun j h1 h2 => by omega
  cases h with
  | before first last code blank blanks =>
    refine .within (f := p) (g := p) ?_ rfl ?_ ?_ ?_ hrest (by simp only; omega)
    · simp [first]
    · simp only [code, List.reverse_cons, List.reverse_nil, List.nil_append]
      rw [slice_succ le_rfl hl, List.drop_eq_nil_of_le (by rw [List.length_take]; omega), List.nil_append,
        List.map_cons, List.map_nil, Text.blankOut_of_not_blank hb]
    · exact ⟨by omega, hpn, hsolid, blank, by omega, hind⟩
    · refine ⟨le_rfl, hpn, hsolid, ?_, ?_⟩
      · intro j h1 h2 _
        rw [show j = p by omega]; exact hind
      · intro j h1 h2
        exact ⟨p - j, by omega, by rw [Nat.add_sub_cancel' (by omega)]; exact hsolid⟩
  | @within f g first last code starts reaches blank blanks =>
    have hle := reaches.le
    refine .within (f := f) (g := p) ?_ rfl ?_ starts ?_ hrest (by simp only; omega)
    · simp [first]
    · simp only [List.reverse_cons, code]
      rw [slice_succ (by omega) hl, List.map_append, List.map_cons, List.map_nil, Text.blankOut_of_not_blank hb]
    · refine ⟨by omega, hpn, hsolid, ?_, ?_⟩
      · intro j h1 h2 h3
        by_cases hjg : j ≤ g
        · exact reaches.indent j h1 hjg h3
        · by_cases hjp : j = p
          · rw [hjp]; exact hind
          · rw [blank j (by omega) (by omega)] at h3; cases h3
      · -- a window of `B` lines up to `p` lies before `g`, or holds `g` or `p`: between them there are too few
        intro j h1 h2
        by_cases hjg : j + B ≤ g + 1
        · exact reaches.runs j h1 hjg
        · by_cases hg : j ≤ g
          · exact ⟨g - j, by omega, by rw [Nat.add_sub_cancel' hg]; exact reaches.solid⟩
          · exact ⟨p - j, by omega, by rw [Nat.add_sub_cancel' (by omega)]; exact hsolid⟩

/-- No line beyond the last one is reached where the scanner stops. -/
theorem Reaches.le_of_stops {f g : Nat} (hr : Reaches lines B d n f g)
    (blank : ∀ j, g < j → j < p → solidAt lines j = false) (blanks : u.blanks + g + 1 = p)
    (hstop : Stops lines B d n u p) {g' : Nat} (hr' : Reaches lines B d n f g') : g' ≤ g := by
  by_contra hlt
  have h1 := hr.le
  have h2 := hr'.lt
  have hp : p ≤ g' := by
    by_contra hgp
    have := blank g' (by omega) (by omega)
    rw [hr'.solid] at this; cases this
  rcases hstop with h | h | ⟨h3, h4⟩
  · omega
  · -- the blank lines behind `g` are a window of `B` lines before `g'`
    obtain ⟨k, hk, hs⟩ := hr'.runs (g + 1) (by omega) (by omega)
    rw [blank (g + 1 + k) (by omega) (by omega)] at hs; cases hs
  · have := hr'.indent p (by omega) hp h3
    omega

/-- Code that has not started where the scanner stops does not start. -/
theorem not_starts_of_stops (blank : ∀ j, e < j → j < p → solidAt lines j = false) (blanks : u.blanks + e + 1 = p)
    (hstop : Stops lines B d n u p) : ¬ ∃ f, Starts lines B d e n f := by
  rintro ⟨f, hf⟩
  have h1 := hf.gt
  have h2 := hf.lt
  have hp : p ≤ f := by
    by_contra hfp
    have := blank f h1 (by omega)
    rw [hf.solid] at this; cases this
  have hnear := hf.near
  rcases hstop with h | h | ⟨h3, h4⟩
  · omega
  · omega
  · have hpf : p = f := by
      by_contra hne
      have := hf.blank p (by omega) (by omega)
      rw [h3] at this; cases this
    have := hf.indent
    rw [← hpf] at this
    omega

/-- **What is gathered where the scanner stops is the code of the comment.** -/
theorem Gathered.codeOf (h : Gathered lines B d e n u p) (hstop : Stops lines B d n u p) :
    CodeOf lines B d e n (.ofLines u.codeFirst u.codeLast u.code.reverse) := by
  cases h with
  | before first last code blank blanks =>
    have hno := not_starts_of_stops blank blanks hstop
    have hspan : Span.ofLines u.codeFirst u.codeLast u.code.reverse =
        { contents := [], first := none, last := none, offset := 0 } := by
      rw [first, last, code]; rfl
    rw [hspan]
    exact ⟨by simp [hno], fun f hf => absurd ⟨f, hf⟩ hno, fun _ => rfl⟩
  | @within f g first last code starts reaches blank blanks =>
    have hle := reaches.le
    have hg := lt_length_of_solidAt reaches.solid
    have hf := lt_length_of_solidAt starts.solid
    -- blank lines behind the line `g` were gathered too, and normalization drops them
    have hcontents : normalize (((lines.take p).drop f).map blankOut) = normalize ((lines.take (g + 1)).drop f) := by
      rw [Text.normalize_map_blankOut]
      exact normalize_slice (by omega) (by omega) hg (fun j h1 h2 => blank j h1 h2)
    have hoffset : ((((lines.take p).drop f).map blankOut).takeWhile Text.isBlank).length = 0 := by
      have hfp : f < (lines.take p).length := by rw [List.length_take]; omega
      have hfb : Text.isBlank lines[f] = false := by
        have := starts.solid
        rw [solidAt_of_getElem? (List.getElem?_eq_getElem hf)] at this
        simpa using this
      rw [List.drop_eq_getElem_cons hfp, List.getElem_take, List.map_cons,
        List.takeWhile_cons_of_neg (by rw [isBlank_blankOut, hfb]; simp)]
      rfl
    have hspan : Span.ofLines u.codeFirst u.codeLast u.code.reverse =
        { contents := normalize ((lines.take (g + 1)).drop f), first := some f, last := some g, offset := 0 } := by
      rw [first, last, code, Span.ofLines, hcontents, hoffset]
    rw [hspan]
    refine ⟨⟨fun _ => ⟨f, starts⟩, fun _ => rfl⟩, ?_, fun hno => absurd ⟨f, starts⟩ hno⟩
    intro f' hf'
    obtain rfl := starts.eq hf'
    exact ⟨g, ⟨reaches, fun g' hg' => reaches.le_of_stops blank blanks hstop hg'⟩, rfl⟩

end Steps

namespace Scanner

variable {s : Scanner} {lines : List String} {d e n : Nat}

/-- The scanner gathers until it stops. -/
theorem gathered_gather (hv : s.grammar.Visible) (hk : s.kind = .body) {u : Pending} {p : Nat} {ls : List String}
    (hls : lines.drop p = ls) (hpn : p ≤ n) (hn : n ≤ lines.length)
    (hbefore : ∀ k, p ≤ k → k < n → lines[k]?.any s.grammar.opens = false)
    (hat : n < lines.length → lines[n]?.any s.grammar.opens = true)
    (hd : u.comment.indent = d) (hB : u.blanks < s.blankLimit) (h : Gathered lines s.blankLimit d e n u p) :
    ∃ p', Gathered lines s.blankLimit d e n (s.gather u p ls) p' ∧
      Stops lines s.blankLimit d n (s.gather u p ls) p' := by
  induction ls generalizing u p with
  | nil =>
    have hlen := List.drop_eq_nil_iff.1 hls
    exact ⟨p, h, Or.inl (by omega)⟩
  | cons l ls ih =>
    have hl : lines[p]? = some l := getElem?_of_drop_cons hls
    have hlt : p < lines.length := (List.getElem?_eq_some_iff.1 hl).1
    -- the line `p` opens a comment exactly when it is the line `n`
    have hopens : s.grammar.opens l = true ↔ p = n := by
      constructor
      · intro ho
        by_contra hne
        have := hbefore p le_rfl (by omega)
        rw [hl, Option.any_some, ho] at this; cases this
      · rintro rfl
        have := hat hlt
        rwa [hl, Option.any_some] at this
    have hdrop : lines.drop (p + 1) = ls := drop_of_drop_cons hls 0
    have hafter : ∀ k, p + 1 ≤ k → k < n → lines[k]?.any s.grammar.opens = false :=
      fun k h1 h2 => hbefore k (by omega) h2
    unfold gather
    cases hb : Text.isBlank l with
    | true =>
      have hne : p ≠ n := fun he => by
        rw [hv.opens_blank hb] at hopens; simp [he] at hopens
      have hstep := h.step_blank hl hb
      dsimp only
      rw [if_pos rfl]
      split
      · next hlim => exact ⟨p + 1, hstep, Or.inr (Or.inl hlim)⟩
      · next hlim => exact ih hdrop (by omega) hafter hd (by simpa using hlim) hstep
    | false =>
      rw [if_neg (by simp)]
      have hsolid : solidAt lines p = true := by rw [solidAt_of_getElem? hl, hb]; rfl
      by_cases ho : s.grammar.opens l = true
      · rw [ho, Bool.true_or, Bool.true_or, if_pos rfl]
        exact ⟨p, h, Or.inl (hopens.1 ho)⟩
      · have hne : p ≠ n := fun he => ho (hopens.2 he)
        rw [show s.grammar.opens l = false by simpa using ho, hk, hd]
        by_cases hi : Text.indent l < d
        · rw [if_pos (by simp [hi])]
          exact ⟨p, h, Or.inr (Or.inr ⟨hsolid, by rw [indentAt_of_getElem? hl]; exact hi⟩)⟩
        · rw [if_neg (by simp [hi])]
          have hstep := h.step_code hB (by omega) hl hb (by omega)
          exact ih hdrop (by omega) hafter hd (Nat.zero_lt_of_lt hB) hstep

/-- The code of a token, when the next comment starts on the line `n`. -/
theorem codeOf_tokenAt (hv : s.grammar.Visible) (hk : s.kind = .body) (hB : 0 < s.blankLimit) {p : Nat} {l : String}
    {tl : List String} (hls : lines.drop p = l :: tl) (hpn : p + 1 + s.grammar.tail l tl ≤ n)
    (hn : n ≤ lines.length)
    (hbefore : ∀ k, p + 1 + s.grammar.tail l tl ≤ k → k < n → lines[k]?.any s.grammar.opens = false)
    (hat : n < lines.length → lines[n]?.any s.grammar.opens = true) :
    CodeOf lines s.blankLimit (indentAt lines p) (p + s.grammar.tail l tl) n (s.tokenAt p l tl).code := by
  have hl : lines[p]? = some l := getElem?_of_drop_cons hls
  have hstart : Gathered lines s.blankLimit (indentAt lines p) (p + s.grammar.tail l tl) n
      (s.closed p l (tl.take (s.grammar.tail l tl))) (p + 1 + s.grammar.tail l tl) :=
    .before rfl rfl rfl (fun j h1 h2 => by omega) (by simp only [closed]; omega)
  obtain ⟨p', hgathered, hstop⟩ := gathered_gather hv hk (drop_of_drop_cons hls _) hpn hn hbefore hat
    (indentAt_of_getElem? hl).symm hB hstart
  exact hgathered.codeOf hstop

/-- The line where the next comment starts, seen from the tokens that a scan finds from the line `q` on. -/
theorem next_of_scan (hv : s.grammar.Visible) {q : Nat} {ls : List String} (hls : lines.drop q = ls)
    (hq : q ≤ lines.length)
    (hn : n = ((s.scan .outside q ls).head?.bind (·.comment.first)).getD lines.length) :
    q ≤ n ∧ n ≤ lines.length ∧ (∀ k, q ≤ k → k < n → lines[k]?.any s.grammar.opens = false) ∧
      (n < lines.length → lines[n]?.any s.grammar.opens = true) := by
  induction ls generalizing q with
  | nil =>
    have hlen := List.drop_eq_nil_iff.1 hls
    have hn' : n = lines.length := hn
    exact ⟨by omega, by omega, fun k h1 h2 => by omega, fun h => by omega⟩
  | cons l ls ih =>
    have hl : lines[q]? = some l := getElem?_of_drop_cons hls
    have hlt : q < lines.length := (List.getElem?_eq_some_iff.1 hl).1
    cases ho : s.grammar.opens l with
    | true =>
      rw [scan_outside_opens hv ho, List.head?_cons, Option.bind_some, comment_tokenAt] at hn
      have hn' : n = q := hn
      subst hn'
      exact ⟨le_rfl, hq, fun k h1 h2 => by omega, fun _ => by rw [hl, Option.any_some, ho]⟩
    | false =>
      rw [scan_outside_skip ho] at hn
      obtain ⟨h1, h2, h3, h4⟩ := ih (drop_of_drop_cons hls 0) hlt hn
      refine ⟨by omega, h2, ?_, h4⟩
      intro k hk1 hk2
      rcases Nat.eq_or_lt_of_le hk1 with rfl | hk1
      · rw [hl, Option.any_some, ho]
      · exact h3 k hk1 hk2

end Scanner

/-- The line where the comment of the token behind the token `i` starts, or the number of lines when there is none. -/
def nextFirst (tokens : List Token) (i count : Nat) : Nat :=
  (tokens[i + 1]?.bind (·.comment.first)).getD count

/-- **The code of each token.** -/
theorem code_eq_codeOf {g : Grammar} {blankLines : Nat} {s : Scanner}
    (hs : Scanner.ofGrammar g blankLines .body = .ok s) (hv : s.grammar.Visible) (lines : List String)
    (start i : Nat) {t : Token} (ht : (s.tokenize lines start)[i]? = some t) :
    ∃ a e, t.comment.first = some a ∧ t.comment.last = some e ∧
      CodeOf lines (max blankLines 1) (indentAt lines a) e
        (nextFirst (s.tokenize lines start) i lines.length) t.code := by
  have he := Scanner.eq_of_ofGrammar hs
  have hk : s.kind = .body := by rw [he]
  have hB : s.blankLimit = max blankLines 1 := by rw [he]
  unfold Scanner.tokenize at ht ⊢
  obtain ⟨p, l, tl, -, hdrop, -, rfl, hrest⟩ := Scanner.exists_turn hv rfl ht
  have hlen : p + 1 + s.grammar.tail l tl ≤ lines.length := by
    have := s.grammar.tail_lt_length hdrop
    omega
  -- the next token is the first one of a scan that starts behind the comment
  have hnext : nextFirst (s.scan .outside start (lines.drop start)) i lines.length =
      ((s.scan .outside (p + 1 + s.grammar.tail l tl) (tl.drop (s.grammar.tail l tl))).head?.bind
        (·.comment.first)).getD lines.length := by
    rw [nextFirst, ← List.head?_drop, hrest, Scanner.rest_of_body hk]
  obtain ⟨h1, h2, h3, h4⟩ := Scanner.next_of_scan hv (drop_of_drop_cons hdrop _) hlen hnext
  refine ⟨p, p + s.grammar.tail l tl, Scanner.first_tokenAt p l tl, Scanner.last_tokenAt p l tl, ?_⟩
  rw [← hB]
  exact Scanner.codeOf_tokenAt hv hk (by rw [hB]; omega) hdrop h1 h2 h3 h4

/-- Code below a blank line, with one blank line in it, that ends before two blank lines. -/
theorem code_eq_codeOf_gaps :
    ∃ s t, Scanner.ofGrammar (.ofSingle "//") 2 .body = .ok s ∧ s.grammar.Visible ∧
      (s.tokenize ["// a", "", "x", "", "y", "", "", "z"] 0)[0]? = some t ∧
      t.code.first = some 2 ∧ t.code.last = some 4 ∧
      ∃ a e, t.comment.first = some a ∧ t.comment.last = some e ∧
        CodeOf ["// a", "", "x", "", "y", "", "", "z"] 2
          (indentAt ["// a", "", "x", "", "y", "", "", "z"] a) e 8 t.code := by
  have hv : (Grammar.ofSingle "//").cleaned.Visible := ⟨by decide, by decide, by decide⟩
  have hs : Scanner.ofGrammar (.ofSingle "//") 2 .body = .ok ⟨(Grammar.ofSingle "//").cleaned, 2, .body⟩ := rfl
  refine ⟨_, _, hs, hv, rfl, by decide, by decide, ?_⟩
  exact code_eq_codeOf hs hv ["// a", "", "x", "", "y", "", "", "z"] 0 0 rfl

end DocComments
