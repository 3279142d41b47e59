import DocComments.Token.Scan
import DocComments.Proofs.Grammar.Marker

/-!
# A scan, comment by comment

The scanner goes line by line and carries a phase. Seen from outside, a scan goes comment by comment: it skips to
a line that opens a comment, takes the lines of that comment, gathers the code behind it, and is then outside
again, with nothing left over from the comment.

* `scan_opens`: from a line that opens a comment, the scan reaches the end of that comment.
* `scan_behind`: behind a comment, the scan gives the token of that comment with the code that `gather` finds, and
  **goes on as if it had just started there**.
* `scan_outside_opens`: the two together, one turn of the scan.
-/

namespace DocComments

namespace Grammar

/-- Each marker that is set holds something other than white space. -/
structure Visible (g : Grammar) : Prop where
  single : ∀ m ∈ g.single, Text.isBlank m = false
  opening : ∀ m ∈ g.opening, Text.isBlank m = false
  closing : ∀ m ∈ g.closing, Text.isBlank m = false

/-- A grammar that can be scanned: it has no fault and no empty markers. -/
structure Scannable (g : Grammar) : Prop where
  cleaned : g.cleaned = g
  fault : g.fault? = none

/-- Whether a line has the marker that opens a comment. -/
def opens (g : Grammar) (text : String) : Bool :=
  match g.shape with
  | .delimited o _ => (findMarker text o).isSome
  | .lines m => (m.bind (findMarker text)).isSome

/-- The number of lines up to the first one with the marker `c`, that line included. It is all of them when none
has the marker. -/
def through (c : String) (ls : List String) : Nat :=
  (ls.findIdx? fun l => (findMarker l c).isSome).elim ls.length (· + 1)

/-- The number of lines of a comment behind its first line `text`, when the lines `ls` come behind that one. -/
def tail (g : Grammar) (text : String) (ls : List String) : Nat :=
  match g.shape with
  | .delimited o c =>
    if (findMarker text o).any fun h => (findMarker h.after c).isSome then 0 else through c ls
  | .lines _ => (ls.takeWhile g.opens).length

/-- A text inside delimiters without the single marker that leads it: white space may stand before the marker. -/
def bare (g : Grammar) (text : String) : String :=
  g.single.elim text fun m =>
    if (findMarker text m).any (Text.isBlank ·.before) then Marker.behind m text else text

/-- What the first line of a comment says. -/
def headText (g : Grammar) (text : String) : String :=
  match g.shape with
  | .delimited o c => g.bare (Marker.upTo c (Marker.behind o text))
  | .lines m => m.elim text (Marker.behind · text)

/-- What a later line of a comment says. -/
def lineText (g : Grammar) (text : String) : String :=
  match g.shape with
  | .delimited _ c => g.bare (Marker.upTo c text)
  | .lines m => m.elim text (Marker.behind · text)

/-- Whether a line closes a comment and has nothing to say before that. -/
def closesBare (g : Grammar) (text : String) : Bool :=
  match g.shape with
  | .delimited _ c => (findMarker text c).any (Text.isBlank ·.before)
  | .lines _ => false

/-- What the scanner keeps of a later line of a comment. -/
def kept? (g : Grammar) (text : String) : Option String :=
  if g.closesBare text then none else some (if Text.isBlank text then "" else g.lineText text)

theorem nonEmpty_eq_some_iff {m : Option String} {x : String} : nonEmpty m = some x ↔ m = some x ∧ x ≠ "" := by
  unfold nonEmpty
  simp [Option.filter_eq_some_iff]

theorem shape_lines {g : Grammar} {m : Option String} (h : g.shape = .lines m) : m = g.single := by
  unfold shape at h
  split at h
  · cases h
  · cases h; rfl

theorem shape_delimited {g : Grammar} {o c : String} (h : g.shape = .delimited o c) :
    g.opening = some o ∧ g.closing = some c := by
  unfold shape at h
  split at h
  · next ho hc => cases h; exact ⟨ho, hc⟩
  · cases h

theorem Visible.closing_of_shape {g : Grammar} (hv : g.Visible) {o c : String} (h : g.shape = .delimited o c) :
    Text.isBlank c = false :=
  hv.closing c (shape_delimited h).2

/-- A blank line opens no comment. -/
theorem Visible.opens_blank {g : Grammar} (hv : g.Visible) {l : String} (hl : Text.isBlank l = true) :
    g.opens l = false := by
  unfold opens
  cases hs : g.shape with
  | delimited o c => simp [findMarker_of_blank (hv.opening o (shape_delimited hs).1) hl]
  | lines m =>
    cases m with
    | none => rfl
    | some m => simp [findMarker_of_blank (hv.single m (shape_lines hs).symm) hl]

theorem Visible.not_blank_of_opens {g : Grammar} (hv : g.Visible) {l : String} (h : g.opens l = true) :
    Text.isBlank l = false := by
  by_contra hb
  rw [hv.opens_blank (by simpa using hb)] at h
  cases h

theorem through_cons_pos {c l : String} (h : (findMarker l c).isSome = true) (ls : List String) :
    through c (l :: ls) = 1 := by
  simp [through, List.findIdx?_cons, h]

theorem through_cons_neg {c l : String} (h : findMarker l c = none) (ls : List String) :
    through c (l :: ls) = through c ls + 1 := by
  unfold through
  rw [List.findIdx?_cons, h]
  cases ls.findIdx? fun l => (findMarker l c).isSome <;> rfl

theorem through_le (c : String) (ls : List String) : through c ls ≤ ls.length := by
  unfold through
  cases h : ls.findIdx? fun l => (findMarker l c).isSome with
  | none => exact le_rfl
  | some i => exact (List.findIdx?_eq_some_iff_getElem.1 h).1

theorem tail_le (g : Grammar) (text : String) (ls : List String) : g.tail text ls ≤ ls.length := by
  unfold tail
  split
  · split
    · exact Nat.zero_le _
    · exact through_le _ _
  · exact (List.takeWhile_prefix _).length_le

end Grammar

namespace Scanner

variable {s : Scanner}

theorem open?_isSome (l : String) (n : Nat) (next : Option String) :
    (s.open? n l next).isSome = s.grammar.opens l := by
  unfold open? Grammar.opens
  cases s.grammar.shape with
  | delimited o e => simp only [Option.isSome_map]
  | lines m => simp only [Option.isSome_map]

theorem open?_eq_none {l : String} (h : s.grammar.opens l = false) (n : Nat) (next : Option String) :
    s.open? n l next = none := by
  rw [← s.open?_isSome l n next] at h
  exact Option.isNone_iff_eq_none.1 (Option.isSome_eq_false_iff.1 h)

theorem scan_cons (p : Phase) (n : Nat) (l : String) (ls : List String) :
    s.scan p n (l :: ls) =
      (s.step p n l ls.head?).1 ++ s.scan (s.step p n l ls.head?).2 (n + 1) ls := rfl

theorem step_blank {l : String} (h : Text.isBlank l = true) (p : Phase) (n : Nat) (next : Option String) :
    s.step p n l next = s.stepBlank p := by
  unfold step
  rw [if_pos h]

theorem step_outside {l : String} (h : Text.isBlank l = false) (n : Nat) (next : Option String) :
    s.step .outside n l next = ([], (s.open? n l next).getD .outside) := by
  rw [step, if_neg (by simp [h])]

theorem step_inComment {l : String} (h : Text.isBlank l = false) (c : OpenComment) (n : Nat)
    (next : Option String) : s.step (.inComment c) n l next = ([], s.continueComment c n l next) := by
  rw [step, if_neg (by simp [h])]

theorem step_done (n : Nat) (l : String) (next : Option String) : s.step .done n l next = ([], .done) := by
  unfold step
  split <;> rfl

theorem scan_done (n : Nat) (ls : List String) : s.scan .done n ls = [] := by
  induction ls generalizing n with
  | nil => rfl
  | cons l ls ih =>
    rw [scan_cons, step_done]
    exact ih (n + 1)

/-- A line that opens no comment is skipped. -/
theorem scan_outside_skip {l : String} (h : s.grammar.opens l = false) (n : Nat) (ls : List String) :
    s.scan .outside n (l :: ls) = s.scan .outside (n + 1) ls := by
  rw [scan_cons]
  cases hb : Text.isBlank l with
  | true => rw [step_blank hb]; rfl
  | false => rw [step_outside hb, open?_eq_none h]; rfl

/-- Lines that open no comment are skipped. -/
theorem scan_outside_append {ls : List String} (h : ∀ l ∈ ls, s.grammar.opens l = false) (n : Nat)
    (more : List String) : s.scan .outside n (ls ++ more) = s.scan .outside (n + ls.length) more := by
  induction ls generalizing n with
  | nil => rfl
  | cons l ls ih =>
    rw [List.cons_append, scan_outside_skip (h l List.mem_cons_self), ih fun x hx => h x (List.mem_cons_of_mem l hx),
      List.length_cons, Nat.add_assoc, Nat.add_comm 1]

theorem scan_rest_blank (hv : s.grammar.Visible) {l : String} (h : Text.isBlank l = true) (n : Nat)
    (ls : List String) : s.scan s.rest n (l :: ls) = s.scan s.rest (n + 1) ls := by
  unfold rest
  split
  · rw [scan_done, scan_done]
  · exact scan_outside_skip (hv.opens_blank h) n ls

theorem inner_eq (text : String) : s.inner text = s.grammar.bare text := by
  unfold inner Grammar.bare
  cases s.grammar.single with
  | none => rfl
  | some m =>
    simp only [Option.bind_some, Option.elim_some, Marker.behind]
    cases findMarker text m <;> rfl

theorem behindSingle_eq {m : Option String} (hs : s.grammar.shape = .lines m) (text : String) :
    s.behindSingle text = s.grammar.lineText text := by
  unfold behindSingle Grammar.lineText
  simp only [hs, ← Grammar.shape_lines hs]
  cases m with
  | none => rfl
  | some m =>
    simp only [Option.bind_some, Option.elim_some, Marker.behind]
    cases findMarker text m <;> rfl

theorem kept?_lines {m : Option String} (hs : s.grammar.shape = .lines m) {l : String}
    (hl : Text.isBlank l = false) : s.grammar.kept? l = some (s.grammar.lineText l) := by
  simp [Grammar.kept?, Grammar.closesBare, hs, hl]

/-- The closed comment that has its first line `text` at `n` and the lines `ls` behind that one. -/
def closed (s : Scanner) (n : Nat) (text : String) (ls : List String) : Pending where
  comment :=
    { first := n, indent := Text.indent text, lines := (s.grammar.headText text :: ls.filterMap s.grammar.kept?).reverse }
  last := n + ls.length

/-- A comment of the line form runs over the lines with the marker. -/
theorem scan_goOn (hv : s.grammar.Visible) {m : Option String} (hs : s.grammar.shape = .lines m)
    (c : OpenComment) (n : Nat) (ls : List String) :
    s.scan (s.goOn c n ls.head?) (n + 1) ls =
      s.scan
        (.behind
          { comment := { c with
              lines := ((ls.takeWhile s.grammar.opens).filterMap s.grammar.kept?).reverse ++ c.lines }
            last := n + (ls.takeWhile s.grammar.opens).length })
        (n + 1 + (ls.takeWhile s.grammar.opens).length) (ls.drop (ls.takeWhile s.grammar.opens).length) := by
  have hsingle : ∀ l, s.hasSingle l = s.grammar.opens l := by
    intro l; simp only [hasSingle, Grammar.opens, hs, Grammar.shape_lines hs]
  -- each line with the marker moves from the lines ahead to those of the comment
  induction ls generalizing c n with
  | nil => rfl
  | cons l ls ih =>
    unfold goOn
    rw [List.head?_cons, Option.any_some, hsingle]
    cases h : s.grammar.opens l with
    | false => simp [h]
    | true =>
      rw [if_pos rfl, scan_cons, step_inComment (hv.not_blank_of_opens h)]
      simp only [continueComment, hs, List.nil_append]
      rw [ih, List.takeWhile_cons_of_pos h, behindSingle_eq hs]
      simp only [List.filterMap_cons, kept?_lines hs (hv.not_blank_of_opens h), List.reverse_cons,
        List.append_assoc, List.length_cons, List.drop_succ_cons, List.cons_append, List.nil_append]
      rw [Nat.add_right_comm n 1, Nat.add_right_comm (n + 1) 1]
      simp only [Nat.add_assoc, Nat.add_comm 1]

/-- A delimited comment runs through the first line with the closing delimiter. -/
theorem scan_inComment (hv : s.grammar.Visible) {o e : String} (hs : s.grammar.shape = .delimited o e)
    (c : OpenComment) (n : Nat) (ls : List String) :
    s.scan (.inComment c) (n + 1) ls =
      s.scan
        (.behind
          { comment := { c with
              lines := ((ls.take (Grammar.through e ls)).filterMap s.grammar.kept?).reverse ++ c.lines }
            last := n + Grammar.through e ls })
        (n + 1 + Grammar.through e ls) (ls.drop (Grammar.through e ls)) := by
  have he := hv.closing_of_shape hs
  induction ls generalizing c n with
  | nil => rfl
  | cons l ls ih =>
    cases hf : findMarker l e with
    | some h =>
      -- the closing line is kept only when there is something before the delimiter
      rw [Grammar.through_cons_pos (by rw [hf]; rfl), scan_cons, step_inComment (isBlank_of_findMarker he hf)]
      simp only [continueComment, hs, hf, List.nil_append, List.take_succ_cons, List.take_zero,
        List.drop_succ_cons, List.drop_zero, List.filterMap_cons, List.filterMap_nil, Grammar.kept?,
        Grammar.closesBare, Grammar.lineText, Option.any_some, isBlank_of_findMarker he hf, inner_eq,
        Marker.upTo, Option.map_some, Option.getD_some]
      cases Text.isBlank h.before <;> rfl
    | none =>
      -- the line is kept, as an empty one when it is blank, and the comment stays open
      have hstep : s.step (.inComment c) (n + 1) l ls.head? =
          ([], .inComment { c with lines := (if Text.isBlank l then "" else s.inner l) :: c.lines }) := by
        cases hb : Text.isBlank l with
        | true => rw [step_blank hb]; simp only [stepBlank, hs, if_true]
        | false => rw [step_inComment hb]; simp [continueComment, hs, hf]
      have hadd : s.grammar.kept? l = some (if Text.isBlank l then "" else s.inner l) := by
        simp [Grammar.kept?, Grammar.closesBare, Grammar.lineText, hs, hf, inner_eq, Marker.upTo]
      rw [Grammar.through_cons_neg hf, scan_cons, hstep, List.nil_append, ih]
      simp only [List.take_succ_cons, List.drop_succ_cons, List.filterMap_cons, hadd, List.reverse_cons,
        List.append_assoc, List.cons_append, List.nil_append]
      rw [Nat.add_right_comm n 1, Nat.add_right_comm (n + 1) 1]
      simp only [Nat.add_assoc, Nat.add_comm 1]

/-- **From the first line of a comment to its end.** -/
theorem scan_opens (hv : s.grammar.Visible) {l : String} (h : s.grammar.opens l = true) (n : Nat)
    (ls : List String) :
    s.scan .outside n (l :: ls) =
      s.scan (.behind (s.closed n l (ls.take (s.grammar.tail l ls)))) (n + 1 + s.grammar.tail l ls)
        (ls.drop (s.grammar.tail l ls)) := by
  have hlen : (ls.take (s.grammar.tail l ls)).length = s.grammar.tail l ls :=
    List.length_take_of_le (s.grammar.tail_le l ls)
  rw [scan_cons, step_outside (hv.not_blank_of_opens h)]
  unfold closed
  rw [hlen]
  unfold Grammar.opens at h
  cases hs : s.grammar.shape with
  | delimited o e =>
    simp only [hs] at h
    obtain ⟨k, hk⟩ := Option.isSome_iff_exists.1 h
    cases hc : findMarker k.after e with
    | some k' =>
      simp [open?, hs, hk, hc, Grammar.headText, Grammar.tail, Marker.behind, Marker.upTo, inner_eq]
    | none =>
      simp only [open?, hs, hk, hc, Grammar.headText, Grammar.tail, Marker.behind, Marker.upTo, inner_eq,
        Option.map_some, Option.getD_some, List.nil_append, Option.any_some, Option.isSome_none,
        Bool.false_eq_true, if_false, Option.map_none, Option.getD_none]
      rw [scan_inComment hv hs]
      simp
  | lines m =>
    simp only [hs] at h
    obtain ⟨k, hk⟩ := Option.isSome_iff_exists.1 h
    have hb : s.grammar.headText l = k.after := by
      cases m with
      | none => cases hk
      | some m =>
        simp only [Option.bind_some] at hk
        simp [Grammar.headText, hs, Marker.behind, hk]
    have ht : ls.take (ls.takeWhile s.grammar.opens).length = ls.takeWhile s.grammar.opens :=
      (List.prefix_iff_eq_take.1 (List.takeWhile_prefix _)).symm
    simp only [open?, hs, hk, hb, Grammar.tail, Option.map_some, Option.getD_some, List.nil_append]
    rw [scan_goOn hv hs, ht]
    simp

/-- The comment with the code that belongs to it, out of the lines from `n` on. Code goes on until the lines end,
or there are too many blank lines in a row, or a comment opens, or a line has less indent than the comment. A header
scan takes no code. -/
def gather (s : Scanner) (u : Pending) (n : Nat) : List String → Pending
  | [] => u
  | l :: ls =>
    if Text.isBlank l then
      let u := { u with
        code := if u.codeFirst.isSome then "" :: u.code else u.code
        blanks := u.blanks + 1 }
      if s.blankLimit ≤ u.blanks then u else s.gather u (n + 1) ls
    else if s.grammar.opens l || s.kind == .header || decide (Text.indent l < u.comment.indent) then u
    else
      s.gather { u with
        code := l :: u.code
        codeFirst := u.codeFirst <|> some n
        codeLast := some n
        blanks := 0 } (n + 1) ls

theorem step_behind {l : String} (h : Text.isBlank l = false) (u : Pending) (n : Nat) (next : Option String) :
    s.step (.behind u) n l next =
      if s.grammar.opens l then ([s.close u], (s.step s.rest n l next).2) else s.stepCode u n l := by
  have hi := s.open?_isSome l n next
  unfold step rest
  simp only [h, Bool.false_eq_true, if_false]
  cases ho : s.open? n l next with
  | none => rw [ho] at hi; rw [← hi]; rfl
  | some p =>
    rw [ho] at hi
    rw [← hi]
    cases s.kind <;> rfl

theorem finish_rest (n : Nat) : s.finish s.rest n = [] := by
  unfold rest
  split <;> rfl

/-- Where a scan goes on, a line that is not blank gives no token. -/
theorem scan_rest_cons {l : String} (h : Text.isBlank l = false) (n : Nat) (ls : List String) :
    s.scan s.rest n (l :: ls) = s.scan (s.step s.rest n l ls.head?).2 (n + 1) ls := by
  rw [scan_cons]
  unfold rest
  split
  · simp [step, h]
  · rw [step_outside h]; rfl

/-- **Behind a comment**, the scan gives the token of the comment and goes on as if it started there. -/
theorem scan_behind (hv : s.grammar.Visible) (u : Pending) (n : Nat) (ls : List String) :
    s.scan (.behind u) n ls = s.close (s.gather u n ls) :: s.scan s.rest n ls := by
  induction ls generalizing u n with
  | nil =>
    show s.finish (.behind u) n = s.close u :: s.finish s.rest n
    rw [finish_rest]; rfl
  | cons l ls ih =>
    rw [scan_cons]
    cases hb : Text.isBlank l with
    | true =>
      -- enough blank lines close the comment, and the scan that goes on skips this one too
      rw [step_blank hb, scan_rest_blank hv hb]
      simp only [stepBlank, gather, hb, if_true]
      split
      · rfl
      · exact ih _ _
    | false =>
      rw [step_behind hb]
      simp only [gather, hb, Bool.false_eq_true, if_false]
      cases ho : s.grammar.opens l with
      | true =>
        -- the line that ends the code is the first line of the next comment
        rw [if_pos rfl, scan_rest_cons hb]
        rfl
      | false =>
        rw [if_neg (by simp)]
        unfold stepCode
        cases hk : s.kind with
        | header =>
          simp [rest, hk, scan_done]
        | body =>
          have hr : s.rest = .outside := by simp [rest, hk]
          have hskip : s.scan .outside n (l :: ls) = s.scan .outside (n + 1) ls := scan_outside_skip ho n ls
          by_cases hi : Text.indent l < u.comment.indent
          · simp [hi, hr, hskip]
          · simp only [hi, if_false, hr, hskip, List.nil_append]
            rw [ih, hr]
            simp

/-- The token of the comment with its first line `l` at `n`, when the lines `ls` come behind that one. -/
def tokenAt (s : Scanner) (n : Nat) (l : String) (ls : List String) : Token :=
  s.close (s.gather (s.closed n l (ls.take (s.grammar.tail l ls))) (n + 1 + s.grammar.tail l ls)
    (ls.drop (s.grammar.tail l ls)))

/-- **One turn of the scan.** -/
theorem scan_outside_opens (hv : s.grammar.Visible) {l : String} (h : s.grammar.opens l = true) (n : Nat)
    (ls : List String) :
    s.scan .outside n (l :: ls) =
      s.tokenAt n l ls :: s.scan s.rest (n + 1 + s.grammar.tail l ls) (ls.drop (s.grammar.tail l ls)) := by
  rw [scan_opens hv h, scan_behind hv]
  rfl

/-- What `gather` finds leaves the comment as it is. -/
theorem gather_comment (u : Pending) (n : Nat) (ls : List String) :
    (s.gather u n ls).comment = u.comment ∧ (s.gather u n ls).last = u.last := by
  induction ls generalizing u n with
  | nil => exact ⟨rfl, rfl⟩
  | cons l ls ih =>
    unfold gather
    split
    · dsimp only
      split
      · exact ⟨rfl, rfl⟩
      · exact ih _ _
    · split
      · exact ⟨rfl, rfl⟩
      · exact ih _ _

/-- A line ends one token at most. -/
theorem step_tokens (p : Phase) (n : Nat) (l : String) (next : Option String) :
    (s.step p n l next).1 = [] ∨ ∃ u, (s.step p n l next).1 = [s.close u] := by
  unfold step
  split
  · unfold stepBlank
    split
    · exact .inl rfl
    · exact .inl rfl
    · split <;> exact .inl rfl
    · dsimp only
      split
      · exact .inr ⟨_, rfl⟩
      · exact .inl rfl
  · split
    · exact .inl rfl
    · exact .inl rfl
    · exact .inl rfl
    · split
      · split <;> exact .inr ⟨_, rfl⟩
      · unfold stepCode
        split
        · exact .inr ⟨_, rfl⟩
        · split
          · exact .inr ⟨_, rfl⟩
          · exact .inl rfl

/-- Tokens have the kind of their scan. -/
theorem kind_of_mem_scan {t : Token} {p : Phase} {n : Nat} {ls : List String} (h : t ∈ s.scan p n ls) :
    t.kind = s.kind := by
  induction ls generalizing p n with
  | nil =>
    have hfinish : t ∈ s.finish p n := h
    unfold finish at hfinish
    split at hfinish
    · cases hfinish
    · cases hfinish
    · rw [List.mem_singleton.1 hfinish]; rfl
    · rw [List.mem_singleton.1 hfinish]; rfl
  | cons l ls ih =>
    rw [scan_cons, List.mem_append] at h
    rcases h with h | h
    · rcases step_tokens (s := s) p n l ls.head? with hs | ⟨u, hs⟩
      · rw [hs] at h; cases h
      · rw [hs] at h; rw [List.mem_singleton.1 h]; rfl
    · exact ih h

/-- There is a scanner for a grammar that has no fault, and it leaves out the empty markers. -/
theorem ofGrammar_eq_ok_iff {g : Grammar} {b : Nat} {k : CommentKind} :
    ofGrammar g b k = .ok s ↔
      g.cleaned.fault? = none ∧ s = { grammar := g.cleaned, blankLimit := max b 1, kind := k } := by
  unfold ofGrammar Grammar.check
  dsimp only
  cases hf : g.cleaned.fault? with
  | none =>
    constructor
    · intro h
      cases h
      exact ⟨rfl, rfl⟩
    · rintro ⟨-, rfl⟩
      rfl
  | some f =>
    constructor
    · intro h
      cases h
    · rintro ⟨h, -⟩
      cases h

/-- There is a scanner for a grammar that can be scanned. -/
theorem ofGrammar_of_scannable {g : Grammar} (h : g.Scannable) (b : Nat) (k : CommentKind) :
    ofGrammar g b k = .ok { grammar := g, blankLimit := max b 1, kind := k } := by
  rw [ofGrammar_eq_ok_iff, h.cleaned]
  exact ⟨h.fault, rfl⟩

theorem eq_of_ofGrammar {g : Grammar} {b : Nat} {k : CommentKind} (h : ofGrammar g b k = .ok s) :
    s = { grammar := g.cleaned, blankLimit := max b 1, kind := k } :=
  (ofGrammar_eq_ok_iff.1 h).2

end Scanner

end DocComments
