import DocComments.Proofs.Token.Scan

/-!
# A scan further down

The scanner only compares lines with each other and copies their numbers into the tokens. So the same lines give the same
tokens wherever they stand in a file, with bounds that are as many lines further down.

* `Token.shift`, `Scanner.Phase.shift`: a token, and what is open, further down.
* `Scanner.step_shift`: a line does the same further down.
* `Scanner.scan_shift`: **a scan further down gives the tokens further down.**
* `Scanner.tokenize_start`: lines that a scan passes over could as well be missing, but for the bounds.
-/

namespace DocComments

/-- The token with its bounds `k` lines further down. -/
def Token.shift (t : Token) (k : Nat) : Token :=
  { t with comment := t.comment.shift k, code := t.code.shift k }

namespace Scanner

variable {s : Scanner}

def OpenComment.shift (c : OpenComment) (k : Nat) : OpenComment :=
  { c with first := c.first + k }

def Pending.shift (u : Pending) (k : Nat) : Pending :=
  { u with
    comment := u.comment.shift k
    last := u.last + k
    codeFirst := u.codeFirst.map (· + k)
    codeLast := u.codeLast.map (· + k) }

/-- What is open, `k` lines further down. -/
def Phase.shift (k : Nat) : Phase → Phase
  | .outside => .outside
  | .inComment c => .inComment (c.shift k)
  | .behind u => .behind (u.shift k)
  | .done => .done

/-- The tokens that a line ends and what is open behind it, `k` lines further down. -/
def shiftStep (k : Nat) (x : List Token × Phase) : List Token × Phase :=
  (x.1.map (·.shift k), x.2.shift k)

theorem rest_shift (k : Nat) : s.rest.shift k = s.rest := by
  unfold rest
  cases s.kind <;> rfl

theorem goOn_shift (c : OpenComment) (n k : Nat) (next : Option String) :
    s.goOn (c.shift k) (n + k) next = (s.goOn c n next).shift k := by
  unfold goOn
  split <;> rfl

theorem open?_shift (n k : Nat) (l : String) (next : Option String) :
    s.open? (n + k) l next = (s.open? n l next).map (·.shift k) := by
  unfold open?
  cases s.grammar.shape with
  | delimited o e =>
    dsimp only
    rw [Option.map_map]
    congr 1
    funext h
    simp only [Function.comp_apply]
    cases findMarker h.after e <;> rfl
  | lines m =>
    dsimp only
    rw [Option.map_map]
    congr 1
    funext h
    exact goOn_shift { first := n, indent := Text.indent l, lines := [h.after] } n k next

theorem continueComment_shift (c : OpenComment) (n k : Nat) (l : String) (next : Option String) :
    s.continueComment (c.shift k) (n + k) l next = (s.continueComment c n l next).shift k := by
  unfold continueComment
  cases s.grammar.shape with
  | delimited o e =>
    dsimp only
    cases findMarker l e with
    | none => rfl
    | some h =>
      dsimp only
      cases Text.isBlank h.before <;> rfl
  | lines m => exact goOn_shift { c with lines := s.behindSingle l :: c.lines } n k next

theorem stepBlank_shift (p : Phase) (k : Nat) : s.stepBlank (p.shift k) = shiftStep k (s.stepBlank p) := by
  cases p with
  | outside => rfl
  | done => rfl
  | inComment c =>
    unfold stepBlank Phase.shift
    cases s.grammar.shape <;> rfl
  | behind u =>
    -- a blank line goes to the code that has begun, and shifting does not change whether it has
    have hcode : (u.shift k).codeFirst.isSome = u.codeFirst.isSome := Option.isSome_map
    unfold stepBlank Phase.shift
    dsimp only
    rw [hcode]
    by_cases hlimit : s.blankLimit ≤ u.blanks + 1
    · rw [if_pos hlimit, if_pos (show s.blankLimit ≤ (u.shift k).blanks + 1 from hlimit), shiftStep, rest_shift]
      rfl
    · rw [if_neg hlimit, if_neg (show ¬ s.blankLimit ≤ (u.shift k).blanks + 1 from hlimit)]
      rfl

theorem stepCode_shift (u : Pending) (n k : Nat) (l : String) :
    s.stepCode (u.shift k) (n + k) l = shiftStep k (s.stepCode u n l) := by
  unfold stepCode
  cases s.kind with
  | header => rfl
  | body =>
    dsimp only
    by_cases hindent : Text.indent l < u.comment.indent
    · rw [if_pos hindent, if_pos (show Text.indent l < (u.shift k).comment.indent from hindent)]
      rfl
    · rw [if_neg hindent, if_neg (show ¬ Text.indent l < (u.shift k).comment.indent from hindent)]
      cases hfirst : u.codeFirst <;> simp [shiftStep, Phase.shift, Pending.shift, hfirst]

theorem step_outside_shift {l : String} (h : Text.isBlank l = false) (n k : Nat) (next : Option String) :
    s.step .outside (n + k) l next = shiftStep k (s.step .outside n l next) := by
  rw [step_outside h, step_outside h, open?_shift]
  cases s.open? n l next <;> rfl

/-- **A line does the same further down.** -/
theorem step_shift (p : Phase) (n k : Nat) (l : String) (next : Option String) :
    s.step (p.shift k) (n + k) l next = shiftStep k (s.step p n l next) := by
  cases hb : Text.isBlank l with
  | true => rw [step_blank hb, step_blank hb, stepBlank_shift]
  | false =>
    cases p with
    | outside => exact step_outside_shift hb n k next
    | inComment c =>
      rw [Phase.shift, step_inComment hb, step_inComment hb, continueComment_shift]
      rfl
    | done => rw [Phase.shift, step_done, step_done]; rfl
    | behind u =>
      -- a line that opens a comment does what it would do if nothing were open
      have hrest : s.step s.rest (n + k) l next = shiftStep k (s.step s.rest n l next) := by
        unfold rest
        cases s.kind with
        | header => rw [step_done, step_done]; rfl
        | body => exact step_outside_shift hb n k next
      rw [Phase.shift, step_behind hb, step_behind hb, hrest, stepCode_shift]
      split <;> rfl

theorem finish_shift {p : Phase} {n : Nat} (h : ∀ c, p = .inComment c → 0 < n) (k : Nat) :
    s.finish (p.shift k) (n + k) = (s.finish p n).map (·.shift k) := by
  cases p with
  | outside => rfl
  | done => rfl
  | behind u => rfl
  | inComment c =>
    -- a comment that is still open ends on the last line, and there is one
    have hpos := h c rfl
    have hlast : n + k - 1 = n - 1 + k := by omega
    simp only [finish, Phase.shift, hlast]
    rfl

/-- **A scan further down gives the tokens further down.** A comment can only be open behind some line. -/
theorem scan_shift {p : Phase} {n : Nat} (h : ∀ c, p = .inComment c → 0 < n) (k : Nat) (ls : List String) :
    s.scan (p.shift k) (n + k) ls = (s.scan p n ls).map (·.shift k) := by
  induction ls generalizing p n with
  | nil => exact finish_shift h k
  | cons l ls ih =>
    have hpos : ∀ c, (s.step p n l ls.head?).2 = .inComment c → 0 < n + 1 := fun _ _ => Nat.succ_pos n
    rw [scan_cons, scan_cons, step_shift, List.map_append, ← ih hpos, Nat.add_right_comm]
    rfl

/-- **A scan that starts at the line `k` gives the tokens of the lines from there on**, as if they were the whole file,
with bounds that are `k` lines further down. The file may end in an open comment, or before the line `k`. -/
theorem tokenize_start (s : Scanner) (lines : List String) (k : Nat) :
    s.tokenize lines k = (s.tokenize (lines.drop k) 0).map (·.shift k) := by
  have hshift : s.scan .outside (0 + k) (lines.drop k) = (s.scan .outside 0 (lines.drop k)).map (·.shift k) :=
    scan_shift (p := .outside) (by rintro c ⟨⟩) k (lines.drop k)
  rw [Nat.zero_add] at hshift
  exact hshift

/-- A comment that never ends, behind two lines that are passed over. -/
example :
    (Scanner.mk (.ofDelimiters "/*" "*/") 1 .body).tokenize ["/* a", "*/", "x", "/* b", "  c"] 2 =
      [{ kind := .body, comment := { contents := ["b", " c"], first := some 3, last := some 4, offset := 0 },
         code := {} }] := by
  decide +kernel

end Scanner

end DocComments
