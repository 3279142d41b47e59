import DocComments.Proofs.Token.CodeSpan

/-!
# The text of a comment and its lines

Each line of a comment says something: `Grammar.headText` of the first line, `Grammar.lineText` of a later one. The
contents of a token are the normal form of these texts, and each line of them can be traced back to its line in the
file.

* `Grammar.texts`: what the lines of a comment say.
* `Grammar.spoken`: the lines of a comment, without a closing line that has nothing to say.
* `Scanner.contents_tokenAt`: **the contents are the normal form of the texts**.
* `Scanner.offset_tokenAt`: the offset counts the blank texts before the contents, as far as the lines are spoken.
* `Scanner.lineNumber?_tokenAt`: each line of the contents is a piece of the line that its number names.
-/

namespace DocComments

open Text (blankOut isBlank_blankOut normalize)

theorem Text.isBlank_of_isInfix {x y : String} (h : y.toList <:+: x.toList) (hx : isBlank x = true) :
    isBlank y = true := by
  rw [isBlank_iff] at hx ⊢
  exact fun c hc => hx c (h.subset hc)

/-- The number of leading blank lines does not depend on the white space of blank lines. -/
theorem Text.length_takeWhile_congr {xs ys : List String} (h : xs.map blankOut = ys.map blankOut) :
    (xs.takeWhile isBlank).length = (ys.takeWhile isBlank).length := by
  have hp : isBlank ∘ blankOut = isBlank := funext isBlank_blankOut
  have hlen : ∀ zs : List String, ((zs.map blankOut).takeWhile isBlank).length = (zs.takeWhile isBlank).length := by
    intro zs
    rw [List.takeWhile_map, hp, List.length_map]
  rw [← hlen xs, h, hlen ys]

namespace Grammar

/-- What the lines of a comment say. -/
def texts (g : Grammar) : List String → List String
  | [] => []
  | l :: ls => g.headText l :: ls.map g.lineText

/-- The number of lines of a comment that are spoken: all of them, but for a closing line below the first line that has
nothing before the delimiter. -/
def spoken (g : Grammar) : List String → Nat
  | [] => 0
  | _ :: ls => 1 + (if ls.getLast?.any g.closesBare then ls.length - 1 else ls.length)

variable {g : Grammar}

theorem bare_isInfix (text : String) : (g.bare text).toList <:+: text.toList := by
  unfold bare
  cases g.single with
  | none => exact List.infix_rfl
  | some m =>
    simp only [Option.elim_some]
    split
    · exact Marker.behind_isInfix m text
    · exact List.infix_rfl

theorem lineText_isInfix (text : String) : (g.lineText text).toList <:+: text.toList := by
  unfold lineText
  split
  · exact (bare_isInfix _).trans (Marker.upTo_isInfix _ _)
  · next m _ =>
    cases m with
    | none => exact List.infix_rfl
    | some m => exact Marker.behind_isInfix m text

theorem headText_isInfix (text : String) : (g.headText text).toList <:+: text.toList := by
  unfold headText
  split
  · exact (bare_isInfix _).trans ((Marker.upTo_isInfix _ _).trans (Marker.behind_isInfix _ _))
  · next m _ =>
    cases m with
    | none => exact List.infix_rfl
    | some m => exact Marker.behind_isInfix m text

/-- A text of a comment is a piece of its line. -/
theorem infix_of_texts {ls : List String} {i : Nat} {r : String} (h : (g.texts ls)[i]? = some r) :
    ∃ l, ls[i]? = some l ∧ r.toList <:+: l.toList := by
  cases ls with
  | nil => simp [texts] at h
  | cons l ls =>
    cases i with
    | zero =>
      rw [texts, List.getElem?_cons_zero] at h
      obtain rfl := Option.some.inj h
      exact ⟨l, rfl, headText_isInfix l⟩
    | succ i =>
      rw [texts, List.getElem?_cons_succ, List.getElem?_map] at h
      obtain ⟨x, hx, rfl⟩ := Option.map_eq_some_iff.1 h
      exact ⟨x, by rw [List.getElem?_cons_succ, hx], lineText_isInfix x⟩

/-- A closing line that has nothing to say has a blank text. -/
theorem isBlank_lineText {x : String} (h : g.closesBare x = true) : Text.isBlank (g.lineText x) = true := by
  unfold closesBare at h
  cases hs : g.shape with
  | lines m => simp [hs] at h
  | delimited o c =>
    simp only [hs] at h
    obtain ⟨k, hk, hb⟩ := (Option.any_eq_true _ _).1 h
    apply Text.isBlank_of_isInfix (x := k.before) _ hb
    simp only [lineText, hs, Marker.upTo, hk, Option.map_some, Option.getD_some]
    exact bare_isInfix _

/-- A line that is kept is kept as what it says, up to the white space of a blank line. -/
theorem kept?_of_not_closesBare {x : String} (h : g.closesBare x = false) :
    ∃ y, g.kept? x = some y ∧ blankOut y = blankOut (g.lineText x) := by
  refine ⟨if Text.isBlank x then "" else g.lineText x, by simp [kept?, h], ?_⟩
  split
  · next hb =>
    rw [Text.blankOut_of_blank (Text.isBlank_of_isInfix (lineText_isInfix x) hb)]
    rfl
  · rfl

theorem map_blankOut_kept? {ls : List String} (h : ∀ x ∈ ls, g.closesBare x = false) :
    (ls.filterMap g.kept?).map blankOut = (ls.map g.lineText).map blankOut := by
  induction ls with
  | nil => rfl
  | cons x ls ih =>
    obtain ⟨y, hy, hb⟩ := kept?_of_not_closesBare (h x List.mem_cons_self)
    rw [List.filterMap_cons, hy, List.map_cons, List.map_cons, List.map_cons, hb,
      ih fun z hz => h z (List.mem_cons_of_mem x hz)]

/-- Only the last line of a comment can be a closing line. -/
theorem closesBare_of_mem_dropLast {l : String} {ls : List String} {x : String}
    (hx : x ∈ (ls.take (g.tail l ls)).dropLast) : g.closesBare x = false := by
  unfold tail at hx
  cases hs : g.shape with
  | lines m => simp [closesBare, hs]
  | delimited o c =>
    simp only [hs] at hx
    split at hx
    · simp at hx
    · -- the lines go through the first one with the closing delimiter, so only the last one has it
      simp only [closesBare, hs]
      induction ls with
      | nil => simp at hx
      | cons a ls ih =>
        cases hf : findMarker a c with
        | some h =>
          rw [through_cons_pos (by rw [hf]; rfl)] at hx
          simp at hx
        | none =>
          rw [through_cons_neg hf, List.take_succ_cons] at hx
          cases ht : ls.take (through c ls) with
          | nil => rw [ht] at hx; simp at hx
          | cons b bs =>
            rw [ht, List.dropLast_cons_cons, List.mem_cons] at hx
            rcases hx with rfl | hx
            · rw [hf]; rfl
            · rw [ht] at ih; exact ih hx

/-- What is kept of the lines of a comment is what its spoken lines say, up to the white space of blank lines. -/
theorem map_blankOut_texts {l : String} {ls : List String} (h : ∀ x ∈ ls.dropLast, g.closesBare x = false) :
    (g.headText l :: ls.filterMap g.kept?).map blankOut =
      ((g.texts (l :: ls)).take (g.spoken (l :: ls))).map blankOut := by
  rcases List.eq_nil_or_concat ls with rfl | ⟨init, x, rfl⟩
  · simp [texts, spoken]
  · rw [List.concat_eq_append] at h ⊢
    rw [List.dropLast_concat] at h
    -- the last line is the only one that may be left out
    cases hx : g.closesBare x with
    | true =>
      have hk : g.kept? x = none := by simp [kept?, hx]
      simp [texts, spoken, hx, hk, Nat.add_comm 1, map_blankOut_kept? h, List.take_left']
    | false =>
      obtain ⟨y, hy, hb⟩ := kept?_of_not_closesBare hx
      rw [List.take_of_length_le (by simp [texts, spoken, hx, Nat.add_comm 1])]
      simp [texts, hy, hb, map_blankOut_kept? h]

/-- The texts of lines that are not spoken are blank. -/
theorem isBlank_of_mem_drop_spoken {ls : List String} {r : String} (h : r ∈ (g.texts ls).drop (g.spoken ls)) :
    Text.isBlank r = true := by
  cases ls with
  | nil => simp [texts] at h
  | cons l ls =>
    rcases List.eq_nil_or_concat ls with rfl | ⟨init, x, rfl⟩
    · simp [texts, spoken] at h
    · rw [List.concat_eq_append] at h
      cases hx : g.closesBare x with
      | true =>
        have hr : r = g.lineText x := by
          simpa [texts, spoken, hx, Nat.add_comm 1, List.drop_left'] using h
        rw [hr]; exact isBlank_lineText hx
      | false =>
        rw [List.drop_eq_nil_of_le (by simp [texts, spoken, hx, Nat.add_comm 1])] at h
        cases h

end Grammar

namespace Scanner

variable {s : Scanner} {lines : List String} {p : Nat} {l : String} {tl : List String}

/-- The lines of a comment, out of those of the file. -/
theorem slice_of_drop (hls : lines.drop p = l :: tl) :
    (lines.take (p + s.grammar.tail l tl + 1)).drop p = l :: tl.take (s.grammar.tail l tl) := by
  rw [List.drop_take, hls, show p + s.grammar.tail l tl + 1 - p = s.grammar.tail l tl + 1 by omega,
    List.take_succ_cons]

/-- What is kept of a comment is what its spoken lines say, up to the white space of blank lines. -/
theorem map_blankOut_tokenAt (g : Grammar) (l : String) (tl : List String) :
    (g.headText l :: (tl.take (g.tail l tl)).filterMap g.kept?).map blankOut =
      ((g.texts (l :: tl.take (g.tail l tl))).take (g.spoken (l :: tl.take (g.tail l tl)))).map blankOut :=
  Grammar.map_blankOut_texts fun _ hx => Grammar.closesBare_of_mem_dropLast hx

/-- The contents of a comment, from what its spoken lines say. -/
theorem contents_tokenAt_spoken (hls : lines.drop p = l :: tl) :
    (s.tokenAt p l tl).comment.contents =
      normalize ((s.grammar.texts ((lines.take (p + s.grammar.tail l tl + 1)).drop p)).take
        (s.grammar.spoken ((lines.take (p + s.grammar.tail l tl + 1)).drop p))) := by
  rw [slice_of_drop hls, comment_tokenAt]
  exact Text.normalize_congr (map_blankOut_tokenAt s.grammar l tl)

/-- **The contents of a comment are the normal form of what its lines say.** -/
theorem contents_tokenAt (hls : lines.drop p = l :: tl) :
    (s.tokenAt p l tl).comment.contents =
      normalize (s.grammar.texts ((lines.take (p + s.grammar.tail l tl + 1)).drop p)) := by
  rw [contents_tokenAt_spoken hls,
    ← Text.normalize_append_blank (fun r hr => Grammar.isBlank_of_mem_drop_spoken hr), List.take_append_drop]

/-- The offset of a comment counts the blank texts before the contents, as far as lines are spoken. -/
theorem offset_tokenAt (hls : lines.drop p = l :: tl) :
    (s.tokenAt p l tl).comment.offset =
      (((s.grammar.texts ((lines.take (p + s.grammar.tail l tl + 1)).drop p)).take
        (s.grammar.spoken ((lines.take (p + s.grammar.tail l tl + 1)).drop p))).takeWhile Text.isBlank).length := by
  rw [slice_of_drop hls, comment_tokenAt]
  exact Text.length_takeWhile_congr (map_blankOut_tokenAt s.grammar l tl)

/-- **Each line of the contents is a piece of the line that its number names.** -/
theorem lineNumber?_tokenAt (hls : lines.drop p = l :: tl) {k : Nat} {x : String}
    (hx : (s.tokenAt p l tl).comment.contents[k]? = some x) :
    ∃ j r, (s.tokenAt p l tl).comment.lineNumber? k = some j ∧ p ≤ j ∧ j ≤ p + s.grammar.tail l tl ∧
      lines[j]? = some r ∧ x.toList <:+: r.toList := by
  rw [contents_tokenAt_spoken hls] at hx
  obtain ⟨r, hr, hxr⟩ := Text.getElem?_normalize hx
  rw [← offset_tokenAt hls] at hr
  rw [List.getElem?_take] at hr
  split at hr
  · obtain ⟨y, hy, hry⟩ := Grammar.infix_of_texts hr
    rw [List.getElem?_drop, List.getElem?_take] at hy
    split at hy
    · refine ⟨p + ((s.tokenAt p l tl).comment.offset + k), y, ?_, by omega, by omega, hy, hxr.trans hry⟩
      rw [Span.lineNumber?, first_tokenAt, Option.map_some, Nat.add_assoc]
    · cases hy
  · cases hr

end Scanner

/-- When a comment says something, the texts of lines that are not spoken are behind it. -/
theorem Grammar.leading_spoken {g : Grammar} {ls : List String} {r : String} (hr : r ∈ g.texts ls)
    (hb : Text.isBlank r = false) :
    (((g.texts ls).take (g.spoken ls)).takeWhile Text.isBlank).length =
      ((g.texts ls).takeWhile Text.isBlank).length := by
  -- the text that is not blank is spoken, so the leading blank ones end before it
  have hne : ¬ (((g.texts ls).take (g.spoken ls)).takeWhile Text.isBlank).length =
      ((g.texts ls).take (g.spoken ls)).length := by
    intro hlen
    have hall := (List.takeWhile_prefix Text.isBlank).eq_of_length hlen
    rw [← List.take_append_drop (g.spoken ls) (g.texts ls), List.mem_append] at hr
    rcases hr with hr | hr
    · rw [← hall] at hr
      have hr' : Text.isBlank r = true := List.mem_takeWhile_imp hr
      rw [hr'] at hb; cases hb
    · rw [Grammar.isBlank_of_mem_drop_spoken hr] at hb; cases hb
  conv_rhs => rw [← List.take_append_drop (g.spoken ls) (g.texts ls), List.takeWhile_append, if_neg hne]

/-- **The text of a comment stays with its lines.** For a comment on the lines from `a` to `e`, the contents are the
normal form of what these lines say. The offset counts the blank texts before the contents, without a closing line that
has nothing to say, which matters only when all of them are blank. -/
theorem comment_aligned {s : Scanner} (hv : s.grammar.Visible) (lines : List String) (start : Nat) {t : Token}
    (ht : t ∈ s.tokenize lines start) :
    ∃ a e, t.comment.first = some a ∧ t.comment.last = some e ∧ a ≤ e ∧ e < lines.length ∧
      t.comment.contents = normalize (s.grammar.texts ((lines.take (e + 1)).drop a)) ∧
      t.comment.offset =
        (((s.grammar.texts ((lines.take (e + 1)).drop a)).take
          (s.grammar.spoken ((lines.take (e + 1)).drop a))).takeWhile Text.isBlank).length ∧
      ((∃ r ∈ s.grammar.texts ((lines.take (e + 1)).drop a), Text.isBlank r = false) →
        t.comment.offset = ((s.grammar.texts ((lines.take (e + 1)).drop a)).takeWhile Text.isBlank).length) ∧
      ∀ k x, t.comment.contents[k]? = some x → ∃ j r, t.comment.lineNumber? k = some j ∧ a ≤ j ∧ j ≤ e ∧
        lines[j]? = some r ∧ x.toList <:+: r.toList := by
  obtain ⟨i, hi⟩ := List.mem_iff_getElem?.1 ht
  obtain ⟨p, l, tl, -, hls, -, rfl, -⟩ := Scanner.exists_turn hv rfl hi
  refine ⟨p, p + s.grammar.tail l tl, Scanner.first_tokenAt p l tl, Scanner.last_tokenAt p l tl,
    Nat.le_add_right _ _, s.grammar.tail_lt_length hls, Scanner.contents_tokenAt hls, Scanner.offset_tokenAt hls, ?_,
    fun k x hx => Scanner.lineNumber?_tokenAt hls hx⟩
  rintro ⟨r, hr, hb⟩
  rw [Scanner.offset_tokenAt hls]
  exact Grammar.leading_spoken hr hb

/-- A comment whose first line says nothing: the contents start on the line below it. -/
theorem comment_aligned_below_opener :
    ∃ s, Scanner.ofGrammar ((Grammar.ofDelimiters "/**" "**/").withSingle "*") 4 .header = .ok s ∧
      s.grammar.Visible ∧ ∃ t ∈ s.tokenize ["", "/**", " * @name foo", " **/"] 0,
        t.comment.contents = ["@name foo"] ∧ t.comment.offset = 1 ∧ t.comment.lineNumber? 0 = some 2 ∧
        ∃ a e, t.comment.first = some a ∧ t.comment.last = some e ∧
          t.comment.contents =
            normalize (s.grammar.texts ((["", "/**", " * @name foo", " **/"].take (e + 1)).drop a)) := by
  have hv : ((Grammar.ofDelimiters "/**" "**/").withSingle "*").cleaned.Visible :=
    ⟨by decide, by decide, by decide⟩
  have ht : ⟨.header, ⟨["@name foo"], some 1, some 3, 1⟩, {}⟩ ∈
      (⟨((Grammar.ofDelimiters "/**" "**/").withSingle "*").cleaned, 4, .header⟩ : Scanner).tokenize
        ["", "/**", " * @name foo", " **/"] 0 := by decide
  refine ⟨_, rfl, hv, _, ht, rfl, rfl, by decide, ?_⟩
  obtain ⟨a, e, hfirst, hlast, -, -, hcontents, -⟩ := comment_aligned hv _ 0 ht
  exact ⟨a, e, hfirst, hlast, hcontents⟩

/-- A comment that says nothing: its closing line is not counted as a blank line before the contents. -/
theorem offset_of_silent_comment :
    ∃ s, Scanner.ofGrammar (.ofDelimiters "/*" "*/") 4 .body = .ok s ∧ s.grammar.Visible ∧
      ∃ t ∈ s.tokenize ["/*", "*/"] 0, t.comment.first = some 0 ∧ t.comment.last = some 1 ∧
        t.comment.offset = 1 ∧ ((s.grammar.texts ["/*", "*/"]).takeWhile Text.isBlank).length = 2 :=
  ⟨_, rfl, ⟨by decide, by decide, by decide⟩, _, List.mem_singleton_self _, by decide, by decide, by decide,
    by decide⟩

end DocComments
