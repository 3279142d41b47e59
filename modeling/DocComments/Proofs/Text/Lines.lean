import Mathlib.Data.List.Basic
import DocComments.Proofs.Text.Cut
import DocComments.Proofs.Text.NormalForm

/-!
# The lines of a text

A text is cut into lines at its breaks, so no line has a break in it, and a text without breaks is one line. The normal
form of a run of lines does not depend on how far to the right it stands, even where the white space at the start of
its lines is made of different characters.

* `lines_of_not_mem`, `not_mem_of_mem_lines`: where the breaks of a text are.
* `normalize_map_outdent`: **lines that were moved left together have the normal form that they had before.**
* `normalize_drop_one`: what a first line does to the lines below it.
* `trim_eq_iff`: what is left of a text when it is trimmed.
* `normalizeText_of_not_mem`: a single line is normalized by trimming it.
-/

namespace DocComments.Text

/-! ## Line breaks -/

theorem foldCrLf_of_not_mem {cs : List Char} (h : '\r' ∉ cs) : foldCrLf cs = cs := by
  fun_induction foldCrLf cs with
  | case1 => rfl
  | case2 cs ih => exact absurd List.mem_cons_self h
  | case3 c cs _ ih => rw [ih fun hmem => h (List.mem_cons_of_mem c hmem)]

/-- A text without CR has its line breaks alike. -/
theorem foldBreaks_of_not_mem {text : String} (h : '\r' ∉ text.toList) : foldBreaks text = text := by
  unfold foldBreaks
  have hmap : text.toList.map (fun c => if c = '\r' then '\n' else c) = text.toList.map id := by
    refine List.map_congr_left fun c hc => if_neg ?_
    rintro rfl
    exact h hc
  rw [foldCrLf_of_not_mem h, hmap, List.map_id, String.ofList_toList]

theorem not_mem_foldBreaks (text : String) : '\r' ∉ (foldBreaks text).toList := by
  unfold foldBreaks
  rw [String.toList_ofList, List.mem_map]
  rintro ⟨c, -, hc⟩
  split at hc
  · cases hc
  · next hne => exact hne hc

/-- **No line has a break in it.** -/
theorem not_mem_of_mem_lines {text l : String} (h : l ∈ lines text) : '\n' ∉ l.toList ∧ '\r' ∉ l.toList := by
  refine ⟨?_, fun hr => not_mem_foldBreaks text ((isInfix_of_mem_splitOnChar h).subset hr)⟩
  obtain ⟨cs, hcs, rfl⟩ := List.mem_map.1 h
  rw [String.toList_ofList]
  exact not_mem_of_mem_splitOn hcs

/-- A text without breaks is one line. -/
theorem lines_of_not_mem {text : String} (hn : '\n' ∉ text.toList) (hr : '\r' ∉ text.toList) :
    lines text = [text] := by
  unfold lines
  rw [foldBreaks_of_not_mem hr, List.splitOn_eq_singleton hn, List.map_singleton, String.ofList_toList]

/-! ## Moving lines left -/

theorem dropSpaceEnd_append_space {cs ws : List Char} (h : ∀ c ∈ ws, isSpace c = true) :
    dropSpaceEnd (cs ++ ws) = dropSpaceEnd cs := by
  unfold dropSpaceEnd
  rw [List.reverse_append, List.dropWhile_append_of_pos fun c hc => h c (List.mem_reverse.1 hc)]

theorem exists_dropSpaceEnd_append (cs : List Char) :
    ∃ ws, cs = dropSpaceEnd cs ++ ws ∧ ∀ c ∈ ws, isSpace c = true :=
  exists_rdropWhile_append isSpace cs

/-- White space at the end can be dropped before or after the columns at the start. -/
theorem dropSpaceEnd_drop (k : Nat) (cs : List Char) :
    dropSpaceEnd ((dropSpaceEnd cs).drop k) = dropSpaceEnd (cs.drop k) := by
  obtain ⟨ws, hcs, hws⟩ := exists_dropSpaceEnd_append cs
  have hdrop : cs.drop k = (dropSpaceEnd cs).drop k ++ ws.drop (k - (dropSpaceEnd cs).length) := by
    rw [← List.drop_append, ← hcs]
  rw [hdrop, dropSpaceEnd_append_space fun c hc => hws c (List.mem_of_mem_drop hc)]

theorem outdent_of_blank {l : String} (hb : isBlank l = true) (n : Nat) : outdent n l = "" := by
  rw [outdent, if_pos hb]

theorem isBlank_outdent_eq {m : Nat} {l : String} (hm : isBlank l = false → m ≤ indent l) :
    isBlank (outdent m l) = isBlank l := by
  cases hb : isBlank l with
  | true => rw [outdent_of_blank hb]; rfl
  | false => exact isBlank_outdent hb (hm hb)

/-- Moving a line left twice is moving it left once. -/
theorem outdent_outdent {m : Nat} {l : String} (hm : isBlank l = false → m ≤ indent l) (k : Nat) :
    outdent k (outdent m l) = outdent (m + k) l := by
  cases hb : isBlank l with
  | true =>
    rw [outdent_of_blank hb, outdent_of_blank hb]
    rfl
  | false =>
    have hmoved : isBlank (outdent m l) = false := isBlank_outdent hb (hm hb)
    have hchars : (outdent m l).toList = dropSpaceEnd (l.toList.drop m) := by simp [outdent, hb]
    rw [outdent, hmoved, hchars, dropSpaceEnd_drop, List.drop_drop]
    simp [outdent, hb]

theorem takeWhile_drop_of_le {p : Char → Bool} {m : Nat} {cs : List Char} (hm : m ≤ (cs.takeWhile p).length) :
    (cs.drop m).takeWhile p = (cs.takeWhile p).drop m := by
  have hcs : cs.drop m = (cs.takeWhile p).drop m ++ cs.dropWhile p := by
    conv_lhs => rw [← List.takeWhile_append_dropWhile (p := p) (l := cs)]
    exact List.drop_append_of_le_length hm
  have hspace : ∀ c ∈ (cs.takeWhile p).drop m, p c = true :=
    fun c hc => List.mem_takeWhile_imp (List.mem_of_mem_drop hc)
  have hnil : (cs.dropWhile p).takeWhile p = [] := by
    rw [List.takeWhile_eq_nil_iff]
    intro hlen hp
    have hnot := List.head?_dropWhile_not p cs
    rw [List.head?_eq_getElem?, List.getElem?_eq_getElem hlen] at hnot
    exact Bool.false_ne_true (hnot.symm.trans hp)
  rw [hcs, List.takeWhile_append_of_pos hspace, hnil, List.append_nil]

/-- A line that is moved left loses as much of its indent. -/
theorem indent_outdent {m : Nat} {l : String} (hb : isBlank l = false) (hm : m ≤ indent l) :
    indent (outdent m l) = indent l - m := by
  obtain ⟨ws, hdrop, -⟩ := exists_dropSpaceEnd_append (l.toList.drop m)
  have hchars : (outdent m l).toList = dropSpaceEnd (l.toList.drop m) := by simp [outdent, hb]
  have hmoved : isBlank (outdent m l) = false := isBlank_outdent hb hm
  -- what is left is not white space alone, so its indent ends inside it
  have hlead : (dropSpaceEnd (l.toList.drop m)).takeWhile isSpace = (l.toList.drop m).takeWhile isSpace := by
    conv_rhs => rw [hdrop]
    rw [List.takeWhile_append, if_neg]
    intro hlen
    have hall := List.takeWhile_eq_self_iff.1 ((List.takeWhile_prefix isSpace).eq_of_length hlen)
    rw [← hchars, ← isBlank_iff, hmoved] at hall
    cases hall
  unfold indent at hm ⊢
  rw [hchars, hlead, takeWhile_drop_of_le hm, List.length_drop]

theorem margin_map_outdent {m : Nat} {ls : List String} (h : ∀ l ∈ ls, isBlank l = false → m ≤ indent l)
    {l : String} (hl : l ∈ ls) (hb : isBlank l = false) : margin ls = m + margin (ls.map (outdent m)) := by
  have hindents : (ls.filter (! isBlank ·)).map indent =
      (((ls.map (outdent m)).filter (! isBlank ·)).map indent).map (m + ·) := by
    have hfilter : ls.filter (fun x => ! isBlank (outdent m x)) = ls.filter (! isBlank ·) :=
      List.filter_congr fun x hx => by rw [isBlank_outdent_eq (h x hx)]
    rw [List.filter_map, List.map_map, List.map_map]
    simp only [Function.comp_def]
    rw [hfilter]
    apply List.map_congr_left
    intro x hx
    have hxb : isBlank x = false := by simpa using (List.mem_filter.1 hx).2
    have hle := h x (List.mem_filter.1 hx).1 hxb
    rw [indent_outdent hxb hle]
    omega
  have hmem : outdent m l ∈ (ls.map (outdent m)).filter (! isBlank ·) :=
    List.mem_filter.2 ⟨List.mem_map_of_mem hl, by rw [isBlank_outdent hb (h l hl hb)]; rfl⟩
  unfold margin
  rw [hindents, min?_map_add]
  cases hmin : (((ls.map (outdent m)).filter (! isBlank ·)).map indent).min? with
  | none =>
    rw [List.min?_eq_none_iff, List.map_eq_nil_iff] at hmin
    rw [hmin] at hmem
    cases hmem
  | some a => rfl

/-- **It does not matter that the lines of a run were moved left**, all by as much and none by more than its
indent. -/
theorem normalize_map_outdent {m : Nat} {ls : List String} (h : ∀ l ∈ ls, isBlank l = false → m ≤ indent l) :
    normalize (ls.map (outdent m)) = normalize ls := by
  -- the lines are moved by a map that keeps every line blank or not, so it can be moved out of the trimming
  have hclamp : ∀ l, (isBlank l = false → m ≤ indent l) → outdent m l = outdent (min m (indent l)) l := by
    intro l hl
    cases hb : isBlank l with
    | true => rw [outdent_of_blank hb, outdent_of_blank hb]
    | false => rw [Nat.min_eq_left (hl hb)]
  have hblank : ∀ l, isBlank (outdent (min m (indent l)) l) = isBlank l :=
    fun l => isBlank_outdent_eq fun _ => Nat.min_le_right _ _
  have hbody : ∀ l ∈ trimBlankLines ls, isBlank l = false → m ≤ indent l :=
    fun l hl => h l ((List.dropWhile_sublist _).subset ((trimBlankLines_isPrefix ls).subset hl))
  have htrim : trimBlankLines (ls.map (outdent m)) = (trimBlankLines ls).map (outdent m) := by
    rw [List.map_congr_left fun l hl => hclamp l (h l hl), trimBlankLines_map hblank]
    exact List.map_congr_left fun l hl => (hclamp l (hbody l hl)).symm
  unfold normalize
  rw [htrim]
  dsimp only
  rw [List.map_map]
  apply List.map_congr_left
  intro l hl
  rw [Function.comp_apply, outdent_outdent (hbody l hl)]
  cases hb : isBlank l with
  | true => rw [outdent_of_blank hb, outdent_of_blank hb]
  | false => rw [← margin_map_outdent hbody hl hb]

/-! ## The first line -/

/-- A first line that is not blank stays where it is, and what is dropped are the blank lines at the end. -/
theorem exists_normalize_cons {l : String} (hb : isBlank l = false) (ls : List String) :
    ∃ ks bs, ls = ks ++ bs ∧ (∀ x ∈ bs, isBlank x = true) ∧
      normalize (l :: ls) = (l :: ks).map (outdent (margin (l :: ks))) := by
  obtain ⟨bs, hls, hbs⟩ := exists_rdropWhile_append isBlank ls
  refine ⟨ls.rdropWhile isBlank, bs, hls, hbs, ?_⟩
  have htrim : trimBlankLines (l :: ls) = l :: ls.rdropWhile isBlank := by
    have hcons : (l :: ls).dropWhile isBlank = l :: ls := List.dropWhile_cons_of_neg (by simp [hb])
    unfold trimBlankLines
    rw [hcons, List.reverse_cons, List.dropWhile_append, List.rdropWhile]
    split
    · next hnil => simp [List.isEmpty_iff.1 hnil, hb]
    · simp
  unfold normalize
  rw [htrim]

/-- The first line of a run, when it is not blank, is moved left by no more than its indent. -/
theorem head?_normalize_cons {l : String} (hb : isBlank l = false) (ls : List String) :
    ∃ m, m ≤ indent l ∧ (normalize (l :: ls)).head? = some (outdent m l) := by
  obtain ⟨ks, bs, -, -, hnormal⟩ := exists_normalize_cons hb ls
  exact ⟨margin (l :: ks), margin_le_indent List.mem_cons_self hb, by rw [hnormal]; rfl⟩

/-- **Lines below a first line that is not blank** have the normal form that they have without it, although the indent
of that line was counted in when they were moved left. -/
theorem normalize_drop_one {l : String} (hb : isBlank l = false) (ls : List String) :
    normalize ((normalize (l :: ls)).drop 1) = normalize ls := by
  obtain ⟨ks, bs, rfl, hbs, hnormal⟩ := exists_normalize_cons hb ls
  have hmargin : ∀ x ∈ ks, isBlank x = false → margin (l :: ks) ≤ indent x :=
    fun x hx => margin_le_indent (List.mem_cons_of_mem l hx)
  rw [hnormal, List.map_cons, List.drop_one, List.tail_cons, normalize_map_outdent hmargin,
    normalize_append_blank hbs]

/-! ## A single line -/

/-- To trim a line is to move it left by its indent. -/
theorem trim_eq_outdent (l : String) : trim l = outdent (indent l) l := by
  have hdrop : l.toList.drop (indent l) = l.toList.dropWhile isSpace := by
    conv_lhs => rw [← List.takeWhile_append_dropWhile (p := isSpace) (l := l.toList)]
    exact List.drop_left' rfl
  cases hb : isBlank l with
  | true =>
    have hnil : l.toList.dropWhile isSpace = [] := List.dropWhile_eq_nil_iff.2 (isBlank_iff.1 hb)
    rw [outdent_of_blank hb, trim, hnil]
    rfl
  | false => simp [trim, outdent, hb, hdrop]

theorem trim_outdent {m : Nat} {l : String} (hb : isBlank l = false) (hm : m ≤ indent l) :
    trim (outdent m l) = trim l := by
  have hsum : m + (indent l - m) = indent l := by omega
  rw [trim_eq_outdent, trim_eq_outdent, indent_outdent hb hm, outdent_outdent fun _ => hm, hsum]

theorem trim_append_of_blank {w : String} (hw : isBlank w = true) (l : String) : trim (w ++ l) = trim l := by
  unfold trim
  rw [String.toList_append, List.dropWhile_append_of_pos (isBlank_iff.1 hw)]

/-- What is left of a text when it is trimmed, if anything is. -/
theorem trim_eq_iff {s l : String} (hl : l ≠ "") :
    trim s = l ↔
      (∀ c ∈ l.toList.head?, isSpace c = false) ∧ (∀ c ∈ l.toList.getLast?, isSpace c = false) ∧
      ∃ lead trail, s.toList = lead ++ l.toList ++ trail ∧
        (∀ c ∈ lead, isSpace c = true) ∧ ∀ c ∈ trail, isSpace c = true := by
  constructor
  · rintro rfl
    obtain ⟨trail, hdrop, htrail⟩ := exists_dropSpaceEnd_append (s.toList.dropWhile isSpace)
    have hchars : (trim s).toList = dropSpaceEnd (s.toList.dropWhile isSpace) := String.toList_ofList
    refine ⟨fun c hc => ?_, fun c hc => ?_, s.toList.takeWhile isSpace, trail, ?_, ?_, htrail⟩
    · have hhead : (s.toList.dropWhile isSpace).head? = some c := by
        rw [hdrop, List.head?_append, ← hchars, hc]
        rfl
      have hnot := List.head?_dropWhile_not isSpace s.toList
      rwa [hhead] at hnot
    · rw [hchars] at hc
      exact of_mem_getLast?_rdropWhile hc
    · rw [hchars, List.append_assoc, ← hdrop, List.takeWhile_append_dropWhile]
    · exact fun c hc => List.mem_takeWhile_imp hc
  · rintro ⟨hstart, hstop, lead, trail, hs, hlead, htrail⟩
    have hne : l.toList ≠ [] := fun hnil => hl (String.toList_eq_nil_iff.1 hnil)
    obtain ⟨c, cs, hcs⟩ := List.exists_cons_of_ne_nil hne
    have hdrop : s.toList.dropWhile isSpace = l.toList ++ trail := by
      rw [hs, List.append_assoc, List.dropWhile_append_of_pos hlead]
      refine dropWhile_eq_self fun x hx => hstart x ?_
      rw [hcs] at hx ⊢
      exact hx
    unfold trim
    rw [hdrop, dropSpaceEnd_append_space htrail]
    have hkeep : dropSpaceEnd l.toList = l.toList := rdropWhile_eq_self hstop
    rw [hkeep, String.ofList_toList]

theorem normalize_singleton (l : String) : unlines (normalize [l]) = trim l := by
  rw [trim_eq_outdent]
  cases hb : isBlank l with
  | true =>
    rw [outdent_of_blank hb]
    simp [normalize, trimBlankLines, hb, unlines]
  | false => simp [normalize, trimBlankLines, margin, hb, unlines]

/-- **A text of one line is normalized by trimming it.** -/
theorem normalizeText_of_not_mem {text : String} (hn : '\n' ∉ text.toList) (hr : '\r' ∉ text.toList) :
    normalizeText text = trim text := by
  rw [normalizeText, lines_of_not_mem hn hr, normalize_singleton]

end DocComments.Text
