import Mathlib.Data.List.DropRight
import DocComments.Text.Lines

/-!
# What normalization leaves alone

`normalize` looks at the lines that are not blank, and at how they stand to each other. These lemmas say what
it does not look at.

* `normalize_map_blankOut`: the white space that a blank line is made of.
* `normalize_blank_append`, `normalize_append_blank`: the blank lines before and behind a run.
* `normalize_map_indentBy`: white space put in front of each line that is not blank.

`getElem?_normalize` says where a line of the normal form comes from: **line `k` of the normal form is a piece of
line `k` behind the leading blank lines.**
-/

namespace DocComments.Text

/-! ## The ends of a list -/

section Ends

variable {α : Type*} {p : α → Bool} {xs : List α}

theorem exists_rdropWhile_append (p : α → Bool) (xs : List α) :
    ∃ ys, xs = xs.rdropWhile p ++ ys ∧ ∀ y ∈ ys, p y = true :=
  ⟨xs.rtakeWhile p, (List.rdropWhile_append_rtakeWhile).symm, fun _ hy => List.mem_rtakeWhile_imp hy⟩

theorem of_mem_getLast?_rdropWhile {x : α} (hx : x ∈ (xs.rdropWhile p).getLast?) : p x = false := by
  obtain ⟨hne, rfl⟩ := List.mem_getLast?_eq_getLast hx
  exact Bool.eq_false_iff.2 (List.rdropWhile_last_not p xs hne)

theorem rdropWhile_eq_self (h : ∀ x ∈ xs.getLast?, p x = false) : xs.rdropWhile p = xs := by
  rw [List.rdropWhile_eq_self_iff]
  intro hne
  rw [h _ (List.getLast_mem_getLast? hne)]
  exact Bool.false_ne_true

theorem dropWhile_eq_self (h : ∀ x ∈ xs.head?, p x = false) : xs.dropWhile p = xs := by
  cases xs with
  | nil => rfl
  | cons x xs => rw [List.dropWhile_cons_of_neg (by rw [h x rfl]; exact Bool.false_ne_true)]

end Ends

/-! ## Blank lines and indents -/

theorem isBlank_iff {s : String} : isBlank s = true ↔ ∀ c ∈ s.toList, isSpace c = true := by
  simp [isBlank]

theorem isBlank_append (a b : String) : isBlank (a ++ b) = (isBlank a && isBlank b) := by
  simp [isBlank, String.toList_append]

theorem trimBlankLines_isPrefix (ls : List String) : trimBlankLines ls <+: ls.dropWhile isBlank :=
  List.rdropWhile_prefix isBlank (ls.dropWhile isBlank)

/-- What is dropped around a run is blank. -/
theorem exists_trimBlankLines (ls : List String) :
    ∃ below, ls = ls.takeWhile isBlank ++ trimBlankLines ls ++ below ∧ ∀ l ∈ below, isBlank l = true := by
  obtain ⟨below, hbody, hbelow⟩ := exists_rdropWhile_append isBlank (ls.dropWhile isBlank)
  refine ⟨below, ?_, hbelow⟩
  calc ls = ls.takeWhile isBlank ++ ls.dropWhile isBlank := List.takeWhile_append_dropWhile.symm
    _ = ls.takeWhile isBlank ++ (trimBlankLines ls ++ below) := congrArg (ls.takeWhile isBlank ++ ·) hbody
    _ = ls.takeWhile isBlank ++ trimBlankLines ls ++ below := (List.append_assoc ..).symm

/-- A map that keeps blank lines blank, and only those, can be moved out of the trimming. -/
theorem trimBlankLines_map {f : String → String} (hf : ∀ l, isBlank (f l) = isBlank l) (ls : List String) :
    trimBlankLines (ls.map f) = (trimBlankLines ls).map f := by
  have hp : isBlank ∘ f = isBlank := funext hf
  unfold trimBlankLines
  rw [List.dropWhile_map, hp, ← List.map_reverse, List.dropWhile_map, hp, ← List.map_reverse]

/-- A line whose white space is forgotten when there is nothing else on it. -/
def blankOut (l : String) : String := if isBlank l then "" else l

theorem isBlank_blankOut (l : String) : isBlank (blankOut l) = isBlank l := by
  unfold blankOut
  split
  · next h => rw [h]; rfl
  · rfl

theorem blankOut_of_not_blank {l : String} (h : isBlank l = false) : blankOut l = l := by
  simp [blankOut, h]

theorem blankOut_of_blank {l : String} (h : isBlank l = true) : blankOut l = "" := by
  simp [blankOut, h]

theorem margin_map_blankOut (ls : List String) : margin (ls.map blankOut) = margin ls := by
  have hf : (ls.map blankOut).filter (! isBlank ·) = ls.filter (! isBlank ·) := by
    induction ls with
    | nil => rfl
    | cons l ls ih =>
      rw [List.map_cons, List.filter_cons, List.filter_cons, isBlank_blankOut, ih]
      cases h : isBlank l with
      | true => rfl
      | false => rw [blankOut_of_not_blank h]
  unfold margin
  rw [hf]

theorem outdent_blankOut (n : Nat) (l : String) : outdent n (blankOut l) = outdent n l := by
  cases h : isBlank l with
  | true => simp [outdent, isBlank_blankOut, h]
  | false => rw [blankOut_of_not_blank h]

/-- **The white space of blank lines does not matter.** -/
theorem normalize_map_blankOut (ls : List String) : normalize (ls.map blankOut) = normalize ls := by
  unfold normalize
  simp only [trimBlankLines_map isBlank_blankOut, margin_map_blankOut, List.map_map]
  apply List.map_congr_left
  intro l _
  exact outdent_blankOut _ l

/-- Runs of lines that differ in the white space of blank lines only have the same normal form. -/
theorem normalize_congr {ls ls' : List String} (h : ls.map blankOut = ls'.map blankOut) :
    normalize ls = normalize ls' := by
  rw [← normalize_map_blankOut ls, h, normalize_map_blankOut]

theorem trimBlankLines_blank_append {bs : List String} (h : ∀ l ∈ bs, isBlank l = true) (ls : List String) :
    trimBlankLines (bs ++ ls) = trimBlankLines ls := by
  unfold trimBlankLines
  rw [List.dropWhile_append_of_pos h]

theorem trimBlankLines_append_blank {bs : List String} (h : ∀ l ∈ bs, isBlank l = true) (ls : List String) :
    trimBlankLines (ls ++ bs) = trimBlankLines ls := by
  have hb : bs.dropWhile isBlank = [] := List.dropWhile_eq_nil_iff.2 h
  unfold trimBlankLines
  rw [List.dropWhile_append]
  split
  · next hn =>
    rw [List.isEmpty_iff.1 hn, hb]
  · rw [List.reverse_append, List.dropWhile_append_of_pos (fun l hl => h l (List.mem_reverse.1 hl))]

/-- **Blank lines before a run do not matter.** -/
theorem normalize_blank_append {bs : List String} (h : ∀ l ∈ bs, isBlank l = true) (ls : List String) :
    normalize (bs ++ ls) = normalize ls := by
  unfold normalize
  rw [trimBlankLines_blank_append h]

/-- **Blank lines behind a run do not matter.** -/
theorem normalize_append_blank {bs : List String} (h : ∀ l ∈ bs, isBlank l = true) (ls : List String) :
    normalize (ls ++ bs) = normalize ls := by
  unfold normalize
  rw [trimBlankLines_append_blank h]

/-- A line with white space put in front of it, unless it is blank. -/
def indentBy (w l : String) : String := if isBlank l then l else w ++ l

theorem isBlank_indentBy (w l : String) : isBlank (indentBy w l) = isBlank l := by
  unfold indentBy
  cases h : isBlank l with
  | true => simp [h]
  | false => simp [isBlank_append, h]

theorem indent_indentBy {w : String} (hw : isBlank w = true) {l : String} (hl : isBlank l = false) :
    indent (indentBy w l) = w.length + indent l := by
  simp only [indentBy, hl, Bool.false_eq_true, if_false, indent, String.toList_append]
  rw [List.takeWhile_append_of_pos (isBlank_iff.1 hw), List.length_append, String.length_toList]

theorem outdent_indentBy (w : String) (m : Nat) {l : String} (hl : isBlank l = false) :
    outdent (w.length + m) (indentBy w l) = outdent m l := by
  have hi : indentBy w l = w ++ l := by simp [indentBy, hl]
  have hb : isBlank (w ++ l) = false := by rw [isBlank_append, hl, Bool.and_false]
  have hd : (w ++ l).toList.drop (w.length + m) = l.toList.drop m := by
    rw [String.toList_append, ← String.length_toList, List.drop_length_add_append]
  simp only [outdent, hi, hb, hl, hd]

theorem min?_map_add (k : Nat) (xs : List Nat) : (xs.map (k + ·)).min? = xs.min?.map (k + ·) := by
  cases h : xs.min? with
  | none => rw [List.min?_eq_none_iff] at h; subst h; rfl
  | some a =>
    obtain ⟨ha, hle⟩ := List.min?_eq_some_iff.1 h
    refine List.min?_eq_some_iff.2 ⟨List.mem_map_of_mem ha, ?_⟩
    intro b hb
    obtain ⟨x, hx, rfl⟩ := List.mem_map.1 hb
    exact Nat.add_le_add_left (hle x hx) k

/-- The lines of a run that are not blank have at least its margin as indent. -/
theorem margin_le_indent {ls : List String} {l : String} (hl : l ∈ ls) (hb : isBlank l = false) :
    margin ls ≤ indent l := by
  have hm : indent l ∈ (ls.filter (! isBlank ·)).map indent :=
    List.mem_map_of_mem (List.mem_filter.2 ⟨hl, by simp [hb]⟩)
  unfold margin
  cases h : ((ls.filter (! isBlank ·)).map indent).min? with
  | none => exact Nat.zero_le _
  | some a => exact (List.min?_eq_some_iff.1 h).2 _ hm

theorem margin_map_indentBy {w : String} (hw : isBlank w = true) {ls : List String} {l : String} (hl : l ∈ ls)
    (hb : isBlank l = false) : margin (ls.map (indentBy w)) = w.length + margin ls := by
  have hf : ((ls.map (indentBy w)).filter (! isBlank ·)).map indent =
      ((ls.filter (! isBlank ·)).map indent).map (w.length + ·) := by
    rw [List.filter_map, List.map_map, List.map_map]
    have hp : (fun l => ! isBlank l) ∘ indentBy w = (! isBlank ·) := by
      funext x; simp [isBlank_indentBy]
    rw [hp]
    apply List.map_congr_left
    intro x hx
    have hx' : isBlank x = false := by simpa using (List.mem_filter.1 hx).2
    exact indent_indentBy hw hx'
  have hne : ((ls.filter (! isBlank ·)).map indent).min? ≠ none := by
    rw [Ne, List.min?_eq_none_iff, List.map_eq_nil_iff]
    exact List.ne_nil_of_mem (List.mem_filter.2 ⟨hl, by simp [hb]⟩)
  obtain ⟨a, ha⟩ := Option.ne_none_iff_exists'.1 hne
  unfold margin
  rw [hf, min?_map_add, ha]
  rfl

/-- **White space in front of each line does not matter**, as long as it is the same for all of them. -/
theorem normalize_map_indentBy {w : String} (hw : isBlank w = true) (ls : List String) :
    normalize (ls.map (indentBy w)) = normalize ls := by
  unfold normalize
  simp only [trimBlankLines_map (isBlank_indentBy w), List.map_map]
  apply List.map_congr_left
  intro l hl
  cases hb : isBlank l with
  | true => simp [outdent, isBlank_indentBy, hb]
  | false => rw [Function.comp_apply, margin_map_indentBy hw hl hb, outdent_indentBy w _ hb]

theorem dropSpaceEnd_isPrefix (cs : List Char) : dropSpaceEnd cs <+: cs :=
  List.rdropWhile_prefix isSpace cs

theorem mem_trim_of_mem {x : Char} {s : String} (hx : x ∈ s.toList) (hspace : isSpace x = false) :
    x ∈ (trim s).toList := by
  -- What is dropped in front is white space, and so is what is dropped behind.
  have hkept : ∀ cs : List Char, x ∈ cs → x ∈ cs.dropWhile isSpace := by
    intro cs hcs
    rw [← List.takeWhile_append_dropWhile (p := isSpace) (l := cs)] at hcs
    refine (List.mem_append.1 hcs).resolve_left fun hmem => ?_
    exact Bool.false_ne_true (hspace.symm.trans (List.mem_takeWhile_imp hmem))
  rw [trim, String.toList_ofList, dropSpaceEnd]
  exact List.mem_reverse.2 (hkept _ (List.mem_reverse.2 (hkept _ hx)))

theorem mem_of_mem_trim {x : Char} {s : String} (hx : x ∈ (trim s).toList) : x ∈ s.toList := by
  rw [trim, String.toList_ofList] at hx
  exact (List.dropWhile_suffix isSpace).subset ((dropSpaceEnd_isPrefix _).subset hx)

theorem all_dropSpaceEnd {cs : List Char} (h : ∀ c ∈ dropSpaceEnd cs, isSpace c = true) :
    ∀ c ∈ cs, isSpace c = true := by
  by_cases hn : cs.rdropWhile isSpace = []
  · exact List.rdropWhile_eq_nil_iff.1 hn
  · exact absurd (h _ (List.getLast_mem hn)) (List.rdropWhile_last_not _ _ hn)

theorem outdent_isInfix (n : Nat) (l : String) : (outdent n l).toList <:+: l.toList := by
  unfold outdent
  split
  · exact List.nil_infix
  · rw [String.toList_ofList]
    exact (dropSpaceEnd_isPrefix _).isInfix.trans (List.drop_suffix _ _).isInfix

/-- A line that is not blank stays so when it is moved left by no more than its indent. -/
theorem isBlank_outdent {n : Nat} {l : String} (hb : isBlank l = false) (hn : n ≤ indent l) :
    isBlank (outdent n l) = false := by
  by_contra h
  have hall : ∀ c ∈ l.toList.drop n, isSpace c = true := by
    apply all_dropSpaceEnd
    simpa [outdent, hb, isBlank_iff] using h
  have htake : ∀ c ∈ l.toList.take n, isSpace c = true := by
    intro c hc
    have hp : l.toList.take n <+: l.toList.takeWhile isSpace :=
      List.prefix_of_prefix_length_le (List.take_prefix _ _) (List.takeWhile_prefix _)
        (le_trans (List.length_take_le _ _) hn)
    exact List.mem_takeWhile_imp (hp.subset hc)
  rw [← Bool.not_eq_true, isBlank_iff, ← List.take_append_drop n l.toList] at hb
  exact hb fun c hc => (List.mem_append.1 hc).elim (htake c) (hall c)

/-- The blank lines of a normal form are empty. -/
theorem eq_empty_of_mem_normalize {ls : List String} {x : String} (hx : x ∈ normalize ls)
    (hb : isBlank x = true) : x = "" := by
  obtain ⟨l, hl, rfl⟩ := List.mem_map.1 hx
  cases h : isBlank l with
  | true => simp [outdent, h]
  | false => rw [isBlank_outdent h (margin_le_indent hl h)] at hb; cases hb

/-- A normal form does not start with a blank line. -/
theorem isBlank_of_head?_normalize {ls : List String} {x : String} (hx : (normalize ls).head? = some x) :
    isBlank x = false := by
  unfold normalize at hx
  rw [List.head?_map] at hx
  obtain ⟨l, hl, rfl⟩ := Option.map_eq_some_iff.1 hx
  have hmem : l ∈ trimBlankLines ls := List.mem_of_mem_head? hl
  obtain ⟨tl, htl⟩ := trimBlankLines_isPrefix ls
  have hhead : (ls.dropWhile isBlank).head? = some l := by
    rw [← htl, List.head?_append, hl]; rfl
  have hb : isBlank l = false := by
    have := List.head?_dropWhile_not isBlank ls
    rwa [hhead] at this
  exact isBlank_outdent hb (margin_le_indent hmem hb)

/-- **Where a line of the normal form comes from.** -/
theorem getElem?_normalize {ls : List String} {k : Nat} {x : String} (hx : (normalize ls)[k]? = some x) :
    ∃ l, ls[(ls.takeWhile isBlank).length + k]? = some l ∧ x.toList <:+: l.toList := by
  unfold normalize at hx
  rw [List.getElem?_map] at hx
  obtain ⟨l, hl, rfl⟩ := Option.map_eq_some_iff.1 hx
  refine ⟨l, ?_, outdent_isInfix _ l⟩
  obtain ⟨below, hls, -⟩ := exists_trimBlankLines ls
  have hk : k < (trimBlankLines ls).length := (List.getElem?_eq_some_iff.1 hl).1
  calc ls[(ls.takeWhile isBlank).length + k]?
      = (ls.takeWhile isBlank ++ trimBlankLines ls ++ below)[(ls.takeWhile isBlank).length + k]? := by rw [← hls]
    _ = (trimBlankLines ls ++ below)[k]? := by
      rw [List.append_assoc, List.getElem?_append_right (Nat.le_add_right _ _), Nat.add_sub_cancel_left]
    _ = some l := by rw [List.getElem?_append_left hk, hl]

end DocComments.Text
