import Mathlib.Logic.Relation
import DocComments.Proofs.Text.Lines

/-!
# Normal runs of lines and their layout

A run of lines is *normal* when nothing can be dropped from it: no blank line at its two ends, no white space at the
end of a line, and no indent that all lines share. The normal runs are those that `normalize` leaves as they are, and
`normalize` makes every run normal.

The *layout* of a run is what normalization forgets: how far to the right the run stands, the blank lines around it,
the white space that its blank lines are made of, and the white space at the end of its lines.

* `IsNormal`: a normal run, said without normalization.
* `normalize_fixed`: **normalization is idempotent, and its fixed points are the normal runs.**
* `LayoutEdit`: a change of layout.
* `image?`: the line of the normal form that a line becomes.
* `normalize_layout`: **runs that differ in layout have one normal form, and its lines stand to each other as before.**
-/

namespace DocComments.Text

/-! ## Normal runs -/

/-- A run of lines from which nothing can be dropped. -/
structure IsNormal (ls : List String) : Prop where
  first : ∀ l ∈ ls.head?, isBlank l = false
  last : ∀ l ∈ ls.getLast?, isBlank l = false
  blank : ∀ l ∈ ls, isBlank l = true → l = ""
  trimmed : ∀ l ∈ ls, ∀ c ∈ l.toList.getLast?, isSpace c = false
  flush : ∃ l ∈ ls, isBlank l = false ∧ indent l = 0

theorem outdent_zero (l : String) : outdent 0 l = trimEnd l := by
  cases hb : isBlank l with
  | true =>
    have hnil : dropSpaceEnd l.toList = [] := List.rdropWhile_eq_nil_iff.2 (isBlank_iff.1 hb)
    rw [outdent_of_blank hb, trimEnd, hnil, String.ofList_nil]
  | false => simp [outdent, hb, trimEnd]

theorem normalize_trimBlankLines (ls : List String) : normalize (trimBlankLines ls) = normalize ls := by
  obtain ⟨below, hls, hbelow⟩ := exists_trimBlankLines ls
  conv_rhs => rw [hls]
  rw [normalize_append_blank hbelow, normalize_blank_append fun _ => List.mem_takeWhile_imp]

/-- **Normalization is idempotent:** the lines were moved left together. -/
theorem normalize_normalize (ls : List String) : normalize (normalize ls) = normalize ls := by
  have hmargin : ∀ l ∈ trimBlankLines ls, isBlank l = false → margin (trimBlankLines ls) ≤ indent l :=
    fun _ => margin_le_indent
  calc normalize (normalize ls) = normalize (trimBlankLines ls) := normalize_map_outdent hmargin
    _ = normalize ls := normalize_trimBlankLines ls

/-- Some line has no more indent than the run has. -/
theorem exists_indent_eq_margin {ls : List String} {l : String} (hl : l ∈ ls) (hb : isBlank l = false) :
    ∃ k ∈ ls, isBlank k = false ∧ indent k = margin ls := by
  have hmem : indent l ∈ (ls.filter (! isBlank ·)).map indent :=
    List.mem_map_of_mem (List.mem_filter.2 ⟨hl, by simp [hb]⟩)
  obtain ⟨m, hm⟩ : ∃ m, ((ls.filter (! isBlank ·)).map indent).min? = some m :=
    Option.ne_none_iff_exists'.1 fun hnone => List.ne_nil_of_mem hmem (List.min?_eq_none_iff.1 hnone)
  obtain ⟨k, hk, hindent⟩ := List.mem_map.1 (List.min?_eq_some_iff.1 hm).1
  obtain ⟨hkmem, hkb⟩ := List.mem_filter.1 hk
  refine ⟨k, hkmem, by simpa using hkb, ?_⟩
  rw [hindent, margin, hm, Option.getD_some]

/-- A line that was moved left has no white space at its end. -/
theorem isSpace_of_mem_getLast?_outdent {m : Nat} {l : String} {c : Char} (hc : c ∈ (outdent m l).toList.getLast?) :
    isSpace c = false := by
  unfold outdent at hc
  split at hc
  · cases hc
  · rw [String.toList_ofList] at hc
    exact of_mem_getLast?_rdropWhile hc

/-- **What normalization leaves is normal**, unless it leaves nothing. -/
theorem isNormal_normalize {ls : List String} (hne : normalize ls ≠ []) : IsNormal (normalize ls) := by
  have hlast : ∀ l ∈ (trimBlankLines ls).getLast?, isBlank l = false := fun _ => of_mem_getLast?_rdropWhile
  obtain ⟨l, hl⟩ : ∃ l, l ∈ (trimBlankLines ls).getLast? :=
    Option.ne_none_iff_exists'.1 fun hnone => hne (by rw [normalize, List.getLast?_eq_none_iff.1 hnone]; rfl)
  refine ⟨fun _ => isBlank_of_head?_normalize, ?_, fun _ => eq_empty_of_mem_normalize, ?_, ?_⟩
  · intro x hx
    unfold normalize at hx
    rw [List.getLast?_map] at hx
    obtain ⟨k, hk, rfl⟩ := Option.map_eq_some_iff.1 hx
    exact isBlank_outdent (hlast k hk) (margin_le_indent (List.mem_of_mem_getLast? hk) (hlast k hk))
  · intro x hx c hc
    obtain ⟨k, -, rfl⟩ := List.mem_map.1 hx
    exact isSpace_of_mem_getLast?_outdent hc
  · -- the line with the least indent is moved to the left edge
    obtain ⟨k, hk, hkb, hkm⟩ := exists_indent_eq_margin (List.mem_of_mem_getLast? hl) (hlast l hl)
    refine ⟨_, List.mem_map_of_mem hk, isBlank_outdent hkb hkm.ge, ?_⟩
    rw [indent_outdent hkb hkm.ge, hkm, Nat.sub_self]

theorem IsNormal.trimBlankLines_eq {ls : List String} (h : IsNormal ls) : trimBlankLines ls = ls := by
  have hfirst : ls.dropWhile isBlank = ls := dropWhile_eq_self h.first
  unfold trimBlankLines
  rw [hfirst]
  exact rdropWhile_eq_self h.last

theorem IsNormal.margin_eq {ls : List String} (h : IsNormal ls) : margin ls = 0 := by
  obtain ⟨l, hl, hb, hzero⟩ := h.flush
  have hle : margin ls ≤ indent l := margin_le_indent hl hb
  omega

theorem trimEnd_eq_self {l : String} (h : ∀ c ∈ l.toList.getLast?, isSpace c = false) : trimEnd l = l := by
  have hchars : dropSpaceEnd l.toList = l.toList := rdropWhile_eq_self h
  rw [trimEnd, hchars, String.ofList_toList]

/-- A normal run stays as it is. -/
theorem IsNormal.normalize_eq {ls : List String} (h : IsNormal ls) : normalize ls = ls := by
  have hline : ∀ l ∈ ls, outdent 0 l = id l := fun l hl => (outdent_zero l).trans (trimEnd_eq_self (h.trimmed l hl))
  unfold normalize
  dsimp only
  rw [h.trimBlankLines_eq, h.margin_eq, List.map_congr_left hline, List.map_id]

/-- **The fixed points of normalization.** A second normalization changes nothing, and a run that the first one does not
change is empty or normal. -/
theorem normalize_fixed (ls : List String) :
    normalize (normalize ls) = normalize ls ∧ (normalize ls = ls ↔ ls = [] ∨ IsNormal ls) := by
  refine ⟨normalize_normalize ls, fun h => ?_, ?_⟩
  · by_cases hnil : ls = []
    · exact .inl hnil
    · have hnormal : IsNormal (normalize ls) := isNormal_normalize (by rwa [h])
      exact .inr (h ▸ hnormal)
  · rintro (rfl | h)
    · rfl
    · exact h.normalize_eq

/-! ## Layout -/

/-- A change of the layout of a run: it is moved to the right, gets blank lines above or below, has a blank line written
with other white space, or a line with white space behind it. -/
inductive LayoutEdit : List String → List String → Prop
  | indent {w : String} (hw : isBlank w = true) (ls : List String) : LayoutEdit ls (ls.map (indentBy w))
  | above {bs : List String} (hbs : ∀ b ∈ bs, isBlank b = true) (ls : List String) : LayoutEdit ls (bs ++ ls)
  | below {bs : List String} (hbs : ∀ b ∈ bs, isBlank b = true) (ls : List String) : LayoutEdit ls (ls ++ bs)
  | blank {b b' : String} (hb : isBlank b = true) (hb' : isBlank b' = true) (front back : List String) :
      LayoutEdit (front ++ b :: back) (front ++ b' :: back)
  | trailing {w : String} (hw : isBlank w = true) (l : String) (front back : List String) :
      LayoutEdit (front ++ l :: back) (front ++ (l ++ w) :: back)

/-- The line of the normal form that line `i` of a run becomes. -/
def image? (ls : List String) (i : Nat) : Option String :=
  if i < (ls.takeWhile isBlank).length then none else (normalize ls)[i - (ls.takeWhile isBlank).length]?

theorem trimEnd_append {w : String} (hw : isBlank w = true) (l : String) : trimEnd (l ++ w) = trimEnd l := by
  unfold trimEnd
  rw [String.toList_append, dropSpaceEnd_append_space (isBlank_iff.1 hw)]

theorem trimEnd_of_blank {b : String} (hb : isBlank b = true) : trimEnd b = "" := by
  rw [← outdent_zero, outdent_of_blank hb]

/-- Runs that differ in the white space at the end of their lines have one normal form. -/
theorem normalize_congr_trimEnd {ls ls' : List String} (h : ls.map trimEnd = ls'.map trimEnd) :
    normalize ls = normalize ls' := by
  have htrim : ∀ ks : List String, normalize (ks.map trimEnd) = normalize ks := by
    intro ks
    rw [← funext outdent_zero]
    exact normalize_map_outdent fun _ _ _ => Nat.zero_le _
  rw [← htrim ls, h, htrim ls']

theorem LayoutEdit.normalize_eq {ls ls' : List String} (h : LayoutEdit ls ls') : normalize ls = normalize ls' := by
  cases h with
  | indent hw => exact (normalize_map_indentBy hw ls).symm
  | above hbs => exact (normalize_blank_append hbs ls).symm
  | below hbs => exact (normalize_append_blank hbs ls).symm
  | blank hb hb' front back =>
    apply normalize_congr_trimEnd
    rw [List.map_append, List.map_append, List.map_cons, List.map_cons, trimEnd_of_blank hb, trimEnd_of_blank hb']
  | trailing hw l front back =>
    apply normalize_congr_trimEnd
    rw [List.map_append, List.map_append, List.map_cons, List.map_cons, trimEnd_append hw]

/-- Any number of edits, made or taken back, leave the normal form as it is. -/
theorem normalize_eq_of_edits {ls ls' : List String} (h : Relation.EqvGen LayoutEdit ls ls') :
    normalize ls = normalize ls' := by
  induction h with
  | rel _ _ h => exact h.normalize_eq
  | refl _ => rfl
  | symm _ _ _ ih => exact ih.symm
  | trans _ _ _ _ _ ih ih' => exact ih.trans ih'

/-- **A line that is not blank becomes a line of the normal form**, moved left by the margin. -/
theorem image?_of_not_blank {ls : List String} {i : Nat} {l : String} (hl : ls[i]? = some l) (hb : isBlank l = false) :
    image? ls i = some (outdent (margin (trimBlankLines ls)) l) ∧ margin (trimBlankLines ls) ≤ indent l := by
  obtain ⟨below, hls, hbelow⟩ := exists_trimBlankLines ls
  have hat : (ls.takeWhile isBlank ++ trimBlankLines ls ++ below)[i]? = some l := by rwa [← hls]
  -- the line stands neither above the run nor below it, since all lines there are blank
  have hnot : ∀ bs : List String, (∀ b ∈ bs, isBlank b = true) → l ∉ bs := by
    intro bs hbs hmem
    rw [hbs l hmem] at hb
    cases hb
  have habove : ¬ i < (ls.takeWhile isBlank).length := by
    intro hlt
    rw [List.append_assoc, List.getElem?_append_left hlt] at hat
    exact hnot _ (fun _ => List.mem_takeWhile_imp) (List.mem_of_getElem? hat)
  have hbody : (trimBlankLines ls)[i - (ls.takeWhile isBlank).length]? = some l := by
    by_cases hlt : i < (ls.takeWhile isBlank ++ trimBlankLines ls).length
    · rwa [List.getElem?_append_left hlt, List.getElem?_append_right (Nat.le_of_not_lt habove)] at hat
    · rw [List.getElem?_append_right (Nat.le_of_not_lt hlt)] at hat
      exact absurd (List.mem_of_getElem? hat) (hnot _ hbelow)
  refine ⟨?_, margin_le_indent (List.mem_of_getElem? hbody) hb⟩
  rw [image?, if_neg habove, normalize, List.getElem?_map, hbody]
  rfl

/-- **Normalization forgets the layout of a run and nothing else of how its lines stand.** Runs that differ by any mix of
edits have one normal form. Two lines that are not blank become lines with the same text, and the one is indented as
much further than the other as it was before. -/
theorem normalize_layout (ls : List String) :
    (∀ ls', Relation.EqvGen LayoutEdit ls ls' → normalize ls' = normalize ls) ∧
    ∀ (i j : Nat) (a b : String), ls[i]? = some a → ls[j]? = some b → isBlank a = false → isBlank b = false →
      ∃ a' b', image? ls i = some a' ∧ image? ls j = some b' ∧ trim a' = trim a ∧ trim b' = trim b ∧
        (indent a : ℤ) - indent b = indent a' - indent b' := by
  refine ⟨fun ls' h => (normalize_eq_of_edits h).symm, ?_⟩
  intro i j a b hi hj ha hb
  obtain ⟨ha', hma⟩ := image?_of_not_blank hi ha
  obtain ⟨hb', hmb⟩ := image?_of_not_blank hj hb
  refine ⟨_, _, ha', hb', trim_outdent ha hma, trim_outdent hb hmb, ?_⟩
  rw [indent_outdent ha hma, indent_outdent hb hmb]
  omega

/-- A run that was moved right by a tab, with a blank line above it, another blank line inside, and a blank behind a
line. -/
theorem normalize_layout_moved :
    Relation.EqvGen LayoutEdit ["  a", "", "    b"] ["\u3000", "\t  a ", "  ", "\t    b"] ∧
    normalize ["\u3000", "\t  a ", "  ", "\t    b"] = ["a", "", "  b"] ∧
    ∃ a' b', image? ["  a", "", "    b"] 0 = some a' ∧ image? ["  a", "", "    b"] 2 = some b' ∧
      trim a' = "a" ∧ trim b' = "b" ∧ (2 : ℤ) - 4 = indent a' - indent b' := by
  have hmap : ["  a", "", "    b"].map (indentBy "\t") = ["\t  a", "", "\t    b"] := by decide
  have hindent : LayoutEdit ["  a", "", "    b"] ["\t  a", "", "\t    b"] := hmap ▸ .indent (by decide) _
  have habove : LayoutEdit ["\t  a", "", "\t    b"] ["\u3000", "\t  a", "", "\t    b"] :=
    @LayoutEdit.above ["\u3000"] (by decide) _
  have hblank : LayoutEdit ["\u3000", "\t  a", "", "\t    b"] ["\u3000", "\t  a", "  ", "\t    b"] :=
    .blank (by decide) (by decide) ["\u3000", "\t  a"] ["\t    b"]
  have htrailing : LayoutEdit ["\u3000", "\t  a", "  ", "\t    b"] ["\u3000", "\t  a ", "  ", "\t    b"] :=
    .trailing (w := " ") (by decide) "\t  a" ["\u3000"] ["  ", "\t    b"]
  have hedits : Relation.EqvGen LayoutEdit ["  a", "", "    b"] ["\u3000", "\t  a ", "  ", "\t    b"] :=
    .trans _ _ _ (.rel _ _ hindent) (.trans _ _ _ (.rel _ _ habove)
      (.trans _ _ _ (.rel _ _ hblank) (.rel _ _ htrailing)))
  obtain ⟨hsame, himages⟩ := normalize_layout ["  a", "", "    b"]
  refine ⟨hedits, (hsame _ hedits).trans (by decide), ?_⟩
  obtain ⟨a', b', ha', hb', hta, htb, hdiff⟩ := himages 0 2 "  a" "    b" rfl rfl (by decide) (by decide)
  exact ⟨a', b', ha', hb', hta.trans (by decide), htb.trans (by decide), hdiff⟩

end DocComments.Text
