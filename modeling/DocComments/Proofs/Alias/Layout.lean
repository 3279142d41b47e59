import DocComments.Proofs.Alias.Reading
import DocComments.Proofs.Registry.Aliases

/-!
# Renaming keeps the layout of a text

An alias and the name it stands for are both words without white space. So renaming puts one filled place where another
one was, and all white space stays, line breaks included, though the lead of an alias may run over several lines.

* `Text.Alike`: texts of one layout.
* `Text.Alike.splitOn`: their lines are of one layout too, one by one.
* `Renamer.alike_rename`: **a text and its renaming are of one layout.**
* `Renamer.rename_layout`: what this means for the lines of the text.
-/

namespace DocComments

namespace Text

/-- A text that is not empty and has no white space in it. -/
def Solid (v : List Char) : Prop :=
  v ≠ [] ∧ ∀ x ∈ v, isSpace x = false

/-- Two texts of one layout: they have the same white space, and the same places between it are filled. -/
inductive Alike : List Char → List Char → Prop
  | nil : Alike [] []
  | space {c : Char} {s t : List Char} (hc : isSpace c = true) (h : Alike s t) : Alike (c :: s) (c :: t)
  | solid {v w s t : List Char} (hv : Solid v) (hw : Solid w) (h : Alike s t) : Alike (v ++ s) (w ++ t)

variable {s t s' t' v w : List Char}

theorem Solid.filter_isSpace (hv : Solid v) : v.filter isSpace = [] :=
  List.filter_eq_nil_iff.2 fun x hx => by simp [hv.2 x hx]

theorem Solid.exists_cons (hv : Solid v) : ∃ x v', v = x :: v' ∧ isSpace x = false := by
  obtain ⟨x, v', rfl⟩ := List.exists_cons_of_ne_nil hv.1
  exact ⟨x, v', rfl, hv.2 x List.mem_cons_self⟩

theorem Solid.ne_newline (hv : Solid v) : ∀ x ∈ v, x ≠ '\n' := by
  rintro x hx rfl
  exact absurd (hv.2 _ hx) (by decide)

theorem Alike.refl (s : List Char) : Alike s s := by
  induction s with
  | nil => exact .nil
  | cons c s ih =>
    cases hc : isSpace c with
    | true => exact .space hc ih
    | false =>
      have hsolid : Solid [c] := ⟨List.cons_ne_nil c [], fun x hx => by rwa [List.mem_singleton.1 hx]⟩
      exact .solid hsolid hsolid ih

theorem Alike.append (h : Alike s t) (h' : Alike s' t') : Alike (s ++ s') (t ++ t') := by
  induction h with
  | nil => exact h'
  | space hc _ ih => exact .space hc ih
  | solid hv hw _ ih =>
    rw [List.append_assoc, List.append_assoc]
    exact .solid hv hw ih

/-- Texts of one layout have the same white space. -/
theorem Alike.filter_isSpace (h : Alike s t) : t.filter isSpace = s.filter isSpace := by
  induction h with
  | nil => rfl
  | space hc _ ih => rw [List.filter_cons_of_pos hc, List.filter_cons_of_pos hc, ih]
  | solid hv hw _ ih => rw [List.filter_append, List.filter_append, hv.filter_isSpace, hw.filter_isSpace, ih]

theorem Alike.takeWhile_isSpace (h : Alike s t) : t.takeWhile isSpace = s.takeWhile isSpace := by
  induction h with
  | nil => rfl
  | space hc _ ih => rw [List.takeWhile_cons_of_pos hc, List.takeWhile_cons_of_pos hc, ih]
  | solid hv hw _ _ =>
    obtain ⟨x, v, rfl, hx⟩ := hv.exists_cons
    obtain ⟨y, w, rfl, hy⟩ := hw.exists_cons
    simp [hx, hy]

theorem Alike.all_isSpace (h : Alike s t) : t.all isSpace = s.all isSpace := by
  induction h with
  | nil => rfl
  | space hc _ ih => rw [List.all_cons, List.all_cons, ih]
  | solid hv hw _ _ =>
    obtain ⟨x, v, rfl, hx⟩ := hv.exists_cons
    obtain ⟨y, w, rfl, hy⟩ := hw.exists_cons
    simp [hx, hy]

/-- What has no line break goes to the first line of the text behind it. -/
theorem exists_splitOn_append (s : List Char) :
    ∃ l ls, s.splitOn '\n' = l :: ls ∧ ∀ v, (∀ x ∈ v, x ≠ '\n') → (v ++ s).splitOn '\n' = (v ++ l) :: ls := by
  obtain ⟨l, ls, hs⟩ := List.exists_cons_of_ne_nil (List.splitOn_ne_nil '\n' s)
  refine ⟨l, ls, hs, fun v hv => ?_⟩
  induction v with
  | nil => exact hs
  | cons x v ih =>
    have hx : (x == '\n') = false := beq_eq_false_iff_ne.2 (hv x List.mem_cons_self)
    have htail := ih fun y hy => hv y (List.mem_cons_of_mem x hy)
    rw [List.splitOn_eq_splitOnP] at htail ⊢
    rw [List.cons_append, List.splitOnP_cons_eq_if_modifyHead, hx, htail]
    rfl

theorem Alike.splitOn_append (hv : ∀ x ∈ v, x ≠ '\n') (hw : ∀ x ∈ w, x ≠ '\n') (hvw : Alike v w)
    (h : List.Forall₂ Alike (s.splitOn '\n') (t.splitOn '\n')) :
    List.Forall₂ Alike ((v ++ s).splitOn '\n') ((w ++ t).splitOn '\n') := by
  obtain ⟨l, ls, hs, hsplit⟩ := exists_splitOn_append s
  obtain ⟨l', ls', ht, hsplit'⟩ := exists_splitOn_append t
  rw [hs, ht] at h
  rw [hsplit v hv, hsplit' w hw]
  obtain ⟨hl, hls⟩ := List.forall₂_cons.1 h
  exact .cons (hvw.append hl) hls

/-- **The lines of two texts of one layout are of one layout**, one by one. -/
theorem Alike.splitOn (h : Alike s t) : List.Forall₂ Alike (s.splitOn '\n') (t.splitOn '\n') := by
  induction h with
  | nil => exact .cons .nil .nil
  | @space c s t hc _ ih =>
    by_cases hbreak : c = '\n'
    · rw [hbreak, splitOn_cons_self, splitOn_cons_self]
      exact .cons .nil ih
    · have hne : ∀ x ∈ [c], x ≠ '\n' := fun x hx => by rwa [List.mem_singleton.1 hx]
      exact Alike.splitOn_append hne hne (.space hc .nil) ih
  | @solid v w s t hv hw _ ih =>
    have hvw : Alike v w := by
      have h := Alike.solid hv hw .nil
      rwa [List.append_nil, List.append_nil] at h
    exact Alike.splitOn_append hv.ne_newline hw.ne_newline hvw ih

end Text

namespace Renamer

variable {r : Renamer} {l : Language} {aliases : Table String}

theorem solid_of_isWord {a : String} (h : Registry.isWord a = true) : Text.Solid a.toList := by
  obtain ⟨hne, hsolid⟩ := Registry.isWord_iff.1 h
  exact ⟨mt String.toList_eq_nil_iff.1 hne, hsolid⟩

/-- A match is rendered as it stands, but for its word. -/
theorem alike_render {m : Match} {n : String} (hn : r.aliases.get? (String.ofList m.word) = some n)
    (hword : Registry.isWord (String.ofList m.word) = true) (hname : Registry.isWord n = true) :
    Text.Alike (m.lead ++ m.word) (Piece.render r (.found m)) := by
  have hsolid := solid_of_isWord hword
  rw [String.toList_ofList] at hsolid
  have h := Text.Alike.solid hsolid (solid_of_isWord hname) .nil
  rw [List.append_nil, List.append_nil] at h
  rw [Piece.render, hn]
  exact (Text.Alike.refl m.lead).append h

/-- **A text and its renaming are of one layout.** -/
theorem alike_rename (l : Language)
    (hwords : ∀ a n, aliases.get? a = some n → Registry.isWord a = true ∧ Registry.isWord n = true)
    (text : String) : Text.Alike text.toList ((ofLanguage l aliases).rename text).toList := by
  cases hempty : (ofLanguage l aliases).aliases.isEmpty with
  | true =>
    rw [rename_of_isEmpty hempty]
    exact .refl _
  | false =>
    rw [toList_rename hempty]
    have hn := names_ne_nil l hempty fun a n ha => (Registry.isWord_iff.1 (hwords a n ha).1).1
    have hr := proper_ofLanguage l aliases
    have hmatch : ∀ c m, (ofLanguage l aliases).match? c = some m → m.word ≠ [] := fun c m hm =>
      (mem_byLength.1 ((of_match? hr hm).2 hn)).1
    refine pieces_induct (motive := fun _ cs ps => Text.Alike cs (ps.flatMap (Piece.render (ofLanguage l aliases))))
      hr hmatch ?_ ?_ ?_ none true text.toList
    · intro _
      exact .nil
    · intro _ x cs ps _ ih
      exact (Text.Alike.refl [x]).append ih
    · intro _ m y ps hm ih
      have hkey := (mem_byLength.1 ((of_match? hr hm).2 hn)).2
      obtain ⟨n, hget⟩ := Option.isSome_iff_exists.1 (Table.mem_keys_iff.1 hkey)
      obtain ⟨hword, hname⟩ := hwords _ n hget
      exact (alike_render hget hword hname).append ih

/-- **Renaming keeps the lines of a text**: their number, the white space that each of them starts with, and which of
them are blank. All white space of the text stays. -/
theorem rename_layout (l : Language)
    (hwords : ∀ a n, aliases.get? a = some n → Registry.isWord a = true ∧ Registry.isWord n = true)
    (text : String) :
    let text' := (ofLanguage l aliases).rename text
    (Text.splitOnChar text' '\n').length = (Text.splitOnChar text '\n').length ∧
      (∀ (i : Nat) (line line' : String), (Text.splitOnChar text '\n')[i]? = some line →
        (Text.splitOnChar text' '\n')[i]? = some line' →
        line'.toList.takeWhile Text.isSpace = line.toList.takeWhile Text.isSpace ∧
          Text.isBlank line' = Text.isBlank line) ∧
      text'.toList.filter Text.isSpace = text.toList.filter Text.isSpace := by
  intro text'
  have h : Text.Alike text.toList text'.toList := alike_rename l hwords text
  have hlines : List.Forall₂ (fun line line' : String => Text.Alike line.toList line'.toList)
      (Text.splitOnChar text '\n') (Text.splitOnChar text' '\n') := by
    unfold Text.splitOnChar
    rw [List.forall₂_map_left_iff, List.forall₂_map_right_iff]
    simpa only [String.toList_ofList] using h.splitOn
  refine ⟨hlines.length_eq.symm, ?_, h.filter_isSpace⟩
  intro i line line' hline hline'
  obtain ⟨hi, rfl⟩ := List.getElem?_eq_some_iff.1 hline
  obtain ⟨hi', rfl⟩ := List.getElem?_eq_some_iff.1 hline'
  have halike := hlines.get hi hi'
  exact ⟨halike.takeWhile_isSpace, halike.all_isSpace⟩

/-- The lead of the alias starts two lines above it, and the three lines stay. -/
theorem rename_layout_over_lines :
    let l : Language := ⟨.ofDelimiters "/*" "*/", .ofSingle "///"⟩
    let aliases : Table String := .ofList [("param", "arg")]
    let text' := (ofLanguage l aliases).rename "///\n\n  @param x"
    (∀ a n, aliases.get? a = some n → Registry.isWord a = true ∧ Registry.isWord n = true) ∧
      text' = "///\n\n  @arg x" ∧ (Text.splitOnChar text' '\n').length = 3 ∧
      text'.toList.filter Text.isSpace = ['\n', '\n', ' ', ' ', ' '] := by
  have htext : (ofLanguage ⟨.ofDelimiters "/*" "*/", .ofSingle "///"⟩ (.ofList [("param", "arg")])).rename
      "///\n\n  @param x" = "///\n\n  @arg x" := by
    have hwords : ofLanguage ⟨.ofDelimiters "/*" "*/", .ofSingle "///"⟩ (.ofList [("param", "arg")]) =
        ⟨["///", "/*"].map String.toList, ["@"].map String.toList, [].map String.toList, ["param"].map String.toList,
          .ofList [("param", "arg")]⟩ :=
      ofLanguage_eq (by decide +kernel) (by decide +kernel) (by decide +kernel) (by decide +kernel)
    rw [hwords]
    decide +kernel
  intro l aliases text'
  have hwords : ∀ a n, aliases.get? a = some n → Registry.isWord a = true ∧ Registry.isWord n = true := by
    intro a n h
    have hmem := Table.mem_of_get?_ofList h
    obtain ⟨rfl, rfl⟩ := Prod.mk.inj (List.mem_singleton.1 hmem)
    decide
  obtain ⟨hlength, -, hspace⟩ := rename_layout l hwords "///\n\n  @param x"
  exact ⟨hwords, htext, hlength.trans (by decide), hspace.trans (by decide)⟩

end Renamer

end DocComments
