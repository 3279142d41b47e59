import Mathlib.Data.List.Basic
import DocComments.Parser
import DocComments.Proofs.Text.Lines

/-!
# Line breaks

The lines of a text are found by making all its breaks alike and cutting at what is then left, which takes three passes
over the text. One pass finds the same lines, when it takes CR LF for one break wherever the two stand together. A file
is read through its lines only, so the breaks that it was written with make no difference to its documentation.

* `cutLines`: the lines of a text, found in one pass.
* `withBreaks`: a text written with another break.
* `lines_eq_cutLines`: **one pass finds the lines.**
* `unlines_lines`: what the lines say of the text.
* `foldBreaks_withBreaks`: a text written with other breaks is read as before.
* `line_breaks`: all of it, down to the documentation of a file.
-/

namespace DocComments.Text

/-- The lines of a text, found in one pass: a line ends at each CR LF, CR and LF. -/
def cutLines : List Char → List (List Char)
  | [] => [[]]
  | '\r' :: '\n' :: cs => [] :: cutLines cs
  | '\r' :: cs => [] :: cutLines cs
  | '\n' :: cs => [] :: cutLines cs
  | c :: cs => (cutLines cs).modifyHead (c :: ·)

/-- A list of characters with `br` in place of each LF. -/
def written (br cs : List Char) : List Char :=
  cs.flatMap fun c => if c = '\n' then br else [c]

/-- A text with `br` in place of each LF. -/
def withBreaks (br s : String) : String :=
  String.ofList (written br.toList s.toList)

/-- A list of characters with its line breaks made alike. -/
def folded (cs : List Char) : List Char :=
  (foldCrLf cs).map fun c => if c = '\r' then '\n' else c

theorem toList_foldBreaks (s : String) : (foldBreaks s).toList = folded s.toList :=
  String.toList_ofList

theorem folded_crlf (cs : List Char) : folded ('\r' :: '\n' :: cs) = '\n' :: folded cs :=
  rfl

theorem folded_cr {cs : List Char} (h : cs.head? ≠ some '\n') : folded ('\r' :: cs) = '\n' :: folded cs := by
  have hstep : foldCrLf ('\r' :: cs) = '\r' :: foldCrLf cs := by
    rw [foldCrLf]
    rintro cs' - rfl
    exact h rfl
  rw [folded, hstep]
  rfl

theorem folded_cons {c : Char} (h : c ≠ '\r') (cs : List Char) : folded (c :: cs) = c :: folded cs := by
  have hstep : foldCrLf (c :: cs) = c :: foldCrLf cs := by
    rw [foldCrLf]
    rintro cs' rfl
    exact absurd rfl h
  rw [folded, hstep, List.map_cons, if_neg h]
  rfl

/-! ## One pass -/

theorem splitOn_folded (cs : List Char) : (folded cs).splitOn '\n' = cutLines cs := by
  fun_induction cutLines cs with
  | case1 => rfl
  | case2 cs ih => rw [folded_crlf, splitOn_cons_self, ih]
  | case3 cs hnext ih =>
    -- the next character is no LF, or the two would be one break
    have hhead : cs.head? ≠ some '\n' := by
      intro hlf
      obtain ⟨cs', rfl⟩ := List.head?_eq_some_iff.1 hlf
      exact hnext cs' rfl
    rw [folded_cr hhead, splitOn_cons_self, ih]
  | case4 cs ih => rw [folded_cons (by decide), splitOn_cons_self, ih]
  | case5 c cs hcrlf hcr hlf ih =>
    rw [folded_cons hcr, List.splitOn_cons_eq_if_modifyHead, if_neg (by simpa using hlf), ih]

/-- **One pass over a text finds its lines.** -/
theorem lines_eq_cutLines (s : String) : lines s = (cutLines s.toList).map String.ofList := by
  rw [lines, toList_foldBreaks, splitOn_folded]

theorem toList_unlines (ls : List String) : (unlines ls).toList = ['\n'].intercalate (ls.map String.toList) := by
  fun_induction unlines ls with
  | case1 => rfl
  | case2 l => rw [List.map_singleton, List.intercalate_singleton]
  | case3 l ls hne ih =>
    obtain ⟨k, ks, rfl⟩ := List.exists_cons_of_ne_nil hne
    rw [String.toList_append, String.toList_append, ih]
    exact (List.intercalate_cons_cons ..).symm

/-- The lines, one below the other, are the text with its breaks made alike. -/
theorem unlines_lines (s : String) : unlines (lines s) = foldBreaks s := by
  have hlines : (lines s).map String.toList = (foldBreaks s).toList.splitOn '\n' := by
    rw [lines, List.map_map]
    exact (List.map_congr_left fun _ _ => String.toList_ofList).trans (List.map_id _)
  rw [← String.toList_inj, toList_unlines, hlines]
  exact List.intercalate_splitOn '\n'

theorem foldBreaks_foldBreaks (s : String) : foldBreaks (foldBreaks s) = foldBreaks s :=
  foldBreaks_of_not_mem (not_mem_foldBreaks s)

/-! ## Other breaks -/

/-- A text is read as it was written when `br` is read as one break, whatever is written behind it. -/
theorem folded_written {br : List Char} (hbr : ∀ cs, folded (br ++ written br cs) = '\n' :: folded (written br cs))
    {cs : List Char} (hcs : '\r' ∉ cs) : folded (written br cs) = cs := by
  induction cs with
  | nil => rfl
  | cons c cs ih =>
    have hc : c ≠ '\r' := fun h => hcs (h ▸ List.mem_cons_self)
    have hrest : folded (written br cs) = cs := ih fun h => hcs (List.mem_cons_of_mem c h)
    have hstep : written br (c :: cs) = (if c = '\n' then br else [c]) ++ written br cs := List.flatMap_cons
    rw [hstep]
    split
    · next hlf => rw [hbr, hrest, hlf]
    · rw [List.singleton_append, folded_cons hc, hrest]

theorem newline_not_mem_written (cs : List Char) : '\n' ∉ written ['\r'] cs := by
  unfold written
  rw [List.mem_flatMap]
  rintro ⟨c, -, hc⟩
  split at hc
  · cases List.mem_singleton.1 hc
  · next hne => exact hne (List.mem_singleton.1 hc).symm

/-- **A text written with CR LF or CR is read as the text with LF.** -/
theorem foldBreaks_withBreaks {s br : String} (hs : '\r' ∉ s.toList) (hbr : br = "\r\n" ∨ br = "\r") :
    foldBreaks (withBreaks br s) = s := by
  rw [← String.toList_inj, toList_foldBreaks, withBreaks, String.toList_ofList]
  refine folded_written (fun cs => ?_) hs
  rcases hbr with rfl | rfl
  · exact folded_crlf _
  · -- behind a CR stands no LF, since all of them were replaced
    exact folded_cr fun hhead => newline_not_mem_written cs (List.mem_of_mem_head? hhead)

/-- The same lines are the same text, up to its breaks. -/
theorem foldBreaks_congr {s s' : String} (h : lines s = lines s') : foldBreaks s = foldBreaks s' := by
  rw [← unlines_lines, h, unlines_lines]

theorem lines_withBreaks {s br : String} (hs : '\r' ∉ s.toList) (hbr : br = "\r\n" ∨ br = "\r") :
    lines (withBreaks br s) = lines s := by
  unfold lines
  rw [foldBreaks_withBreaks hs hbr, foldBreaks_of_not_mem hs]

end DocComments.Text

namespace DocComments.Parser

open Text

/-- The documentation of a file depends on its lines only. -/
theorem parseSource_congr (p : Parser) (path : String) {s s' : String} (h : lines s = lines s') :
    p.parseSource path s = p.parseSource path s' := by
  unfold parseSource sourceFile
  rw [foldBreaks_congr h]

/-- **What counts as a line break.** The lines of a text are those that one pass finds, with CR LF for one break. They
have no break in them, and one below the other they are the text with its breaks made alike, which is as it would be made
alike again. So a text with LF alone has the same lines when it is written with CR LF or with CR, and a file has the same
documentation. -/
theorem line_breaks (s : String) :
    lines s = (cutLines s.toList).map String.ofList ∧
    (∀ l ∈ lines s, '\n' ∉ l.toList ∧ '\r' ∉ l.toList) ∧
    unlines (lines s) = foldBreaks s ∧
    foldBreaks (foldBreaks s) = foldBreaks s ∧
    ('\r' ∉ s.toList → ∀ br, br = "\r\n" ∨ br = "\r" →
      lines (withBreaks br s) = lines s ∧
      ∀ (p : Parser) (path : String), p.parseSource path (withBreaks br s) = p.parseSource path s) := by
  refine ⟨lines_eq_cutLines s, fun l => not_mem_of_mem_lines, unlines_lines s, foldBreaks_foldBreaks s, ?_⟩
  intro hs br hbr
  have hlines : lines (withBreaks br s) = lines s := lines_withBreaks hs hbr
  exact ⟨hlines, fun p path => parseSource_congr p path hlines⟩

/-- Three breaks in a row, and a text with an empty line written in the three ways. -/
theorem line_breaks_in_a_row :
    lines "a\r\r\n\nb" = ["a", "", "", "b"] ∧
    '\r' ∉ "a\n\nb".toList ∧
    lines "a\r\n\r\nb" = lines "a\n\nb" ∧
    ∀ (p : Parser) (path : String), p.parseSource path "a\r\rb" = p.parseSource path "a\n\nb" := by
  have hone := (line_breaks "a\r\r\n\nb").1
  have hbreaks := (line_breaks "a\n\nb").2.2.2.2 (by decide)
  have hcrlf : withBreaks "\r\n" "a\n\nb" = "a\r\n\r\nb" := by decide
  have hcr : withBreaks "\r" "a\n\nb" = "a\r\rb" := by decide
  refine ⟨hone.trans (by decide), by decide, ?_, ?_⟩
  · rw [← hcrlf]
    exact (hbreaks "\r\n" (.inl rfl)).1
  · rw [← hcr]
    exact (hbreaks "\r" (.inr rfl)).2

end DocComments.Parser
