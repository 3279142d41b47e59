import DocComments.Proofs.Tag.Split
import DocComments.Proofs.Text.Lines

/-!
# Annotations that are added

A callback adds an annotation by its name and a text, whose first line is the head line. The text is normalized as a
whole, head line included, and what is below the head line once more; an annotation of a comment has its head line cut
off first. Both ways lead to the same annotation.

* `Tag.prepare_ofText`: what callbacks see of an annotation that is made from text.
* `Splitter.split_head_line`: a comment with one head, on its first line.
* `Splitter.split_ofText`: **an added annotation is read like a written one.**
-/

namespace DocComments

/-- What callbacks see of an annotation that is made from text. -/
theorem Tag.prepare_ofText {text first : String} {rest : List String} (hlines : Text.lines text = first :: rest)
    (hfirst : Text.isBlank first = false) (name : String) (aliases : List String) :
    (Tag.ofText name aliases text).prepare.line = Text.trim first ∧
      (Tag.ofText name aliases text).prepare.contents = Text.normalize rest := by
  obtain ⟨m, hm, hhead⟩ := Text.head?_normalize_cons hfirst rest
  have hmem : first ∈ Text.lines text := by rw [hlines]; exact List.mem_cons_self
  have hbreaks := Text.not_mem_of_mem_lines hmem
  have hpiece : (Text.outdent m first).toList ⊆ first.toList := (Text.outdent_isInfix m first).subset
  unfold Tag.ofText Tag.prepare
  dsimp only
  rw [hlines]
  constructor
  · rw [hhead, Option.getD_some, Text.normalizeText_of_not_mem (fun h => hbreaks.1 (hpiece h))
      (fun h => hbreaks.2 (hpiece h)), Text.trim_outdent hfirst hm]
  · exact Text.normalize_drop_one hfirst rest

namespace Splitter

variable {s : Splitter} {name rest : String} {ls : List String}

/-- Without heads all lines stand before the first head. -/
theorem sections_of_no_head (h : ∀ l ∈ ls, s.head? l = none) (i : Nat) : s.sections i ls = (ls, []) := by
  induction ls generalizing i with
  | nil => rfl
  | cons l ls ih =>
    rw [sections, ih (fun x hx => h x (List.mem_cons_of_mem l hx)), h l List.mem_cons_self]

/-- A line that starts with the sigil and a known name is a head. -/
theorem head_of_start (hsigil : s.sigil ≠ "") (hquoted : s.quoted = [])
    (hword : ∀ c ∈ name.toList, Text.isSpace c = false) (hbehind : ∀ c ∈ rest.toList.head?, Text.isSpace c = true)
    (hknown : name ∈ s.names) : s.Head (s.sigil ++ name ++ rest) name rest where
  sigil := hsigil
  unquoted := by
    intro m hm
    rw [hquoted] at hm
    cases hm
  place := ⟨"", by rw [String.empty_append], by simp, fun _ _ _ => Nat.zero_le _⟩
  word := hword
  behind := hbehind
  known := hknown

/-- A comment whose only head is its first line has one annotation. -/
theorem split_head_line {l : String} (hl : s.Head l name rest) (hls : ∀ x ∈ ls, ∀ n r, ¬ s.Head x n r) :
    s.split (l :: ls) = [{ name := name, aliases := (s.aliases.get? name).getD [], line := rest, contents := l :: ls,
                           first := some 0, last := some ls.length }] := by
  have hnone : ∀ x ∈ ls, s.head? x = none := by
    intro x hx
    rw [Option.eq_none_iff_forall_ne_some]
    rintro ⟨n, r⟩ hsome
    exact hls x hx n r (head?_eq_some_iff.1 hsome)
  unfold split
  rw [sections, sections_of_no_head hnone, head?_eq_some_iff.2 hl]
  simp

/-- **An added annotation is read like a written one.** A text whose first line is not blank, and whose other lines are
no heads, makes the same annotation for callbacks whether it is added under a name, or written out as a comment: behind
the sigil, the name and a blank on the first line, and with the other lines below it as they are. However the lines are
indented, the head line is trimmed, and the lines below it have their normal form. -/
theorem split_ofText (hsigil : s.sigil ≠ "") (hquoted : s.quoted = [])
    (hword : name ≠ "" ∧ ∀ c ∈ name.toList, Text.isSpace c = false) (hknown : name ∈ s.names) {text first : String}
    (hlines : Text.lines text = first :: ls) (hfirst : Text.isBlank first = false)
    (hls : ∀ l ∈ ls, ∀ n r, ¬ s.Head l n r) (aliases : List String) :
    ∃ a, s.split ((s.sigil ++ name ++ " " ++ first) :: ls) = [a] ∧ a.name = name ∧
      (Tag.ofText name aliases text).prepare.line = a.prepare.line ∧
      (Tag.ofText name aliases text).prepare.contents = a.prepare.contents ∧
      a.prepare.line = Text.trim first ∧ a.prepare.contents = Text.normalize ls := by
  have hhead : s.Head (s.sigil ++ name ++ " " ++ first) name (" " ++ first) := by
    rw [String.append_assoc]
    refine head_of_start hsigil hquoted hword.2 ?_ hknown
    intro c hc
    rw [String.toList_append] at hc
    obtain rfl : ' ' = c := Option.some.inj hc
    rfl
  have hmem : first ∈ Text.lines text := by rw [hlines]; exact List.mem_cons_self
  have hbreaks := Text.not_mem_of_mem_lines hmem
  have hline : Text.normalizeText (" " ++ first) = Text.trim first := by
    rw [Text.normalizeText_of_not_mem (by simpa using hbreaks.1) (by simpa using hbreaks.2),
      Text.trim_append_of_blank (by decide)]
  obtain ⟨hadded, hbelow⟩ := Tag.prepare_ofText hlines hfirst name aliases
  refine ⟨_, split_head_line hhead hls, rfl, ?_⟩
  dsimp only [Tag.prepare] at hadded hbelow ⊢
  rw [hadded, hbelow, hline]
  exact ⟨rfl, rfl, rfl, rfl⟩

/-- A splitter of two names. -/
def noting : Splitter := { sigil := "@", names := ["note", "name"] }

/-- The head line stands further to the right than the lines below it, one of them behind tabs. -/
theorem split_ofText_indented :
    ∃ a, noting.split ["@note     (5) first ", "  second", "\t\t third", " "] = [a] ∧
      (Tag.ofText "note" ["n"] "    (5) first \r\n  second\n\t\t third\n ").prepare.line = a.prepare.line ∧
      (Tag.ofText "note" ["n"] "    (5) first \r\n  second\n\t\t third\n ").prepare.contents = a.prepare.contents ∧
      a.prepare.line = "(5) first" ∧ a.prepare.contents = ["second", " third"] := by
  have hlines : Text.lines "    (5) first \r\n  second\n\t\t third\n " =
      "    (5) first " :: ["  second", "\t\t third", " "] := by decide +kernel
  have hnone : ∀ l ∈ ["  second", "\t\t third", " "], noting.head? l = none := by decide +kernel
  have hls : ∀ l ∈ ["  second", "\t\t third", " "], ∀ n r, ¬ noting.Head l n r := by
    intro l hl n r h
    have hsome := hnone l hl
    rw [head?_eq_some_iff.2 h] at hsome
    cases hsome
  have hspace : "note".toList.all (Text.isSpace · = false) = true := by decide +kernel
  have hword : "note" ≠ "" ∧ ∀ c ∈ "note".toList, Text.isSpace c = false :=
    ⟨by decide, fun c hc => of_decide_eq_true (List.all_eq_true.1 hspace c hc)⟩
  have hknown : "note" ∈ noting.names := by decide
  obtain ⟨a, hsplit, -, hline, hcontents, htrim, hnormal⟩ :=
    split_ofText (s := noting) (by decide) rfl hword hknown hlines (by decide) hls ["n"]
  exact ⟨a, hsplit, hline, hcontents, htrim.trans (by decide +kernel), hnormal.trans (by decide +kernel)⟩

end Splitter

end DocComments
