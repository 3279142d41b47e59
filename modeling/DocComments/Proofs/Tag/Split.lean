import Mathlib.Data.List.Forall2
import Mathlib.Data.List.TakeWhile
import DocComments.Proofs.Text.Cut
import DocComments.Tag.Split

/-!
# Annotations partition their comment

A comment is cut at its heads. Each annotation has the lines from its head up to the next one, so from the first head
on every line is in one annotation.

* `Splitter.Head`: what a head is, by its text.
* `Splitter.head?_eq_some_iff`: the splitter finds the heads, and no others.
* `Splitter.sections_from`: **what the lines from one place on are cut into**, by induction over them.
* `Splitter.exists_head`: the first line of an annotation is its head.
* `Splitter.split_partition`: one annotation for each head, and their contents are the lines from the first head on.
-/

namespace DocComments.Splitter

variable {s : Splitter} {line name rest : String}

/-- A line is a head: no marker quotes it, its first sigil is not behind a backslash, and what follows that up to white
space or the end of the line is a known name. -/
structure Head (s : Splitter) (line name rest : String) : Prop where
  sigil : s.sigil ≠ ""
  unquoted : ∀ m ∈ s.quoted, m ≠ "" → ¬ (m ++ " " ++ s.sigil).toList <:+: line.toList
  place : ∃ before : String, line = before ++ s.sigil ++ name ++ rest ∧ before.toList.getLast? ≠ some '\\' ∧
    ∀ b r : String, line = b ++ s.sigil ++ r → before.length ≤ b.length
  word : ∀ c ∈ name.toList, Text.isSpace c = false
  behind : ∀ c ∈ rest.toList.head?, Text.isSpace c = true
  known : name ∈ s.names

theorem quotes_eq_false_iff :
    s.quotes line = false ↔ ∀ m ∈ s.quoted, m ≠ "" → ¬ (m ++ " " ++ s.sigil).toList <:+: line.toList := by
  simp only [quotes, List.any_eq_false, Bool.and_eq_true, Bool.not_eq_true', String.isEmpty_eq_false_iff,
    Text.contains_iff, not_and]

/-- **The splitter finds the heads**, and no others. -/
theorem head?_eq_some_iff : s.head? line = some (name, rest) ↔ s.Head line name rest := by
  unfold head?
  constructor
  · intro h
    split at h
    · cases h
    · next hpre =>
      rw [Bool.or_eq_true, not_or, Bool.not_eq_true, Bool.not_eq_true, String.isEmpty_eq_false_iff,
        quotes_eq_false_iff] at hpre
      cases hcut : Text.cut? s.sigil.toList line.toList with
      | none => rw [hcut] at h; cases h
      | some br =>
        obtain ⟨before, after⟩ := br
        rw [hcut] at h
        dsimp only at h
        obtain ⟨hline, hmin⟩ := Text.cut?_eq_some_iff.1 hcut
        split at h
        · cases h
        · next hescape =>
          split at h
          · next hknown =>
            obtain ⟨rfl, rfl⟩ := Prod.mk.inj (Option.some.inj h)
            refine ⟨hpre.1, hpre.2, ⟨String.ofList before, ?_, ?_, ?_⟩, ?_, ?_, by simpa using hknown⟩
            · rw [← String.toList_inj]
              simp [hline]
            · simpa using hescape
            · intro b r hb
              rw [← String.length_toList, ← String.length_toList, String.toList_ofList]
              exact hmin b.toList r.toList (by rw [hb]; simp)
            · intro c hc
              rw [String.toList_ofList] at hc
              simpa using List.mem_takeWhile_imp hc
            · intro c hc
              have hnot := List.head?_dropWhile_not (! Text.isSpace ·) after
              rw [String.toList_ofList] at hc
              rw [hc] at hnot
              simpa using hnot
          · cases h
  · rintro ⟨hsigil, hunquoted, ⟨before, rfl, hescape, hmin⟩, hword, hbehind, hknown⟩
    have hcut : Text.cut? s.sigil.toList (before ++ s.sigil ++ name ++ rest).toList =
        some (before.toList, name.toList ++ rest.toList) := by
      rw [Text.cut?_eq_some_iff]
      refine ⟨by simp, fun b' r' hb => ?_⟩
      have hle := hmin (String.ofList b') (String.ofList r') (by rw [← String.toList_inj, hb]; simp)
      rwa [← String.length_toList, ← String.length_toList, String.toList_ofList] at hle
    -- the name and what stands behind it are told apart by the first white space
    have hname : ∀ c ∈ name.toList, (! Text.isSpace c) = true := fun c hc => by rw [hword c hc]; rfl
    have hrest : ∀ c ∈ rest.toList.head?, (! Text.isSpace c) = false := fun c hc => by rw [hbehind c hc]; rfl
    obtain ⟨htake, hdrop⟩ := Text.takeWhile_append_eq hname hrest
    have hpre : ¬ (s.sigil.isEmpty || s.quotes (before ++ s.sigil ++ name ++ rest)) = true := by
      rw [Bool.or_eq_true, not_or, Bool.not_eq_true, Bool.not_eq_true, String.isEmpty_eq_false_iff,
        quotes_eq_false_iff]
      exact ⟨hsigil, hunquoted⟩
    rw [if_neg hpre, hcut]
    dsimp only
    rw [if_neg hescape, htake, hdrop, String.ofList_toList, String.ofList_toList, if_pos (by simpa using hknown)]

/-- The indices of the heads in some lines, of which the first has the index `i`. -/
def heads (s : Splitter) (i : Nat) : List String → List Nat
  | [] => []
  | l :: ls => if (s.head? l).isSome then i :: s.heads (i + 1) ls else s.heads (i + 1) ls

variable {i : Nat} {l : String} {ls lines : List String}

theorem mem_heads_iff {k : Nat} : k ∈ s.heads i ls ↔ i ≤ k ∧ ∃ l, ls[k - i]? = some l ∧ (s.head? l).isSome = true := by
  induction ls generalizing i with
  | nil => simp [heads]
  | cons l ls ih =>
    have hshift : i + 1 ≤ k → k - i = (k - (i + 1)) + 1 := by omega
    have htail : k ∈ s.heads (i + 1) ls ↔ i + 1 ≤ k ∧ ∃ x, (l :: ls)[k - i]? = some x ∧ (s.head? x).isSome = true := by
      rw [ih]
      refine and_congr_right fun hk => ?_
      rw [hshift hk, List.getElem?_cons_succ]
    rw [heads]
    split
    · next hl =>
      rw [List.mem_cons, htail]
      constructor
      · rintro (rfl | ⟨hk, hx⟩)
        · exact ⟨le_rfl, l, by simp, hl⟩
        · exact ⟨by omega, hx⟩
      · rintro ⟨hk, hx⟩
        rcases Nat.eq_or_lt_of_le hk with rfl | hlt
        · exact .inl rfl
        · exact .inr ⟨hlt, hx⟩
    · next hl =>
      rw [htail]
      constructor
      · rintro ⟨hk, hx⟩
        exact ⟨by omega, hx⟩
      · rintro ⟨hk, x, hx, hhead⟩
        rcases Nat.eq_or_lt_of_le hk with rfl | hlt
        · rw [Nat.sub_self, List.getElem?_cons_zero, Option.some.injEq] at hx
          exact absurd (hx ▸ hhead) hl
        · exact ⟨hlt, x, hx, hhead⟩

theorem pairwise_heads (s : Splitter) (i : Nat) (ls : List String) : (s.heads i ls).Pairwise (· < ·) := by
  induction ls generalizing i with
  | nil => exact List.Pairwise.nil
  | cons l ls ih =>
    rw [heads]
    split
    · refine List.Pairwise.cons ?_ (ih (i + 1))
      intro k hk
      exact (mem_heads_iff.1 hk).1
    · exact ih (i + 1)

/-- An annotation of the lines from `b.1` up to `b.2`, with its head on the first of them. -/
structure Covers (s : Splitter) (lines : List String) (b : Nat × Nat) (a : Tag) : Prop where
  first : a.first = some b.1
  last : a.last = some (b.2 - 1)
  contents : a.contents = (lines.drop b.1).take (b.2 - b.1)
  head : ∃ l, lines[b.1]? = some l ∧ s.Head l a.name a.line
  aliases : a.aliases = (s.aliases.get? a.name).getD []

/-- The first head, or the end of the lines. -/
def next (s : Splitter) (lines : List String) (i : Nat) : Nat :=
  (s.heads i (lines.drop i)).head?.getD lines.length

theorem le_next (h : i ≤ lines.length) : i ≤ s.next lines i := by
  unfold next
  cases hh : (s.heads i (lines.drop i)).head? with
  | none => exact h
  | some k => exact (mem_heads_iff.1 (List.mem_of_head? hh)).1

theorem next_le (s : Splitter) (lines : List String) (i : Nat) : s.next lines i ≤ lines.length := by
  unfold next
  cases hh : (s.heads i (lines.drop i)).head? with
  | none => exact le_rfl
  | some k =>
    obtain ⟨hk, l, hl, -⟩ := mem_heads_iff.1 (List.mem_of_head? hh)
    have hlt := (List.getElem?_eq_some_iff.1 hl).1
    rw [List.length_drop] at hlt
    simp only [Option.getD_some]
    omega

/-- **What the lines from one place on are cut into**: those before the first head, and one annotation for each head,
that goes up to the next one. -/
theorem sections_from (s : Splitter) {lines ls : List String} {i : Nat} (hls : lines.drop i = ls) :
    (s.sections i ls).1 = ls.take (s.next lines i - i) ∧
      List.Forall₂ (s.Covers lines) ((s.heads i ls).zip ((s.heads i ls).tail ++ [lines.length]))
        (s.sections i ls).2 := by
  induction ls generalizing i with
  | nil => exact ⟨by simp [sections], .nil⟩
  | cons l ls ih =>
    have htail : lines.drop (i + 1) = ls := by rw [← List.tail_drop, hls]; rfl
    have hline : lines[i]? = some l := by rw [← List.head?_drop, hls]; rfl
    have hlen : i + 1 ≤ lines.length := (List.getElem?_eq_some_iff.1 hline).1
    obtain ⟨hbefore, htags⟩ := ih htail
    have hnext := le_next (s := s) hlen
    have hheads : s.next lines i = if (s.head? l).isSome then i else s.next lines (i + 1) := by
      unfold next
      rw [hls, htail, heads]
      split <;> rfl
    -- the lines up to the next head are this one and those before it
    have htake : ls.take (s.next lines (i + 1) - (i + 1)) = (s.sections (i + 1) ls).1 := hbefore.symm
    have hcons : (l :: ls).take (s.next lines (i + 1) - i) = l :: (s.sections (i + 1) ls).1 := by
      rw [show s.next lines (i + 1) - i = (s.next lines (i + 1) - (i + 1)) + 1 by omega, List.take_succ_cons, htake]
    rw [sections, heads, hheads]
    cases hl : s.head? l with
    | none =>
      simp only [Option.isSome_none, Bool.false_eq_true, if_false]
      exact ⟨hcons.symm, htags⟩
    | some nr =>
      obtain ⟨name, rest⟩ := nr
      simp only [Option.isSome_some, if_true, Nat.sub_self, List.take_zero, List.tail_cons, true_and]
      have hzip : (i :: s.heads (i + 1) ls).zip (s.heads (i + 1) ls ++ [lines.length]) =
          (i, s.next lines (i + 1)) :: (s.heads (i + 1) ls).zip ((s.heads (i + 1) ls).tail ++ [lines.length]) := by
        unfold next
        rw [htail]
        cases s.heads (i + 1) ls <;> rfl
      rw [hzip]
      refine .cons ⟨rfl, ?_, ?_, ⟨l, hline, head?_eq_some_iff.1 hl⟩, rfl⟩ htags
      · have hlength := congrArg List.length htake
        have hls' := congrArg List.length htail
        rw [List.length_take] at hlength
        rw [List.length_drop] at hls'
        have hbound := s.next_le lines (i + 1)
        simp only [Option.some.injEq]
        omega
      · rw [hls]
        exact hcons.symm

/-- No line is lost. -/
theorem sections_flatMap (s : Splitter) (i : Nat) (ls : List String) :
    (s.sections i ls).1 ++ (s.sections i ls).2.flatMap (·.contents) = ls := by
  induction ls generalizing i with
  | nil => rfl
  | cons l ls ih =>
    rw [sections]
    cases s.head? l with
    | none => exact congrArg (l :: ·) (ih (i + 1))
    | some nr => exact congrArg (l :: ·) (ih (i + 1))

/-- The first line of an annotation is its head. -/
theorem exists_head {a : Tag} (h : a ∈ s.split lines) :
    ∃ i l, a.first = some i ∧ lines[i]? = some l ∧ s.Head l a.name a.line := by
  obtain ⟨-, hcovers⟩ := s.sections_from (List.drop_zero (l := lines))
  obtain ⟨k, hk, rfl⟩ := List.getElem_of_mem h
  have hcover := hcovers.get (hcovers.length_eq ▸ hk) hk
  obtain ⟨l, hl, hhead⟩ := hcover.head
  exact ⟨_, l, hcover.first, hl, hhead⟩

theorem map_first_of_covers {hs ends : List Nat} {as : List Tag} (hlen : hs.length ≤ ends.length)
    (h : List.Forall₂ (s.Covers lines) (hs.zip ends) as) : as.map (·.first) = hs.map some := by
  have hmap : List.Forall₂ (· = ·) ((hs.zip ends).map fun b => some b.1) (as.map (·.first)) :=
    List.forall₂_map_left_iff.2 (List.forall₂_map_right_iff.2 (h.imp fun b a hc => hc.first.symm))
  rw [List.forall₂_eq_eq_eq] at hmap
  rw [← hmap, ← List.map_fst_zip hlen, List.map_map, List.map_fst_zip hlen]
  rfl

/-- **Annotations partition their comment.** The heads are listed from the top, each once. There is one annotation for
each of them, in order, that has the lines up to the next head or the end of the comment, and its name and first line
are those of the head. Together the annotations hold the lines from the first head on. -/
theorem split_partition (s : Splitter) (lines : List String) :
    (s.heads 0 lines).Pairwise (· < ·) ∧
    (∀ i, i ∈ s.heads 0 lines ↔ ∃ l name rest, lines[i]? = some l ∧ s.Head l name rest) ∧
    (s.split lines).map (·.first) = (s.heads 0 lines).map some ∧
    List.Forall₂ (s.Covers lines) ((s.heads 0 lines).zip ((s.heads 0 lines).tail ++ [lines.length])) (s.split lines) ∧
    (s.split lines).flatMap (·.contents) = lines.drop ((s.heads 0 lines).head?.getD lines.length) := by
  obtain ⟨hbefore, hcovers⟩ := s.sections_from (List.drop_zero (l := lines))
  refine ⟨s.pairwise_heads 0 lines, ?_, ?_, hcovers, ?_⟩
  · intro i
    simp only [mem_heads_iff, Nat.zero_le, true_and, Nat.sub_zero, Option.isSome_iff_exists, Prod.exists,
      head?_eq_some_iff]
    exact ⟨fun ⟨l, hl, n, r, h⟩ => ⟨l, n, r, hl, h⟩, fun ⟨l, n, r, hl, h⟩ => ⟨l, hl, n, r, h⟩⟩
  · exact map_first_of_covers (by simp; omega) hcovers
  · have hall := s.sections_flatMap 0 lines
    rw [hbefore, Nat.sub_zero] at hall
    exact List.append_cancel_left (hall.trans (List.take_append_drop _ _).symm)

-- a quoted head, one behind a backslash and an unknown name are lines like any other
example :
    (split { sigil := "@", names := ["markup", "name"], quoted := ["///"] }
      ["text", "@markup Usage", "/// @name a", "\\@name b", "@other", "@name c", "more"]).map
        (fun a => (a.name, a.line, a.first, a.last)) =
      [("markup", " Usage", some 1, some 4), ("name", " c", some 5, some 6)] := by decide +kernel

end DocComments.Splitter
