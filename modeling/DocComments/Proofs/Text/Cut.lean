import Mathlib.Data.List.Basic
import DocComments.Text.Cut

/-!
# Pieces of a text

What a search finds, and what a text is cut into, are pieces of the text.

* `cut?_eq_some_iff`: a text is cut at the first place of a pattern.
* `contains_iff`: a text contains its pieces.
* `mem_splitOn_iff`: what a text is cut into at a character.
* `isInfix_of_mem_splitOnChar`, `exists_mem_splitOnChar`, `length_splitOnChar`: these are pieces of it that hold all its
  other characters, one more than there are places.
* `takeWhile_append_eq`: a text falls into its first characters of a kind and the rest.
* `exists_last`: a text is cut at the last place of a character.
-/

namespace DocComments.Text

theorem after?_eq_some_iff {p s r : List Char} : after? p s = some r ↔ s = p ++ r := by
  induction p generalizing s with
  | nil => simp [after?, eq_comm]
  | cons a p ih =>
    cases s with
    | nil => simp [after?]
    | cons c s =>
      by_cases h : a = c
      · simp [after?, h, ih]
      · simp [after?, h, Ne.symm h]

theorem isSome_after?_iff {p s : List Char} : (after? p s).isSome = true ↔ p <+: s := by
  rw [Option.isSome_iff_exists]
  simp only [after?_eq_some_iff]
  exact ⟨fun ⟨r, h⟩ => ⟨r, h.symm⟩, fun ⟨r, h⟩ => ⟨r, h.symm⟩⟩

theorem isSome_cut?_iff {p s : List Char} : (cut? p s).isSome = true ↔ p <:+: s := by
  induction s with
  | nil =>
    rw [cut?, Option.isSome_map, isSome_after?_iff, List.prefix_nil, List.infix_nil]
  | cons c s ih =>
    rw [cut?, List.infix_cons_iff, ← isSome_after?_iff, ← ih]
    cases after? p (c :: s) with
    | some r => simp
    | none => simp

/-- A text is cut at the first place of a pattern. -/
theorem cut?_eq_some_iff {p s b r : List Char} :
    cut? p s = some (b, r) ↔ s = b ++ p ++ r ∧ ∀ b' r', s = b' ++ p ++ r' → b.length ≤ b'.length := by
  induction s generalizing b with
  | nil =>
    rw [cut?, Option.map_eq_some_iff]
    simp only [after?_eq_some_iff, Prod.mk.injEq]
    constructor
    · rintro ⟨r', h, rfl, rfl⟩
      exact ⟨h, fun b' _ _ => Nat.zero_le b'.length⟩
    · rintro ⟨h, -⟩
      obtain ⟨hbp, rfl⟩ := List.append_eq_nil_iff.1 h.symm
      obtain ⟨rfl, rfl⟩ := List.append_eq_nil_iff.1 hbp
      exact ⟨[], rfl, rfl, rfl⟩
  | cons c s ih =>
    rw [cut?]
    cases ha : after? p (c :: s) with
    | some r₀ =>
      have hr := after?_eq_some_iff.1 ha
      simp only [Option.some.injEq, Prod.mk.injEq]
      constructor
      · rintro ⟨rfl, rfl⟩
        exact ⟨hr, fun b' _ _ => Nat.zero_le b'.length⟩
      · rintro ⟨h, hmin⟩
        obtain rfl := List.length_eq_zero_iff.1 (Nat.le_zero.1 (hmin [] r₀ hr))
        exact ⟨rfl, List.append_cancel_left (hr.symm.trans h)⟩
    | none =>
      -- the pattern does not stand at the front, so a place of it has the first character before it
      have hcons : ∀ {b' r'}, c :: s = b' ++ p ++ r' → ∃ b₁, b' = c :: b₁ ∧ s = b₁ ++ p ++ r' := by
        intro b' r' h
        cases b' with
        | nil =>
          have hsome : after? p (c :: s) = some r' := after?_eq_some_iff.2 h
          rw [ha] at hsome
          cases hsome
        | cons x b₁ =>
          obtain ⟨rfl, htail⟩ := List.cons.inj h
          exact ⟨b₁, rfl, htail⟩
      simp only [Option.map_eq_some_iff, Prod.exists, Prod.mk.injEq]
      constructor
      · rintro ⟨b₁, r₁, hcut, rfl, rfl⟩
        obtain ⟨hs, hmin⟩ := ih.1 hcut
        refine ⟨by rw [hs]; rfl, fun b' r' h => ?_⟩
        obtain ⟨b₂, rfl, h₂⟩ := hcons h
        exact Nat.succ_le_succ (hmin b₂ r' h₂)
      · rintro ⟨h, hmin⟩
        obtain ⟨b₁, rfl, hs⟩ := hcons h
        refine ⟨b₁, r, ih.2 ⟨hs, fun b' r' h' => ?_⟩, rfl, rfl⟩
        exact Nat.le_of_succ_le_succ (hmin (c :: b') r' (by rw [h']; rfl))

/-- **A text contains its pieces.** -/
theorem contains_iff {s p : String} : contains s p = true ↔ p.toList <:+: s.toList :=
  isSome_cut?_iff

/-! ### Pieces between the places of a character -/

/-- What is joined stands in the whole, with the character or an end of the whole on either side. -/
theorem exists_of_mem_intercalate {c : Char} {l : List Char} {ls : List (List Char)} (h : l ∈ ls) :
    ∃ before behind, [c].intercalate ls = before ++ l ++ behind ∧
      (∀ x ∈ before.getLast?, x = c) ∧ ∀ x ∈ behind.head?, x = c := by
  induction ls with
  | nil => cases h
  | cons k ls ih =>
    cases ls with
    | nil =>
      obtain rfl : l = k := by simpa using h
      exact ⟨[], [], by simp, by simp, by simp⟩
    | cons k' ls =>
      rw [List.intercalate_cons_cons]
      rcases List.mem_cons.1 h with rfl | h
      · exact ⟨[], c :: [c].intercalate (k' :: ls), by simp, by simp, by simp⟩
      · obtain ⟨before, behind, hjoin, hbefore, hbehind⟩ := ih h
        refine ⟨k ++ [c] ++ before, behind, by rw [hjoin]; simp, fun x hx => ?_, hbehind⟩
        rw [List.getLast?_append] at hx
        cases hlast : before.getLast? with
        | none =>
          rw [hlast] at hx
          simpa [eq_comm] using hx
        | some y =>
          rw [hlast] at hx hbefore
          exact hbefore x hx

theorem not_mem_of_mem_splitOn {c : Char} {cs l : List Char} (h : l ∈ cs.splitOn c) : c ∉ l := by
  induction cs generalizing l with
  | nil =>
    rw [List.splitOn_nil, List.mem_singleton] at h
    rw [h]
    exact List.not_mem_nil
  | cons x cs ih =>
    obtain ⟨y, ys, hys⟩ := List.exists_cons_of_ne_nil (List.splitOn_ne_nil c cs)
    rw [List.splitOn_cons_eq_if_modifyHead] at h
    rw [hys] at h ih
    split at h
    · rcases List.mem_cons.1 h with rfl | h
      · exact List.not_mem_nil
      · exact ih h
    · next hx =>
      rcases List.mem_cons.1 h with rfl | h
      · intro hc
        rcases List.mem_cons.1 hc with rfl | hc
        · exact hx (beq_self_eq_true c)
        · exact ih List.mem_cons_self hc
      · exact ih (List.mem_cons_of_mem y h)

theorem splitOn_cons_self (c : Char) (cs : List Char) : (c :: cs).splitOn c = [] :: cs.splitOn c := by
  rw [List.splitOn_cons_eq_if_modifyHead, if_pos (beq_self_eq_true c)]

/-- **The pieces of a text** are what stands from one place of the character, or end of the text, to the next. -/
theorem mem_splitOn_iff {c : Char} {cs l : List Char} :
    l ∈ cs.splitOn c ↔
      c ∉ l ∧ ∃ before behind, cs = before ++ l ++ behind ∧
        (∀ x ∈ before.getLast?, x = c) ∧ ∀ x ∈ behind.head?, x = c := by
  constructor
  · intro h
    refine ⟨not_mem_of_mem_splitOn h, ?_⟩
    obtain ⟨before, behind, hjoin, hends⟩ := exists_of_mem_intercalate (c := c) h
    rw [List.intercalate_splitOn] at hjoin
    exact ⟨before, behind, hjoin, hends⟩
  · rintro ⟨hl, before, behind, rfl, hbefore, hbehind⟩
    have hrest : l ∈ (l ++ behind).splitOn c := by
      cases behind with
      | nil =>
        rw [List.append_nil, List.splitOn_eq_singleton hl]
        exact List.mem_singleton_self l
      | cons x behind =>
        obtain rfl := hbehind x rfl
        rw [List.splitOn_append_cons_self_of_not_mem hl]
        exact List.mem_cons_self
    rcases List.eq_nil_or_concat before with rfl | ⟨init, x, rfl⟩
    · exact hrest
    · obtain rfl := hbefore x (by simp)
      have hcut : init.concat x ++ l ++ behind = init ++ x :: (l ++ behind) := by simp
      rw [hcut, List.splitOn_append_cons_self]
      exact List.mem_append_right _ hrest

theorem isInfix_of_mem_splitOnChar {s l : String} {c : Char} (h : l ∈ splitOnChar s c) : l.toList <:+: s.toList := by
  obtain ⟨cs, hcs, rfl⟩ := List.mem_map.1 h
  obtain ⟨-, before, behind, hs, -⟩ := mem_splitOn_iff.1 hcs
  rw [String.toList_ofList]
  exact ⟨before, behind, hs.symm⟩

theorem mem_of_mem_intercalate {x c : Char} {ls : List (List Char)} (hx : x ∈ [c].intercalate ls) (hc : x ≠ c) :
    ∃ l ∈ ls, x ∈ l := by
  induction ls with
  | nil => cases hx
  | cons l ls ih =>
    cases ls with
    | nil => exact ⟨l, List.mem_cons_self, by simpa using hx⟩
    | cons l' ls =>
      rw [List.intercalate_cons_cons, List.mem_append, List.mem_append, List.mem_singleton] at hx
      rcases hx with (hx | hx) | hx
      · exact ⟨l, List.mem_cons_self, hx⟩
      · exact absurd hx hc
      · obtain ⟨k, hk, hxk⟩ := ih hx
        exact ⟨k, List.mem_cons_of_mem l hk, hxk⟩

theorem exists_mem_splitOnChar {s : String} {x c : Char} (hx : x ∈ s.toList) (hc : x ≠ c) :
    ∃ l ∈ splitOnChar s c, x ∈ l.toList := by
  have hjoin : [c].intercalate (s.toList.splitOn c) = s.toList := List.intercalate_splitOn c
  rw [← hjoin] at hx
  obtain ⟨l, hl, hxl⟩ := mem_of_mem_intercalate hx hc
  exact ⟨String.ofList l, List.mem_map_of_mem hl, by rwa [String.toList_ofList]⟩

/-- There is one piece more than there are places. -/
theorem length_splitOnChar (s : String) (c : Char) : (splitOnChar s c).length = s.toList.count c + 1 := by
  unfold splitOnChar
  rw [List.length_map, List.splitOn_eq_splitOnP]
  induction s.toList with
  | nil => simp
  | cons x cs ih =>
    rw [List.splitOnP_cons_eq_if_modifyHead]
    by_cases h : x = c <;> simp [h, ih]

/-- The first elements of a kind and what stands behind them are told apart by the first element of another kind. -/
theorem takeWhile_append_eq {α : Type} {p : α → Bool} {xs ys : List α} (hxs : ∀ x ∈ xs, p x = true)
    (hys : ∀ y ∈ ys.head?, p y = false) : (xs ++ ys).takeWhile p = xs ∧ (xs ++ ys).dropWhile p = ys := by
  rw [List.takeWhile_append_of_pos hxs, List.dropWhile_append_of_pos hxs]
  cases ys with
  | nil => simp
  | cons y ys => simp [hys y rfl]

/-- A text is cut at the last place of a character. -/
theorem exists_last {s : String} {x : Char} (hx : x ∈ s.toList) :
    ∃ front back : String, s = front ++ String.singleton x ++ back ∧ x ∉ back.toList := by
  obtain ⟨back, front, hsplit, hback⟩ := List.eq_append_cons_of_mem (List.mem_reverse.2 hx)
  refine ⟨String.ofList front.reverse, String.ofList back.reverse, ?_, by simpa using hback⟩
  rw [← String.toList_inj, ← List.reverse_reverse s.toList, hsplit]
  simp [String.toList_append]

end DocComments.Text
