import DocComments.Proofs.Block.Phases

/-!
# What merging makes of a block

The first value under a name is kept as it is. A second one makes an array of the two, in which arrays are replaced by
their items, and every further one is put behind it in the same way. So a name has what its own values come to, in
their order, and it does not matter how merges under different names alternate.

* `Block.mergeAll`: merges values one after the other.
* `Block.get?_merge`: what one merge does.
* `Block.get?_mergeAll`: **under a name a block holds the values of that name**, joined.
* `Block.foldl_joinTo`, `Block.joined_of_two_le`: what several values are joined to.
* `Block.mergeAll_by_name`: the law of merging, for all blocks and runs of merges.
-/

namespace DocComments.Block

variable {b : Block} {n m : String} {v : Value} {vs : List Value} {xs : List (String × Value)}

/-- A value joined to the one that is there. -/
def joinTo (old : Option Value) (v : Value) : Value :=
  old.elim v fun old => .arr (asItems old ++ asItems v)

/-- What is there under a name after some values of it. -/
def joined (vs : List Value) : Option Value :=
  vs.foldl (fun old v => some (joinTo old v)) none

/-- Merges values one after the other. -/
def mergeAll (b : Block) (xs : List (String × Value)) : Block :=
  xs.foldl (fun b x => b.merge x.1 x.2) b

/-- The values that are merged under a name, in order. -/
def valuesUnder (n : String) (xs : List (String × Value)) : List Value :=
  (xs.filter (·.1 = n)).map (·.2)

/-! ## One merge -/

theorem merge_eq (b : Block) (n : String) (v : Value) : b.merge n v = b.insert n (joinTo (b.get? n) v) := by
  unfold merge
  cases b.get? n with
  | none => rfl
  | some old => rfl

theorem get?_merge (b : Block) (n m : String) (v : Value) :
    (b.merge n v).get? m = if m = n then some (joinTo (b.get? n) v) else b.get? m := by
  rw [merge_eq, get?_insert]

theorem contains_insert_iff : (b.insert n v).contains m = true ↔ m = n ∨ b.contains m = true := by
  rw [contains_eq, get?_insert, contains_eq]
  split
  · next h => simp [h]
  · next h => simp [h]

theorem contains_merge_iff : (b.merge n v).contains m = true ↔ m = n ∨ b.contains m = true := by
  unfold merge
  split
  · exact contains_insert_iff
  · exact contains_insert_iff

/-! ## Merges one after the other -/

theorem mergeAll_append (b : Block) (xs ys : List (String × Value)) :
    b.mergeAll (xs ++ ys) = (b.mergeAll xs).mergeAll ys :=
  List.foldl_append

theorem contains_mergeAll_iff : (b.mergeAll xs).contains m = true ↔ m ∈ xs.map (·.1) ∨ b.contains m = true := by
  induction xs generalizing b with
  | nil => simp [mergeAll]
  | cons x xs ih =>
    have hcons : b.mergeAll (x :: xs) = (b.merge x.1 x.2).mergeAll xs := rfl
    rw [hcons, ih, contains_merge_iff, List.map_cons, List.mem_cons]
    tauto

/-- **Under a name a block holds the values of that name**, whatever else is merged into it. -/
theorem get?_mergeAll (b : Block) (n : String) (xs : List (String × Value)) :
    (b.mergeAll xs).get? n = (valuesUnder n xs).foldl (fun old v => some (joinTo old v)) (b.get? n) := by
  unfold valuesUnder
  induction xs generalizing b with
  | nil => rfl
  | cons x xs ih =>
    have hcons : b.mergeAll (x :: xs) = (b.merge x.1 x.2).mergeAll xs := rfl
    rw [hcons, ih, get?_merge]
    by_cases hx : x.1 = n
    · rw [if_pos hx.symm, List.filter_cons_of_pos (by simpa using hx), List.map_cons, List.foldl_cons, hx]
    · rw [if_neg (Ne.symm hx), List.filter_cons_of_neg (by simpa using hx)]

/-! ## What values are joined to -/

theorem foldl_joinTo (old v : Value) (vs : List Value) :
    (v :: vs).foldl (fun old v => some (joinTo old v)) (some old) =
      some (.arr (asItems old ++ (v :: vs).flatMap asItems)) := by
  induction vs generalizing old v with
  | nil => simp [joinTo]
  | cons w vs ih =>
    rw [List.foldl_cons, joinTo, Option.elim_some, ih]
    simp [asItems]

/-- Several values become one array of their items. -/
theorem joined_of_two_le (h : 2 ≤ vs.length) : joined vs = some (.arr (vs.flatMap asItems)) := by
  match vs, h with
  | v :: w :: vs, _ =>
    have hcons : joined (v :: w :: vs) = (w :: vs).foldl (fun old v => some (joinTo old v)) (some v) := rfl
    rw [hcons, foldl_joinTo, ← List.flatMap_cons]

theorem joined_eq_none_iff : joined vs = none ↔ vs = [] := by
  match vs with
  | [] => simp [joined]
  | [v] => simp [joined, joinTo]
  | v :: w :: vs => simp [joined_of_two_le]

theorem asItems_eq (v : Value) : asItems v = v.items?.getD [v] := by
  cases v <;> rfl

/-! ## The law -/

theorem ext_get? {b c : Block} (h : ∀ n, b.get? n = c.get? n) : b = c := by
  cases b
  cases c
  exact congrArg Block.mk (Table.ext_get? h)

/-- Only the order of the values under each name counts. -/
theorem mergeAll_congr (b : Block) {xs ys : List (String × Value)} (h : ∀ n, valuesUnder n ys = valuesUnder n xs) :
    b.mergeAll ys = b.mergeAll xs := by
  apply ext_get?
  intro n
  rw [get?_mergeAll, get?_mergeAll, h]

/-- **The law of merging.** A name without merges keeps what it has. One value under a name that was absent is kept as
it is. Several, or any behind a value that was there, become one array: that value first and the others in order, of
each array its items and of everything else itself. So the block depends on the values under each name alone, and not
on how merges under different names alternate. -/
theorem mergeAll_by_name (b : Block) (xs : List (String × Value)) :
    (∀ n,
      (valuesUnder n xs = [] → (b.mergeAll xs).get? n = b.get? n) ∧
      (∀ v, b.get? n = none → valuesUnder n xs = [v] → (b.mergeAll xs).get? n = some v) ∧
      (b.get? n = none → 2 ≤ (valuesUnder n xs).length →
        (b.mergeAll xs).get? n = some (.arr ((valuesUnder n xs).flatMap fun v => v.items?.getD [v]))) ∧
      ∀ v₀, b.get? n = some v₀ → valuesUnder n xs ≠ [] →
        (b.mergeAll xs).get? n = some (.arr ((v₀ :: valuesUnder n xs).flatMap fun v => v.items?.getD [v]))) ∧
    ∀ ys, (∀ n, valuesUnder n ys = valuesUnder n xs) → b.mergeAll ys = b.mergeAll xs := by
  refine ⟨fun n => ?_, fun ys h => mergeAll_congr b h⟩
  have hitems : (fun v : Value => v.items?.getD [v]) = asItems := funext fun v => (asItems_eq v).symm
  rw [get?_mergeAll, hitems]
  generalize valuesUnder n xs = vs
  refine ⟨?_, ?_, ?_, ?_⟩
  · rintro rfl
    rfl
  · rintro v hnone rfl
    rw [hnone]
    rfl
  · intro hnone hlen
    rw [hnone]
    exact joined_of_two_le hlen
  · intro v₀ hsome hne
    obtain ⟨v, vs, rfl⟩ := List.exists_cons_of_ne_nil hne
    rw [hsome, foldl_joinTo, ← List.flatMap_cons]

/-- A null that came alone stays, and an array behind a text is taken apart; with the merges of one name first the
block is the same. -/
theorem mergeAll_by_name_mixed :
    let b : Block := ofList [("author", .str "a")]
    let xs : List (String × Value) := [("author", .arr [.str "b", .null]), ("note", .null), ("author", .str "c")]
    (b.mergeAll xs).get? "note" = some .null ∧
      (b.mergeAll xs).get? "author" = some (.arr [.str "a", .str "b", .null, .str "c"]) ∧
      b.mergeAll [("note", .null), ("author", .arr [.str "b", .null]), ("author", .str "c")] = b.mergeAll xs := by
  intro b xs
  obtain ⟨hnames, horder⟩ := mergeAll_by_name b xs
  refine ⟨(hnames "note").2.1 .null rfl rfl, (hnames "author").2.2.2 (.str "a") rfl ?_, horder _ fun n => ?_⟩
  · exact List.cons_ne_nil _ _
  · by_cases hnote : n = "note"
    · subst hnote
      rfl
    · have hne : ¬ "note" = n := fun h => hnote h.symm
      simp [valuesUnder, xs, hne, List.filter_cons]

end DocComments.Block
