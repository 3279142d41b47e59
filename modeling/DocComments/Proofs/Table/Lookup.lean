import Mathlib.Data.List.Dedup
import DocComments.Table

/-!
# What a table holds

The entries of a table and its answers say the same, and each operation is known by its answers.

* `get?_eq_some_iff`: a table answers with the values of its entries.
* `get?_insertAll`, `get?_union`: of the entries of one key, the one that was put in last counts.
* `length_ofList_iff`, `entries_ofList_perm`: a table keeps all entries when no key stands twice.
-/

namespace DocComments

universe u

variable {α : Type u} {k : String} {v : α} {es : List (String × α)}

namespace Entries

/-- No key stands twice. -/
def Unique (es : List (String × α)) : Prop :=
  es.Pairwise fun a b => a.1 ≠ b.1

theorem Ordered.unique (h : Ordered es) : Unique es := by
  refine List.Pairwise.imp (fun {a b} hlt he => ?_) h
  rw [he] at hlt
  exact String.lt_irrefl _ hlt

theorem Unique.reverse (h : Unique es) : Unique es.reverse :=
  List.pairwise_reverse.2 (h.imp Ne.symm)

theorem mem_of_find? (h : find? k es = some v) : (k, v) ∈ es := by
  induction es with
  | nil => cases h
  | cons e es ih =>
    rw [find?] at h
    split at h
    · next hk =>
      obtain rfl := Option.some.inj h
      rw [hk]
      exact List.mem_cons_self
    · exact List.mem_cons_of_mem _ (ih h)

theorem exists_find? (h : (k, v) ∈ es) : ∃ x, find? k es = some x := by
  induction es with
  | nil => cases h
  | cons e es ih =>
    rw [find?]
    split
    · exact ⟨_, rfl⟩
    · next hk =>
      rcases List.mem_cons.1 h with rfl | h
      · exact absurd rfl hk
      · exact ih h

theorem Unique.find?_eq_some_iff (hu : Unique es) : find? k es = some v ↔ (k, v) ∈ es := by
  refine ⟨mem_of_find?, fun h => ?_⟩
  induction es with
  | nil => cases h
  | cons e es ih =>
    obtain ⟨hhd, htl⟩ := List.pairwise_cons.1 hu
    rw [find?]
    rcases List.mem_cons.1 h with rfl | h
    · rw [if_pos rfl]
    · rw [if_neg fun hk => hhd _ h hk.symm]
      exact ih htl h

/-- Where no key stands twice, the order of the entries does not matter. -/
theorem Unique.find?_reverse (hu : Unique es) : find? k es.reverse = find? k es := by
  ext v
  rw [hu.reverse.find?_eq_some_iff, hu.find?_eq_some_iff, List.mem_reverse]

theorem find?_append (es fs : List (String × α)) : find? k (es ++ fs) = (find? k es <|> find? k fs) := by
  induction es with
  | nil => rfl
  | cons e es ih =>
    rw [List.cons_append, find?, find?]
    split
    · rfl
    · exact ih

end Entries

namespace Table

variable {t : Table α}

/-- **A table answers with the values of its entries.** -/
theorem get?_eq_some_iff : t.get? k = some v ↔ (k, v) ∈ t.entries :=
  t.ordered.unique.find?_eq_some_iff

theorem mem_keys_iff : k ∈ t.keys ↔ t.contains k = true := by
  simp only [keys, List.mem_map, contains, Option.isSome_iff_exists, get?_eq_some_iff]
  constructor
  · rintro ⟨⟨_, v⟩, he, rfl⟩
    exact ⟨v, he⟩
  · rintro ⟨v, he⟩
    exact ⟨(k, v), he, rfl⟩

theorem get?_insert (t : Table α) (k k' : String) (v : α) :
    (t.insert k v).get? k' = if k' = k then some v else t.get? k' := by
  split
  · next h => rw [h, get?_insert_self]
  · next h => exact t.get?_insert_of_ne h v

theorem insert_insert (t : Table α) (k : String) (v w : α) : (t.insert k v).insert k w = t.insert k w := by
  refine ext_get? fun k' => ?_
  rw [get?_insert, get?_insert, get?_insert]
  by_cases h : k' = k <;> simp [h]

theorem insert_comm (t : Table α) {k l : String} (h : k ≠ l) (v w : α) :
    (t.insert k v).insert l w = (t.insert l w).insert k v := by
  refine ext_get? fun k' => ?_
  rw [get?_insert, get?_insert, get?_insert, get?_insert]
  by_cases hk : k' = k
  · subst hk
    simp [h]
  · simp [hk]

/-- **Of the entries of one key, the last one counts.** -/
theorem get?_insertAll (t : Table α) (es : List (String × α)) :
    (t.insertAll es).get? k = (Entries.find? k es.reverse <|> t.get? k) := by
  induction es generalizing t with
  | nil => rfl
  | cons e es ih =>
    have hcons : t.insertAll (e :: es) = (t.insert e.1 e.2).insertAll es := rfl
    rw [hcons, ih, List.reverse_cons, Entries.find?_append, get?_insert]
    cases Entries.find? k es.reverse with
    | some x => rfl
    | none => by_cases hk : k = e.1 <;> simp [Entries.find?, hk]

theorem get?_union (t u : Table α) : (t.union u).get? k = (u.get? k <|> t.get? k) := by
  unfold union
  rw [get?_insertAll, u.ordered.unique.find?_reverse]
  rfl

theorem mem_of_get?_ofList (h : (ofList es).get? k = some v) : (k, v) ∈ es := by
  unfold ofList at h
  rw [get?_insertAll] at h
  cases hf : Entries.find? k es.reverse with
  | none => rw [hf] at h; cases h
  | some x =>
    rw [hf] at h
    obtain rfl := Option.some.inj h
    exact List.mem_reverse.1 (Entries.mem_of_find? hf)

theorem mem_keys_ofList_iff : k ∈ (ofList es).keys ↔ k ∈ es.map (·.1) := by
  rw [mem_keys_iff, contains, Option.isSome_iff_exists]
  constructor
  · rintro ⟨v, hv⟩
    exact List.mem_map_of_mem (f := (·.1)) (mem_of_get?_ofList hv)
  · intro h
    obtain ⟨⟨k, v⟩, he, rfl⟩ := List.mem_map.1 h
    obtain ⟨x, hx⟩ := Entries.exists_find? (List.mem_reverse.2 he)
    exact ⟨x, by unfold ofList; rw [get?_insertAll, hx]; rfl⟩

theorem nodup_keys (t : Table α) : t.keys.Nodup :=
  List.pairwise_map.2 t.ordered.unique

/-- **A table has as many entries as were put in** exactly when no key stands twice among them. -/
theorem length_ofList_iff : (ofList es).entries.length = es.length ↔ (es.map (·.1)).Nodup := by
  have hkeys : (ofList es).keys.Perm (es.map (·.1)).dedup := by
    rw [List.perm_ext_iff_of_nodup (nodup_keys _) (List.nodup_dedup _)]
    intro k
    rw [mem_keys_ofList_iff, List.mem_dedup]
  have hlength : (ofList es).entries.length = (es.map (·.1)).dedup.length := by
    rw [← hkeys.length_eq, keys, List.length_map]
  have hgiven : (es.map (·.1)).length = es.length := List.length_map _
  rw [hlength, ← hgiven, ← List.dedup_eq_self]
  exact ⟨(List.dedup_sublist _).eq_of_length, congrArg List.length⟩

/-- Where no key stands twice, the table has the entries that were put in. -/
theorem entries_ofList_perm (h : (es.map (·.1)).Nodup) : (ofList es).entries.Perm es := by
  have hu : Entries.Unique es := List.pairwise_map.1 h
  rw [List.perm_ext_iff_of_nodup (nodup_keys _).of_map h.of_map]
  rintro ⟨k, v⟩
  rw [← get?_eq_some_iff, ofList, get?_insertAll, hu.find?_reverse, ← hu.find?_eq_some_iff]
  have hempty : (empty : Table α).get? k = none := rfl
  rw [hempty, Option.orElse_eq_orElse, Option.orElse_eq_or, Option.or_none]

end Table

end DocComments
