/-!
# Tables

A table maps texts to values and lists its entries by key, in code point order. The order is part of the
type, so two tables are equal when they answer every key alike.

* `Entries`: lookup, insertion and removal on a list of entries, whatever its order.
* `Table`: the entries with their order.
* `Table.ext_get?`: the extensionality.
-/

namespace DocComments

universe u v

namespace Entries

variable {α : Type u}

/-- The value of the first entry with the key `k`. -/
def find? (k : String) : List (String × α) → Option α
  | [] => none
  | (k', v) :: es => if k = k' then some v else find? k es

/-- The entries with `v` at the key `k`: in the place of an entry with that key, else before the first entry
with a greater one. -/
def insert (k : String) (v : α) : List (String × α) → List (String × α)
  | [] => [(k, v)]
  | (k', v') :: es =>
    if k < k' then (k, v) :: (k', v') :: es
    else if k = k' then (k, v) :: es
    else (k', v') :: insert k v es

/-- The entries without those of the key `k`. -/
def erase (k : String) (es : List (String × α)) : List (String × α) :=
  es.filter fun e => e.1 ≠ k

/-- Keys increase from entry to entry. -/
def Ordered (es : List (String × α)) : Prop :=
  es.Pairwise fun a b => a.1 < b.1

theorem mem_insert {k : String} {v : α} {e : String × α} {es : List (String × α)}
    (h : e ∈ insert k v es) : e = (k, v) ∨ e ∈ es := by
  induction es with
  | nil => simpa [insert] using h
  | cons hd tl ih =>
    rw [insert] at h
    split at h
    · simpa using h
    · split at h
      · exact (List.mem_cons.1 h).imp_right (List.mem_cons_of_mem _)
      · rcases List.mem_cons.1 h with h | h
        · exact .inr (h ▸ List.mem_cons_self)
        · exact (ih h).imp_right (List.mem_cons_of_mem _)

theorem Ordered.insert {es : List (String × α)} (h : Ordered es) (k : String) (v : α) :
    Ordered (insert k v es) := by
  induction es with
  | nil => simp [Entries.insert, Ordered]
  | cons hd tl ih =>
    obtain ⟨hhd, htl⟩ := List.pairwise_cons.1 h
    rw [Entries.insert]
    split
    · next hlt =>
      refine List.pairwise_cons.2 ⟨fun e he => ?_, h⟩
      rcases List.mem_cons.1 he with rfl | he
      · exact hlt
      · exact String.lt_trans hlt (hhd e he)
    · next hlt =>
      split
      · next heq => subst heq; exact List.pairwise_cons.2 ⟨hhd, htl⟩
      · next hne =>
        refine List.pairwise_cons.2 ⟨fun e he => ?_, ih htl⟩
        rcases mem_insert he with rfl | he
        · exact Decidable.byContradiction fun hn =>
            hne (String.le_antisymm (String.not_lt.1 hn) (String.not_lt.1 hlt))
        · exact hhd e he

theorem Ordered.filter {es : List (String × α)} (h : Ordered es) (p : String × α → Bool) :
    Ordered (es.filter p) :=
  List.Pairwise.filter p h

theorem Ordered.map {β : Type v} {es : List (String × α)} (h : Ordered es) (f : String → α → β) :
    Ordered (es.map fun e => (e.1, f e.1 e.2)) :=
  List.Pairwise.map _ (fun _ _ h => h) h

@[simp] theorem find?_insert_self (k : String) (v : α) (es : List (String × α)) :
    find? k (insert k v es) = some v := by
  induction es with
  | nil => simp [insert, find?]
  | cons hd tl ih =>
    rw [insert]
    split
    · simp [find?]
    · split
      · simp [find?]
      · next hne => simp [find?, hne, ih]

theorem find?_insert_of_ne {k k' : String} (h : k' ≠ k) (v : α) (es : List (String × α)) :
    find? k' (insert k v es) = find? k' es := by
  induction es with
  | nil => simp [insert, find?, h]
  | cons hd tl ih =>
    rw [insert]
    split
    · simp [find?, h]
    · split
      · next heq => subst heq; simp [find?, h]
      · simp only [find?, ih]

theorem find?_eq_none {k : String} {es : List (String × α)} (h : ∀ e ∈ es, k < e.1) :
    find? k es = none := by
  induction es with
  | nil => rfl
  | cons hd tl ih =>
    have hlt := h hd List.mem_cons_self
    have hne : k ≠ hd.1 := fun he => String.lt_irrefl _ (he ▸ hlt)
    rw [find?, if_neg hne, ih fun e he => h e (List.mem_cons_of_mem _ he)]

/-- Ordered entries are determined by what they hold at each key. -/
theorem Ordered.ext {es fs : List (String × α)} (he : Ordered es) (hf : Ordered fs)
    (h : ∀ k, find? k es = find? k fs) : es = fs := by
  induction es generalizing fs with
  | nil =>
    cases fs with
    | nil => rfl
    | cons b fs => simpa [find?] using h b.1
  | cons a es ih =>
    cases fs with
    | nil => simpa [find?] using h a.1
    | cons b fs =>
      obtain ⟨ha, hes⟩ := List.pairwise_cons.1 he
      obtain ⟨hb, hfs⟩ := List.pairwise_cons.1 hf
      have hk : a.1 = b.1 := by
        refine String.le_antisymm (String.not_lt.1 fun hlt => ?_) (String.not_lt.1 fun hlt => ?_)
        · have hn : find? b.1 (a :: es) = none := find?_eq_none fun e hm => by
            rcases List.mem_cons.1 hm with rfl | hm
            · exact hlt
            · exact String.lt_trans hlt (ha e hm)
          rw [h b.1] at hn; simp [find?] at hn
        · have hn : find? a.1 (b :: fs) = none := find?_eq_none fun e hm => by
            rcases List.mem_cons.1 hm with rfl | hm
            · exact hlt
            · exact String.lt_trans hlt (hb e hm)
          rw [← h a.1] at hn; simp [find?] at hn
      have hv : a.2 = b.2 := by simpa [find?, hk] using h a.1
      have ht : es = fs := ih hes hfs fun k => by
        by_cases hka : k = a.1
        · subst hka
          rw [find?_eq_none ha, find?_eq_none (hk ▸ hb)]
        · simpa [find?, hka, hk ▸ hka] using h k
      rw [ht, show a = b from Prod.ext hk hv]

end Entries

/-- A map from texts to values that lists its entries by key. -/
structure Table (α : Type u) where
  entries : List (String × α)
  ordered : Entries.Ordered entries

namespace Table

variable {α : Type u} {β : Type v}

def empty : Table α := ⟨[], List.Pairwise.nil⟩

instance : EmptyCollection (Table α) := ⟨empty⟩

instance : Inhabited (Table α) := ⟨empty⟩

def get? (t : Table α) (k : String) : Option α := Entries.find? k t.entries

def contains (t : Table α) (k : String) : Bool := (t.get? k).isSome

def insert (t : Table α) (k : String) (v : α) : Table α :=
  ⟨Entries.insert k v t.entries, t.ordered.insert k v⟩

def keys (t : Table α) : List String := t.entries.map (·.1)

def values (t : Table α) : List α := t.entries.map (·.2)

def size (t : Table α) : Nat := t.entries.length

def isEmpty (t : Table α) : Bool := t.entries.isEmpty

/-- Inserts the entries one after the other: of two with one key, the later stays. -/
def insertAll (t : Table α) (es : List (String × α)) : Table α :=
  es.foldl (fun t e => t.insert e.1 e.2) t

def ofList (es : List (String × α)) : Table α := insertAll empty es

/-- The entries of `u`, and those of `t` at the other keys. -/
def union (t u : Table α) : Table α := t.insertAll u.entries

def filter (t : Table α) (p : String → α → Bool) : Table α :=
  ⟨t.entries.filter fun e => p e.1 e.2, t.ordered.filter _⟩

def map (t : Table α) (f : String → α → β) : Table β :=
  ⟨t.entries.map fun e => (e.1, f e.1 e.2), t.ordered.map f⟩

/-- Tables that answer every key alike are equal. -/
theorem ext_get? {t t' : Table α} (h : ∀ k, t.get? k = t'.get? k) : t = t' := by
  cases t; cases t'
  congr
  exact Entries.Ordered.ext ‹_› ‹_› h

@[simp] theorem get?_insert_self (t : Table α) (k : String) (v : α) : (t.insert k v).get? k = some v :=
  Entries.find?_insert_self k v t.entries

theorem get?_insert_of_ne (t : Table α) {k k' : String} (h : k' ≠ k) (v : α) :
    (t.insert k v).get? k' = t.get? k' :=
  Entries.find?_insert_of_ne h v t.entries

end Table

end DocComments
