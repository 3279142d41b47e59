import Std.Data.String.ToNat
import DocComments.Proofs.Builtin.States

/-!
# Ids from indices

A markup without an id gets its index as one, and so does a state without an id. The ids that are given are free text,
so one of them may be the index of an item without an id.

* `Builtin.numbered`: the ids that are given, and the index where there is none.
* `Builtin.Clash`: the index of an item without an id is among the ids that are given.
* `Builtin.nodup_numbered_iff`: ids are distinct exactly when none of them clashes.
* `Builtin.numbering`: **what numbering does to markups and to states, and when it loses nothing.**
-/

namespace DocComments.Builtin

variable {ids : List (Option String)} {i j : Nat} {id : String}

/-- The ids that are given, and the index where there is none. -/
def numbered (ids : List (Option String)) : List String :=
  ids.mapIdx fun i id => id.getD (toString i)

/-- The index of an item without an id is among the ids that are given. -/
def Clash (ids : List (Option String)) : Prop :=
  ∃ j : Nat, ids[j]? = some none ∧ some (toString j) ∈ ids

instance (ids : List (Option String)) : Decidable (Clash ids) :=
  decidable_of_iff (∃ j ∈ List.range ids.length, ids[j]? = some none ∧ some (toString j) ∈ ids)
    ⟨fun ⟨j, _, h⟩ => ⟨j, h⟩, fun ⟨j, h⟩ => ⟨j, List.mem_range.2 (List.getElem?_eq_some_iff.1 h.1).1, h⟩⟩

theorem getElem?_numbered (ids : List (Option String)) (i : Nat) :
    (numbered ids)[i]? = ids[i]?.map fun id => id.getD (toString i) :=
  List.getElem?_mapIdx

theorem getElem?_numbered_of_some (h : ids[i]? = some (some id)) : (numbered ids)[i]? = some id := by
  rw [getElem?_numbered, h, Option.map_some, Option.getD_some]

theorem getElem?_numbered_of_none (h : ids[i]? = some none) : (numbered ids)[i]? = some (toString i) := by
  rw [getElem?_numbered, h, Option.map_some, Option.getD_none]

/-- No id is given at two places. -/
theorem ne_of_nodup (h : ids.reduceOption.Nodup) (hij : i < j) (hi : ids[i]? = some (some id)) :
    ids[j]? ≠ some (some id) := by
  intro hj
  obtain ⟨hi', hi⟩ := List.getElem?_eq_some_iff.1 hi
  obtain ⟨hj', hj⟩ := List.getElem?_eq_some_iff.1 hj
  exact List.pairwise_iff_getElem.1 (List.pairwise_filterMap.1 h) i j hi' hj' hij id hi id hj rfl

/-- **The ids are distinct exactly when none of those that are given clashes** with an index. -/
theorem nodup_numbered_iff (h : ids.reduceOption.Nodup) : (numbered ids).Nodup ↔ ¬ Clash ids := by
  have hlength : (numbered ids).length = ids.length := List.length_mapIdx
  constructor
  · rintro hnodup ⟨j, hj, hmem⟩
    obtain ⟨i, hi⟩ := List.mem_iff_getElem?.1 hmem
    have hlt : i < (numbered ids).length := hlength ▸ (List.getElem?_eq_some_iff.1 hi).1
    have hsame : (numbered ids)[i]? = (numbered ids)[j]? := by
      rw [getElem?_numbered_of_some hi, getElem?_numbered_of_none hj]
    rw [(List.getElem?_inj hlt hnodup).1 hsame, hj] at hi
    cases hi
  · intro hno
    rw [List.nodup_iff_getElem?_ne_getElem?]
    intro i j hij hj heq
    obtain ⟨a, ha⟩ : ∃ a, ids[i]? = some a := ⟨_, List.getElem?_eq_getElem (hij.trans (hlength ▸ hj))⟩
    obtain ⟨b, hb⟩ : ∃ b, ids[j]? = some b := ⟨_, List.getElem?_eq_getElem (hlength ▸ hj)⟩
    rw [getElem?_numbered, getElem?_numbered, ha, hb] at heq
    have heq := Option.some.inj heq
    cases a with
    | some x =>
      cases b with
      | some y =>
        obtain rfl : x = y := heq
        exact ne_of_nodup h hij ha hb
      | none =>
        obtain rfl : x = toString j := heq
        exact hno ⟨j, hb, List.mem_of_getElem? ha⟩
    | none =>
      cases b with
      | some y =>
        obtain rfl : toString i = y := heq
        exact hno ⟨i, ha, List.mem_of_getElem? hb⟩
      | none => exact hij.ne (Nat.repr_inj.1 heq)

/-! ## Markups -/

theorem field?_numberMarkup_id {m : Value} {id : Option String} (h : m.field? "id" = some (.ofOption id)) (i : Nat) :
    (numberMarkup i m).field? "id" = some (.str (id.getD (toString i))) := by
  cases m with
  | obj o =>
    rw [numberMarkup_obj]
    exact Builder.find?_numberFields_id h
  | _ => cases h

theorem field?_numberMarkup_of_ne {k : String} (hk : k ≠ "id") (i : Nat) (m : Value) :
    (numberMarkup i m).field? k = m.field? k := by
  cases m with
  | obj o =>
    rw [numberMarkup_obj]
    exact Builder.find?_numberFields_of_ne hk
  | _ => rfl

/-! ## States -/

/-- The lines of an annotation that hold a state. -/
def linesOf (c : ParseContext) : List String :=
  stateLines (HeadLine.read .states c.tag.line) c.tag

/-- The ids that the states of an annotation give. -/
def idsOf (c : ParseContext) : List (Option String) :=
  (linesOf c).map fun l => (HeadLine.read .state l).value

theorem map_stateEntry (c : ParseContext) : ((linesOf c).mapIdx stateEntry).map (·.1) = numbered (idsOf c) := by
  apply List.ext_getElem?
  intro i
  rw [getElem?_numbered, idsOf, List.getElem?_map, List.getElem?_map, List.getElem?_mapIdx, Option.map_map,
    Option.map_map]
  rfl

/-- As many states are kept as there are lines exactly when no id clashes. -/
theorem length_states_iff {c : ParseContext} (h : (idsOf c).reduceOption.Nodup) :
    (Table.ofList ((linesOf c).mapIdx stateEntry)).entries.length = (linesOf c).length ↔ ¬ Clash (idsOf c) := by
  have hlength : ((linesOf c).mapIdx stateEntry).length = (linesOf c).length := List.length_mapIdx
  rw [← hlength, Table.length_ofList_iff, map_stateEntry, nodup_numbered_iff h]

theorem perm_states {c : ParseContext} (h : (idsOf c).reduceOption.Nodup) (hno : ¬ Clash (idsOf c)) :
    (Table.ofList ((linesOf c).mapIdx stateEntry)).entries.Perm ((linesOf c).mapIdx stateEntry) := by
  apply Table.entries_ofList_perm
  rw [map_stateEntry]
  exact (nodup_numbered_iff h).2 hno

/-- The ids of numbered markups. -/
theorem forall₂_numbered {ms : List Value} {ids : List (Option String)}
    (hids : List.Forall₂ (fun m id => m.field? "id" = some (.ofOption id)) ms ids) :
    List.Forall₂ (fun m id => m.field? "id" = some (.str id)) (ms.mapIdx numberMarkup) (numbered ids) := by
  rw [List.forall₂_iff_get] at hids ⊢
  obtain ⟨hlength, hids⟩ := hids
  refine ⟨by rw [List.length_mapIdx, numbered, List.length_mapIdx, hlength], ?_⟩
  intro i hi hi'
  rw [List.length_mapIdx] at hi
  simp only [numbered, List.get_eq_getElem, List.getElem_mapIdx]
  exact field?_numberMarkup_id (hids i hi (hlength ▸ hi)) i

/-- The other fields of numbered markups. -/
theorem forall₂_kept (ms : List Value) :
    List.Forall₂ (fun m m' => ∀ k, k ≠ "id" → m'.field? k = m.field? k) ms (ms.mapIdx numberMarkup) := by
  rw [List.forall₂_iff_get]
  refine ⟨List.length_mapIdx.symm, ?_⟩
  intro i hi hi' k hk
  simp only [List.get_eq_getElem, List.getElem_mapIdx]
  exact field?_numberMarkup_of_ne hk i _

/-- **What numbering does to markups and to states, and when it loses nothing.** Of markups with distinct ids, some of
them without one, each keeps its id or gets its index, and all else stays; then their ids are distinct exactly when none
that was given is the index of a markup without one. Of states with distinct ids, as many are kept as there are lines
exactly when none that was given is the index of a line without one, and then they are those of the lines. In any case,
under an id is the last state that has it. -/
theorem numbering (r : ResolveContext) (c : ParseContext) :
    (∀ (ms : List Value) (ids : List (Option String)),
      List.Forall₂ (fun m id => m.field? "id" = some (.ofOption id)) ms ids → ids.reduceOption.Nodup →
      ∃ f ms', markup.resolve = some f ∧ f (.arr ms) r = .ok (some (.arr ms')) ∧
        List.Forall₂ (fun m id => m.field? "id" = some (.str id)) ms' (numbered ids) ∧
        List.Forall₂ (fun m m' => ∀ k, k ≠ "id" → m'.field? k = m.field? k) ms ms' ∧
        (∀ (i : Nat) (id : String), ids[i]? = some (some id) → (numbered ids)[i]? = some id) ∧
        ((numbered ids).Nodup ↔ ¬ Clash ids)) ∧
    ((idsOf c).reduceOption.Nodup →
      ∃ id fields, states.parse c = .done (record [("markup_id", id), ("state", .obj fields)]) ∧
        (fields.length = (linesOf c).length ↔ ¬ Clash (idsOf c)) ∧
        (¬ Clash (idsOf c) → fields.Perm ((linesOf c).mapIdx stateEntry)) ∧
        ∀ id, Entries.find? id fields = Entries.find? id ((linesOf c).mapIdx stateEntry).reverse) := by
  refine ⟨?_, ?_⟩
  · intro ms ids hids hnodup
    exact ⟨_, _, rfl, rfl, forall₂_numbered hids, forall₂_kept ms, fun i id => getElem?_numbered_of_some,
      nodup_numbered_iff hnodup⟩
  · intro hnodup
    exact ⟨_, _, rfl, length_states_iff hnodup, perm_states hnodup, Value.field?_object _⟩

/-- States without a head line. -/
def listing (lines : List String) : ParseContext where
  tag := { name := "states", line := "", contents := lines }
  place := default

/-- The markups of a comment that has nothing else. -/
def alone : ResolveContext where
  name := "markup"
  aliases := []
  place := default
  parsed := {}
  tags := []

/-- The index of the second item is not taken. -/
theorem numbering_named :
    (∃ f ms', markup.resolve = some f ∧
      f (.arr [.obj [("id", .str "a")], .obj [("id", .null)]]) alone = .ok (some (.arr ms')) ∧
      List.Forall₂ (fun m id => m.field? "id" = some (.str id)) ms' ["a", "1"]) ∧
    ∃ id fields,
      states.parse (listing ["[a]", "\x7bx\x7d"]) = .done (record [("markup_id", id), ("state", .obj fields)]) ∧
      fields.length = 2 := by
  obtain ⟨hmarkups, hstates⟩ := numbering alone (listing ["[a]", "\x7bx\x7d"])
  refine ⟨?_, ?_⟩
  · obtain ⟨f, ms', hf, hms', hids, -⟩ := hmarkups [.obj [("id", .str "a")], .obj [("id", .null)]] [some "a", none]
      (.cons rfl (.cons rfl .nil)) (by decide)
    exact ⟨f, ms', hf, hms', hids⟩
  · have hids : idsOf (listing ["[a]", "\x7bx\x7d"]) = [some "a", none] := by decide +kernel
    obtain ⟨id, fields, hparse, hlength, -⟩ := hstates (by rw [hids]; decide)
    exact ⟨id, fields, hparse, hlength.2 (by rw [hids]; decide)⟩

/-- **An index that is taken is given a second time**, to a markup and to a state, and the first of the two states is
lost. -/
theorem numbering_taken :
    (∀ c : ResolveContext, ∃ f, markup.resolve = some f ∧
      f (.arr [.obj [("id", .str "1")], .obj [("id", .null)]]) c =
        .ok (some (.arr [.obj [("id", .str "1")], .obj [("id", .str "1")]]))) ∧
    idsOf (listing ["\x7bx\x7d [1]", "\x7by\x7d"]) = [some "1", none] ∧
    states.parse (listing ["\x7bx\x7d [1]", "\x7by\x7d"]) = .done (record
      [("markup_id", .null),
       ("state", .obj [("1", .obj [("description", .str ""), ("state", .str "y")])])]) :=
  ⟨fun _ => ⟨_, rfl, rfl⟩, by decide +kernel, rfl⟩

end DocComments.Builtin
