import Mathlib.Data.List.Induction
import DocComments.Builtin
import DocComments.Proofs.Block.Merge
import DocComments.Proofs.Table.Lookup

/-!
# Linking states to markups

The states of an annotation are kept with a copy of the markup that they belong to. Values and places come from
different lists, and are brought together by their indices.

* `Builtin.Fits`: the markup annotations that some states can belong to.
* `Builtin.Files`: where the states of an annotation are kept, and with which markup.
* `Builtin.Sees.finds_findMarkup`: **states get the first markup that fits, and a fault when none does.**
* `Builtin.get?_groupById`, `Builtin.groupById_perm`: no entry is lost when the entries are grouped.
-/

namespace DocComments

theorem Entries.find?_erase {α : Type} (k l : String) (es : List (String × α)) :
    find? k (erase l es) = if k = l then none else find? k es := by
  induction es with
  | nil => rw [erase, List.filter_nil, find?, ite_self]
  | cons e es ih =>
    unfold erase at ih ⊢
    by_cases hl : e.1 = l
    · rw [List.filter_cons_of_neg (by simpa using hl), ih, find?, hl]
      split <;> rfl
    · rw [List.filter_cons_of_pos (by simpa using hl), find?, ih, find?]
      by_cases hk : k = e.1
      · rw [if_pos hk, if_pos hk, if_neg (hk ▸ hl)]
      · rw [if_neg hk, if_neg hk]

/-- Of the fields of one name, the last one counts. -/
theorem Value.field?_object (fields : List (String × Value)) (k : String) :
    (object fields).field? k = Entries.find? k fields.reverse := by
  have hget : (object fields).field? k = (Table.ofList fields).get? k := rfl
  have hempty : (Table.empty : Table Value).get? k = none := rfl
  rw [hget, Table.ofList, Table.get?_insertAll, hempty, Option.orElse_eq_orElse, Option.orElse_eq_or, Option.or_none]

namespace Builtin

/-! ## Which markup some states belong to -/

/-- The id that a states annotation names. -/
def wantedId (s : Tag) : Option String :=
  (HeadLine.read .states s.prepare.line).id

/-- The states that an annotation lists. -/
def listed (s : Tag) : Value :=
  .object ((stateLines (HeadLine.read .states s.prepare.line) s.prepare).mapIdx stateEntry)

/-- The id of a markup annotation: the one that it gives, or its index. -/
def markupId (j : Nat) (m : Tag) : String :=
  (HeadLine.read .markup m.prepare.line).id.getD (toString j)

def StartsBelow (s m : Tag) : Prop :=
  ∃ i j, s.first = some i ∧ m.first = some j ∧ i < j

/-- The states of an annotation can belong to the markup annotation at an index: it has the id that they name, or starts
below them when they name none. -/
def Fits (ms : List Tag) (s : Tag) (j : Nat) : Prop :=
  ∃ m, ms[j]? = some m ∧ (wantedId s).elim (StartsBelow s m) (markupId j m = ·)

/-- What is wrong with states that no markup fits. -/
def faultOf (ms : List Tag) (s : Tag) : LinkFault :=
  if ms.isEmpty then .noMarkup else (wantedId s).elim (.noneBelow (s.first.getD 0)) .noId

/-- The fields of a markup with its references filled in from some states: the texts without references are left out,
and all else is as it was. -/
structure Fills (state : Value) (o filled : List (String × Value)) : Prop where
  dropped : ∀ k ∈ ["raw_stateless", "escaped_stateless"], Entries.find? k filled = none
  texts : ∀ k ∈ ["raw", "escaped"], ∃ s, Entries.find? k o = some (.str s) ∧ Entries.find? k filled =
    some (.str (Reference.fill ["states", "state"] (Reference.interpolate (stateFields state)) s))
  kept : ∀ k ∉ ["raw_stateless", "escaped_stateless", "raw", "escaped"],
    Entries.find? k filled = Entries.find? k o

/-- Where the states of an annotation are kept, the entry that is kept there, and what is wrong: with the first markup
that fits, under the id that they name or else under its own, and with an empty one when none fits. -/
inductive Files (ms : List Tag) (objects : List (List (String × Value))) (s : Tag) :
    String × Value × Option LinkFault → Prop
  | linked {j : Nat} {m : Tag} {o filled : List (String × Value)} (hm : ms[j]? = some m) (ho : objects[j]? = some o)
      (hfits : Fits ms s j) (hfirst : ∀ i < j, ¬ Fits ms s i) (hfills : Fills (listed s) o filled) :
      Files ms objects s ((wantedId s).getD (markupId j m), .object [("state", listed s), ("markup", .obj filled)],
        none)
  | missing (hnone : ∀ j, ¬ Fits ms s j) :
      Files ms objects s ((wantedId s).getD "undefined", .object [("state", listed s), ("markup", .obj [])],
        some (faultOf ms s))

/-! ## Copies of a markup -/

theorem exists_fillField (names : List String) (states o : List (String × Value)) (k : String) :
    ∃ o', fillField names states (.obj o) k = .obj o' ∧ (∀ l, l ≠ k → Entries.find? l o' = Entries.find? l o) ∧
      ∀ s, Entries.find? k o = some (.str s) →
        Entries.find? k o' = some (.str (Reference.fill names (Reference.interpolate states) s)) := by
  have hfield : (Value.obj o).field? k = Entries.find? k o := rfl
  unfold fillField
  rw [hfield]
  split
  · next s hs =>
    refine ⟨_, rfl, fun l hl => Entries.find?_insert_of_ne hl _ _, fun s' hs' => ?_⟩
    rw [hs'] at hs
    obtain rfl : s' = s := Option.some.inj hs
    exact Entries.find?_insert_self k _ o
  · next hnone =>
    refine ⟨o, rfl, fun _ _ => rfl, fun s' hs' => ?_⟩
    rw [hs'] at hnone
    cases hnone

theorem linkMarkup_fills {c : ResolveContext} (hname : c.name = "states") (haliases : c.aliases = ["state"])
    (state : Value) {o : List (String × Value)}
    (htexts : ∀ k ∈ ["raw", "escaped"], ∃ s, Entries.find? k o = some (.str s)) :
    ∃ filled, linkMarkup c state (.obj o) = .obj filled ∧ Fills state o filled := by
  unfold linkMarkup
  rw [hname, haliases]
  dsimp only [Value.dropField, List.foldl_cons, List.foldl_nil]
  have hcut : ∀ k, Entries.find? k (Entries.erase "escaped_stateless" (Entries.erase "raw_stateless" o)) =
      if k ∈ ["raw_stateless", "escaped_stateless"] then none else Entries.find? k o := by
    intro k
    rw [Entries.find?_erase, Entries.find?_erase]
    simp only [List.mem_cons, List.not_mem_nil, or_false]
    by_cases h₁ : k = "raw_stateless" <;> by_cases h₂ : k = "escaped_stateless" <;> simp [h₁, h₂]
  generalize Entries.erase "escaped_stateless" (Entries.erase "raw_stateless" o) = cut at hcut
  obtain ⟨o₁, h₁, hother₁, hraw⟩ := exists_fillField ["states", "state"] (stateFields state) cut "raw"
  rw [h₁]
  obtain ⟨o₂, h₂, hother₂, hescaped⟩ := exists_fillField ["states", "state"] (stateFields state) o₁ "escaped"
  refine ⟨o₂, h₂, ?_, ?_, ?_⟩
  · intro k hk
    have hne : k ≠ "raw" ∧ k ≠ "escaped" := by
      constructor <;> rintro rfl <;> simp at hk
    rw [hother₂ k hne.2, hother₁ k hne.1, hcut, if_pos hk]
  · simp only [List.forall_mem_cons] at htexts ⊢
    obtain ⟨⟨r, hr⟩, ⟨e, he⟩, -⟩ := htexts
    refine ⟨⟨r, hr, ?_⟩, ⟨e, he, ?_⟩, fun k hk => by cases hk⟩
    · rw [hother₂ _ (by decide)]
      apply hraw
      rw [hcut, if_neg (by decide), hr]
    · apply hescaped
      rw [hother₁ _ (by decide), hcut, if_neg (by decide), he]
  · intro k hk
    simp only [List.mem_cons, List.not_mem_nil, or_false, not_or] at hk
    obtain ⟨hr, he, hraw', hescaped'⟩ := hk
    rw [hother₂ k hescaped', hother₁ k hraw', hcut, if_neg (by simp [hr, he])]

/-! ## Finding the markup -/

/-- Where an annotation stands, as a callback sees it. -/
def position (a : Tag) : Position := ⟨a.name, a.first, a.last⟩

/-- What links states to markups: a callback sees the fields of the markup annotations, with their ids, and where the
annotations stand. -/
structure Sees (c : ResolveContext) (ss ms : List Tag) (objects : List (List (String × Value))) : Prop where
  markups : (c.parsed.get? "markup").bind Value.items? = if objects.isEmpty then none else some (objects.map .obj)
  length : objects.length = ms.length
  ids : ∀ j m, ∀ o : List (String × Value), ms[j]? = some m → objects[j]? = some o →
    Entries.find? "id" o = some (.str (markupId j m))
  own : c.positions c.name = ss.map position
  others : c.positions "markup" = ms.map position
  starts : ∀ s ∈ ss, ∃ i, s.first = some i

variable {c : ResolveContext} {ss ms : List Tag} {objects : List (List (String × Value))} {s : Tag} {k j : Nat}

theorem not_fits_nil (s : Tag) (j : Nat) : ¬ Fits [] s j := by
  rintro ⟨m, hm, -⟩
  cases hm

theorem fits_iff_of_some {id : String} (hid : wantedId s = some id) :
    Fits ms s j ↔ ∃ m, ms[j]? = some m ∧ markupId j m = id := by
  rw [Fits, hid]
  rfl

/-- Under the id that states name is the markup that they belong to. -/
theorem Fits.getD_markupId {m : Tag} (h : Fits ms s j) (hm : ms[j]? = some m) :
    (wantedId s).getD (markupId j m) = markupId j m := by
  cases hid : wantedId s with
  | none => rw [Option.getD_none]
  | some id =>
    obtain ⟨m', hm', heq⟩ := (fits_iff_of_some hid).1 h
    obtain rfl := Option.some.inj (hm.symm.trans hm')
    rw [Option.getD_some, heq]

theorem Sees.fits_iff_of_some (h : Sees c ss ms objects) {id : String} (hid : wantedId s = some id) :
    Fits ms s j ↔ ∃ o, objects[j]? = some o ∧ ((Value.obj o).field? "id").bind Value.str? == some id := by
  rw [Builtin.fits_iff_of_some hid]
  constructor
  · rintro ⟨m, hm, hid⟩
    have hj : j < objects.length := h.length ▸ (List.getElem?_eq_some_iff.1 hm).1
    refine ⟨objects[j], List.getElem?_eq_getElem hj, ?_⟩
    have hfield : (Value.obj objects[j]).field? "id" = some (.str (markupId j m)) :=
      h.ids j m _ hm (List.getElem?_eq_getElem hj)
    rw [hfield, beq_iff_eq]
    exact congrArg some hid
  · rintro ⟨o, ho, heq⟩
    have hj : j < ms.length := h.length ▸ (List.getElem?_eq_some_iff.1 ho).1
    refine ⟨ms[j], List.getElem?_eq_getElem hj, ?_⟩
    have hfield : (Value.obj o).field? "id" = some (.str (markupId j ms[j])) :=
      h.ids j _ o (List.getElem?_eq_getElem hj) ho
    rw [hfield, beq_iff_eq] at heq
    exact Option.some.inj heq

theorem fits_iff_of_none (hid : wantedId s = none) {i : Nat} (hi : s.first = some i) :
    Fits ms s j ↔ ∃ m, ms[j]? = some m ∧ (position m).first.any (i < ·) = true := by
  unfold Fits StartsBelow
  rw [hid]
  refine exists_congr fun m => and_congr_right fun _ => ?_
  rw [Option.any_eq_true]
  simp only [hi, Option.elim_none, position, decide_eq_true_eq, Option.some.injEq]
  constructor
  · rintro ⟨_, j, rfl, hj, hlt⟩
    exact ⟨j, hj, hlt⟩
  · rintro ⟨j, hj, hlt⟩
    exact ⟨i, j, rfl, hj, hlt⟩

/-- What is found for the states of an annotation: the first markup that fits, or a fault when none does. -/
inductive Finds (ms : List Tag) (objects : List (List (String × Value))) (s : Tag) : Except LinkFault Value → Prop
  | first {j : Nat} {o : List (String × Value)} (ho : objects[j]? = some o) (hfits : Fits ms s j)
      (hfirst : ∀ i < j, ¬ Fits ms s i) : Finds ms objects s (.ok (.obj o))
  | fault (hnone : ∀ j, ¬ Fits ms s j) : Finds ms objects s (.error (faultOf ms s))

theorem faultOf_of_ne_nil (hms : ms ≠ []) :
    faultOf ms s = (wantedId s).elim (.noneBelow (s.first.getD 0)) .noId := by
  rw [faultOf, if_neg (by simpa using hms)]

theorem Sees.markups_of_ne_nil (h : Sees c ss ms objects) (hms : ms ≠ []) :
    (c.parsed.get? "markup").bind Value.items? = some (objects.map .obj) := by
  have hne : objects ≠ [] := by
    rintro rfl
    exact hms (List.length_eq_zero_iff.1 h.length.symm)
  rw [h.markups, if_neg (by simpa using hne)]

/-- Among the markups, the first one with the id that is wanted. -/
theorem Sees.finds_named (h : Sees c ss ms objects) (hms : ms ≠ []) {id : String} (hid : wantedId s = some id)
    (k : Nat) : Finds ms objects s (findMarkup c k (some id)) := by
  have hfits := fun j => h.fits_iff_of_some (j := j) hid
  unfold findMarkup
  rw [h.markups_of_ne_nil hms]
  dsimp only
  split
  · next v hv =>
    obtain ⟨hp, j, hj, rfl, hbefore⟩ := List.find?_eq_some_iff_getElem.1 hv
    rw [List.length_map] at hj
    rw [List.getElem_map] at hp ⊢
    refine .first (List.getElem?_eq_getElem hj) ((hfits j).2 ⟨_, List.getElem?_eq_getElem hj, hp⟩) fun i hi hfit => ?_
    obtain ⟨o, ho, heq⟩ := (hfits i).1 hfit
    obtain ⟨hlt, rfl⟩ := List.getElem?_eq_some_iff.1 ho
    have hno := hbefore i hi
    rw [List.getElem_map, heq] at hno
    cases hno
  · next hnone =>
    have hfault : faultOf ms s = .noId id := by rw [faultOf_of_ne_nil hms, hid, Option.elim_some]
    rw [← hfault]
    refine .fault fun j hfit => ?_
    obtain ⟨o, ho, heq⟩ := (hfits j).1 hfit
    exact List.find?_eq_none.1 hnone _ (List.mem_map_of_mem (List.mem_of_getElem? ho)) heq

/-- Among the places of markups, the first one below the states; the markup is the one with its index. -/
theorem Sees.finds_below (h : Sees c ss ms objects) (hms : ms ≠ []) (hs : ss[k]? = some s) (hid : wantedId s = none) :
    Finds ms objects s (findMarkup c k none) := by
  obtain ⟨i, hi⟩ := h.starts s (List.mem_of_getElem? hs)
  have hfits : ∀ j, Fits ms s j ↔ ∃ m, ms[j]? = some m ∧ (position m).first.any (i < ·) = true :=
    fun _ => fits_iff_of_none hid hi
  have hline : (((c.positions c.name)[k]?).bind (·.first)).getD 0 = i := by
    rw [h.own, List.getElem?_map, hs]
    simp [position, hi]
  unfold findMarkup
  rw [h.markups_of_ne_nil hms]
  dsimp only
  rw [hline, h.others]
  cases hidx : (ms.map position).findIdx? fun p => p.first.any (i < ·) with
  | some j =>
    obtain ⟨hj, hp, hbefore⟩ := List.findIdx?_eq_some_iff_getElem.1 hidx
    rw [List.length_map] at hj
    rw [List.getElem_map] at hp
    have hjo : j < objects.length := h.length ▸ hj
    rw [Option.bind_some, List.getElem?_map, List.getElem?_eq_getElem hjo]
    refine .first (List.getElem?_eq_getElem hjo) ((hfits j).2 ⟨_, List.getElem?_eq_getElem hj, hp⟩) fun l hl hfit => ?_
    obtain ⟨m, hm, hlt⟩ := (hfits l).1 hfit
    obtain ⟨hlen, rfl⟩ := List.getElem?_eq_some_iff.1 hm
    have hno := hbefore l hl
    rw [List.getElem_map] at hno
    exact hno hlt
  | none =>
    have hfault : faultOf ms s = .noneBelow i := by
      rw [faultOf_of_ne_nil hms, hid, hi, Option.elim_none, Option.getD_some]
    rw [Option.bind_none, ← hfault]
    refine .fault fun j hfit => ?_
    obtain ⟨m, hm, hlt⟩ := (hfits j).1 hfit
    have hno := List.findIdx?_eq_none_iff.1 hidx _ (List.mem_map_of_mem (List.mem_of_getElem? hm))
    rw [hlt] at hno
    cases hno

/-- **States get the first markup that fits, and a fault when none does.** -/
theorem Sees.finds_findMarkup (h : Sees c ss ms objects) (hs : ss[k]? = some s) :
    Finds ms objects s (findMarkup c k (wantedId s)) := by
  by_cases hms : ms = []
  · have hnil : objects = [] := List.length_eq_zero_iff.1 (by rw [h.length, hms, List.length_nil])
    subst hms hnil
    unfold findMarkup
    rw [h.markups]
    exact .fault (not_fits_nil s)
  · cases hid : wantedId s with
    | some id => exact h.finds_named hms hid k
    | none => exact h.finds_below hms hs hid

/-- **Each annotation has its entry**, with the first markup that fits. -/
theorem Sees.linkEntry_files (h : Sees c ss ms objects) (hname : c.name = "states") (haliases : c.aliases = ["state"])
    (htexts : ∀ o ∈ objects, ∀ k ∈ ["raw", "escaped"], ∃ x, Entries.find? k o = some (.str x))
    (hs : ss[k]? = some s) {item : Value} (hid : item.field? "markup_id" = some (.ofOption (wantedId s)))
    (hstate : item.field? "state" = some (listed s)) : Files ms objects s (linkEntry c k item) := by
  have hwanted : (item.field? "markup_id").bind Value.str? = wantedId s := by
    rw [hid]
    cases wantedId s <;> rfl
  unfold linkEntry
  dsimp only
  rw [hstate, hwanted, Option.getD_some]
  have hfinds := h.finds_findMarkup hs
  generalize findMarkup c k (wantedId s) = found at hfinds
  cases hfinds with
  | @first j o ho hfits hfirst =>
    obtain ⟨m, hm, -⟩ := id hfits
    obtain ⟨filled, hlink, hfills⟩ :=
      linkMarkup_fills hname haliases (listed s) (htexts o (List.mem_of_getElem? ho))
    have hfield : (Value.obj o).field? "id" = some (.str (markupId j m)) := h.ids j m o hm ho
    have hkey : ((some (Value.str (markupId j m))).bind Value.str? <|> wantedId s) = some (markupId j m) := rfl
    dsimp only
    rw [hlink, hfield, hkey, Option.getD_some, ← hfits.getD_markupId hm]
    exact .linked hm ho hfits hfirst hfills
  | fault hnone => exact .missing hnone

/-! ## Keeping the entries by id -/

theorem groupById_concat (es : List (String × Value)) (e : String × Value) :
    groupById (es ++ [e]) = (groupById es).insert e.1 (((groupById es).get? e.1).getD [] ++ [e.2]) := by
  unfold groupById
  rw [List.foldl_append]
  rfl

/-- **Under an id are its entries, in order.** -/
theorem get?_groupById (es : List (String × Value)) (key : String) :
    (groupById es).get? key =
      if (Block.valuesUnder key es).isEmpty then none else some (Block.valuesUnder key es) := by
  induction es using List.reverseRecOn with
  | nil => rfl
  | append_singleton es e ih =>
    have hconcat : Block.valuesUnder key (es ++ [e]) =
        Block.valuesUnder key es ++ if e.1 = key then [e.2] else [] := by
      unfold Block.valuesUnder
      rw [List.filter_append, List.map_append]
      by_cases he : e.1 = key <;> simp [he]
    rw [groupById_concat, Table.get?_insert, hconcat]
    by_cases he : key = e.1
    · subst he
      rw [if_pos rfl, if_pos rfl, if_neg (by simp), ih]
      cases Block.valuesUnder e.1 es <;> rfl
    · rw [if_neg he, if_neg (Ne.symm he), List.append_nil, ih]

theorem flatMap_insert_perm {es : List (String × List Value)} (h : Entries.Ordered es) (k : String) (v : Value) :
    ((Entries.insert k ((Entries.find? k es).getD [] ++ [v]) es).flatMap (·.2)).Perm (es.flatMap (·.2) ++ [v]) := by
  induction es with
  | nil => exact .refl _
  | cons e es ih =>
    obtain ⟨hhead, htail⟩ := List.pairwise_cons.1 h
    rw [Entries.insert]
    split
    · next hlt =>
      have hnone : Entries.find? k (e :: es) = none := by
        apply Entries.find?_eq_none
        intro x hx
        rcases List.mem_cons.1 hx with rfl | hx
        · exact hlt
        · exact String.lt_trans hlt (hhead x hx)
      rw [hnone]
      exact (List.perm_append_singleton v _).symm
    · split
      · next heq =>
        rw [Entries.find?, if_pos heq, Option.getD_some, List.flatMap_cons, List.flatMap_cons, List.append_assoc,
          List.append_assoc]
        exact (List.perm_append_comm).append_left e.2
      · next hne =>
        rw [Entries.find?, if_neg hne, List.flatMap_cons, List.flatMap_cons, List.append_assoc]
        exact (ih htail).append_left e.2

/-- **No entry is lost**, and none is kept twice. -/
theorem groupById_perm (es : List (String × Value)) : (groupById es).values.flatten.Perm (es.map (·.2)) := by
  have hflat : ∀ t : Table (List Value), t.values.flatten = t.entries.flatMap (·.2) := fun _ => rfl
  rw [hflat]
  induction es using List.reverseRecOn with
  | nil => exact .refl _
  | append_singleton es e ih =>
    rw [groupById_concat, List.map_append]
    exact (flatMap_insert_perm (groupById es).ordered e.1 e.2).trans (ih.append_right [e.2])

end Builtin

end DocComments
