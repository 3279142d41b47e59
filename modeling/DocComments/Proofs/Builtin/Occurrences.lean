import DocComments.Proofs.Block.Plain
import DocComments.Proofs.Builtin.Blocks

/-!
# No annotation is lost

A name may stand several times in a comment. Some annotations give a list of one object, so that all of them join into
one list; the others give a value that is no list, and become a list when there are several. Either way each annotation
of a comment is found again in its block.

* `Definition.Records`, `Definition.Single`: the two shapes of values.
* `Block.joined_records`, `Block.joined_singles`: what they join to.
* `Builtin.records_definitions`, `Builtin.single_definitions`: the shape of each built-in annotation.
* `Builder.build_occurrences`: **the values of a block, one by one.**
-/

namespace DocComments

/-- The annotation gives a list of one object. -/
def Definition.Records (d : Definition) : Prop :=
  ∀ c, ∃ es fields, (d.parse c).outcome? = some (es, .arr [.obj fields])

/-- The annotation gives a value that is not a list. -/
def Definition.Single (d : Definition) : Prop :=
  ∀ c, ∃ es v, (d.parse c).outcome? = some (es, v) ∧ v.isNull = false ∧ v.items? = none

theorem exists_forall₂ {α β : Type} {R : α → β → Prop} {l : List α} (h : ∀ x ∈ l, ∃ y, R x y) :
    ∃ ys, List.Forall₂ R l ys := by
  induction l with
  | nil => exact ⟨[], .nil⟩
  | cons x l ih =>
    obtain ⟨y, hy⟩ := h x List.mem_cons_self
    obtain ⟨ys, hys⟩ := ih fun z hz => h z (List.mem_cons_of_mem x hz)
    exact ⟨y :: ys, .cons hy hys⟩

namespace Block

/-- Lists of one item join to the list of their items. -/
theorem joined_records (vs : List Value) :
    joined (vs.map fun v => .arr [v]) = if vs.isEmpty then none else some (.arr vs) := by
  match vs with
  | [] => rfl
  | [v] => rfl
  | v :: w :: vs =>
    have hitems : ((v :: w :: vs).map fun v => Value.arr [v]).flatMap asItems = v :: w :: vs := by
      simp [List.flatMap_map, asItems]
    rw [joined_of_two_le (by simp), hitems]
    rfl

theorem asItems_of_items? {v : Value} (h : v.items? = none) : asItems v = [v] := by
  rw [asItems_eq, h, Option.getD_none]

/-- Several values that are not lists join to the list of them. -/
theorem joined_singles {vs : List Value} (hlen : 2 ≤ vs.length) (h : ∀ v ∈ vs, v.items? = none) :
    joined vs = some (.arr vs) := by
  have hitems : vs.flatMap asItems = vs.flatMap fun v => [v] :=
    List.flatMap_congr fun v hv => asItems_of_items? (h v hv)
  rw [joined_of_two_le hlen, hitems, List.flatMap_singleton']

end Block

namespace Builtin

theorem single_braced (name : String) : Definition.Single { parse := braced name } := by
  intro c
  show ∃ es v, (braced name c).outcome? = some (es, v) ∧ v.isNull = false ∧ v.items? = none
  unfold braced
  dsimp only
  split
  · exact ⟨_, _, rfl, rfl, rfl⟩
  · exact ⟨_, _, rfl, rfl, rfl⟩

/-- The annotations that join into one list, as they are written. -/
theorem records_definitions : ∀ n ∈ ["arg", "property", "requires", "throws", "note", "todo"],
    ∃ d, (n, d) ∈ definitions ∧ d.Records ∧ d.autofill = none ∧ d.resolve = none := by
  simp only [List.forall_mem_cons]
  refine ⟨⟨arg, ?_, ?_, rfl, rfl⟩, ⟨property, ?_, ?_, rfl, rfl⟩, ⟨requires, ?_, ?_, rfl, rfl⟩,
    ⟨throws, ?_, ?_, rfl, rfl⟩, ⟨note, ?_, ?_, rfl, rfl⟩, ⟨todo, ?_, ?_, rfl, rfl⟩, fun n hn => by cases hn⟩
  all_goals first
    | simp [definitions]
    | exact fun c => ⟨_, _, rfl⟩

/-- The annotations whose values are not lists. -/
theorem single_definitions :
    ∀ n ∈ ["name", "description", "access", "deprecated", "returns", "since", "type", "version", "raw-code"],
      ∃ d, (n, d) ∈ definitions ∧ d.Single ∧ d.resolve = none := by
  simp only [List.forall_mem_cons]
  refine ⟨⟨name, ?_, ?_, rfl⟩, ⟨descriptionTag, ?_, ?_, rfl⟩, ⟨access, ?_, ?_, rfl⟩, ⟨deprecated, ?_, ?_, rfl⟩,
    ⟨returns, ?_, ?_, rfl⟩, ⟨since, ?_, ?_, rfl⟩, ⟨type, ?_, single_braced _, rfl⟩, ⟨version, ?_, single_braced _, rfl⟩,
    ⟨rawCode, ?_, ?_, rfl⟩, fun n hn => by cases hn⟩
  all_goals first
    | simp [definitions]
    | exact fun c => ⟨_, _, rfl, rfl, rfl⟩

theorem records_markup : markup.Records :=
  fun _ => ⟨_, _, rfl⟩

/-- The fields of a markup, with its index for an id that is null. -/
def numberFields (j : Nat) (o : List (String × Value)) : List (String × Value) :=
  match Entries.find? "id" o with
  | some .null => Entries.insert "id" (.str (toString j)) o
  | _ => o

theorem numberMarkup_obj (j : Nat) (o : List (String × Value)) : numberMarkup j (.obj o) = .obj (numberFields j o) := by
  have hfield : (Value.obj o).field? "id" = Entries.find? "id" o := rfl
  unfold numberMarkup numberFields
  rw [hfield]
  cases Entries.find? "id" o with
  | none => rfl
  | some v => cases v <;> rfl

theorem mapIdx_numberMarkup (os : List (List (String × Value))) :
    (os.map Value.obj).mapIdx numberMarkup = (os.mapIdx numberFields).map .obj := by
  apply List.ext_getElem?
  intro j
  simp only [List.getElem?_mapIdx, List.getElem?_map, Option.map_map]
  exact congrArg (Option.map · os[j]?) (funext (numberMarkup_obj j))

end Builtin

theorem Registry.getOwn?_builtin (f n : String) : Registry.builtin.getOwn? f n = none := by
  unfold getOwn?
  split
  · rfl
  · next hf =>
    cases hd : (Registry.builtin.tables.get? f).bind (·.get? n) with
    | none => rfl
    | some d => exact absurd ((lookup?_of_tables tables_builtin).1 hd).1 hf

namespace Builder

variable {b : Builder} {t : Token} {a : Tag} {n : String} {d : Definition} {v : Value}

/-- The annotation gives a value, whatever came before it. -/
def Gives (b : Builder) (t : Token) (a : Tag) (v : Value) : Prop :=
  ∀ p, (b.runTag t (b.addAt t b.maxDepth) a p).2 = .ok (some v)

theorem gives_iff (hr : b.registry.Plain) : b.Gives t a v ↔ notNull (b.said t a).2 = some v := by
  simp only [Gives, runTag_said hr, Except.ok.injEq]
  exact ⟨fun h => h {}, fun h _ => h⟩

/-- The values of a name, when each of its annotations gives one. -/
theorem valuesOf_eq (hr : b.registry.Plain) {vs : List Value} (h : List.Forall₂ (b.Gives t) (b.occurrences t n) vs) :
    b.valuesOf t n = vs := by
  unfold valuesOf
  generalize b.occurrences t n = as at h
  induction h with
  | nil => rfl
  | cons ha _ ih =>
    rw [List.filterMap_cons, (gives_iff hr).1 ha]
    exact congrArg _ ih

theorem get?_builtin (hb : b.registry = Registry.builtin) :
    b.registry.get? b.filetype n = some d ↔ (n, d) ∈ Builtin.definitions := by
  rw [hb, Registry.get?_eq_get?_list, Registry.get?_list_builtin_iff]

/-- A built-in annotation says what its callback comes to. -/
theorem said_builtin (hb : b.registry = Registry.builtin) (hd : (a.name, d) ∈ Builtin.definitions) (t : Token) :
    (d.parse { tag := a.prepare, place := b.placeOf t }).outcome? = some (b.said t a) := by
  have hown : b.registry.getOwn? b.filetype a.name = none := hb ▸ Registry.getOwn?_builtin _ _
  rw [← (runTag_single ((get?_builtin hb).2 hd) (.inl hown) (b.addAt t b.maxDepth) {}).1]
  exact outcome?_tagScript (hb ▸ Registry.plain_builtin) t a

theorem name_of_mem_occurrences (h : a ∈ b.occurrences t n) : a.name = n := by
  simpa using (List.mem_filter.1 h).2

/-- What annotations that give lists of one object join to. -/
theorem exists_objects (hb : b.registry = Registry.builtin) (hd : (n, d) ∈ Builtin.definitions) (h : d.Records)
    (t : Token) :
    ∃ objects, List.Forall₂ (fun a o => b.Gives t a (.arr [.obj o])) (b.occurrences t n) objects ∧
      Block.joined (b.valuesOf t n) = if objects.isEmpty then none else some (.arr (objects.map .obj)) := by
  have hr : b.registry.Plain := hb ▸ Registry.plain_builtin
  have hgives : ∀ a ∈ b.occurrences t n, ∃ o, b.Gives t a (.arr [.obj o]) := by
    intro a ha
    obtain rfl := name_of_mem_occurrences ha
    obtain ⟨es, o, ho⟩ := h { tag := a.prepare, place := b.placeOf t }
    refine ⟨o, (gives_iff hr).2 ?_⟩
    rw [← Option.some.inj (ho.symm.trans (said_builtin hb hd t))]
    rfl
  obtain ⟨objects, hall⟩ := exists_forall₂ hgives
  refine ⟨objects, hall, ?_⟩
  have hvalues : b.valuesOf t n = (objects.map Value.obj).map fun v => .arr [v] := by
    apply valuesOf_eq hr
    rw [List.map_map, List.forall₂_map_right_iff]
    exact hall
  rw [hvalues, Block.joined_records, List.isEmpty_map]

/-- What annotations that give other values join to. -/
theorem exists_singles (hb : b.registry = Registry.builtin) (hd : (n, d) ∈ Builtin.definitions) (h : d.Single)
    (t : Token) :
    ∃ vs, List.Forall₂ (b.Gives t) (b.occurrences t n) vs ∧ b.valuesOf t n = vs ∧ ∀ v ∈ vs, v.items? = none := by
  have hr : b.registry.Plain := hb ▸ Registry.plain_builtin
  have hgives : ∀ a ∈ b.occurrences t n, ∃ v, b.Gives t a v ∧ v.items? = none := by
    intro a ha
    obtain rfl := name_of_mem_occurrences ha
    obtain ⟨es, v, hv, hnull, hitems⟩ := h { tag := a.prepare, place := b.placeOf t }
    refine ⟨v, (gives_iff hr).2 ?_, hitems⟩
    rw [← Option.some.inj (hv.symm.trans (said_builtin hb hd t))]
    exact notNull_eq_some_iff.2 ⟨rfl, hnull⟩
  obtain ⟨vs, hall⟩ := exists_forall₂ hgives
  have hgiven : List.Forall₂ (b.Gives t) (b.occurrences t n) vs := hall.imp fun _ _ h => h.1
  refine ⟨vs, hgiven, valuesOf_eq hr hgiven, ?_⟩
  intro v hv
  obtain ⟨i, hi, rfl⟩ := List.getElem_of_mem hv
  exact (hall.get (hall.length_eq ▸ hi) hi).2

/-- The one definition that a name has. -/
theorem eq_of_get?_builtin (hb : b.registry = Registry.builtin) (hd : (n, d) ∈ Builtin.definitions) {e : Definition}
    (he : b.registry.get? b.filetype n = some e) : e = d :=
  Registry.eq_of_mem_definitions ((get?_builtin hb).1 he) hd

section

variable {es : List Event} {block : Block} (h : b.build t = (es, .ok (some block)))

include h

/-- One object for each annotation, as it gave it. -/
theorem get?_records (hb : b.registry = Registry.builtin) (hd : (n, d) ∈ Builtin.definitions) (hrecords : d.Records)
    (hauto : d.autofill = none) (hres : d.resolve = none) :
    ∃ objects, List.Forall₂ (fun a o => b.Gives t a (.arr [.obj o])) (b.occurrences t n) objects ∧
      block.get? n = if objects.isEmpty then none else some (.arr (objects.map .obj)) := by
  obtain ⟨objects, hall, hjoined⟩ := exists_objects hb hd hrecords t
  refine ⟨objects, hall, ?_⟩
  rw [← hjoined]
  apply build_get?_joined (hb ▸ Registry.plain_builtin) h
  · right
    intro e he
    rw [eq_of_get?_builtin hb hd he, hauto]
  · intro e he
    rw [eq_of_get?_builtin hb hd he, hres]

/-- One object for each markup, with an id. -/
theorem get?_markup (hb : b.registry = Registry.builtin) :
    ∃ objects, List.Forall₂ (fun a o => b.Gives t a (.arr [.obj o])) (b.occurrences t "markup") objects ∧
      block.get? "markup" =
        if objects.isEmpty then none else some (.arr ((objects.mapIdx Builtin.numberFields).map .obj)) := by
  obtain ⟨objects, hall, hjoined⟩ := exists_objects hb Registry.mem_markup Builtin.records_markup t
  refine ⟨objects, hall, ?_⟩
  have hget := build_get?_reworked (hb ▸ Registry.plain_builtin) h ((get?_builtin hb).2 Registry.mem_markup) rfl rfl
  cases hempty : objects.isEmpty with
  | true =>
    rw [hempty, if_pos rfl] at hjoined
    rcases hget with ⟨-, hnone⟩ | ⟨v, c, o, hv, -, -⟩
    · exact hnone
    · rw [hjoined] at hv
      cases hv
  | false =>
    rw [hempty, if_neg (by simp)] at hjoined
    rcases hget with ⟨hnone, -⟩ | ⟨v, c, o, hv, ho, hget⟩
    · rw [Block.joined_eq_none_iff.2 hnone] at hjoined
      cases hjoined
    · obtain rfl : v = .arr (objects.map .obj) := Option.some.inj (hv.symm.trans hjoined)
      obtain rfl := Except.ok.inj ho
      rw [hget, ← Builtin.mapIdx_numberMarkup]
      rfl

/-- One value for each annotation: alone as it is, and several in a list. -/
theorem get?_singles (hb : b.registry = Registry.builtin) (hd : (n, d) ∈ Builtin.definitions) (hsingle : d.Single)
    (hres : d.resolve = none) :
    ∃ vs, List.Forall₂ (b.Gives t) (b.occurrences t n) vs ∧ (∀ v, vs = [v] → block.get? n = some v) ∧
      (2 ≤ vs.length → block.get? n = some (.arr vs)) := by
  obtain ⟨vs, hall, hvalues, hitems⟩ := exists_singles hb hd hsingle t
  have hget : vs ≠ [] → block.get? n = Block.joined vs := by
    intro hne
    rw [← hvalues] at hne ⊢
    apply build_get?_joined (hb ▸ Registry.plain_builtin) h (.inl hne)
    intro e he
    rw [eq_of_get?_builtin hb hd he, hres]
  refine ⟨vs, hall, ?_, ?_⟩
  · rintro v rfl
    rw [hget (List.cons_ne_nil v [])]
    rfl
  · intro hlen
    have hne : vs ≠ [] := by
      rintro rfl
      cases hlen
    rw [hget hne, Block.joined_singles hlen hitems]

end

/-- **No annotation is lost.** In the block of a comment, each name has the values of its annotations in order. The
annotations of the first names give one object each, and there is nothing under the name without any; a markup gets an
id. Of the last names, one annotation leaves its value as it is, and several become a list. -/
theorem build_occurrences (hb : b.registry = Registry.builtin) (t : Token) :
    ∃ es block, b.build t = (es, .ok (some block)) ∧
      (∀ n ∈ ["arg", "property", "requires", "throws", "note", "todo"], ∃ objects,
        List.Forall₂ (fun a o => b.Gives t a (.arr [.obj o])) (b.occurrences t n) objects ∧
        block.get? n = if objects.isEmpty then none else some (.arr (objects.map .obj))) ∧
      (∃ objects,
        List.Forall₂ (fun a o => b.Gives t a (.arr [.obj o])) (b.occurrences t "markup") objects ∧
        block.get? "markup" =
          if objects.isEmpty then none else some (.arr ((objects.mapIdx Builtin.numberFields).map .obj))) ∧
      ∀ n ∈ ["name", "description", "access", "deprecated", "returns", "since", "type", "version", "raw-code"],
        ∃ vs, List.Forall₂ (b.Gives t) (b.occurrences t n) vs ∧ (∀ v, vs = [v] → block.get? n = some v) ∧
          (2 ≤ vs.length → block.get? n = some (.arr vs)) := by
  obtain ⟨es, block, hbuild, -, -⟩ := build_builtin hb t
  refine ⟨es, block, hbuild, ?_, get?_markup hbuild hb, ?_⟩
  · intro n hn
    obtain ⟨d, hd, hrecords, hauto, hres⟩ := Builtin.records_definitions n hn
    exact get?_records hbuild hb hd hrecords hauto hres
  · intro n hn
    obtain ⟨d, hd, hsingle, hres⟩ := Builtin.single_definitions n hn
    exact get?_singles hbuild hb hd hsingle hres

/-- An annotation that does no more than turn into a value gives that value. -/
theorem Gives.eq_of_done (hb : b.registry = Registry.builtin) (hd : (a.name, d) ∈ Builtin.definitions)
    {w : Value} (hw : d.parse { tag := a.prepare, place := b.placeOf t } = .done w) (h : b.Gives t a v) : v = w := by
  have hsaid := said_builtin hb hd t
  rw [hw] at hsaid
  have hgiven := (gives_iff (hb ▸ Registry.plain_builtin)).1 h
  rw [← Option.some.inj hsaid] at hgiven
  exact (eq_of_notNull hgiven).1.symm

/-- A name is its head line. -/
theorem Gives.eq_line (hb : b.registry = Registry.builtin) (ha : a.name = "name") (h : b.Gives t a v) :
    v = .str a.prepare.line := by
  have hd : (a.name, Builtin.name) ∈ Builtin.definitions := by
    rw [ha]
    simp [Builtin.definitions]
  exact h.eq_of_done hb hd rfl

/-- The names of a block are the head lines of their annotations. -/
theorem eq_lines (hb : b.registry = Registry.builtin) {vs : List Value}
    (h : List.Forall₂ (b.Gives t) (b.occurrences t "name") vs) :
    vs = ((b.occurrences t "name").map (·.prepare.line)).map .str := by
  have hname : ∀ a ∈ b.occurrences t "name", a.name = "name" := fun a ha => name_of_mem_occurrences ha
  generalize b.occurrences t "name" = as at h hname
  induction h with
  | nil => rfl
  | cons ha _ ih =>
    rw [ih fun a ha => hname a (List.mem_cons_of_mem _ ha), ha.eq_line hb (hname _ List.mem_cons_self)]
    rfl

/-- A comment with two names. -/
def renamed : Token := ⟨.body, { contents := ["@name n", "@arg {a} x", "@name m"] }, {}⟩

/-- Both names are kept, in order, and there is no note. -/
theorem build_occurrences_renamed :
    ∃ es block, script.build renamed = (es, .ok (some block)) ∧
      block.get? "name" = some (.arr [.str "n", .str "m"]) ∧ block.get? "note" = none := by
  obtain ⟨es, block, hbuild, hrecords, -, hsingles⟩ := build_occurrences registry_script renamed
  refine ⟨es, block, hbuild, ?_, ?_⟩
  · obtain ⟨vs, hall, -, hget⟩ := hsingles "name" (by decide)
    have hlines : (script.occurrences renamed "name").map (·.prepare.line) = ["n", "m"] := by decide +kernel
    rw [eq_lines registry_script hall, hlines] at hget
    exact hget le_rfl
  · obtain ⟨objects, hall, hget⟩ := hrecords "note" (by decide)
    have hoccurrences : script.occurrences renamed "note" = [] := by decide +kernel
    rw [hoccurrences] at hall
    cases hall
    exact hget

end Builder

end DocComments
