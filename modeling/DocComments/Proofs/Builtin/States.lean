import DocComments.Proofs.Builtin.Links
import DocComments.Proofs.Builtin.Occurrences
import DocComments.Proofs.Tag.Split

/-!
# The states of a block

The ids of the markups come from one callback and the links to them from another, which must run behind it. What the
second one tells of are the only errors of a block, since the built-in annotations give warnings at most.

* `Definition.Mild`: an annotation that tells of no error while it is run or filled in.
* `Builder.errors_filled`: there is no error before values are reworked.
* `Builder.rework_markup`, `Builder.rework_states`: what the two callbacks leave.
* `Builder.build_states`: **states are linked to the right markup, and none is lost.**
-/

namespace DocComments

/-! ## Errors -/

/-- No error is kept back. -/
theorem Event.ofLevel_error_filter (quiet : Bool) (es : List Event) :
    ofLevel .error (es.filter (·.passes quiet)) = ofLevel .error es := by
  unfold ofLevel
  rw [List.filter_filter]
  congr 1
  apply List.filter_congr
  intro e _
  cases hl : e.level <;> simp [passes, hl]

theorem Event.ofLevel_append (l : Level) (es fs : List Event) :
    ofLevel l (es ++ fs) = ofLevel l es ++ ofLevel l fs := by
  unfold ofLevel
  rw [List.filter_append, List.map_append]

theorem Event.ofLevel_errorIn {α : Type} (file : String) (message : α → String) (xs : List α) :
    ofLevel .error (xs.map fun x => errorIn file (message x)) =
      xs.map fun x => { message := message x, file := some file } := by
  unfold ofLevel
  rw [List.filter_eq_self.2, List.map_map]
  · rfl
  · intro e he
    obtain ⟨x, -, rfl⟩ := List.mem_map.1 he
    rfl

/-- An annotation that tells of no error while it is run or filled in. -/
structure Definition.Mild (d : Definition) : Prop where
  parse : ∀ c es v, (d.parse c).outcome? = some (es, v) → Event.ofLevel .error es = []
  autofill : ∀ f ∈ d.autofill, ∀ c, Event.ofLevel .error (f c).events = []

namespace Builtin

variable {d : Definition}

theorem mild_of_done (hp : ∀ c, ∃ v, d.parse c = .done v) (ha : ∀ f ∈ d.autofill, ∀ c, (f c).events = []) :
    d.Mild := by
  refine ⟨?_, ?_⟩
  · intro c es v h
    obtain ⟨w, hw⟩ := hp c
    rw [hw] at h
    obtain ⟨rfl, -⟩ := Prod.mk.inj (Option.some.inj h)
    rfl
  · intro f hf c
    rw [ha f hf c]
    rfl

theorem mild_braced (name : String) : Definition.Mild { parse := braced name } := by
  refine ⟨?_, fun f hf => by cases hf⟩
  intro c es v h
  change (braced name c).outcome? = some (es, v) at h
  unfold braced at h
  dsimp only at h
  split at h
  · obtain ⟨rfl, -⟩ := Prod.mk.inj (Option.some.inj h)
    rfl
  · obtain ⟨rfl, -⟩ := Prod.mk.inj (Option.some.inj h)
    rfl

theorem mild_blockinfo : blockinfo.Mild := by
  refine ⟨?_, ?_⟩
  · intro c es v h
    obtain ⟨rfl, -⟩ := Prod.mk.inj (Option.some.inj h)
    rfl
  · intro f hf c
    obtain rfl := Option.some.inj hf
    rfl

/-- **The built-in annotations tell of no error** before values are reworked. -/
theorem mild_definitions : ∀ x ∈ definitions, x.2.Mild := by
  simp only [definitions, List.forall_mem_cons]
  refine ⟨?_, ?_, ?_, mild_blockinfo, ?_, ?_, ?_, ?_, ?_, ?_, ?_, ?_, ?_, ?_, ?_, ?_, ?_, ?_, mild_braced _,
    mild_braced _, fun x hx => by cases hx⟩
  · refine mild_of_done (fun c => ⟨_, rfl⟩) fun f hf c => ?_
    obtain rfl := Option.some.inj hf
    rfl
  all_goals exact mild_of_done (fun c => ⟨_, rfl⟩) fun f hf => by cases hf

theorem records_states : states.Records :=
  fun _ => ⟨_, _, rfl⟩

end Builtin

namespace Registry

open Builtin

theorem entries_withResolve (r : Registry) (f : String) :
    (r.withResolve f).entries = (r.list f).entries.filter (·.2.resolve.isSome) := rfl

/-- Two built-in annotations rework their values, the markups first. -/
theorem entries_withResolve_builtin (f : String) :
    (builtin.withResolve f).entries = [("markup", markup), ("states", states)] := by
  rw [entries_withResolve, entries_list_of_tables tables_builtin]
  rfl

end Registry

namespace Builder

open Builtin

variable {b : Builder} {t : Token} {a : Tag} {as : List Tag} {n : String} {d : Definition}
  {ds : List (String × Definition)} {p q : Progress} {u : Unit} {v w : Value}

theorem errors_tellAll (p : Progress) (es : List Event) :
    Event.ofLevel .error (b.tellAll p es).events = Event.ofLevel .error p.events ++ Event.ofLevel .error es := by
  have hevents : (b.tellAll p es).events = p.events ++ es.filter (·.passes b.quiet) := rfl
  rw [hevents, Event.ofLevel_append, Event.ofLevel_error_filter]

theorem events_merge (p : Progress) (n : String) (v : Option Value) : (p.merge n v).events = p.events := by
  cases v <;> rfl

theorem errors_parseAll (hr : b.registry.Plain) (has : ∀ a ∈ as, Event.ofLevel .error (b.said t a).1 = [])
    (h : b.parseAll t as p = (q, .ok u)) : Event.ofLevel .error q.events = Event.ofLevel .error p.events := by
  induction as generalizing p with
  | nil =>
    obtain ⟨rfl, -⟩ := Prod.mk.inj h
    rfl
  | cons a as ih =>
    unfold parseAll at h
    rw [runTag_said hr] at h
    rw [ih (fun x hx => has x (List.mem_cons_of_mem a hx)) h, events_merge, errors_tellAll, has a List.mem_cons_self,
      List.append_nil]

theorem errors_autofillAll (hds : ∀ x ∈ ds, x.2.Mild) (h : b.autofillAll t ds p = (q, .ok u)) :
    Event.ofLevel .error q.events = Event.ofLevel .error p.events := by
  induction ds generalizing p with
  | nil =>
    obtain ⟨rfl, -⟩ := Prod.mk.inj h
    rfl
  | cons x ds ih =>
    have htail : ∀ {p}, b.autofillAll t ds p = (q, .ok u) →
        Event.ofLevel .error q.events = Event.ofLevel .error p.events :=
      ih fun y hy => hds y (List.mem_cons_of_mem x hy)
    rw [autofillAll] at h
    split at h
    · exact htail h
    · next f hf =>
      split at h
      · exact htail h
      · dsimp only at h
        have hmild := (hds x List.mem_cons_self).autofill f hf
          { name := x.1, place := b.placeOf t, parsed := p.block }
        split at h
        · cases h
        · split at h
          · rw [htail h]
            exact (errors_tellAll p _).trans (by rw [hmild, List.append_nil])
          · rw [htail h, errors_tellAll, hmild, List.append_nil]

theorem exists_definition (hb : b.registry = Registry.builtin) (ha : a ∈ b.tags t) :
    ∃ d, (a.name, d) ∈ definitions := by
  obtain ⟨_, _, -, -, hhead⟩ := Splitter.exists_head ha
  obtain ⟨d, hd⟩ := Option.isSome_iff_exists.1 (Registry.mem_names_iff.1 hhead.known)
  exact ⟨d, (get?_builtin hb).1 hd⟩

/-- What a built-in annotation of a comment tells of is no error. -/
theorem errors_said (hb : b.registry = Registry.builtin) (ha : a ∈ b.tags t) :
    Event.ofLevel .error (b.said t a).1 = [] := by
  obtain ⟨d, hd⟩ := exists_definition hb ha
  exact (mild_definitions _ hd).parse _ _ _ (said_builtin hb hd t)

/-- **There is no error** before values are reworked. -/
theorem errors_filled (hb : b.registry = Registry.builtin) (hparse : b.parseAll t (b.tags t) {} = (p, .ok u))
    (hfill : b.autofillAll t (b.registry.withAutofill b.filetype).entries p = (q, .ok u)) :
    Event.ofLevel .error q.events = [] := by
  have hmild : ∀ x ∈ (b.registry.withAutofill b.filetype).entries, x.2.Mild := by
    intro x hx
    have hlist := List.mem_of_mem_filter hx
    rw [hb] at hlist
    exact mild_definitions x ((Registry.mem_list_builtin_iff _).1 hlist)
  rw [errors_autofillAll hmild hfill,
    errors_parseAll (hb ▸ Registry.plain_builtin) (fun a ha => errors_said hb ha) hparse]
  rfl

/-! ## What markups and states say -/

theorem fields_markup (hb : b.registry = Registry.builtin) {m : Tag} (hm : m.name = "markup")
    {o : List (String × Value)} (h : b.Gives t m (.arr [.obj o])) :
    Entries.find? "id" o = some (.ofOption (HeadLine.read .markup m.prepare.line).id) ∧
      ∀ k ∈ ["raw", "escaped"], ∃ x, Entries.find? k o = some (.str x) := by
  have hvalue := h.eq_of_done hb (hm ▸ Registry.mem_markup) rfl
  unfold parseMarkup record at hvalue
  have hobj := (List.cons.inj (Value.arr.inj hvalue)).1
  have hfind : ∀ k, Entries.find? k o = (Value.obj o).field? k := fun _ => rfl
  simp [hfind, hobj, Value.field?_object, Entries.find?]

theorem fields_states (hb : b.registry = Registry.builtin) {s : Tag} (hs : s.name = "states")
    {o : List (String × Value)} (h : b.Gives t s (.arr [.obj o])) :
    (Value.obj o).field? "markup_id" = some (.ofOption (wantedId s)) ∧
      (Value.obj o).field? "state" = some (listed s) := by
  have hvalue := h.eq_of_done hb (hs ▸ Registry.mem_states) rfl
  unfold parseStates record at hvalue
  rw [(List.cons.inj (Value.arr.inj hvalue)).1, Value.field?_object, Value.field?_object]
  simp [Entries.find?, wantedId, listed]

/-! ## Reworking them -/

variable {positions : List Position} {es : List Event}

theorem resolveAll_cons_of_absent (hv : p.block.get? n = none) :
    b.resolveAll t positions ((n, d) :: ds) p = b.resolveAll t positions ds p := by
  rw [resolveAll, hv]
  split
  · next h => cases h
  · rfl

theorem resolveAll_cons_of_ok {f : ResolveCallback} (hf : d.resolve = some f) (hv : p.block.get? n = some v)
    (ho : f v ⟨n, d.aliases, b.placeOf t, p.block, positions⟩ = ⟨es, .ok (some w)⟩) (hw : w.isNull = false) :
    b.resolveAll t positions ((n, d) :: ds) p =
      b.resolveAll t positions ds { b.tellAll p es with block := p.block.insert n w } := by
  have hnotNull : (some w).bind notNull = some w := bind_notNull_eq_some_iff.2 ⟨rfl, hw⟩
  rw [resolveAll, hf, hv]
  dsimp only
  rw [ho]
  dsimp only
  rw [hnotNull]
  rfl

/-- The markups get their ids, and nothing else happens. -/
theorem rework_markup (t : Token) (positions : List Position) (ds : List (String × Definition))
    {given : List (List (String × Value))}
    (hp : p.block.get? "markup" = if given.isEmpty then none else some (.arr (given.map .obj))) :
    ∃ q, b.resolveAll t positions (("markup", markup) :: ds) p = b.resolveAll t positions ds q ∧
      q.events = p.events ∧ (∀ n, n ≠ "markup" → q.block.get? n = p.block.get? n) ∧
      q.block.get? "markup" =
        if given.isEmpty then none else some (.arr ((given.mapIdx numberFields).map .obj)) := by
  cases hempty : given.isEmpty with
  | true =>
    rw [hempty, if_pos rfl] at hp
    exact ⟨p, resolveAll_cons_of_absent hp, rfl, fun _ _ => rfl, hp⟩
  | false =>
    rw [hempty, if_neg (by simp)] at hp
    refine ⟨_, resolveAll_cons_of_ok rfl hp rfl rfl, ?_, ?_, ?_⟩
    · rw [tellAll_nil]
    · intro n hn
      exact Block.get?_insert_of_ne hn
    · rw [← mapIdx_numberMarkup]
      exact (Block.get?_insert _ _ _ _).trans (if_pos rfl)

theorem linkStates_arr (items : List Value) (c : ResolveContext) :
    linkStates (.arr items) c =
      { events := ((items.mapIdx (linkEntry c)).filterMap (·.2.2)).map fun f => .errorIn c.place.file.path f.message
        result := .ok (some (.ofTable
          ((groupById ((items.mapIdx (linkEntry c)).map fun x => (x.1, x.2.1))).map fun _ => .arr))) } := by
  rw [List.map_filterMap]
  rfl

theorem positions_eq (b : Builder) (t : Token) (n : String) :
    ((b.tags t).map position).filter (·.name = n) = (b.occurrences t n).map position := by
  rw [List.filter_map]
  rfl

theorem starts_of_mem_occurrences (ha : a ∈ b.occurrences t n) : ∃ i, a.first = some i := by
  obtain ⟨i, _, hi, -⟩ := Splitter.exists_head (List.mem_of_mem_filter ha)
  exact ⟨i, hi⟩

theorem find?_numberFields_id {j : Nat} {o : List (String × Value)} {id : Option String}
    (h : Entries.find? "id" o = some (.ofOption id)) :
    Entries.find? "id" (numberFields j o) = some (.str (id.getD (toString j))) := by
  unfold numberFields
  rw [h]
  cases id with
  | none => exact Entries.find?_insert_self _ _ _
  | some id => exact h

theorem find?_numberFields_of_ne {j : Nat} {o : List (String × Value)} {k : String} (hk : k ≠ "id") :
    Entries.find? k (numberFields j o) = Entries.find? k o := by
  unfold numberFields
  split
  · exact Entries.find?_insert_of_ne hk _ _
  · rfl

section

variable {given items : List (List (String × Value))}
  (hgiven : List.Forall₂ (fun m o => b.Gives t m (.arr [.obj o])) (b.occurrences t "markup") given)

include hgiven

/-- The fields of a markup with an id, from those that its annotation gave. -/
theorem fields_numbered (hb : b.registry = Registry.builtin) {j : Nat} {o : List (String × Value)}
    (ho : (given.mapIdx numberFields)[j]? = some o) :
    ∃ m, (b.occurrences t "markup")[j]? = some m ∧ Entries.find? "id" o = some (.str (markupId j m)) ∧
      ∀ k ∈ ["raw", "escaped"], ∃ x, Entries.find? k o = some (.str x) := by
  rw [List.getElem?_mapIdx] at ho
  obtain ⟨g, hg, rfl⟩ := Option.map_eq_some_iff.1 ho
  obtain ⟨hj, rfl⟩ := List.getElem?_eq_some_iff.1 hg
  have hm : j < (b.occurrences t "markup").length := hgiven.length_eq ▸ hj
  obtain ⟨hid, htexts⟩ := fields_markup hb (name_of_mem_occurrences (List.getElem_mem hm)) (hgiven.get hm hj)
  refine ⟨_, List.getElem?_eq_getElem hm, find?_numberFields_id hid, ?_⟩
  intro k hk
  have hne : k ≠ "id" := by
    rintro rfl
    simp at hk
  rw [find?_numberFields_of_ne hne]
  exact htexts k hk

/-- What the second callback sees of the comment. -/
theorem sees_tags (hb : b.registry = Registry.builtin)
    (hmarkup : p.block.get? "markup" =
      if given.isEmpty then none else some (.arr ((given.mapIdx numberFields).map .obj))) :
    Sees ⟨"states", states.aliases, b.placeOf t, p.block, (b.tags t).map position⟩ (b.occurrences t "states")
      (b.occurrences t "markup") (given.mapIdx numberFields) := by
  refine ⟨?_, ?_, ?_, positions_eq b t _, positions_eq b t _, fun s hs => starts_of_mem_occurrences hs⟩
  · have hempty : (given.mapIdx numberFields).isEmpty = given.isEmpty := by
      cases given <;> simp
    dsimp only
    rw [hmarkup, hempty]
    split <;> rfl
  · rw [List.length_mapIdx, hgiven.length_eq]
  · intro j m o hm ho
    obtain ⟨m', hm', hid, -⟩ := fields_numbered hgiven hb ho
    obtain rfl := Option.some.inj (hm.symm.trans hm')
    exact hid

/-- **The states are linked** to the markups with their ids. -/
theorem rework_states (hb : b.registry = Registry.builtin)
    (hitems : List.Forall₂ (fun s o => b.Gives t s (.arr [.obj o])) (b.occurrences t "states") items)
    (hmarkup : p.block.get? "markup" =
      if given.isEmpty then none else some (.arr ((given.mapIdx numberFields).map .obj)))
    (hstates : p.block.get? "states" = some (.arr (items.map .obj))) :
    ∃ links q, List.Forall₂ (Files (b.occurrences t "markup") (given.mapIdx numberFields))
        (b.occurrences t "states") links ∧
      b.resolveAll t ((b.tags t).map position) [("states", states)] p = (q, .ok ⟨⟩) ∧
      q.block = p.block.insert "states"
        (.ofTable ((groupById (links.map fun x => (x.1, x.2.1))).map fun _ => .arr)) ∧
      Event.ofLevel .error q.events = Event.ofLevel .error p.events ++
        (links.filterMap (·.2.2)).map fun f => { message := f.message, file := some b.file.path } := by
  have hsees := sees_tags hgiven hb hmarkup
  generalize hc : (⟨"states", states.aliases, b.placeOf t, p.block, (b.tags t).map position⟩ : ResolveContext) = c
    at hsees
  refine ⟨(items.map .obj).mapIdx (linkEntry c), _, ?_,
    resolveAll_cons_of_ok rfl hstates (linkStates_arr _ _) rfl, ?_, ?_⟩
  · rw [List.forall₂_iff_get]
    have hlength : ((items.map Value.obj).mapIdx (linkEntry c)).length = items.length := by
      rw [List.length_mapIdx, List.length_map]
    refine ⟨by rw [hlength, hitems.length_eq], ?_⟩
    intro k hk hk'
    have hi : k < items.length := hlength ▸ hk'
    obtain ⟨hid, hstate⟩ := fields_states hb (name_of_mem_occurrences (List.getElem_mem hk)) (hitems.get hk hi)
    rw [List.get_eq_getElem, List.get_eq_getElem, List.getElem_mapIdx, List.getElem_map]
    refine hsees.linkEntry_files (by rw [← hc]) (by rw [← hc]; rfl) ?_ (List.getElem?_eq_getElem hk) hid hstate
    intro o ho
    obtain ⟨j, hj⟩ := List.mem_iff_getElem?.1 ho
    obtain ⟨-, -, -, htexts⟩ := fields_numbered hgiven hb hj
    exact htexts
  · rw [← hc]
  · dsimp only
    rw [errors_tellAll, hc, Event.ofLevel_errorIn, ← hc]
    rfl

end

/-- The block of a comment whose phases run to their end. -/
theorem build_of_ok {parsed filled resolved : Progress} (hparse : b.parseAll t (b.tags t) {} = (parsed, .ok ⟨⟩))
    (hauto : b.autofillAll t (b.registry.withAutofill b.filetype).entries parsed = (filled, .ok ⟨⟩))
    (hempty : filled.block.isEmpty = false)
    (hresolve : b.resolveAll t ((b.tags t).map position) (b.registry.withResolve b.filetype).entries filled =
      (resolved, .ok ⟨⟩)) : b.build t = (resolved.events, .ok (some resolved.block)) := by
  have hpositions : (b.tags t).map position = (b.tags t).map fun a => ⟨a.name, a.first, a.last⟩ := rfl
  rw [hpositions] at hresolve
  unfold build
  dsimp only
  rw [hparse]
  dsimp only
  rw [hauto]
  dsimp only
  rw [hempty, if_neg (by simp), hresolve]

/-- The values of annotations that give lists of one object, once all that is missing is filled in. -/
theorem exists_filled_objects (hb : b.registry = Registry.builtin) (hd : (n, d) ∈ definitions) (hrecords : d.Records)
    (hauto : d.autofill = none) {parsed filled : Progress}
    (hparse : b.parseAll t (b.tags t) {} = (parsed, .ok u))
    (hfill : b.autofillAll t (b.registry.withAutofill b.filetype).entries parsed = (filled, .ok u)) :
    ∃ objects, List.Forall₂ (fun a o => b.Gives t a (.arr [.obj o])) (b.occurrences t n) objects ∧
      filled.block.get? n = if objects.isEmpty then none else some (.arr (objects.map .obj)) := by
  obtain ⟨objects, hall, hjoined⟩ := exists_objects hb hd hrecords t
  refine ⟨objects, hall, ?_⟩
  rw [← hjoined]
  apply filled_get?_joined (hb ▸ Registry.plain_builtin) hparse hfill
  right
  intro e he
  rw [eq_of_get?_builtin hb hd he, hauto]

/-- **States are linked to the right markup, and none is lost.** The markup annotations have one object each, with the
id that they give or their index. Each states annotation has one entry: with the first markup that has the id it names,
or that starts below it when it names none, under the id of that markup. When there is no such markup, the entry is kept
with an empty one under the id that is named, or `undefined`, and there is one error for it; a comment with states has
no other errors. Under each key are its entries in order. -/
theorem build_states (hb : b.registry = Registry.builtin) (t : Token) (hs : b.occurrences t "states" ≠ []) :
    ∃ es block given links, ∃ groups : Table (List Value),
      b.build t = (es, .ok (some block)) ∧
      List.Forall₂ (fun m o => b.Gives t m (.arr [.obj o])) (b.occurrences t "markup") given ∧
      block.get? "markup" =
        (if given.isEmpty then none else some (.arr ((given.mapIdx numberFields).map .obj))) ∧
      (∀ j o, (given.mapIdx numberFields)[j]? = some o →
        ∃ m, (b.occurrences t "markup")[j]? = some m ∧ Entries.find? "id" o = some (Value.str (markupId j m))) ∧
      List.Forall₂ (Files (b.occurrences t "markup") (given.mapIdx numberFields)) (b.occurrences t "states") links ∧
      block.get? "states" = some (.ofTable (groups.map fun _ => .arr)) ∧
      (∀ key, groups.get? key =
        if (Block.valuesUnder key (links.map fun x => (x.1, x.2.1))).isEmpty then none
        else some (Block.valuesUnder key (links.map fun x => (x.1, x.2.1)))) ∧
      groups.values.flatten.Perm (links.map (·.2.1)) ∧
      Event.ofLevel .error es =
        (links.filterMap (·.2.2)).map fun f => { message := f.message, file := some b.file.path } := by
  have hr : b.registry.Plain := hb ▸ Registry.plain_builtin
  obtain ⟨parsed, hparse, -⟩ := parseAll_said hr t (b.tags t) {}
  obtain ⟨filled, hfill⟩ := autofillAll_plain (b := b) t
    (fun x hx => plain_of_mem_list hr (List.mem_of_mem_filter hx)) parsed
  obtain ⟨given, hgiven, hmarkup⟩ := exists_filled_objects hb Registry.mem_markup records_markup rfl hparse hfill
  obtain ⟨items, hitems, hstates⟩ := exists_filled_objects hb Registry.mem_states records_states rfl hparse hfill
  have hne : items.isEmpty = false := by
    rw [List.isEmpty_eq_false_iff, ← List.length_pos_iff, ← hitems.length_eq]
    exact List.length_pos_iff.2 hs
  rw [hne, if_neg (by simp)] at hstates
  have hfilled : filled.block.isEmpty = false :=
    Block.isEmpty_of_contains (n := "states") (by rw [Block.contains_eq, hstates]; rfl)
  obtain ⟨numbered, hnumber, hevents, hother, hnumbered⟩ :=
    rework_markup (b := b) t ((b.tags t).map position) [("states", states)] hmarkup
  rw [← hother "states" (by decide)] at hstates
  obtain ⟨links, resolved, hlinks, hlink, hblock, hlinkErrors⟩ := rework_states hgiven hb hitems hnumbered hstates
  have hresolve : b.resolveAll t ((b.tags t).map position) (b.registry.withResolve b.filetype).entries filled =
      (resolved, .ok ⟨⟩) := by
    rw [hb, Registry.entries_withResolve_builtin, hnumber, hlink]
  refine ⟨resolved.events, resolved.block, given, links, _, build_of_ok hparse hfill hfilled hresolve, hgiven, ?_, ?_,
    hlinks, ?_, get?_groupById _, ?_, ?_⟩
  · rw [hblock, Block.get?_insert_of_ne (by decide), hnumbered]
  · intro j o ho
    obtain ⟨m, hm, hid, -⟩ := fields_numbered hgiven hb ho
    exact ⟨m, hm, hid⟩
  · rw [hblock, Block.get?_insert, if_pos rfl]
  · have hperm := groupById_perm (links.map fun x => (x.1, x.2.1))
    rwa [List.map_map] at hperm
  · rw [hlinkErrors, hevents, errors_filled hb hparse hfill, List.nil_append]

/-- A comment with states above a markup, and below it states of another one. -/
def stated : Token :=
  ⟨.body, { contents := ["@states", "[on] - On", "@markup", "<a>", "@states (b)", "[off] - Off"] }, {}⟩

theorem tags_stated : script.tags stated =
    [⟨"states", ["state"], "", ["@states", "[on] - On"], some 0, some 1⟩,
     ⟨"markup", ["code", "example", "output", "outputs"], "", ["@markup", "<a>"], some 2, some 3⟩,
     ⟨"states", ["state"], " (b)", ["@states (b)", "[off] - Off"], some 4, some 5⟩] := by decide +kernel

theorem occurrences_stated :
    ∃ s s' m, script.occurrences stated "states" = [s, s'] ∧ script.occurrences stated "markup" = [m] ∧
      wantedId s = none ∧ StartsBelow s m ∧ wantedId s' = some "b" ∧ markupId 0 m = "0" := by
  simp only [occurrences, tags_stated]
  exact ⟨_, _, _, rfl, rfl, by decide +kernel, ⟨0, 2, rfl, rfl, by decide⟩, by decide +kernel, by decide +kernel⟩

/-- The first states belong to the markup, and the last ones to none. -/
theorem build_states_stated :
    ∃ es block x y, ∃ groups : Table (List Value), script.build stated = (es, .ok (some block)) ∧
      block.get? "states" = some (.ofTable (groups.map fun _ => .arr)) ∧
      groups.get? "0" = some [x] ∧ groups.get? "b" = some [y] ∧ y.field? "markup" = some (.obj []) ∧
      Event.ofLevel .error es =
        [{ message := "There's no instance of a '@markup' annotation with an id of b", file := some "a.js" }] := by
  obtain ⟨s, s', m, hstates, hmarkup, hnone, hbelow, hsome, hid⟩ := occurrences_stated
  obtain ⟨es, block, given, links, groups, hbuild, -, -, -, hlinks, hget, hgroups, -, herrors⟩ :=
    build_states registry_script stated (by rw [hstates]; exact List.cons_ne_nil _ _)
  rw [hstates, hmarkup] at hlinks
  obtain ⟨x, _, hx, htail, rfl⟩ := List.forall₂_cons_left_iff.1 hlinks
  obtain ⟨y, _, hy, hnil, rfl⟩ := List.forall₂_cons_left_iff.1 htail
  obtain rfl := List.forall₂_nil_left_iff.1 hnil
  have hfits : Fits [m] s 0 := ⟨m, rfl, by rw [hnone]; exact hbelow⟩
  have hmisfit : ∀ j, ¬ Fits [m] s' j := by
    intro j
    rw [fits_iff_of_some hsome]
    rintro ⟨m', hm', hid'⟩
    obtain ⟨hj, rfl⟩ := List.getElem?_eq_some_iff.1 hm'
    obtain rfl : j = 0 := Nat.lt_one_iff.1 hj
    exact absurd (hid.symm.trans hid') (by decide)
  cases hy with
  | linked _ _ hfits' => exact absurd hfits' (hmisfit _)
  | missing =>
    cases hx with
    | missing hnot => exact absurd hfits (hnot 0)
    | @linked j m' o filled hm _ _ hfirst _ =>
      obtain rfl : j = 0 := Nat.eq_zero_of_not_pos fun hj => hfirst 0 hj hfits
      obtain rfl : m = m' := Option.some.inj hm
      rw [hid, hnone, hsome] at hgroups
      refine ⟨es, block, _, _, groups, hbuild, hget, hgroups "0", hgroups "b", Value.field?_object _ _, ?_⟩
      rw [herrors, faultOf, hsome]
      rfl

end Builder

end DocComments
