import Mathlib.Data.List.Nodup
import DocComments.Proofs.Registry.Failures

/-!
# The order of registrations

Each registration is compared with what was registered before it, and never with what comes later. That makes no
difference: two registrations run into each other exactly when an entry of the one and an entry of the other are for
common files and an alias of either is the name or an alias of the other. This relation is symmetric, and entries that
go to different places can be put there in any order.

* `Entry.Apart`: the relation.
* `register_eq_none_iff`: **a registration succeeds when its entries are apart from those that are there.**
* `registerAll_eq_none_iff`: a run succeeds when the entries of all its registrations are apart from each other.
* `foldl_add_perm`: entries can be put into a registry in any order.
* `registerAll_perm`: the order of registrations does not matter.
-/

namespace DocComments

/-- One entry of a registry: the definition that a file type has for a name. -/
@[ext]
structure Registry.Entry where
  filetype : String
  name : String
  definition : Definition

/-- The entries that a definition makes. -/
def Definition.entries (name : String) (d : Definition) : List Registry.Entry :=
  (Registry.tidy name d).filetypes.map fun f => ⟨f, name, Registry.tidy name d⟩

namespace Registration

variable {n f : String} {d e : Definition} {reg : Registration} {x y : Registry.Entry}

/-- The entries that a registration makes. -/
def entries (name : String) (reg : Registration) : List Registry.Entry :=
  reg.parts.flatMap (·.entries name)

/-- Nothing is wrong with a registration by itself. -/
structure Proper (name : String) (reg : Registration) : Prop where
  name : Registry.isWord name = true
  fault : reg.fault? = none
  parts : ∀ d ∈ reg.parts, Registry.definitionFault? d = none

theorem mem_entries :
    x ∈ reg.entries n ↔ ∃ d ∈ reg.parts, ∃ f ∈ (Registry.tidy n d).filetypes, ⟨f, n, Registry.tidy n d⟩ = x := by
  simp only [entries, Definition.entries, List.mem_flatMap, List.mem_map]

theorem name_of_mem_entries (h : x ∈ reg.entries n) : x.name = n := by
  obtain ⟨d, -, f, -, rfl⟩ := mem_entries.1 h
  rfl

/-- No two parts of a registration are for one file type. -/
theorem eq_of_mem_parts (hd : d ∈ reg.parts) (he : e ∈ reg.parts) (hfd : f ∈ (Registry.tidy n d).filetypes)
    (hfe : f ∈ (Registry.tidy n e).filetypes) : d = e := by
  cases reg with
  | parse _ | aliases _ | definition _ => exact (List.mem_singleton.1 hd).trans (List.mem_singleton.1 he).symm
  | filetypes ds =>
    obtain ⟨⟨g, d⟩, hgd, rfl⟩ := List.mem_map.1 hd
    obtain ⟨⟨g', e⟩, hge, rfl⟩ := List.mem_map.1 he
    obtain rfl : f = g := List.mem_singleton.1 hfd
    obtain rfl : f = g' := List.mem_singleton.1 hfe
    have hsome := (Table.get?_eq_some_iff.2 hgd).symm.trans (Table.get?_eq_some_iff.2 hge)
    rw [Option.some.inj hsome]

/-- The entries of a registration are told apart by their file types. -/
theorem eq_of_mem_entries (hx : x ∈ reg.entries n) (hy : y ∈ reg.entries n) (h : x.filetype = y.filetype) : x = y := by
  obtain ⟨d, hd, f, hfd, rfl⟩ := mem_entries.1 hx
  obtain ⟨e, he, g, hge, rfl⟩ := mem_entries.1 hy
  obtain rfl : f = g := h
  rw [eq_of_mem_parts hd he hfd hge]

end Registration

namespace Registry

variable {r r' : Registry} {n m f g : String} {d e : Definition} {reg : Registration}
  {regs regs' : List (String × Registration)} {x y : Entry} {xs ys : List Entry}

/-- Entries of two annotations for common files do not meet: no alias of one is the name or an alias of the other. -/
def Entry.Apart (x y : Entry) : Prop :=
  shareFiles x.filetype y.filetype = true → x.name ≠ y.name →
    y.name ∉ x.definition.aliases ∧ x.name ∉ y.definition.aliases ∧
      ∀ a ∈ x.definition.aliases, a ∉ y.definition.aliases

theorem Entry.Apart.symm (h : x.Apart y) : y.Apart x := by
  intro hs hne
  rw [shareFiles_comm] at hs
  obtain ⟨hx, hy, halias⟩ := h hs hne.symm
  exact ⟨hy, hx, fun a hay hax => halias a hax hay⟩

theorem Entry.apart_of_name_eq (h : x.name = y.name) : x.Apart y :=
  fun _ hne => absurd h hne

/-- The registry has an entry. -/
def Has (r : Registry) (x : Entry) : Prop :=
  r.lookup? x.filetype x.name = some x.definition

/-- An entry is apart from all that the registry has. -/
def Clear (r : Registry) (x : Entry) : Prop :=
  ∀ y, r.Has y → x.Apart y

/-- Puts an entry into the registry. -/
def add (r : Registry) (x : Entry) : Registry :=
  r.put x.filetype x.name x.definition

theorem collision?_eq_none_iff_clear :
    r.collision? f n d.aliases = none ↔ r.Clear ⟨f, n, d⟩ := by
  rw [collision?_eq_none_iff]
  constructor
  · intro h y hy hs hne
    obtain ⟨hname, halias, hself⟩ := h y.filetype y.name y.definition hs hne.symm hy
    exact ⟨hname, hself, halias⟩
  · intro h g m e hs hne he
    obtain ⟨hname, hself, halias⟩ := h ⟨g, m, e⟩ he hs hne.symm
    exact ⟨hname, halias, hself⟩

theorem define_eq_ok_iff_clear :
    r.define n d = .ok r' ↔
      definitionFault? d = none ∧ (∀ x ∈ d.entries n, r.Clear x) ∧ r' = (d.entries n).foldl add r := by
  simp only [define_eq_ok_iff, collision?_eq_none_iff_clear, Definition.entries, List.forall_mem_map, List.foldl_map,
    add]

/-! ## What a registry has when entries were put into it -/

theorem lookup?_foldl_add_of_ne (h : ∀ x ∈ xs, x.name ≠ m) : (xs.foldl add r).lookup? g m = r.lookup? g m := by
  induction xs generalizing r with
  | nil => rfl
  | cons x xs ih =>
    obtain ⟨hx, hxs⟩ := List.forall_mem_cons.1 h
    rw [List.foldl_cons, ih hxs, add, lookup?_put, if_neg fun hm => hx hm.2.symm]

theorem has_of_foldl_add (h : (xs.foldl add r).Has y) : y ∈ xs ∨ r.Has y := by
  induction xs generalizing r with
  | nil => exact .inr h
  | cons x xs ih =>
    rcases ih h with hy | hy
    · exact .inl (List.mem_cons_of_mem x hy)
    · unfold Has add at hy
      rw [lookup?_put] at hy
      split at hy
      · next hplace =>
        have hxy : y = x := Entry.ext hplace.1 hplace.2 (Option.some.inj hy).symm
        exact .inl (hxy ▸ List.mem_cons_self)
      · exact .inr hy

/-- An entry stays when no other one is put in its place. -/
theorem has_foldl_add_of_has (hy : r.Has y) (h : ∀ x ∈ xs, x.filetype = y.filetype → x.name = y.name → x = y) :
    (xs.foldl add r).Has y := by
  induction xs generalizing r with
  | nil => exact hy
  | cons x xs ih =>
    obtain ⟨hx, hxs⟩ := List.forall_mem_cons.1 h
    refine ih ?_ hxs
    unfold Has add
    rw [lookup?_put]
    split
    · next hplace => rw [hx hplace.1.symm hplace.2.symm]
    · exact hy

/-- No place is filled with two definitions. -/
def Consistent (xs : List Entry) : Prop :=
  ∀ x ∈ xs, ∀ y ∈ xs, x.filetype = y.filetype → x.name = y.name → x = y

theorem has_foldl_add_of_mem (hxs : Consistent xs) (hy : y ∈ xs) : (xs.foldl add r).Has y := by
  obtain ⟨before, after, rfl⟩ := List.append_of_mem hy
  rw [List.foldl_append, List.foldl_cons]
  refine has_foldl_add_of_has ?_ fun x hx hf hn => ?_
  · unfold Has add
    rw [lookup?_put, if_pos ⟨rfl, rfl⟩]
  · exact hxs x (List.mem_append_right _ (List.mem_cons_of_mem y hx)) y hy hf hn

/-- What a new entry must be apart from: what was there, and what was put into free places. -/
theorem clear_foldl_add_iff (hxs : Consistent xs) (hfree : ∀ x ∈ xs, r.lookup? x.filetype x.name = none) :
    (xs.foldl add r).Clear y ↔ (∀ x ∈ xs, y.Apart x) ∧ r.Clear y := by
  constructor
  · intro h
    refine ⟨fun x hx => h x (has_foldl_add_of_mem hxs hx), fun z hz => h z (has_foldl_add_of_has hz ?_)⟩
    intro x hx hf hn
    have hnone := hfree x hx
    rw [hf, hn, hz] at hnone
    cases hnone
  · rintro ⟨hapart, hclear⟩ z hz
    rcases has_of_foldl_add hz with hz | hz
    · exact hapart z hz
    · exact hclear z hz

/-- Entries of one name do not stand in each other's way. -/
theorem clear_foldl_add_iff_of_name (h : ∀ x ∈ xs, x.name = y.name) : (xs.foldl add r).Clear y ↔ r.Clear y := by
  have hother : ∀ z : Entry, y.name ≠ z.name → ((xs.foldl add r).Has z ↔ r.Has z) := by
    intro z hne
    unfold Has
    rw [lookup?_foldl_add_of_ne fun x hx hxz => hne ((h x hx).symm.trans hxz)]
  constructor
  · intro hclear z hz hs hne
    exact hclear z ((hother z hne).2 hz) hs hne
  · intro hclear z hz hs hne
    exact hclear z ((hother z hne).1 hz) hs hne

theorem put_comm (h : f = g → n ≠ m) : (r.put f n d).put g m e = (r.put g m e).put f n d := by
  unfold put
  by_cases hfg : f = g
  · subst hfg
    simp only [Table.get?_insert_self, Option.getD_some, Table.insert_insert, Table.insert_comm _ (h rfl)]
  · have hgf : g ≠ f := fun he => hfg he.symm
    simp only [Table.get?_insert_of_ne _ hfg, Table.get?_insert_of_ne _ hgf, Table.insert_comm _ hfg]

/-- **Entries can be put into a registry in any order.** -/
theorem foldl_add_perm (hxs : Consistent xs) (hperm : xs.Perm ys) (r : Registry) : xs.foldl add r = ys.foldl add r := by
  refine hperm.foldl_eq' (fun x hx y hy r => ?_) r
  by_cases hplace : x.filetype = y.filetype ∧ x.name = y.name
  · rw [hxs x hx y hy hplace.1 hplace.2]
  · exact put_comm fun hf hn => hplace ⟨hf, hn⟩

/-! ## When registrations succeed -/

theorem register_definition_eq_none_iff (hn : isWord n = true) :
    r.register n (.definition d) = (r', none) ↔ r.define n d = .ok r' := by
  cases h : r.define n d with
  | ok r₁ => simp [register_definition_of_ok hn h]
  | error x => simp [register_definition_of_error hn h]

theorem registerAll_cons_eq_none_iff :
    r.registerAll ((n, reg) :: regs) = (r', none) ↔
      ∃ r₁, r.register n reg = (r₁, none) ∧ r₁.registerAll regs = (r', none) := by
  cases h : r.register n reg with
  | mk r₁ o =>
    cases o with
    | none => simp [registerAll_cons_of_none h]
    | some x => simp [registerAll_cons_of_some h]

/-- Definitions of one name succeed when each of them would. -/
theorem registerAll_definitions_iff (hn : isWord n = true) (ds : List Definition) :
    r.registerAll (ds.map fun d => (n, .definition d)) = (r', none) ↔
      (∀ d ∈ ds, definitionFault? d = none) ∧ (∀ x ∈ ds.flatMap (·.entries n), r.Clear x) ∧
        r' = (ds.flatMap (·.entries n)).foldl add r := by
  induction ds generalizing r with
  | nil => simp [registerAll, eq_comm]
  | cons d ds ih =>
    have hclear : ∀ x ∈ ds.flatMap (·.entries n), ((d.entries n).foldl add r).Clear x ↔ r.Clear x := by
      intro x hx
      refine clear_foldl_add_iff_of_name fun y hy => ?_
      obtain ⟨e, -, hx⟩ := List.mem_flatMap.1 hx
      obtain ⟨f, -, rfl⟩ := List.mem_map.1 hx
      obtain ⟨g, -, rfl⟩ := List.mem_map.1 hy
      rfl
    rw [List.map_cons, registerAll_cons_eq_none_iff, List.flatMap_cons, List.foldl_append]
    simp only [register_definition_eq_none_iff hn, define_eq_ok_iff_clear, ih, List.forall_mem_cons,
      List.forall_mem_append]
    constructor
    · rintro ⟨r₁, ⟨hd, hfirst, rfl⟩, hds, hrest, rfl⟩
      exact ⟨⟨hd, hds⟩, ⟨hfirst, fun x hx => (hclear x hx).1 (hrest x hx)⟩, rfl⟩
    · rintro ⟨⟨hd, hds⟩, ⟨hfirst, hrest⟩, rfl⟩
      exact ⟨_, ⟨hd, hfirst, rfl⟩, hds, fun x hx => (hclear x hx).2 (hrest x hx), rfl⟩

/-- **A registration succeeds when nothing is wrong with it and its entries are apart from those that are there.** -/
theorem register_eq_none_iff :
    r.register n reg = (r', none) ↔
      reg.Proper n ∧ (∀ x ∈ reg.entries n, r.Clear x) ∧ r' = (reg.entries n).foldl add r := by
  cases hn : isWord n with
  | false =>
    rw [register_of_not_isWord hn]
    constructor
    · intro h
      cases h
    · rintro ⟨hproper, -⟩
      rw [hproper.name] at hn
      cases hn
  | true =>
    cases hfault : reg.fault? with
    | some x =>
      rw [register_of_fault? hn hfault]
      constructor
      · intro h
        cases h
      · rintro ⟨hproper, -⟩
        rw [hproper.fault] at hfault
        cases hfault
    | none =>
      rw [register_eq_registerAll hn hfault, registerAll_definitions_iff hn]
      constructor
      · rintro ⟨hparts, hclear, rfl⟩
        exact ⟨⟨hn, hfault, hparts⟩, hclear, rfl⟩
      · rintro ⟨hproper, hclear, rfl⟩
        exact ⟨hproper.parts, hclear, rfl⟩

/-- The entries that registrations make. -/
def entriesOf (regs : List (String × Registration)) : List Entry :=
  regs.flatMap fun x => x.2.entries x.1

/-- The entries of one registration are apart, since they have one name. -/
theorem pairwise_entries (n : String) (reg : Registration) : (reg.entries n).Pairwise Entry.Apart := by
  refine List.pairwise_iff_getElem.2 fun i j hi hj _ => Entry.apart_of_name_eq ?_
  rw [Registration.name_of_mem_entries (List.getElem_mem hi), Registration.name_of_mem_entries (List.getElem_mem hj)]

theorem consistent_entries (n : String) (reg : Registration) : Consistent (reg.entries n) :=
  fun _ hx _ hy hf _ => Registration.eq_of_mem_entries hx hy hf

theorem consistent_entriesOf (hnames : (regs.map (·.1)).Nodup) : Consistent (entriesOf regs) := by
  intro x hx y hy hf hn
  obtain ⟨u, hu, hx⟩ := List.mem_flatMap.1 hx
  obtain ⟨v, hv, hy⟩ := List.mem_flatMap.1 hy
  rw [Registration.name_of_mem_entries hx, Registration.name_of_mem_entries hy] at hn
  obtain rfl : u = v := List.inj_on_of_nodup_map hnames hu hv hn
  exact Registration.eq_of_mem_entries hx hy hf

/-- **Registrations under new names succeed when the entries of all of them are apart**, from each other and from those
that are there. -/
theorem registerAll_eq_none_iff (hnames : (regs.map (·.1)).Nodup) (hfree : ∀ x ∈ regs, ∀ f, r.lookup? f x.1 = none) :
    r.registerAll regs = (r', none) ↔
      (∀ x ∈ regs, x.2.Proper x.1) ∧ (∀ x ∈ entriesOf regs, r.Clear x) ∧ (entriesOf regs).Pairwise Entry.Apart ∧
        r' = (entriesOf regs).foldl add r := by
  induction regs generalizing r with
  | nil => simp [registerAll, entriesOf, eq_comm]
  | cons u regs ih =>
    obtain ⟨n, reg⟩ := u
    obtain ⟨hnew, hnames⟩ := List.nodup_cons.1 hnames
    obtain ⟨hn, hfree⟩ := List.forall_mem_cons.1 hfree
    have hname : ∀ x ∈ reg.entries n, x.name = n := fun x hx => Registration.name_of_mem_entries hx
    -- the names of the rest are still new when the first one is registered
    have hfree' : ∀ x ∈ regs, ∀ f, ((reg.entries n).foldl add r).lookup? f x.1 = none := by
      intro x hx f
      have hne : n ≠ x.1 := fun h => hnew (List.mem_map.2 ⟨x, hx, h.symm⟩)
      rw [lookup?_foldl_add_of_ne fun y hy => hname y hy ▸ hne]
      exact hfree x hx f
    have hclear : ∀ y, ((reg.entries n).foldl add r).Clear y ↔ (∀ x ∈ reg.entries n, y.Apart x) ∧ r.Clear y :=
      fun y => clear_foldl_add_iff (consistent_entries n reg) fun x hx => hname x hx ▸ hn x.filetype
    have hcons : entriesOf ((n, reg) :: regs) = reg.entries n ++ entriesOf regs := rfl
    rw [registerAll_cons_eq_none_iff, hcons, List.foldl_append, List.pairwise_append]
    simp only [register_eq_none_iff, List.forall_mem_cons, List.forall_mem_append]
    constructor
    · rintro ⟨r₁, ⟨hproper, hfirst, rfl⟩, hrest⟩
      obtain ⟨hpropers, hclears, hapart, rfl⟩ := (ih hnames hfree').1 hrest
      have hacross : ∀ x ∈ reg.entries n, ∀ y ∈ entriesOf regs, x.Apart y :=
        fun x hx y hy => (((hclear y).1 (hclears y hy)).1 x hx).symm
      exact ⟨⟨hproper, hpropers⟩, ⟨hfirst, fun y hy => ((hclear y).1 (hclears y hy)).2⟩,
        ⟨pairwise_entries n reg, hapart, hacross⟩, rfl⟩
    · rintro ⟨⟨hproper, hpropers⟩, ⟨hfirst, hclears⟩, ⟨-, hapart, hacross⟩, rfl⟩
      refine ⟨_, ⟨hproper, hfirst, rfl⟩, (ih hnames hfree').2 ⟨hpropers, fun y hy => ?_, hapart, rfl⟩⟩
      exact (hclear y).2 ⟨fun x hx => (hacross x hx y hy).symm, hclears y hy⟩

theorem registerAll_empty_iff (hnames : (regs.map (·.1)).Nodup) :
    ({} : Registry).registerAll regs = (r', none) ↔
      (∀ x ∈ regs, x.2.Proper x.1) ∧ (entriesOf regs).Pairwise Entry.Apart ∧ r' = (entriesOf regs).foldl add {} := by
  have hclear : ∀ x : Entry, ({} : Registry).Clear x := by
    intro x y hy
    cases hy
  rw [registerAll_eq_none_iff hnames fun x _ f => rfl]
  exact ⟨fun ⟨hproper, _, h⟩ => ⟨hproper, h⟩, fun ⟨hproper, h⟩ => ⟨hproper, fun x _ => hclear x, h⟩⟩

/-- **The order of registrations does not matter.** When annotations of different names are registered from the start,
all of them succeed in one order exactly when all of them do in another, and they lead to the same tables. -/
theorem registerAll_perm (hnames : (regs.map (·.1)).Nodup) (hperm : regs.Perm regs') :
    ((({} : Registry).registerAll regs).2 = none ↔ (({} : Registry).registerAll regs').2 = none) ∧
      ((({} : Registry).registerAll regs).2 = none →
        (({} : Registry).registerAll regs).1.tables = (({} : Registry).registerAll regs').1.tables) := by
  have hentries : (entriesOf regs).Perm (entriesOf regs') := hperm.flatMap_right _
  have hfold := foldl_add_perm (consistent_entriesOf hnames) hentries {}
  have hiff : ∀ r', ({} : Registry).registerAll regs = (r', none) ↔ ({} : Registry).registerAll regs' = (r', none) := by
    intro r'
    rw [registerAll_empty_iff hnames, registerAll_empty_iff ((hperm.map _).nodup_iff.1 hnames), hfold,
      hentries.pairwise_iff Entry.Apart.symm]
    simp only [hperm.mem_iff]
  have hsome : ∀ {rs : List (String × Registration)}, (({} : Registry).registerAll rs).2 = none →
      ({} : Registry).registerAll rs = ((({} : Registry).registerAll rs).1, none) := fun h => Prod.ext rfl h
  refine ⟨⟨fun h => ?_, fun h => ?_⟩, fun h => ?_⟩
  · rw [(hiff _).1 (hsome h)]
  · rw [(hiff _).2 (hsome h)]
  · rw [(hiff _).1 (hsome h)]

/-- Two annotations have one alias, for files of different types, and one of them is defined for each type by itself. -/
theorem registerAll_perm_shared_alias :
    let regs : List (String × Registration) :=
      [("arg", .aliases ["param"]), ("note", .filetypes (.ofList [("css", { aliases := ["n"] }), ("js", {})])),
        ("title", .definition { aliases := ["n"], filetypes := ["js", "ts"] })]
    (regs.map (·.1)).Nodup ∧ regs.Perm regs.reverse ∧ (({} : Registry).registerAll regs).2 = none ∧
      (({} : Registry).registerAll regs.reverse).2 = none ∧
      (({} : Registry).registerAll regs).1.tables = (({} : Registry).registerAll regs.reverse).1.tables := by
  intro regs
  have hnames : (regs.map (·.1)).Nodup := by decide +kernel
  have hperm : regs.Perm regs.reverse := regs.reverse_perm.symm
  have hnone : (({} : Registry).registerAll regs).2 = none := by decide +kernel
  obtain ⟨hiff, htables⟩ := registerAll_perm hnames hperm
  exact ⟨hnames, hperm, hnone, hiff.1 hnone, htables hnone⟩

end Registry

end DocComments
