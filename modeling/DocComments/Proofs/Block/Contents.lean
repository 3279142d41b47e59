import DocComments.Proofs.Block.Merge
import DocComments.Proofs.Block.Run

/-!
# What a block holds

Values come into a block from annotations of the comment, from annotations that callbacks add at any depth, and from
the two phases behind them. However the callbacks add one another, the block behind the annotations is what the values
of all annotations make when they are merged one by one.

* `Builder.Runs.block_eq`: **the block is the merge of the values that annotations gave.**
* `Builder.RunsAll.registered`: only annotations that are registered give values.
* `Builder.autofillAll_isEmpty_iff`: when nothing is filled in.
* `Builder.build_contents`: the names and values of a block, what each phase may change, and when there is no block.
-/

namespace DocComments

namespace Block

variable {b : Block} {n m : String} {v : Value}

theorem isEmpty_iff : b.isEmpty = true ↔ b = {} := by
  constructor
  · intro h
    obtain ⟨⟨entries, ordered⟩⟩ := b
    obtain rfl : entries = [] := List.isEmpty_iff.1 h
    rfl
  · rintro rfl
    rfl

theorem exists_contains (h : b.isEmpty = false) : ∃ n, b.contains n = true := by
  cases he : b.table.entries with
  | nil =>
    unfold isEmpty Table.isEmpty at h
    rw [he] at h
    cases h
  | cons x xs =>
    refine ⟨x.1, ?_⟩
    rw [contains_eq, Option.isSome_iff_exists]
    exact ⟨x.2, Table.get?_eq_some_iff.2 (he ▸ List.mem_cons_self)⟩

/-- No value is null. -/
def NoNull (b : Block) : Prop :=
  ∀ n v, b.get? n = some v → v.isNull = false

theorem noNull_empty : NoNull {} := by
  intro n v h
  cases h

theorem NoNull.insert (hb : b.NoNull) (hv : v.isNull = false) : (b.insert n v).NoNull := by
  intro m w h
  rw [get?_insert] at h
  split at h
  · exact Option.some.inj h ▸ hv
  · exact hb m w h

theorem NoNull.merge (hb : b.NoNull) (hv : v.isNull = false) : (b.merge n v).NoNull := by
  unfold Block.merge
  split
  · exact hb.insert hv
  · exact hb.insert rfl

theorem NoNull.mergeAll {xs : List (String × Value)} (hb : b.NoNull) (hxs : ∀ x ∈ xs, x.2.isNull = false) :
    (b.mergeAll xs).NoNull := by
  induction xs generalizing b with
  | nil => exact hb
  | cons x xs ih =>
    exact ih (hb.merge (hxs x List.mem_cons_self)) fun y hy => hxs y (List.mem_cons_of_mem x hy)

end Block

namespace Registry

variable {r : Registry} {f n : String} {d : Definition}

theorem mem_withAutofill_iff :
    (n, d) ∈ (r.withAutofill f).entries ↔ r.get? f n = some d ∧ d.autofill.isSome = true := by
  rw [get?_eq_get?_list, Table.get?_eq_some_iff]
  exact List.mem_filter

theorem mem_withResolve_iff :
    (n, d) ∈ (r.withResolve f).entries ↔ r.get? f n = some d ∧ d.resolve.isSome = true := by
  rw [get?_eq_get?_list, Table.get?_eq_some_iff]
  exact List.mem_filter

end Registry

/-- The name and value that an annotation gave, if that is not null. -/
def Visit.given? : Visit → Option (String × Value)
  | .ran _ a (.ok v) => (Builder.notNull v).map (a.name, ·)
  | _ => none

namespace Builder

variable {b : Builder} {t : Token} {a : Tag} {as : List Tag} {p q : Progress} {s : Script Value} {vs : List Visit}
  {depth : Nat} {n m : String} {d : Definition} {ds : List (String × Definition)} {u : Unit}

theorem notNull_eq_some_iff {v x : Value} : notNull v = some x ↔ v = x ∧ v.isNull = false := by
  constructor
  · exact eq_of_notNull
  · rintro ⟨rfl, h⟩
    unfold notNull
    rw [h]
    rfl

theorem given?_eq_some_iff {x : String × Value} {w : Visit} :
    w.given? = some x ↔ x.2.isNull = false ∧ ∃ depth a, w = .ran depth a (.ok x.2) ∧ a.name = x.1 := by
  obtain ⟨n, v⟩ := x
  unfold Visit.given?
  split
  · next k a y =>
    simp only [Option.map_eq_some_iff, notNull_eq_some_iff, Prod.mk.injEq, Visit.ran.injEq, Except.ok.injEq]
    constructor
    · rintro ⟨z, ⟨rfl, hnull⟩, rfl, rfl⟩
      exact ⟨hnull, k, a, ⟨rfl, rfl, rfl⟩, rfl⟩
    · rintro ⟨hnull, k', a', ⟨rfl, rfl, rfl⟩, hn⟩
      exact ⟨_, ⟨rfl, hnull⟩, hn, rfl⟩
  · next hran =>
    constructor
    · intro h
      cases h
    · rintro ⟨-, k, a, rfl, -⟩
      exact absurd rfl (hran k a v)

theorem block_merge (p : Progress) (a : Tag) (v : Value) (depth : Nat) :
    (p.merge a.name (notNull v)).block = p.block.mergeAll (Visit.given? (.ran depth a (.ok v))).toList := by
  have hgiven : Visit.given? (.ran depth a (.ok v)) = (notNull v).map (a.name, ·) := rfl
  rw [hgiven]
  cases notNull v <;> rfl

theorem block_take (p : Progress) (a : Tag) (r : Except Failure Value) (depth : Nat) :
    (take p a.name (b.answer a r)).block = p.block.mergeAll (Visit.given? (.ran depth a r)).toList := by
  cases r with
  | error f => rfl
  | ok v => exact block_merge p a v depth

theorem filterMap_given?_cons (w : Visit) (vs : List Visit) :
    (w :: vs).filterMap Visit.given? = w.given?.toList ++ vs.filterMap Visit.given? := by
  rw [List.filterMap_cons]
  cases w.given? <;> rfl

/-- **The block is the merge of the values that annotations gave**, at whatever depth. -/
theorem Runs.block_eq {r : Except Failure Value} (h : b.Runs t depth s p vs q r) :
    q.block = p.block.mergeAll (vs.filterMap Visit.given?) := by
  induction h with
  | done v => rfl
  | fail f => rfl
  | emit h ih => exact ih
  | refused hdepth h ih => exact ih
  | @added depth word text next p p₁ q vs₁ vs r₁ r hdepth hrun h ihrun ih =>
    rw [ih, block_take _ _ _ (depth + 1), ihrun, List.filterMap_append, filterMap_given?_cons,
      Block.mergeAll_append, Block.mergeAll_append]
    rfl

theorem RunsAll.block_eq {r : Except CallbackFault Unit} (h : b.RunsAll t as p vs q r) :
    q.block = p.block.mergeAll (vs.filterMap Visit.given?) := by
  induction h with
  | nil => rfl
  | @cons a as p p₁ q vs₁ vs v r hrun h ih =>
    rw [ih, block_merge _ _ _ 0, hrun.block_eq, List.filterMap_append, filterMap_given?_cons,
      Block.mergeAll_append, Block.mergeAll_append]
  | fault hrun =>
    rw [hrun.block_eq, List.filterMap_append, Block.mergeAll_append]
    rfl

/-- An annotation that is not registered gives null. -/
theorem Runs.isNull_of_unknown {v : Value} (h : b.Runs t depth (b.tagScript t a) p vs q (.ok v))
    (hnone : b.registry.get? b.filetype a.name = none) : v.isNull = true := by
  unfold tagScript at h
  rw [hnone] at h
  cases h with
  | emit h =>
    cases h
    rfl

/-- A visit is of an annotation that is registered, if it gave a value. -/
def Registered (b : Builder) (w : Visit) : Prop :=
  ∀ x ∈ w.given?, (b.registry.get? b.filetype x.1).isSome = true

theorem registered_of_runs {r : Except Failure Value} (h : b.Runs t depth (b.tagScript t a) p vs q r) (k : Nat) :
    b.Registered (.ran k a r) := by
  intro x hx
  obtain ⟨hnull, _, _, hran, hname⟩ := given?_eq_some_iff.1 hx
  obtain ⟨-, rfl, rfl⟩ := Visit.ran.inj hran
  rw [← hname, ← Option.ne_none_iff_isSome]
  intro hnone
  rw [h.isNull_of_unknown hnone] at hnull
  cases hnull

/-- **Only annotations that are registered give values**, at whatever depth. -/
theorem RunsAll.registered {r : Except CallbackFault Unit} (h : b.RunsAll t as p vs q r) :
    ∀ w ∈ vs, b.Registered w := by
  refine h.forall_mem ?_ ?_ ?_
  · intro depth a p vs q r _ hrun
    exact registered_of_runs hrun depth
  · intro depth word text p _ x hx
    cases hx
  · intro depth word before after answer _ x hx
    cases hx

theorem filterMap_given?_eq_nil_iff : vs.filterMap Visit.given? = [] ↔
    ∀ depth a v, .ran depth a (.ok v) ∈ vs → v.isNull = true := by
  rw [List.filterMap_eq_nil_iff]
  constructor
  · intro h k a v hmem
    by_contra hnull
    rw [Bool.not_eq_true] at hnull
    have hgiven : Visit.given? (.ran k a (.ok v)) = some (a.name, v) :=
      given?_eq_some_iff.2 ⟨hnull, k, a, rfl, rfl⟩
    rw [h _ hmem] at hgiven
    cases hgiven
  · intro h w hw
    rw [Option.eq_none_iff_forall_ne_some]
    intro x hx
    obtain ⟨hnull, k, a, rfl, -⟩ := given?_eq_some_iff.1 hx
    rw [h k a x.2 hw] at hnull
    cases hnull

/-! ## Filling in and reworking -/

theorem bind_notNull_eq_some_iff {o : Option Value} {v : Value} :
    o.bind notNull = some v ↔ o = some v ∧ v.isNull = false := by
  simp only [Option.bind_eq_some_iff, notNull_eq_some_iff]
  constructor
  · rintro ⟨x, rfl, rfl, hnull⟩
    exact ⟨rfl, hnull⟩
  · rintro ⟨rfl, hnull⟩
    exact ⟨v, rfl, rfl, hnull⟩

theorem autofillAll_noNull (h : b.autofillAll t ds p = (q, .ok u)) (hp : p.block.NoNull) : q.block.NoNull := by
  induction ds generalizing p with
  | nil => obtain ⟨rfl, -⟩ := Prod.mk.inj h; exact hp
  | cons x ds ih =>
    obtain ⟨p₁, h₁, ⟨hblock, -⟩ | ⟨-, f, o, -, -, hblock⟩⟩ := autofillAll_cons h
    · exact ih h₁ (hblock ▸ hp)
    · refine ih h₁ ?_
      rw [hblock]
      cases ho : o.bind notNull with
      | none => exact hp
      | some v => exact hp.insert (bind_notNull_eq_some_iff.1 ho).2

/-- **Nothing is filled in** when every callback that is asked about the empty block has nothing to say. -/
theorem autofillAll_isEmpty_iff (h : b.autofillAll t ds p = (q, .ok u)) (hp : p.block = {}) :
    q.block.isEmpty = true ↔ ∀ x ∈ ds, ∀ f v, x.2.autofill = some f →
      (f { name := x.1, place := b.placeOf t, parsed := {} }).result = .ok (some v) → v.isNull = true := by
  induction ds generalizing p with
  | nil =>
    obtain ⟨rfl, -⟩ := Prod.mk.inj h
    rw [hp]
    exact ⟨fun _ x hx => absurd hx List.not_mem_nil, fun _ => rfl⟩
  | cons x ds ih =>
    rw [List.forall_mem_cons]
    obtain ⟨p₁, h₁, ⟨hblock, hskip⟩ | ⟨-, f, o, hf, ho, hblock⟩⟩ := autofillAll_cons h
    · rw [ih h₁ (hblock.trans hp), iff_and_self]
      rintro - f v hf
      rcases hskip with hnone | hc
      · rw [hnone] at hf; cases hf
      · rw [hp] at hc; cases hc
    · rw [hp] at ho hblock
      cases hv : o.bind notNull with
      | none =>
        rw [hv] at hblock
        rw [ih h₁ hblock, iff_and_self]
        rintro - f' v hf' hres
        obtain rfl := Option.some.inj (hf.symm.trans hf')
        obtain rfl := Except.ok.inj (ho.symm.trans hres)
        by_contra hnull
        rw [bind_notNull_eq_some_iff.2 ⟨rfl, Bool.not_eq_true _ ▸ hnull⟩] at hv
        cases hv
      | some v =>
        -- what came first stays
        obtain ⟨rfl, hnull⟩ := bind_notNull_eq_some_iff.1 hv
        rw [hv] at hblock
        have hc : p₁.block.contains x.1 = true := by
          rw [hblock, Option.elim_some, Block.contains_insert_iff]
          exact .inl rfl
        have hq : q.block.isEmpty = false :=
          Block.isEmpty_of_contains (by rw [Block.contains_eq, autofillAll_present h₁ hc]; exact hc)
        rw [hq]
        constructor
        · intro hfalse; cases hfalse
        · rintro ⟨hx, -⟩
          rw [hx f v hf ho] at hnull
          cases hnull

theorem resolveAll_noNull {positions : List Position} (h : b.resolveAll t positions ds p = (q, .ok u))
    (hp : p.block.NoNull) : q.block.NoNull := by
  induction ds generalizing p with
  | nil => obtain ⟨rfl, -⟩ := Prod.mk.inj h; exact hp
  | cons x ds ih =>
    obtain ⟨p₁, h₁, hblock | ⟨-, v, hnull, hblock⟩⟩ := resolveAll_cons h
    · exact ih h₁ (hblock ▸ hp)
    · exact ih h₁ (hblock ▸ hp.insert hnull)

/-- A name that was filled in has an `autofill` callback. -/
theorem autofillAll_contains
    (h : b.autofillAll t (b.registry.withAutofill b.filetype).entries p = (q, .ok u)) (hn : q.block.contains n = true) :
    p.block.contains n = true ∨ ∃ d, b.registry.get? b.filetype n = some d ∧ d.autofill.isSome = true := by
  by_cases hmem : n ∈ (b.registry.withAutofill b.filetype).entries.map (·.1)
  · obtain ⟨⟨_, d⟩, hd, rfl⟩ := List.mem_map.1 hmem
    exact .inr ⟨d, Registry.mem_withAutofill_iff.1 hd⟩
  · rw [Block.contains_eq, autofillAll_other h hmem] at hn
    exact .inl hn

/-- A name whose value was reworked has a `resolve` callback. -/
theorem resolveAll_changed {positions : List Position}
    (h : b.resolveAll t positions (b.registry.withResolve b.filetype).entries p = (q, .ok u))
    (hn : q.block.get? n ≠ p.block.get? n) :
    ∃ d, b.registry.get? b.filetype n = some d ∧ d.resolve.isSome = true := by
  by_contra hno
  refine hn (resolveAll_other h fun hmem => hno ?_)
  obtain ⟨⟨_, d⟩, hd, rfl⟩ := List.mem_map.1 hmem
  exact ⟨d, Registry.mem_withResolve_iff.1 hd⟩

theorem autofillAll_eq_empty (h : b.autofillAll t ds p = (q, .ok u)) (hq : q.block.isEmpty = true) :
    p.block = {} := by
  rw [← Block.isEmpty_iff]
  by_contra hne
  rw [Bool.not_eq_true] at hne
  obtain ⟨n, hn⟩ := Block.exists_contains hne
  rw [Block.isEmpty_of_contains (n := n) (by rw [Block.contains_eq, autofillAll_present h hn]; exact hn)] at hq
  cases hq

/-! ## The whole block -/

/-- The phases of a block whose callbacks do not fail. -/
theorem build_eq_ok {es : List Event} {o : Option Block} (h : b.build t = (es, .ok o)) :
    ∃ parsed filled, b.parseAll t (b.tags t) {} = (parsed, .ok ⟨⟩) ∧
      b.autofillAll t (b.registry.withAutofill b.filetype).entries parsed = (filled, .ok ⟨⟩) ∧
      (filled.block.isEmpty = true ∧ o = none ∨
        filled.block.isEmpty = false ∧ ∃ resolved,
          b.resolveAll t ((b.tags t).map fun a => ⟨a.name, a.first, a.last⟩)
            (b.registry.withResolve b.filetype).entries filled = (resolved, .ok ⟨⟩) ∧ o = some resolved.block) := by
  rw [build_eq] at h
  rcases hparse : b.parseAll t (b.tags t) {} with ⟨parsed, _ | _⟩
  · rw [hparse] at h
    cases h
  rw [hparse] at h
  unfold complete at h
  dsimp only at h
  rcases hfill : b.autofillAll t (b.registry.withAutofill b.filetype).entries parsed with ⟨filled, _ | _⟩
  · rw [hfill] at h
    cases h
  rw [hfill] at h
  dsimp only at h
  refine ⟨parsed, filled, rfl, hfill, ?_⟩
  cases hempty : filled.block.isEmpty with
  | true =>
    rw [hempty, if_pos rfl] at h
    exact .inl ⟨rfl, (Except.ok.inj (Prod.mk.inj h).2).symm⟩
  | false =>
    rw [hempty, if_neg (by simp)] at h
    rcases hres : b.resolveAll t ((b.tags t).map fun a => ⟨a.name, a.first, a.last⟩)
      (b.registry.withResolve b.filetype).entries filled with ⟨resolved, _ | _⟩
    · rw [hres] at h
      cases h
    rw [hres] at h
    exact .inr ⟨rfl, resolved, hres, (Except.ok.inj (Prod.mk.inj h).2).symm⟩

/-- What the annotations of a comment leave: registered names, and no null. -/
theorem parseAll_contents {r : Except CallbackFault Unit} (h : b.parseAll t as {} = (p, r)) :
    p.block.NoNull ∧ ∀ n, p.block.contains n = true → (b.registry.get? b.filetype n).isSome = true := by
  obtain ⟨vs, hall⟩ := b.exists_runsAll t as {}
  rw [h] at hall
  rw [hall.block_eq]
  refine ⟨Block.noNull_empty.mergeAll fun x hx => ?_, fun n hn => ?_⟩
  · obtain ⟨w, -, hw⟩ := List.mem_filterMap.1 hx
    exact (given?_eq_some_iff.1 hw).1
  · rcases Block.contains_mergeAll_iff.1 hn with hn | hn
    · obtain ⟨x, hx, rfl⟩ := List.mem_map.1 hn
      obtain ⟨w, hmem, hw⟩ := List.mem_filterMap.1 hx
      exact hall.registered w hmem x hw
    · cases hn

theorem RunsAll.block_eq_empty_iff {r : Except CallbackFault Unit} (h : b.RunsAll t as {} vs q r) :
    q.block = {} ↔ ∀ depth a v, .ran depth a (.ok v) ∈ vs → v.isNull = true := by
  rw [← filterMap_given?_eq_nil_iff, h.block_eq]
  constructor
  · intro hempty
    by_contra hne
    obtain ⟨x, hx⟩ := List.exists_mem_of_ne_nil _ hne
    have hc := (Block.contains_mergeAll_iff (b := {})).2 (.inl (List.mem_map_of_mem hx))
    rw [hempty] at hc
    cases hc
  · intro hnil
    rw [hnil]
    rfl

/-- **What a block holds.** Whatever the callbacks are and add, a block has registered names only, each its own
canonical name, and no null. Filling in leaves the names alone that are there, and brings names with an `autofill`
callback; reworking leaves the names as they are, and changes values of names with a `resolve` callback. There is no
block exactly when all annotations that were run, at any depth, came to null, and the `autofill` callbacks, asked about
the empty block, gave nothing but null. -/
theorem build_contents (b : Builder) (t : Token) :
    (∀ es block, b.build t = (es, .ok (some block)) →
      (∀ n ∈ block.names, n ∈ b.registry.names b.filetype ∧ b.registry.canonical? b.filetype n = some n) ∧
      (∀ n v, block.get? n = some v → v.isNull = false) ∧
      ∃ parsed filled resolved,
        b.parseAll t (b.tags t) {} = (parsed, .ok ⟨⟩) ∧
        b.autofillAll t (b.registry.withAutofill b.filetype).entries parsed = (filled, .ok ⟨⟩) ∧
        b.resolveAll t ((b.tags t).map fun a => ⟨a.name, a.first, a.last⟩)
          (b.registry.withResolve b.filetype).entries filled = (resolved, .ok ⟨⟩) ∧
        resolved.block = block ∧
        (∀ n, parsed.block.contains n = true → filled.block.get? n = parsed.block.get? n) ∧
        (∀ n, filled.block.contains n = true → parsed.block.contains n = true ∨
          ∃ d, b.registry.get? b.filetype n = some d ∧ d.autofill.isSome = true) ∧
        (∀ n, block.contains n = filled.block.contains n) ∧
        ∀ n, block.get? n ≠ filled.block.get? n →
          ∃ d, b.registry.get? b.filetype n = some d ∧ d.resolve.isSome = true) ∧
    (∃ vs, b.Builds t vs (b.build t)) ∧
    ∀ vs, b.Builds t vs (b.build t) → ∀ es o, b.build t = (es, .ok o) →
      (o = none ↔ (∀ depth a v, .ran depth a (.ok v) ∈ vs → v.isNull = true) ∧
        ∀ n d f v, b.registry.get? b.filetype n = some d → d.autofill = some f →
          (f { name := n, place := b.placeOf t, parsed := {} }).result = .ok (some v) → v.isNull = true) := by
  refine ⟨fun es block h => ?_, b.exists_builds t, fun vs hvs es o h => ?_⟩
  · obtain ⟨parsed, filled, hparse, hfill, ⟨-, hnone⟩ | ⟨-, resolved, hres, hblock⟩⟩ := build_eq_ok h
    · cases hnone
    obtain rfl := Option.some.inj hblock
    obtain ⟨hnull, hnames⟩ := parseAll_contents hparse
    refine ⟨fun n hn => ?_, resolveAll_noNull hres (autofillAll_noNull hfill hnull), parsed, filled, resolved, hparse,
      hfill, hres, rfl, fun n => autofillAll_present hfill, fun n => autofillAll_contains hfill,
      resolveAll_contains hres, fun n => resolveAll_changed hres⟩
    have hc : filled.block.contains n = true := by
      rw [← resolveAll_contains hres]
      exact Table.mem_keys_iff.1 hn
    have hget : (b.registry.get? b.filetype n).isSome = true := by
      rcases autofillAll_contains hfill hc with hc | ⟨d, hd, -⟩
      · exact hnames n hc
      · rw [hd]; rfl
    exact ⟨Registry.mem_names_iff.2 hget, if_pos hget⟩
  · obtain ⟨parsed, filled, hparse, hfill, hcases⟩ := build_eq_ok h
    obtain ⟨p, r, hall, -⟩ := hvs
    obtain ⟨rfl, rfl⟩ := Prod.mk.inj (hall.parseAll_eq.symm.trans hparse)
    have hnone : o = none ↔ filled.block.isEmpty = true := by
      rcases hcases with ⟨hempty, ho⟩ | ⟨hempty, resolved, -, ho⟩
      · simp [hempty, ho]
      · simp [hempty, ho]
    rw [hnone, ← hall.block_eq_empty_iff]
    constructor
    · intro hempty
      have hp := autofillAll_eq_empty hfill hempty
      refine ⟨hp, fun n d f v hd hf => ?_⟩
      have hmem : (n, d) ∈ (b.registry.withAutofill b.filetype).entries :=
        Registry.mem_withAutofill_iff.2 ⟨hd, by rw [hf]; rfl⟩
      exact (autofillAll_isEmpty_iff hfill hp).1 hempty _ hmem f v hf
    · rintro ⟨hp, hauto⟩
      refine (autofillAll_isEmpty_iff hfill hp).2 fun x hx f v hf => ?_
      exact hauto x.1 x.2 f v (Registry.mem_withAutofill_iff.1 hx).1 hf

/-- A builder whose `title` adds a `note` by its alias and an annotation that nobody knows. A `note` is reworked, and
a `date` is filled in where there is a block. -/
def titling : Builder where
  registry := ⟨.ofList [(defaultFiletype, .ofList
    [("date", { parse := fun _ => .done .null,
                autofill := some fun c => ⟨[], .ok (some (if c.parsed.isEmpty then .null else .str "today"))⟩ }),
     ("note", { aliases := ["n"], resolve := some fun _ _ => ⟨[], .ok (some (.str "seen"))⟩ }),
     ("title", { parse := fun _ => .add "n" "text" fun _ => .add "nobody" "" fun _ => .done (.str "title") })])]⟩
  file := ⟨"a.js", "", { header := {}, body := { single := some "///" } }⟩

/-- All four ways into a block at work, and a comment that says nothing. -/
theorem build_contents_title :
    (∃ es block, titling.build ⟨.body, { contents := ["@title"] }, {}⟩ = (es, .ok (some block)) ∧
      block.names = ["date", "note", "title"] ∧ block.get? "note" = some (.str "seen") ∧
      "nobody" ∉ block.names ∧ ∀ n ∈ block.names, n ∈ titling.registry.names "js") ∧
    ∃ es vs, titling.build ⟨.body, { contents := ["@date"] }, {}⟩ = (es, .ok none) ∧
      titling.Builds ⟨.body, { contents := ["@date"] }, {}⟩ vs (es, .ok none) ∧
      ∀ depth a v, .ran depth a (.ok v) ∈ vs → v.isNull = true := by
  have hjs : titling.filetype = "js" := by decide +kernel
  constructor
  · obtain ⟨hsome, -⟩ := build_contents titling ⟨.body, { contents := ["@title"] }, {}⟩
    have heval : (titling.build ⟨.body, { contents := ["@title"] }, {}⟩).2.toOption.join.map
        (fun block => (block.names, block.get? "note")) = some (["date", "note", "title"], some (.str "seen")) := by
      rfl
    rcases hb : titling.build ⟨.body, { contents := ["@title"] }, {}⟩ with ⟨es, f | _ | block⟩
    · rw [hb] at heval; cases heval
    · rw [hb] at heval; cases heval
    · rw [hb] at heval
      obtain ⟨hnames, hnote⟩ := Prod.mk.inj (Option.some.inj heval)
      obtain ⟨hreg, -⟩ := hsome es block hb
      exact ⟨es, block, rfl, hnames, hnote, by rw [hnames]; decide, fun n hn => hjs ▸ (hreg n hn).1⟩
  · obtain ⟨-, ⟨vs, hvs⟩, hnone⟩ := build_contents titling ⟨.body, { contents := ["@date"] }, {}⟩
    have heval : (titling.build ⟨.body, { contents := ["@date"] }, {}⟩).2.toOption = some none := by rfl
    rcases hb : titling.build ⟨.body, { contents := ["@date"] }, {}⟩ with ⟨es, f | o⟩
    · rw [hb] at heval; cases heval
    · rw [hb] at heval
      obtain rfl : o = none := Option.some.inj heval
      exact ⟨es, vs, rfl, hb ▸ hvs, ((hnone vs hvs es none hb).1 rfl).1⟩

end Builder

end DocComments
