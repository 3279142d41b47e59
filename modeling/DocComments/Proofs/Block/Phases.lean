import DocComments.Block.Build
import DocComments.Proofs.Registry.Register

/-!
# The three phases of a block

A block is made by running the annotations of its comment, filling in what is missing, and reworking what is there.
The first part of each section says what a phase does to the block, whatever the callbacks are; the rest is about
registries whose callbacks never fail.

* `autofillAll_present`, `autofillAll_filled`: what is there stays, and what is missing is what its callback gives.
* `resolveAll_other`, `resolveAll_contains`: a value is reworked under its own name, and no name comes or goes.
* `build_phases`: **with callbacks that never fail, all three phases run to their end.**
* `forall₂_buildAll`: one block for each token, in order.
-/

namespace DocComments

namespace Block

variable {b : Block} {n m : String} {v : Value}

theorem get?_insert (b : Block) (n m : String) (v : Value) :
    (b.insert n v).get? m = if m = n then some v else b.get? m :=
  Table.get?_insert b.table n m v

theorem get?_insert_of_ne (h : m ≠ n) : (b.insert n v).get? m = b.get? m := by
  rw [get?_insert, if_neg h]

theorem get?_merge_of_ne (h : m ≠ n) : (b.merge n v).get? m = b.get? m := by
  unfold merge
  split <;> exact get?_insert_of_ne h

theorem contains_eq (b : Block) (n : String) : b.contains n = (b.get? n).isSome := rfl

theorem get?_of_not_contains (h : b.contains n = false) : b.get? n = none :=
  Option.isNone_iff_eq_none.1 (Option.isSome_eq_false_iff.1 h)

theorem isEmpty_of_contains (h : b.contains n = true) : b.isEmpty = false := by
  rw [contains_eq, Option.isSome_iff_exists] at h
  obtain ⟨v, hv⟩ := h
  have hmem : (n, v) ∈ b.table.entries := Table.get?_eq_some_iff.1 hv
  unfold isEmpty Table.isEmpty
  cases he : b.table.entries with
  | nil => rw [he] at hmem; cases hmem
  | cons x xs => rfl

end Block

/-- What a script comes to that neither fails nor adds annotations: its events and its value. -/
def Script.outcome? {α : Type} : Script α → Option (List Event × α)
  | .done a => some ([], a)
  | .fail _ => none
  | .emit e s => s.outcome?.map fun o => (e :: o.1, o.2)
  | .add _ _ _ => none

/-- A definition whose callbacks never fail, and that adds no annotations. -/
structure Definition.Plain (d : Definition) : Prop where
  parse : ∀ c, ∃ es v, (d.parse c).outcome? = some (es, v)
  autofill : ∀ f ∈ d.autofill, ∀ c, ∃ v, (f c).result = .ok v
  resolve : ∀ f ∈ d.resolve, ∀ v c, ∃ x, (f v c).result = .ok x

/-- All definitions of a registry are plain. -/
def Registry.Plain (r : Registry) : Prop :=
  ∀ f n d, r.lookup? f n = some d → d.Plain

theorem Registry.Plain.get? {r : Registry} (hr : r.Plain) {f n : String} {d : Definition} (h : r.get? f n = some d) :
    d.Plain := by
  rw [get?_eq_get?_list] at h
  obtain ⟨g, -, hg⟩ := exists_lookup?_of_list h
  exact hr g n d hg

/-- A registry says nothing under a name when its annotations of that name give no value. -/
def Registry.Silent (r : Registry) (f n : String) : Prop :=
  ∀ d, r.get? f n = some d → ∀ c es v, (d.parse c).outcome? = some (es, v) → v.isNull = true

namespace Progress

theorem merge_get?_of_ne {p : Progress} {n m : String} (h : m ≠ n) (v : Option Value) :
    (p.merge n v).block.get? m = p.block.get? m := by
  cases v with
  | none => rfl
  | some v => exact Block.get?_merge_of_ne h

end Progress

namespace Builder

variable {b : Builder} {t : Token} {n m : String} {d : Definition} {ds : List (String × Definition)}
  {p q : Progress} {u : Unit}

theorem tellAll_nil (p : Progress) : b.tellAll p [] = p := by
  simp [tellAll, Progress.emitAll]

theorem tellAll_cons (p : Progress) (e : Event) (es : List Event) :
    b.tellAll p (e :: es) = b.tellAll (b.tell p e) es := by
  simp only [tell, tellAll, Progress.emitAll, List.append_assoc, ← List.filter_append, List.singleton_append]

theorem exec_of_outcome? {s : Script Value} {es : List Event} {v : Value} (h : s.outcome? = some (es, v))
    (add : Adder) (p : Progress) : b.exec add s p = (b.tellAll p es, .ok v) := by
  induction s generalizing p es with
  | done x =>
    obtain ⟨rfl, rfl⟩ := Prod.mk.inj (Option.some.inj h)
    rw [exec, tellAll_nil]
  | fail f => cases h
  | emit e s ih =>
    obtain ⟨⟨es', v'⟩, hs, hes⟩ := Option.map_eq_some_iff.1 h
    obtain ⟨rfl, rfl⟩ := Prod.mk.inj hes
    rw [exec, ih hs, tellAll_cons]
  | add n text next => cases h

/-! ## Running the annotations -/

theorem parseWith_plain (hd : d.Plain) (t : Token) (add : Adder) (a : Tag) (default : Option Value) (p : Progress) :
    ∃ c es v, b.parseWith t add d a default p = (b.tellAll p es, .ok v) ∧ (d.parse c).outcome? = some (es, v) := by
  obtain ⟨es, v, h⟩ := hd.parse { tag := a, place := b.placeOf t, default := default }
  refine ⟨_, es, v, ?_, h⟩
  unfold parseWith
  rw [exec_of_outcome? h]

theorem eq_of_notNull {v x : Value} (h : notNull v = some x) : v = x ∧ v.isNull = false := by
  unfold notNull at h
  split at h
  · cases h
  · next hv => exact ⟨Option.some.inj h, by simpa using hv⟩

/-- An annotation leaves the block alone, and what it gives is a value of the definition that holds. -/
theorem runTag_plain (hr : b.registry.Plain) (t : Token) (add : Adder) (a : Tag) (p : Progress) :
    ∃ q v, b.runTag t add a p = (q, .ok v) ∧ q.block = p.block ∧
      ∀ x ∈ v, x.isNull = false ∧ ∃ d c es, b.registry.get? b.filetype a.name = some d ∧
        (d.parse c).outcome? = some (es, x) := by
  unfold runTag
  cases hg : b.registry.get? b.filetype a.name with
  | none =>
    refine ⟨_, _, rfl, rfl, ?_⟩
    intro x hx
    cases hx
  | some d =>
    -- the value of the definition that holds is what counts in either case
    have last : ∀ {c es v}, (d.parse c).outcome? = some (es, v) → ∀ x ∈ notNull v, x.isNull = false ∧
        ∃ d' c' es', some d = some d' ∧ (d'.parse c').outcome? = some (es', x) := by
      intro c es v ho x hx
      obtain ⟨rfl, hn⟩ := eq_of_notNull hx
      exact ⟨hn, d, c, es, rfl, ho⟩
    have hd := hr.get? hg
    dsimp only
    cases hown : b.registry.getOwn? b.filetype a.prepare.name with
    | none =>
      obtain ⟨c, es, v, hv, ho⟩ := parseWith_plain (b := b) hd t add a.prepare none p
      dsimp only
      rw [hv]
      exact ⟨_, _, rfl, rfl, last ho⟩
    | some own =>
      cases hbase : b.registry.getDefault? a.prepare.name with
      | none =>
        obtain ⟨c, es, v, hv, ho⟩ := parseWith_plain (b := b) hd t add a.prepare none p
        dsimp only
        rw [hv]
        exact ⟨_, _, rfl, rfl, last ho⟩
      | some base =>
        obtain ⟨c, es, v, hv, -⟩ :=
          parseWith_plain (b := b) (hr defaultFiletype _ base hbase) t add a.prepare none p
        obtain ⟨c', es', v', hv', ho⟩ := parseWith_plain (b := b) hd t add a.prepare (some v) (b.tellAll p es)
        dsimp only
        rw [hv]
        dsimp only
        rw [hv']
        exact ⟨_, _, rfl, rfl, last ho⟩

/-- **The annotations of a comment run to their end**, and nothing comes under a name that is silent. -/
theorem parseAll_plain (hr : b.registry.Plain) (t : Token) (as : List Tag) (p : Progress) :
    ∃ q, b.parseAll t as p = (q, .ok ⟨⟩) ∧
      ∀ n, b.registry.Silent b.filetype n → q.block.get? n = p.block.get? n := by
  induction as generalizing p with
  | nil => exact ⟨p, rfl, fun n _ => rfl⟩
  | cons a as ih =>
    obtain ⟨p₁, v, hrun, hblock, hv⟩ := runTag_plain hr t (b.addAt t b.maxDepth) a p
    obtain ⟨q, hq, hsame⟩ := ih (p₁.merge a.name v)
    refine ⟨q, ?_, ?_⟩
    · rw [parseAll, hrun]
      exact hq
    · intro n hn
      rw [hsame n hn, ← hblock]
      by_cases hna : n = a.name
      · -- a silent annotation gives no value to merge
        cases v with
        | none => rfl
        | some x =>
          obtain ⟨hnull, d, c, es, hd, ho⟩ := hv x rfl
          rw [hn d (hna ▸ hd) c es x ho] at hnull
          cases hnull
      · exact Progress.merge_get?_of_ne hna v

/-! ## Filling in what is missing -/

/-- What filling in does at one name: nothing when there is no callback or a value is there, and else it puts in what
the callback gives. -/
theorem autofillAll_cons (h : b.autofillAll t ((n, d) :: ds) p = (q, .ok u)) :
    ∃ p₁, b.autofillAll t ds p₁ = (q, .ok u) ∧
      (p₁.block = p.block ∧ (d.autofill = none ∨ p.block.contains n = true) ∨
        p.block.contains n = false ∧ ∃ f o, d.autofill = some f ∧
          (f { name := n, place := b.placeOf t, parsed := p.block }).result = .ok o ∧
          p₁.block = (o.bind notNull).elim p.block (p.block.insert n)) := by
  rw [autofillAll] at h
  cases hf : d.autofill with
  | none =>
    rw [hf] at h
    exact ⟨p, h, .inl ⟨rfl, .inl rfl⟩⟩
  | some f =>
    rw [hf] at h
    dsimp only at h
    cases hc : p.block.contains n with
    | true =>
      rw [hc, if_pos rfl] at h
      exact ⟨p, h, .inl ⟨rfl, .inr rfl⟩⟩
    | false =>
      rw [hc, if_neg (by simp)] at h
      cases ho : (f { name := n, place := b.placeOf t, parsed := p.block }).result with
      | error x => rw [ho] at h; cases h
      | ok o =>
        rw [ho] at h
        dsimp only at h
        cases hv : o.bind notNull with
        | none =>
          rw [hv] at h
          exact ⟨_, h, .inr ⟨rfl, f, o, rfl, ho, by rw [hv]; rfl⟩⟩
        | some v =>
          rw [hv] at h
          exact ⟨_, h, .inr ⟨rfl, f, o, rfl, ho, by rw [hv]; rfl⟩⟩

/-- Filling in at one name leaves the other names alone. -/
theorem autofillAll_step (h : b.autofillAll t ((n, d) :: ds) p = (q, .ok u)) :
    ∃ p₁, b.autofillAll t ds p₁ = (q, .ok u) ∧ (∀ m, m ≠ n → p₁.block.get? m = p.block.get? m) ∧
      (p.block.contains n = true → p₁.block.get? n = p.block.get? n) := by
  obtain ⟨p₁, h₁, ⟨hblock, -⟩ | ⟨hc, f, o, -, -, hblock⟩⟩ := autofillAll_cons h
  · exact ⟨p₁, h₁, fun m _ => by rw [hblock], fun _ => by rw [hblock]⟩
  · refine ⟨p₁, h₁, fun m hm => ?_, fun hn => ?_⟩
    · rw [hblock]
      cases o.bind notNull with
      | none => rfl
      | some v => exact Block.get?_insert_of_ne hm
    · rw [hc] at hn
      cases hn

/-- **What is there stays.** -/
theorem autofillAll_present (h : b.autofillAll t ds p = (q, .ok u)) (hm : p.block.contains m = true) :
    q.block.get? m = p.block.get? m := by
  induction ds generalizing p with
  | nil => obtain ⟨rfl, -⟩ := Prod.mk.inj h; rfl
  | cons x ds ih =>
    obtain ⟨p₁, h₁, hother, hsame⟩ := autofillAll_step h
    have hget : p₁.block.get? m = p.block.get? m := by
      by_cases hmx : m = x.1
      · subst hmx; exact hsame hm
      · exact hother m hmx
    rw [ih h₁ (by rw [Block.contains_eq, hget]; exact hm), hget]

theorem autofillAll_other (h : b.autofillAll t ds p = (q, .ok u)) (hm : m ∉ ds.map (·.1)) :
    q.block.get? m = p.block.get? m := by
  induction ds generalizing p with
  | nil => obtain ⟨rfl, -⟩ := Prod.mk.inj h; rfl
  | cons x ds ih =>
    obtain ⟨p₁, h₁, hother, -⟩ := autofillAll_step h
    rw [List.map_cons, List.mem_cons, not_or] at hm
    rw [ih h₁ hm.2, hother m hm.1]

/-- **What is missing is what its callback gives**, if that is not null. -/
theorem autofillAll_filled (h : b.autofillAll t ds p = (q, .ok u)) (hu : Entries.Unique ds) (hd : (n, d) ∈ ds)
    {f : AutofillCallback} (hf : d.autofill = some f) (hn : p.block.contains n = false) :
    ∃ parsed o, (f { name := n, place := b.placeOf t, parsed := parsed }).result = .ok o ∧
      q.block.get? n = o.bind notNull := by
  induction ds generalizing p with
  | nil => cases hd
  | cons x ds ih =>
    obtain ⟨hhead, htail⟩ := List.pairwise_cons.1 hu
    rcases List.mem_cons.1 hd with rfl | hd
    · have hlater : n ∉ ds.map (·.1) := by
        intro hmem
        obtain ⟨y, hy, hyn⟩ := List.mem_map.1 hmem
        exact hhead y hy hyn.symm
      obtain ⟨p₁, h₁, ⟨-, hnone | hc⟩ | ⟨-, f', o, hf', ho, hblock⟩⟩ := autofillAll_cons h
      · rw [hf] at hnone; cases hnone
      · rw [hn] at hc; cases hc
      · obtain rfl := Option.some.inj (hf.symm.trans hf')
        refine ⟨p.block, o, ho, ?_⟩
        rw [autofillAll_other h₁ hlater, hblock]
        cases o.bind notNull with
        | none => exact Block.get?_of_not_contains hn
        | some v => rw [Option.elim_some, Block.get?_insert, if_pos rfl]
    · obtain ⟨p₁, h₁, hother, -⟩ := autofillAll_step h
      have hne : n ≠ x.1 := fun he => hhead _ hd he.symm
      exact ih h₁ htail hd (by rw [Block.contains_eq, hother n hne]; exact hn)

theorem autofillAll_plain (t : Token) (hds : ∀ x ∈ ds, x.2.Plain) (p : Progress) :
    ∃ q, b.autofillAll t ds p = (q, .ok ⟨⟩) := by
  induction ds generalizing p with
  | nil => exact ⟨p, rfl⟩
  | cons x ds ih =>
    have htail : ∀ p, ∃ q, b.autofillAll t ds p = (q, .ok ⟨⟩) := ih fun y hy => hds y (List.mem_cons_of_mem x hy)
    rw [autofillAll]
    cases hf : x.2.autofill with
    | none => exact htail p
    | some f =>
      obtain ⟨v, hv⟩ := (hds x List.mem_cons_self).autofill f hf
        { name := x.1, place := b.placeOf t, parsed := p.block }
      dsimp only
      rw [hv]
      split
      · exact htail p
      · dsimp only
        split <;> exact htail _

/-! ## Reworking what is there -/

variable {positions : List Position}

/-- What reworking does at one name: it may put another value in the place of one. -/
theorem resolveAll_cons (h : b.resolveAll t positions ((n, d) :: ds) p = (q, .ok u)) :
    ∃ p₁, b.resolveAll t positions ds p₁ = (q, .ok u) ∧
      (p₁.block = p.block ∨
        p.block.contains n = true ∧ ∃ v, v.isNull = false ∧ p₁.block = p.block.insert n v) := by
  rw [resolveAll] at h
  split at h
  · next f v hf hv =>
    dsimp only at h
    split at h
    · cases h
    · split at h
      · next x hx =>
        obtain ⟨y, -, hy⟩ := Option.bind_eq_some_iff.1 hx
        obtain ⟨rfl, hnull⟩ := eq_of_notNull hy
        exact ⟨_, h, .inr ⟨by rw [Block.contains_eq, hv]; rfl, y, hnull, rfl⟩⟩
      · exact ⟨_, h, .inl rfl⟩
  · exact ⟨p, h, .inl rfl⟩

theorem resolveAll_other (h : b.resolveAll t positions ds p = (q, .ok u)) (hm : m ∉ ds.map (·.1)) :
    q.block.get? m = p.block.get? m := by
  induction ds generalizing p with
  | nil => obtain ⟨rfl, -⟩ := Prod.mk.inj h; rfl
  | cons x ds ih =>
    rw [List.map_cons, List.mem_cons, not_or] at hm
    obtain ⟨p₁, h₁, hblock | ⟨-, v, -, hblock⟩⟩ := resolveAll_cons h
    · rw [ih h₁ hm.2, hblock]
    · rw [ih h₁ hm.2, hblock, Block.get?_insert_of_ne hm.1]

/-- **No name comes or goes.** -/
theorem resolveAll_contains (h : b.resolveAll t positions ds p = (q, .ok u)) (m : String) :
    q.block.contains m = p.block.contains m := by
  induction ds generalizing p with
  | nil => obtain ⟨rfl, -⟩ := Prod.mk.inj h; rfl
  | cons x ds ih =>
    obtain ⟨p₁, h₁, hblock | ⟨hc, v, -, hblock⟩⟩ := resolveAll_cons h
    · rw [ih h₁, hblock]
    · rw [ih h₁, hblock, Block.contains_eq, Block.get?_insert]
      split
      · next hm => rw [hm, hc]; rfl
      · rfl

theorem resolveAll_plain (t : Token) (positions : List Position) (hds : ∀ x ∈ ds, x.2.Plain) (p : Progress) :
    ∃ q, b.resolveAll t positions ds p = (q, .ok ⟨⟩) := by
  induction ds generalizing p with
  | nil => exact ⟨p, rfl⟩
  | cons x ds ih =>
    have htail : ∀ p, ∃ q, b.resolveAll t positions ds p = (q, .ok ⟨⟩) :=
      ih fun y hy => hds y (List.mem_cons_of_mem x hy)
    rw [resolveAll]
    split
    · next f v hf hv =>
      obtain ⟨o, ho⟩ := (hds x List.mem_cons_self).resolve f hf v
        { name := x.1, aliases := x.2.aliases, place := b.placeOf t, parsed := p.block, tags := positions }
      dsimp only
      rw [ho]
      dsimp only
      split <;> exact htail _
    · exact htail p

/-! ## The whole block -/

theorem plain_of_mem_list {r : Registry} (hr : r.Plain) {f : String} {x : String × Definition}
    (hx : x ∈ (r.list f).entries) : x.2.Plain := by
  obtain ⟨g, -, hg⟩ := Registry.exists_lookup?_of_list (Table.get?_eq_some_iff.2 hx)
  exact hr g x.1 x.2 hg

/-- **All three phases run to their end**, and the block is what they leave, unless there is nothing to rework. -/
theorem build_phases (hr : b.registry.Plain) (t : Token) :
    ∃ p₁ p₂ p₃ positions, b.parseAll t (b.tags t) {} = (p₁, .ok ⟨⟩) ∧
      b.autofillAll t (b.registry.withAutofill b.filetype).entries p₁ = (p₂, .ok ⟨⟩) ∧
      b.resolveAll t positions (b.registry.withResolve b.filetype).entries p₂ = (p₃, .ok ⟨⟩) ∧
      b.build t = if p₂.block.isEmpty then (p₂.events, .ok none) else (p₃.events, .ok (some p₃.block)) := by
  obtain ⟨p₁, h₁, -⟩ := parseAll_plain hr t (b.tags t) {}
  have hauto : ∀ x ∈ (b.registry.withAutofill b.filetype).entries, x.2.Plain :=
    fun x hx => plain_of_mem_list hr (List.mem_of_mem_filter hx)
  have hres : ∀ x ∈ (b.registry.withResolve b.filetype).entries, x.2.Plain :=
    fun x hx => plain_of_mem_list hr (List.mem_of_mem_filter hx)
  obtain ⟨p₂, h₂⟩ := autofillAll_plain (b := b) t hauto p₁
  obtain ⟨p₃, h₃⟩ := resolveAll_plain (b := b) t ((b.tags t).map fun a => ⟨a.name, a.first, a.last⟩) hres p₂
  refine ⟨p₁, p₂, p₃, _, h₁, h₂, h₃, ?_⟩
  unfold build
  dsimp only
  rw [h₁]
  dsimp only
  rw [h₂]
  dsimp only
  rw [h₃]

/-- **One block for each token, in order**, when each token has one. -/
theorem forall₂_buildAll {R : Token → Block → Prop} {ts : List Token}
    (h : ∀ t ∈ ts, ∃ es block, b.build t = (es, .ok (some block)) ∧ R t block) :
    ∃ es blocks, b.buildAll ts = (es, .ok blocks) ∧ List.Forall₂ R ts blocks := by
  induction ts with
  | nil => exact ⟨[], [], rfl, .nil⟩
  | cons t ts ih =>
    obtain ⟨es, block, hb, hR⟩ := h t List.mem_cons_self
    obtain ⟨es', blocks, hbs, hRs⟩ := ih fun x hx => h x (List.mem_cons_of_mem t hx)
    refine ⟨es ++ es', block :: blocks, ?_, .cons hR hRs⟩
    rw [buildAll, hb]
    dsimp only
    rw [hbs]
    rfl

end Builder

end DocComments
