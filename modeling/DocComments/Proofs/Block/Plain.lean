import DocComments.Proofs.Block.Contents

/-!
# What a plain registry makes of a comment

Where no callback fails or adds annotations, an annotation says one thing, whatever came before it. So the values of
one name in a block depend on the annotations of that name alone.

* `Builder.said`: the events and the value of an annotation.
* `Builder.parseAll_said`: what the annotations of a comment come to.
* `Builder.resolveAll_reworked`: what is reworked is what its callback makes of it.
* `Builder.build_get?_joined`, `Builder.build_get?_reworked`: a value of the block, from the values of its name.
-/

namespace DocComments

theorem Script.outcome?_bind {α β : Type} {s : Script α} {es : List Event} {a : α} (h : s.outcome? = some (es, a))
    (k : α → Script β) : (s.bind k).outcome? = (k a).outcome?.map fun o => (es ++ o.1, o.2) := by
  induction s generalizing es with
  | done x =>
    obtain ⟨rfl, rfl⟩ := Prod.mk.inj (Option.some.inj h)
    exact (congrFun Option.map_id _).symm
  | fail f => cases h
  | emit e s ih =>
    obtain ⟨⟨es', a'⟩, hs, hes⟩ := Option.map_eq_some_iff.1 h
    obtain ⟨rfl, rfl⟩ := Prod.mk.inj hes
    rw [Script.bind, outcome?, ih hs, Option.map_map]
    rfl
  | add word text next => cases h

namespace Builder

variable {b : Builder} {t : Token} {n : String} {d : Definition} {ds : List (String × Definition)} {p q : Progress}
  {u : Unit}

/-- The events and the value of an annotation. -/
def said (b : Builder) (t : Token) (a : Tag) : List Event × Value :=
  (b.tagScript t a).outcome?.getD ([], .null)

/-- The annotations of a comment with one name, in order. -/
def occurrences (b : Builder) (t : Token) (n : String) : List Tag :=
  (b.tags t).filter (·.name = n)

/-- The values that a comment has under a name, in order. -/
def valuesOf (b : Builder) (t : Token) (n : String) : List Value :=
  (b.occurrences t n).filterMap fun a => notNull (b.said t a).2

theorem outcome?_tagScript (hr : b.registry.Plain) (t : Token) (a : Tag) :
    (b.tagScript t a).outcome? = some (b.said t a) := by
  suffices h : ((b.tagScript t a).outcome?).isSome = true by
    obtain ⟨o, ho⟩ := Option.isSome_iff_exists.1 h
    rw [said, ho, Option.getD_some]
  unfold tagScript
  split
  · rfl
  · next d hd =>
    dsimp only
    split
    · next own base hown hbase =>
      obtain ⟨es, v, hv⟩ := (hr defaultFiletype _ base hbase).parse { tag := a.prepare, place := b.placeOf t }
      obtain ⟨es', v', hv'⟩ :=
        (hr.get? hd).parse { tag := a.prepare, place := b.placeOf t, default := some v }
      rw [Script.outcome?_bind hv, hv']
      rfl
    · obtain ⟨es, v, hv⟩ := (hr.get? hd).parse { tag := a.prepare, place := b.placeOf t }
      rw [hv]
      rfl

/-- **An annotation says one thing**, whatever came before it. -/
theorem runTag_said (hr : b.registry.Plain) (t : Token) (add : Adder) (a : Tag) (p : Progress) :
    b.runTag t add a p = (b.tellAll p (b.said t a).1, .ok (notNull (b.said t a).2)) := by
  rw [runTag_eq, exec_of_outcome? (outcome?_tagScript hr t a)]
  rfl

/-- What the annotations of a comment come to. -/
theorem parseAll_said (hr : b.registry.Plain) (t : Token) (as : List Tag) (p : Progress) :
    ∃ q, b.parseAll t as p = (q, .ok ⟨⟩) ∧
      q.block = p.block.mergeAll (as.filterMap fun a => (notNull (b.said t a).2).map (a.name, ·)) := by
  induction as generalizing p with
  | nil => exact ⟨p, rfl, rfl⟩
  | cons a as ih =>
    obtain ⟨q, hq, hblock⟩ := ih ((b.tellAll p (b.said t a).1).merge a.name (notNull (b.said t a).2))
    refine ⟨q, ?_, ?_⟩
    · unfold parseAll
      rw [runTag_said hr]
      exact hq
    · rw [hblock, List.filterMap_cons]
      cases notNull (b.said t a).2 with
      | none => rfl
      | some v => rfl

theorem filter_given (t : Token) (n : String) (as : List Tag) :
    Block.valuesUnder n (as.filterMap fun a => (notNull (b.said t a).2).map (a.name, ·)) =
      (as.filter (·.name = n)).filterMap fun a => notNull (b.said t a).2 := by
  unfold Block.valuesUnder
  induction as with
  | nil => rfl
  | cons a as ih =>
    by_cases ha : a.name = n
    · rw [List.filter_cons_of_pos (by simpa using ha), List.filterMap_cons, List.filterMap_cons]
      cases notNull (b.said t a).2 with
      | none => exact ih
      | some v =>
        dsimp only [Option.map_some]
        rw [List.filter_cons_of_pos (by simpa using ha), List.map_cons, ih]
    · rw [List.filter_cons_of_neg (by simpa using ha), List.filterMap_cons]
      cases notNull (b.said t a).2 with
      | none => exact ih
      | some v =>
        dsimp only [Option.map_some]
        rw [List.filter_cons_of_neg (by simpa using ha), ih]

/-- Behind the annotations of a comment, a name has the values that they said. -/
theorem parseAll_get? (hr : b.registry.Plain) {as : List Tag} (h : b.parseAll t as {} = (q, .ok u)) (n : String) :
    q.block.get? n = Block.joined ((as.filter (·.name = n)).filterMap fun a => notNull (b.said t a).2) := by
  obtain ⟨q', hq', hblock⟩ := parseAll_said hr t as {}
  obtain ⟨rfl, -⟩ := Prod.mk.inj (h.symm.trans hq')
  rw [hblock, Block.get?_mergeAll, filter_given]
  rfl

variable {positions : List Position}

/-- **What is reworked is what its callback makes of it**, and stays as it is when that is null. -/
theorem resolveAll_reworked (h : b.resolveAll t positions ds p = (q, .ok u)) (hu : Entries.Unique ds)
    (hd : (n, d) ∈ ds) {f : ResolveCallback} (hf : d.resolve = some f) {v : Value} (hv : p.block.get? n = some v) :
    ∃ c o, (f v c).result = .ok o ∧ q.block.get? n = some ((o.bind notNull).getD v) := by
  induction ds generalizing p with
  | nil => cases hd
  | cons x ds ih =>
    obtain ⟨hhead, htail⟩ := List.pairwise_cons.1 hu
    rcases List.mem_cons.1 hd with rfl | hd
    · have hlater : n ∉ ds.map (·.1) := by
        intro hmem
        obtain ⟨y, hy, hyn⟩ := List.mem_map.1 hmem
        exact hhead y hy hyn.symm
      rw [resolveAll, hf, hv] at h
      dsimp only at h
      cases ho : (f v ⟨n, d.aliases, b.placeOf t, p.block, positions⟩).result with
      | error x =>
        rw [ho] at h
        cases h
      | ok o =>
        rw [ho] at h
        dsimp only at h
        refine ⟨_, o, ho, ?_⟩
        cases hw : o.bind notNull with
        | none =>
          rw [hw] at h
          rw [resolveAll_other h hlater]
          exact hv
        | some w =>
          rw [hw] at h
          rw [resolveAll_other h hlater]
          exact (Block.get?_insert _ n n w).trans (if_pos rfl)
    · have hne : n ≠ x.1 := fun he => hhead _ hd he.symm
      obtain ⟨p₁, h₁, hblock | ⟨-, w, -, hblock⟩⟩ := resolveAll_cons h
      · exact ih h₁ htail hd (hblock ▸ hv)
      · refine ih h₁ htail hd ?_
        rw [hblock, Block.get?_insert_of_ne hne]
        exact hv

/-- Filling in changes nothing under a name that has a value, or no `autofill` callback. -/
theorem filled_get?_joined (hr : b.registry.Plain) (hparse : b.parseAll t (b.tags t) {} = (p, .ok u))
    (hauto : b.autofillAll t (b.registry.withAutofill b.filetype).entries p = (q, .ok u))
    (hfill : b.valuesOf t n ≠ [] ∨ ∀ d, b.registry.get? b.filetype n = some d → d.autofill = none) :
    q.block.get? n = Block.joined (b.valuesOf t n) := by
  have hparsed : p.block.get? n = Block.joined (b.valuesOf t n) := parseAll_get? hr hparse n
  rw [← hparsed]
  rcases hfill with hsome | hnone
  · apply autofillAll_present hauto
    rw [Block.contains_eq, hparsed, Option.isSome_iff_ne_none, Ne, Block.joined_eq_none_iff]
    exact hsome
  · apply autofillAll_other hauto
    intro hmem
    obtain ⟨⟨_, d⟩, hd, rfl⟩ := List.mem_map.1 hmem
    obtain ⟨hget, hisSome⟩ := Registry.mem_withAutofill_iff.1 hd
    rw [hnone d hget] at hisSome
    cases hisSome

/-- **A value that is not reworked** is what the annotations of its name said, joined. -/
theorem build_get?_joined (hr : b.registry.Plain) {es : List Event} {block : Block}
    (h : b.build t = (es, .ok (some block)))
    (hfill : b.valuesOf t n ≠ [] ∨ ∀ d, b.registry.get? b.filetype n = some d → d.autofill = none)
    (hres : ∀ d, b.registry.get? b.filetype n = some d → d.resolve = none) :
    block.get? n = Block.joined (b.valuesOf t n) := by
  obtain ⟨parsed, filled, hparse, hauto, ⟨-, hnone⟩ | ⟨-, resolved, hresolve, hblock⟩⟩ := build_eq_ok h
  · cases hnone
  obtain rfl := Option.some.inj hblock
  rw [← filled_get?_joined hr hparse hauto hfill]
  apply resolveAll_other hresolve
  intro hmem
  obtain ⟨⟨_, d⟩, hd, rfl⟩ := List.mem_map.1 hmem
  obtain ⟨hget, hisSome⟩ := Registry.mem_withResolve_iff.1 hd
  rw [hres d hget] at hisSome
  cases hisSome

/-- **A value that is reworked** is what its callback makes of what the annotations of its name said, joined. -/
theorem build_get?_reworked (hr : b.registry.Plain) {es : List Event} {block : Block}
    (h : b.build t = (es, .ok (some block))) (hd : b.registry.get? b.filetype n = some d) (hfill : d.autofill = none)
    {f : ResolveCallback} (hf : d.resolve = some f) :
    (b.valuesOf t n = [] ∧ block.get? n = none) ∨
      ∃ v c o, Block.joined (b.valuesOf t n) = some v ∧ (f v c).result = .ok o ∧
        block.get? n = some ((o.bind notNull).getD v) := by
  obtain ⟨parsed, filled, hparse, hauto, ⟨-, hnone⟩ | ⟨-, resolved, hresolve, hblock⟩⟩ := build_eq_ok h
  · cases hnone
  obtain rfl := Option.some.inj hblock
  have hfilled : filled.block.get? n = Block.joined (b.valuesOf t n) := by
    apply filled_get?_joined hr hparse hauto
    right
    intro e he
    obtain rfl := Option.some.inj (hd.symm.trans he)
    exact hfill
  cases hv : Block.joined (b.valuesOf t n) with
  | none =>
    left
    refine ⟨Block.joined_eq_none_iff.1 hv, Block.get?_of_not_contains ?_⟩
    rw [resolveAll_contains hresolve, Block.contains_eq, hfilled, hv]
    rfl
  | some v =>
    right
    have hmem : (n, d) ∈ (b.registry.withResolve b.filetype).entries :=
      Registry.mem_withResolve_iff.2 ⟨hd, by rw [hf]; rfl⟩
    obtain ⟨c, o, ho, hget⟩ :=
      resolveAll_reworked hresolve (Table.ordered _).unique hmem hf (hfilled.trans hv)
    exact ⟨v, c, o, rfl, ho, hget⟩

end Builder

end DocComments
