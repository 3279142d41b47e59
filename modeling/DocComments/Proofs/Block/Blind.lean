import DocComments.Proofs.Block.Plain

/-!
# Documentation that does not look at the code

Two runs over one comment, with different code below it. When no callback looks at the code, but for some names whose
values show it, nobody who leaves out these names can tell the two blocks apart.

* `Veiled`, `Block.Alike`, `Progress.Alike`: what cannot be told apart.
* `Definition.Blind`: callbacks that do not look at the code.
* `Builder.said_alike`, `Builder.parseAll_alike`, `Builder.autofillAll_alike`, `Builder.resolveAll_alike`: each phase
  takes runs that are alike to runs that are alike.
* `Builder.build_alike`: **the blocks and events of the two runs are alike.**
-/

namespace DocComments

/-- An event without the text of its snippet. -/
def Event.sketch (e : Event) : Event :=
  { e with diagnostic := { e.diagnostic with snippet := e.diagnostic.snippet.map fun _ => "" } }

theorem Event.map_sketch_filter (quiet : Bool) (es : List Event) :
    (es.filter (·.passes quiet)).map sketch = (es.map sketch).filter (·.passes quiet) := by
  rw [List.filter_map]
  rfl

def Place.withCode (p : Place) (code : Span) : Place := { p with code := code }

def Token.withCode (t : Token) (code : Span) : Token := { t with code := code }

/-- Two values of a name that look alike: both are null or none is, and they are the same unless the name is hidden. -/
structure Veiled (hidden : List String) (n : String) (v w : Value) : Prop where
  isNull : v.isNull = w.isNull
  eq : n ∉ hidden → v = w

namespace Veiled

variable {hidden : List String} {n : String} {v w : Option Value}

theorem refl (hidden : List String) (n : String) (v : Value) : Veiled hidden n v v :=
  ⟨rfl, fun _ => rfl⟩

theorem notNull {v w : Value} (h : Veiled hidden n v w) :
    Option.Rel (Veiled hidden n) (Builder.notNull v) (Builder.notNull w) := by
  unfold Builder.notNull
  rw [h.isNull]
  split
  · exact .none
  · exact .some h

-- values that may be missing: both are, or both are there and look alike

theorem option_refl (hidden : List String) (n : String) (v : Option Value) : Option.Rel (Veiled hidden n) v v := by
  cases v with
  | none => exact .none
  | some v => exact .some (refl hidden n v)

theorem isSome_eq (h : Option.Rel (Veiled hidden n) v w) : v.isSome = w.isSome := by
  cases h with
  | none => rfl
  | some => rfl

theorem option_eq (h : Option.Rel (Veiled hidden n) v w) (hn : n ∉ hidden) : v = w := by
  cases h with
  | none => rfl
  | some hv => rw [hv.eq hn]

theorem bind_notNull (h : Option.Rel (Veiled hidden n) v w) :
    Option.Rel (Veiled hidden n) (v.bind Builder.notNull) (w.bind Builder.notNull) := by
  cases h with
  | none => exact .none
  | some hv => exact hv.notNull

end Veiled

/-- Blocks with the same names, and alike under each of them. -/
def Block.Alike (hidden : List String) (x y : Block) : Prop :=
  ∀ n, Option.Rel (Veiled hidden n) (x.get? n) (y.get? n)

namespace Block.Alike

variable {hidden : List String} {x y : Block} {n : String} {v w : Value}

theorem refl (hidden : List String) (x : Block) : x.Alike hidden x :=
  fun n => Veiled.option_refl hidden n (x.get? n)

theorem contains (h : x.Alike hidden y) (n : String) : x.contains n = y.contains n :=
  Veiled.isSome_eq (h n)

theorem get? (h : x.Alike hidden y) (hn : n ∉ hidden) : x.get? n = y.get? n :=
  Veiled.option_eq (h n) hn

/-- Blocks that are alike have the same names, in the same order. -/
theorem names (h : x.Alike hidden y) : x.names = y.names := by
  have hordered : ∀ b : Block, b.names.Pairwise (· < ·) := fun b => List.pairwise_map.2 b.table.ordered
  have hnodup : ∀ b : Block, b.names.Nodup := fun b => List.pairwise_map.2 b.table.ordered.unique
  refine List.Perm.eq_of_pairwise ?_ (hordered x) (hordered y) ?_
  · intro a b _ _ hab hba
    exact absurd hba (String.lt_asymm hab)
  · rw [List.perm_ext_iff_of_nodup (hnodup x) (hnodup y)]
    intro n
    have hmem : ∀ b : Block, n ∈ b.names ↔ b.contains n = true := fun b => Table.mem_keys_iff
    rw [hmem, hmem, h.contains]

theorem isEmpty (h : x.Alike hidden y) : x.isEmpty = y.isEmpty := by
  cases hy : y.isEmpty with
  | true =>
    by_contra hx
    obtain ⟨n, hn⟩ := exists_contains (by simpa using hx)
    rw [h.contains] at hn
    rw [isEmpty_of_contains hn] at hy
    cases hy
  | false =>
    obtain ⟨n, hn⟩ := exists_contains hy
    rw [← h.contains] at hn
    exact isEmpty_of_contains hn

theorem insert (h : x.Alike hidden y) (hv : Veiled hidden n v w) : (x.insert n v).Alike hidden (y.insert n w) := by
  intro m
  rw [get?_insert, get?_insert]
  by_cases hm : m = n
  · subst hm
    rw [if_pos rfl, if_pos rfl]
    exact .some hv
  · rw [if_neg hm, if_neg hm]
    exact h m

/-- Values that are joined to what is alike. -/
theorem joinTo {old old' : Option Value} (hold : Option.Rel (Veiled hidden n) old old') (hv : Veiled hidden n v w) :
    Veiled hidden n (joinTo old v) (joinTo old' w) := by
  cases hold with
  | none => exact hv
  | some ho =>
    refine ⟨rfl, fun hn => ?_⟩
    rw [ho.eq hn, hv.eq hn]

theorem merge (h : x.Alike hidden y) (hv : Veiled hidden n v w) : (x.merge n v).Alike hidden (y.merge n w) := by
  rw [merge_eq, merge_eq]
  exact h.insert (joinTo (h n) hv)

end Block.Alike

/-- Two runs that are alike so far. -/
structure Progress.Alike (hidden : List String) (p q : Progress) : Prop where
  block : p.block.Alike hidden q.block
  events : p.events.map Event.sketch = q.events.map Event.sketch

namespace Progress.Alike

variable {hidden : List String} {p q : Progress} {n : String}

theorem tellAll (h : p.Alike hidden q) (b : Builder) {es es' : List Event}
    (hes : es.map Event.sketch = es'.map Event.sketch) : (b.tellAll p es).Alike hidden (b.tellAll q es') := by
  refine ⟨h.block, ?_⟩
  simp only [Builder.tellAll, emitAll, List.map_append, Event.map_sketch_filter, h.events, hes]

theorem merge (h : p.Alike hidden q) {v w : Option Value} (hv : Option.Rel (Veiled hidden n) v w) :
    (p.merge n v).Alike hidden (q.merge n w) := by
  cases hv with
  | none => exact h
  | some hv => exact ⟨h.block.merge hv, h.events⟩

end Progress.Alike

/-- Outcomes that are alike: neither fails, and their events and values are alike. -/
structure Outcome.Alike (hidden : List String) (n : String) (o o' : Outcome (Option Value)) : Prop where
  events : o.events.map Event.sketch = o'.events.map Event.sketch
  result : ∃ v w, o.result = .ok v ∧ o'.result = .ok w ∧ Option.Rel (Veiled hidden n) v w

/-- The callbacks of an annotation do not look at the code. Under a hidden name they may, as long as it does not show
in whether there is a value. -/
structure Definition.Blind (hidden : List String) (n : String) (d : Definition) : Prop where
  parse : ∀ (c : ParseContext) (code : Span) (default : Option Value), Option.Rel (Veiled hidden n) c.default default →
    ∃ es es' v w, (d.parse c).outcome? = some (es, v) ∧
      (d.parse { c with place := c.place.withCode code, default := default }).outcome? = some (es', w) ∧
      es.map Event.sketch = es'.map Event.sketch ∧ Veiled hidden n v w
  autofill : ∀ f ∈ d.autofill, ∀ (c : AutofillContext) (code : Span) (x : Block), c.parsed.Alike hidden x →
    Outcome.Alike hidden n (f c) (f { c with place := c.place.withCode code, parsed := x })
  resolve : ∀ f ∈ d.resolve, ∀ (c : ResolveContext) (code : Span) (x : Block) (v w : Value), Veiled hidden n v w →
    c.parsed.Alike hidden x →
    Outcome.Alike hidden n (f v c) (f w { c with place := c.place.withCode code, parsed := x })

/-- All definitions of a registry are blind. -/
def Registry.Blind (hidden : List String) (r : Registry) : Prop :=
  ∀ f n d, r.lookup? f n = some d → d.Blind hidden n

variable {hidden : List String}

theorem Definition.Blind.plain {n : String} {d : Definition} (h : d.Blind hidden n) : d.Plain := by
  refine ⟨?_, ?_, ?_⟩
  · intro c
    obtain ⟨es, -, v, -, hv, -⟩ := h.parse c c.place.code c.default (Veiled.option_refl hidden n c.default)
    exact ⟨es, v, hv⟩
  · intro f hf c
    obtain ⟨v, -, hv, -⟩ := (h.autofill f hf c c.place.code c.parsed (.refl hidden c.parsed)).result
    exact ⟨v, hv⟩
  · intro f hf v c
    obtain ⟨x, -, hx, -⟩ := (h.resolve f hf c c.place.code c.parsed v v (.refl hidden n v) (.refl hidden c.parsed)).result
    exact ⟨x, hx⟩

theorem Registry.Blind.plain {r : Registry} (hr : r.Blind hidden) : r.Plain :=
  fun f n d hd => (hr f n d hd).plain

theorem Registry.Blind.get? {r : Registry} (hr : r.Blind hidden) {f n : String} {d : Definition}
    (h : r.get? f n = some d) : d.Blind hidden n := by
  rw [get?_eq_get?_list] at h
  obtain ⟨g, -, hg⟩ := exists_lookup?_of_list h
  exact hr g n d hg

namespace Builder

variable {b : Builder} {t : Token} {ds : List (String × Definition)} {p q : Progress}

/-- **An annotation says the same in both runs**, up to what is hidden. -/
theorem said_alike (hr : b.registry.Blind hidden) (t : Token) (code : Span) (a : Tag) :
    (b.said t a).1.map Event.sketch = (b.said (t.withCode code) a).1.map Event.sketch ∧
      Veiled hidden a.name (b.said t a).2 (b.said (t.withCode code) a).2 := by
  have h := outcome?_tagScript hr.plain t a
  have h' := outcome?_tagScript hr.plain (t.withCode code) a
  cases hd : b.registry.get? b.filetype a.name with
  | none =>
    unfold tagScript at h h'
    rw [hd] at h h'
    rw [← Option.some.inj h, ← Option.some.inj h']
    exact ⟨rfl, .refl hidden _ _⟩
  | some d =>
    by_cases hone : b.registry.getOwn? b.filetype a.name = none ∨ b.registry.getDefault? a.name = none
    · rw [(runTag_single hd hone (b.addAt t 0) {}).1] at h
      rw [(runTag_single hd hone (b.addAt t 0) {}).1] at h'
      obtain ⟨es, es', v, w, hv, hw, hevents, hvw⟩ :=
        (hr.get? hd).parse ⟨a.prepare, b.placeOf t, none⟩ code none .none
      rw [← Option.some.inj (hv.symm.trans h), ← Option.some.inj (hw.symm.trans h')]
      exact ⟨hevents, hvw⟩
    · -- what the first callback gave goes to the second, and is alike
      obtain ⟨hown, hbase⟩ := not_or.1 hone
      obtain ⟨own, hown⟩ := Option.ne_none_iff_exists'.1 hown
      obtain ⟨base, hbase⟩ := Option.ne_none_iff_exists'.1 hbase
      obtain ⟨es, es', v, w, hv, hw, hevents, hvw⟩ :=
        (hr defaultFiletype a.name base hbase).parse ⟨a.prepare, b.placeOf t, none⟩ code none .none
      obtain ⟨fs, fs', x, y, hx, hy, hevents', hxy⟩ :=
        (hr.get? hd).parse ⟨a.prepare, b.placeOf t, some v⟩ code (some w) (.some hvw)
      unfold tagScript at h h'
      rw [hd, hown, hbase] at h h'
      dsimp only at h h'
      rw [Script.outcome?_bind hv, hx] at h
      have hsecond : (base.parse ⟨a.prepare, b.placeOf (t.withCode code), none⟩).outcome? = some (es', w) := hw
      have hthird : (d.parse ⟨a.prepare, b.placeOf (t.withCode code), some w⟩).outcome? = some (fs', y) := hy
      rw [Script.outcome?_bind hsecond, hthird] at h'
      rw [← Option.some.inj h, ← Option.some.inj h', List.map_append, List.map_append, hevents, hevents']
      exact ⟨rfl, hxy⟩

/-- The annotations of a comment, in both runs. -/
theorem parseAll_alike (hr : b.registry.Blind hidden) (t : Token) (code : Span) (as : List Tag)
    (h : p.Alike hidden q) :
    ∃ p' q', b.parseAll t as p = (p', .ok ⟨⟩) ∧ b.parseAll (t.withCode code) as q = (q', .ok ⟨⟩) ∧
      p'.Alike hidden q' := by
  induction as generalizing p q with
  | nil => exact ⟨p, q, rfl, rfl, h⟩
  | cons a as ih =>
    obtain ⟨hevents, hvalue⟩ := said_alike hr t code a
    obtain ⟨p', q', hp', hq', halike⟩ := ih ((h.tellAll b hevents).merge (n := a.name) hvalue.notNull)
    refine ⟨p', q', ?_, ?_, halike⟩
    · unfold parseAll
      rw [runTag_said hr.plain]
      exact hp'
    · unfold parseAll
      rw [runTag_said hr.plain]
      exact hq'

/-- Filling in, in both runs. -/
theorem autofillAll_alike (t : Token) (code : Span) (hds : ∀ x ∈ ds, x.2.Blind hidden x.1) (h : p.Alike hidden q) :
    ∃ p' q', b.autofillAll t ds p = (p', .ok ⟨⟩) ∧ b.autofillAll (t.withCode code) ds q = (q', .ok ⟨⟩) ∧
      p'.Alike hidden q' := by
  induction ds generalizing p q with
  | nil => exact ⟨p, q, rfl, rfl, h⟩
  | cons x ds ih =>
    have htail : ∀ y ∈ ds, y.2.Blind hidden y.1 := fun y hy => hds y (List.mem_cons_of_mem x hy)
    unfold autofillAll
    cases hf : x.2.autofill with
    | none => exact ih htail h
    | some f =>
      dsimp only
      rw [h.block.contains x.1]
      split
      · exact ih htail h
      · obtain ⟨hevents, v, w, hv, hw, hvw⟩ := (hds x List.mem_cons_self).autofill f hf
          ⟨x.1, b.placeOf t, p.block⟩ code q.block h.block
        have htold := h.tellAll b hevents
        have hplace : (f ⟨x.1, b.placeOf (t.withCode code), q.block⟩).result = .ok w := hw
        rw [hv, hplace]
        dsimp only
        have hgiven := Veiled.bind_notNull hvw
        generalize v.bind notNull = v', w.bind notNull = w' at hgiven
        cases hgiven with
        | none => exact ih htail htold
        | some hvalue => exact ih htail ⟨htold.block.insert hvalue, htold.events⟩

/-- Reworking, in both runs. -/
theorem resolveAll_alike (t : Token) (code : Span) (positions : List Position)
    (hds : ∀ x ∈ ds, x.2.Blind hidden x.1) (h : p.Alike hidden q) :
    ∃ p' q', b.resolveAll t positions ds p = (p', .ok ⟨⟩) ∧
      b.resolveAll (t.withCode code) positions ds q = (q', .ok ⟨⟩) ∧ p'.Alike hidden q' := by
  induction ds generalizing p q with
  | nil => exact ⟨p, q, rfl, rfl, h⟩
  | cons x ds ih =>
    have htail : ∀ y ∈ ds, y.2.Blind hidden y.1 := fun y hy => hds y (List.mem_cons_of_mem x hy)
    unfold resolveAll
    cases hf : x.2.resolve with
    | none => exact ih htail h
    | some f =>
      have hvalue := h.block x.1
      generalize hp : p.block.get? x.1 = v, hq : q.block.get? x.1 = w at hvalue
      cases hvalue with
      | none => exact ih htail h
      | @some v w hvw =>
        dsimp only
        obtain ⟨hevents, y, z, hy, hz, hyz⟩ := (hds x List.mem_cons_self).resolve f hf
          ⟨x.1, x.2.aliases, b.placeOf t, p.block, positions⟩ code q.block v w hvw h.block
        have htold := h.tellAll b hevents
        have hplace : (f w ⟨x.1, x.2.aliases, b.placeOf (t.withCode code), q.block, positions⟩).result = .ok z := hz
        rw [hy, hplace]
        dsimp only
        have hgiven := Veiled.bind_notNull hyz
        generalize y.bind notNull = y', z.bind notNull = z' at hgiven
        cases hgiven with
        | none => exact ih htail htold
        | some hnew => exact ih htail ⟨htold.block.insert hnew, htold.events⟩

/-- **The blocks and events of the two runs are alike.** -/
theorem build_alike (hr : b.registry.Blind hidden) (t : Token) (code : Span) :
    ∃ es es' x y, b.build t = (es, .ok x) ∧ b.build (t.withCode code) = (es', .ok y) ∧
      es.map Event.sketch = es'.map Event.sketch ∧ Option.Rel (Block.Alike hidden) x y := by
  have hlist : ∀ x ∈ (b.registry.list b.filetype).entries, x.2.Blind hidden x.1 := by
    intro x hx
    apply hr.get? (f := b.filetype)
    rw [Registry.get?_eq_get?_list]
    exact Table.get?_eq_some_iff.2 hx
  have hstart : Progress.Alike hidden {} {} := ⟨.refl hidden {}, rfl⟩
  obtain ⟨p₁, q₁, hp₁, hq₁, h₁⟩ := parseAll_alike hr t code (b.tags t) hstart
  have hauto : ∀ x ∈ (b.registry.withAutofill b.filetype).entries, x.2.Blind hidden x.1 :=
    fun x hx => hlist x (List.mem_of_mem_filter hx)
  have hres : ∀ x ∈ (b.registry.withResolve b.filetype).entries, x.2.Blind hidden x.1 :=
    fun x hx => hlist x (List.mem_of_mem_filter hx)
  obtain ⟨p₂, q₂, hp₂, hq₂, h₂⟩ := autofillAll_alike (b := b) t code hauto h₁
  obtain ⟨p₃, q₃, hp₃, hq₃, h₃⟩ :=
    resolveAll_alike (b := b) t code ((b.tags t).map fun a => ⟨a.name, a.first, a.last⟩) hres h₂
  have htags : b.tags (t.withCode code) = b.tags t := rfl
  rw [build_eq, build_eq, htags, hp₁, hq₁]
  unfold complete
  dsimp only
  rw [hp₂, hq₂]
  dsimp only
  rw [htags, hp₃, hq₃, h₂.block.isEmpty]
  split
  · exact ⟨_, _, _, _, rfl, rfl, h₂.events, .none⟩
  · exact ⟨_, _, _, _, rfl, rfl, h₃.events, .some h₃.block⟩

end Builder

end DocComments
