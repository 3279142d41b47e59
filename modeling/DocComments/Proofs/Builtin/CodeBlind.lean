import DocComments.Proofs.Block.Blind
import DocComments.Proofs.Builtin.Blocks

/-!
# Built-in documentation does not depend on the code

Of the built-in annotations only `blockinfo` and `raw-code` show the code below their comment. All others read their
own lines, the file, and other values of the block.

* `ParseContext.sketch_warning`: a warning shows the code in its snippet only.
* `Builtin.linkStates_congr`: of a block, states look at the markups alone.
* `Builtin.blind_definitions`: **no other built-in callback looks at the code.**
* `Builder.build_code_blind`: two blocks of one comment, with different code.
-/

namespace DocComments

/-- Whether a warning has a snippet does not depend on the code. -/
theorem ParseContext.map_snippet? (c : ParseContext) (code : Span) (default : Option Value) (expected : List String) :
    (snippet? { c with place := c.place.withCode code, default := default } expected).map (fun _ => "") =
      (c.snippet? expected).map fun _ => "" := by
  unfold snippet?
  dsimp only
  cases c.tag.first with
  | none => rfl
  | some first =>
    cases c.tag.last with
    | none => rfl
    -- not by `rfl`, which would render both snippets
    | some last => rw [Option.map_some, Option.map_some]

/-- A warning shows the code in its snippet only. -/
theorem ParseContext.sketch_warning (c : ParseContext) (code : Span) (default : Option Value) (message : String)
    (expected : List String) :
    (warning { c with place := c.place.withCode code, default := default } message expected).sketch =
      (c.warning message expected).sketch := by
  unfold warning Event.sketch
  dsimp only
  rw [c.map_snippet? code default expected]
  rfl

theorem Outcome.Alike.refl {hidden : List String} {n : String} {o : Outcome (Option Value)}
    (h : ∃ v, o.result = .ok v) : Outcome.Alike hidden n o o := by
  obtain ⟨v, hv⟩ := h
  exact ⟨rfl, v, v, hv, hv, Veiled.option_refl hidden n v⟩

namespace Builtin

/-- The names whose values show the code. -/
def codeNames : List String := ["blockinfo", "raw-code"]

variable {n : String} {d : Definition}

/-- A definition that only turns its annotation into a value, whatever the code is. -/
theorem blind_of_done (hp : ∀ c, ∃ v, d.parse c = .done v)
    (hcode : ∀ (c : ParseContext) code default,
      d.parse { c with place := c.place.withCode code, default := default } = d.parse c)
    (ha : d.autofill = none) (hr : d.resolve = none) : d.Blind codeNames n := by
  refine ⟨?_, ?_, ?_⟩
  · intro c code default _
    obtain ⟨v, hv⟩ := hp c
    rw [hcode, hv]
    exact ⟨[], [], v, v, rfl, rfl, rfl, .refl codeNames n v⟩
  · intro f hf
    rw [ha] at hf
    cases hf
  · intro f hf
    rw [hr] at hf
    cases hf

theorem blind_braced (name : String) : Definition.Blind codeNames n { parse := braced name } := by
  refine ⟨?_, ?_, ?_⟩
  · intro c code default _
    dsimp only
    unfold braced
    dsimp only
    cases (HeadLine.read .typed c.tag.line).types with
    | some part => exact ⟨_, _, _, _, rfl, rfl, rfl, .refl codeNames n _⟩
    | none =>
      refine ⟨_, _, _, _, rfl, rfl, ?_, .refl codeNames n _⟩
      exact congrArg (fun e => [e]) (c.sketch_warning code default _ _).symm
  · intro f hf
    cases hf
  · intro f hf
    cases hf

theorem blind_access : access.Blind codeNames n := by
  refine ⟨fun c code default _ => ⟨_, _, _, _, rfl, rfl, rfl, .refl codeNames n _⟩, ?_, ?_⟩
  · intro f hf c code x _
    obtain rfl := Option.some.inj hf
    exact .refl ⟨_, rfl⟩
  · intro f hf
    cases hf

theorem blind_blockinfo : blockinfo.Blind codeNames "blockinfo" := by
  have hhidden : ¬ "blockinfo" ∉ codeNames := by simp [codeNames]
  refine ⟨?_, ?_, ?_⟩
  · intro c code default _
    refine ⟨_, _, _, _, rfl, rfl, ?_, .refl codeNames "blockinfo" _⟩
    exact congrArg (fun e => [e]) (c.sketch_warning code default _ _).symm
  · intro f hf c code x _
    obtain rfl := Option.some.inj hf
    exact ⟨rfl, _, _, rfl, rfl, .some ⟨rfl, fun h => absurd h hhidden⟩⟩
  · intro f hf
    cases hf

theorem blind_rawCode : rawCode.Blind codeNames "raw-code" := by
  have hhidden : ¬ "raw-code" ∉ codeNames := by simp [codeNames]
  refine ⟨?_, ?_, ?_⟩
  · intro c code default _
    exact ⟨_, _, _, _, rfl, rfl, rfl, rfl, fun h => absurd h hhidden⟩
  · intro f hf
    cases hf
  · intro f hf
    cases hf

theorem blind_markup : markup.Blind codeNames "markup" := by
  refine ⟨fun c code default _ => ⟨_, _, _, _, rfl, rfl, rfl, .refl codeNames _ _⟩, ?_, ?_⟩
  · intro f hf
    cases hf
  · intro f hf c code x v w hvw _
    obtain rfl := Option.some.inj hf
    rw [hvw.eq (by simp [codeNames])]
    exact .refl ⟨_, rfl⟩

/-- Of a block, states look at the markups alone. -/
theorem linkStates_congr (v : Value) (c : ResolveContext) (code : Span) {x : Block}
    (h : x.get? "markup" = c.parsed.get? "markup") :
    linkStates v { c with place := c.place.withCode code, parsed := x } = linkStates v c := by
  have hfind : findMarkup { c with place := c.place.withCode code, parsed := x } = findMarkup c := by
    funext k wanted
    unfold findMarkup
    rw [h]
    rfl
  have hentry : linkEntry { c with place := c.place.withCode code, parsed := x } = linkEntry c := by
    funext k item
    unfold linkEntry
    rw [hfind]
    rfl
  unfold linkStates
  rw [hentry]
  rfl

theorem blind_states : states.Blind codeNames "states" := by
  refine ⟨fun c code default _ => ⟨_, _, _, _, rfl, rfl, rfl, .refl codeNames _ _⟩, ?_, ?_⟩
  · intro f hf
    cases hf
  · intro f hf c code x v w hvw hx
    obtain rfl := Option.some.inj hf
    rw [← hvw.eq (by simp [codeNames]), linkStates_congr v c code (hx.get? (by simp [codeNames])).symm]
    exact .refl (plain_states.resolve linkStates rfl v c)

/-- **No built-in callback looks at the code**, but for those of two names. -/
theorem blind_definitions : ∀ x ∈ definitions, x.2.Blind codeNames x.1 := by
  simp only [definitions, List.forall_mem_cons]
  refine ⟨blind_access, ?_, ?_, blind_blockinfo, ?_, ?_, ?_, blind_markup, ?_, ?_, ?_, blind_rawCode, ?_, ?_, ?_,
    blind_states, ?_, ?_, blind_braced _, blind_braced _, fun x hx => by cases hx⟩
  -- the others turn the lines of their annotation into a value
  all_goals exact blind_of_done (fun c => ⟨_, rfl⟩) (fun c code default => rfl) rfl rfl

end Builtin

theorem Registry.blind_builtin : builtin.Blind Builtin.codeNames := by
  intro f n d h
  exact Builtin.blind_definitions _ ((lookup?_of_tables tables_builtin).1 h).2

namespace Builder

variable {b : Builder}

/-- **Documentation does not depend on the code below it.** Two tokens with one comment and any code have blocks with
the same names, and the same values but under `blockinfo` and `raw-code`. Their events differ in the text of snippets at
most. -/
theorem build_code_blind (hb : b.registry = Registry.builtin) (kind : CommentKind) (comment code code' : Span) :
    ∃ es es' x y, b.build ⟨kind, comment, code⟩ = (es, .ok (some x)) ∧
      b.build ⟨kind, comment, code'⟩ = (es', .ok (some y)) ∧ x.names = y.names ∧
      (∀ n, n ≠ "blockinfo" → n ≠ "raw-code" → x.get? n = y.get? n) ∧
      es.map Event.sketch = es'.map Event.sketch := by
  obtain ⟨es, x, hx, -⟩ := build_builtin hb ⟨kind, comment, code⟩
  obtain ⟨es', y, hy, -⟩ := build_builtin hb ⟨kind, comment, code'⟩
  obtain ⟨fs, fs', x', y', hx', hy', hevents, hblocks⟩ :=
    build_alike (hb ▸ Registry.blind_builtin) ⟨kind, comment, code⟩ code'
  have hleft := Prod.mk.inj (hx.symm.trans hx')
  have hright := Prod.mk.inj (hy.symm.trans hy')
  rw [← hleft.1, ← hright.1] at hevents
  rw [← Except.ok.inj hleft.2, ← Except.ok.inj hright.2] at hblocks
  cases hblocks with
  | some halike =>
    refine ⟨es, es', x, y, hx, hy, halike.names, fun n hinfo hraw => halike.get? ?_, hevents⟩
    simp only [Builtin.codeNames, List.mem_cons, List.not_mem_nil, not_or]
    exact ⟨hinfo, hraw, not_false⟩

/-- One comment without code and with code on the next line: the blocks have the same names, and differ in where they
stand. -/
theorem build_code_blind_moved :
    ∃ x y es es', script.build ⟨.body, ⟨["@name n", "@type"], some 0, some 1, 0⟩, {}⟩ = (es, .ok (some x)) ∧
      script.build ⟨.body, ⟨["@name n", "@type"], some 0, some 1, 0⟩, ⟨["f()"], some 2, some 2, 0⟩⟩ =
        (es', .ok (some y)) ∧ x.names = y.names ∧ x.get? "name" = y.get? "name" ∧
      es.map Event.sketch = es'.map Event.sketch ∧ x.get? "blockinfo" ≠ y.get? "blockinfo" := by
  obtain ⟨es, es', x, y, hx, hy, hnames, hvalues, hevents⟩ :=
    build_code_blind registry_script .body ⟨["@name n", "@type"], some 0, some 1, 0⟩ {} ⟨["f()"], some 2, some 2, 0⟩
  refine ⟨x, y, es, es', hx, hy, hnames, hvalues "name" (by decide) (by decide), hevents, ?_⟩
  obtain ⟨fs, x', hx', -, hinfo⟩ := build_builtin registry_script
    ⟨.body, ⟨["@name n", "@type"], some 0, some 1, 0⟩, {}⟩
  obtain ⟨fs', y', hy', -, hinfo'⟩ := build_builtin registry_script
    ⟨.body, ⟨["@name n", "@type"], some 0, some 1, 0⟩, ⟨["f()"], some 2, some 2, 0⟩⟩
  obtain rfl : x = x' := Option.some.inj (Except.ok.inj (Prod.mk.inj (hx.symm.trans hx')).2)
  obtain rfl : y = y' := Option.some.inj (Except.ok.inj (Prod.mk.inj (hy.symm.trans hy')).2)
  rw [hinfo, hinfo']
  simp [Token.standing, lineValue]

end Builder

end DocComments
