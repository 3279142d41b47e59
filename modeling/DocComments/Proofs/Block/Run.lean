import DocComments.Block.Build

/-!
# Runs of annotations

Callbacks may add annotations, whose callbacks may add more. Here such a run is told as it happens: by rules without
any limit on their use, together with the list of what was run and added on the way, and how deep. The limit is the one
of the builder, asked for at each addition.

* `Builder.Runs`: a script is run to its end.
* `Builder.Builds`: a block is built.
* `Builder.exists_builds`: **every block is built in finitely many steps.**
* `Builder.RunsAll.forall_mem`: how a property of all visits is shown.
* `Builder.Builds.eq_build`: the rules lead to what the builder gives, and to nothing else.
-/

namespace DocComments

/-- What happens while annotations are run. The depth is the number of additions around an annotation: one that stands
in the comment has the depth 0. -/
inductive Visit where
  /-- An annotation was run, and its callbacks came to a value or failed. -/
  | ran (depth : Nat) (a : Tag) (result : Except Failure Value)
  /-- A callback added an annotation, and was answered. -/
  | added (depth : Nat) (word : String) (before after : Progress) (answer : Except CallbackFault (Option Value))

namespace Builder

variable (b : Builder) (t : Token)

/-- An annotation as one script. Where a definition for the file type overrides one for all files, the callback of that
one comes first, and the other is told its value. -/
def tagScript (a : Tag) : Script Value :=
  match b.registry.get? b.filetype a.name with
  | none =>
    .emit (.errorIn b.file.path ("'@" ++ a.name ++ "' isn't a registered annotation")) (.done .null)
  | some d =>
    let c : ParseContext := { tag := a.prepare, place := b.placeOf t }
    match b.registry.getOwn? b.filetype a.name, b.registry.getDefault? a.name with
    | some _, some base => (base.parse c).bind fun v => d.parse { c with default := some v }
    | _, _ => d.parse c

/-- The annotation that a callback adds by its name or an alias. -/
def tagOf (word text : String) : Tag :=
  let name := (b.registry.canonical? b.filetype word).getD word
  .ofText name (((b.registry.aliases b.filetype).get? name).getD []) text

/-- What came of an annotation, for the callback that added it. -/
def answer (a : Tag) : Except Failure Value → Except CallbackFault (Option Value)
  | .ok v => .ok (notNull v)
  | .error f => .error (b.fault a.name .parse f)

/-- An answer as a callback sees it. -/
def reply : Except CallbackFault (Option Value) → Except Failure (Option Value)
  | .ok v => .ok v
  | .error f => .error f.chain

/-- The progress with the value of an answer merged into the block. -/
def take (p : Progress) (name : String) : Except CallbackFault (Option Value) → Progress
  | .ok v => p.merge name v
  | .error _ => p

/-- **A script is run to its end**, inside an annotation at some depth. -/
inductive Runs : Nat → Script Value → Progress → List Visit → Progress → Except Failure Value → Prop
  | done {depth : Nat} {p : Progress} (v : Value) : Runs depth (.done v) p [] p (.ok v)
  | fail {depth : Nat} {p : Progress} (f : Failure) : Runs depth (.fail f) p [] p (.error f)
  | emit {depth : Nat} {e : Event} {s : Script Value} {p q : Progress} {vs : List Visit} {r : Except Failure Value}
      (h : Runs depth s (b.tell p e) vs q r) : Runs depth (.emit e s) p vs q r
  /-- An annotation that is added too deep is not run. -/
  | refused {depth : Nat} {word text : String} {next : Except Failure (Option Value) → Script Value} {p q : Progress}
      {vs : List Visit} {r : Except Failure Value} (hdepth : b.maxDepth < depth + 1)
      (h : Runs depth (next (reply (b.refuse word text p).2)) (b.refuse word text p).1 vs q r) :
      Runs depth (.add word text next) p
        (.added (depth + 1) word p (b.refuse word text p).1 (b.refuse word text p).2 :: vs) q r
  | added {depth : Nat} {word text : String} {next : Except Failure (Option Value) → Script Value} {p p₁ q : Progress}
      {vs₁ vs : List Visit} {r₁ r : Except Failure Value} (hdepth : depth + 1 ≤ b.maxDepth)
      (hrun : Runs (depth + 1) (b.tagScript t (b.tagOf word text)) p vs₁ p₁ r₁)
      (h : Runs depth (next (reply (b.answer (b.tagOf word text) r₁)))
        (take p₁ (b.tagOf word text).name (b.answer (b.tagOf word text) r₁)) vs q r) :
      Runs depth (.add word text next) p
        (vs₁ ++ .ran (depth + 1) (b.tagOf word text) r₁ ::
          .added (depth + 1) word p (take p₁ (b.tagOf word text).name (b.answer (b.tagOf word text) r₁))
            (b.answer (b.tagOf word text) r₁) :: vs) q r

/-- The annotations of a comment are run one after the other, up to the first that fails. -/
inductive RunsAll : List Tag → Progress → List Visit → Progress → Except CallbackFault Unit → Prop
  | nil {p : Progress} : RunsAll [] p [] p (.ok ⟨⟩)
  | cons {a : Tag} {as : List Tag} {p p₁ q : Progress} {vs₁ vs : List Visit} {v : Value}
      {r : Except CallbackFault Unit} (hrun : b.Runs t 0 (b.tagScript t a) p vs₁ p₁ (.ok v))
      (h : RunsAll as (p₁.merge a.name (notNull v)) vs q r) :
      RunsAll (a :: as) p (vs₁ ++ .ran 0 a (.ok v) :: vs) q r
  | fault {a : Tag} {as : List Tag} {p q : Progress} {vs : List Visit} {f : Failure}
      (hrun : b.Runs t 0 (b.tagScript t a) p vs q (.error f)) :
      RunsAll (a :: as) p (vs ++ [.ran 0 a (.error f)]) q (.error (b.fault a.name .parse f))

/-- What is left to do for a block when its annotations have been run. -/
def complete : Progress × Except CallbackFault Unit → List Event × Except CallbackFault (Option Block)
  | (p, .error f) => (p.events, .error f)
  | (p, .ok _) =>
    match b.autofillAll t (b.registry.withAutofill b.filetype).entries p with
    | (p, .error f) => (p.events, .error f)
    | (p, .ok _) =>
      if p.block.isEmpty then (p.events, .ok none)
      else
        match b.resolveAll t ((b.tags t).map fun a => ⟨a.name, a.first, a.last⟩)
          (b.registry.withResolve b.filetype).entries p with
        | (p, .error f) => (p.events, .error f)
        | (p, .ok _) => (p.events, .ok (some p.block))

/-- **A block is built**: the annotations of the comment are run, and then the other phases. -/
def Builds (vs : List Visit) (o : List Event × Except CallbackFault (Option Block)) : Prop :=
  ∃ p r, b.RunsAll t (b.tags t) {} vs p r ∧ o = b.complete t (p, r)

variable {b t} {add : Adder} {a : Tag} {word text : String} {p q : Progress} {s : Script Value} {v : Value}
  {f : Failure} {vs : List Visit} {depth levels : Nat}

/-! ## Functions as runs -/

theorem exec_add (add : Adder) (word text : String) (next : Except Failure (Option Value) → Script Value)
    (p : Progress) :
    b.exec add (.add word text next) p = b.exec add (next (reply (add word text p).2)) (add word text p).1 := by
  rw [exec]
  split
  · next h => rw [h]; rfl
  · next h => rw [h]; rfl

theorem exec_bind_of_ok {k : Value → Script Value} (h : b.exec add s p = (q, .ok v)) :
    b.exec add (s.bind k) p = b.exec add (k v) q := by
  induction s generalizing p with
  | done x =>
    obtain ⟨rfl, hv⟩ := Prod.mk.inj h
    obtain rfl := Except.ok.inj hv
    rfl
  | fail f => cases (Prod.mk.inj h).2
  | emit e s ih => exact ih h
  | add word text next ih =>
    rw [exec_add] at h
    rw [Script.bind, exec_add]
    exact ih _ h

theorem exec_bind_of_error {k : Value → Script Value} (h : b.exec add s p = (q, .error f)) :
    b.exec add (s.bind k) p = (q, .error f) := by
  induction s generalizing p with
  | done x => cases (Prod.mk.inj h).2
  | fail g => exact h
  | emit e s ih => exact ih h
  | add word text next ih =>
    rw [exec_add] at h
    rw [Script.bind, exec_add]
    exact ih _ h

theorem parseWith_of_exec {d : Definition} {default : Option Value} {r : Except Failure Value}
    (h : b.exec add (d.parse { tag := a, place := b.placeOf t, default := default }) p = (q, r)) :
    b.parseWith t add d a default p = (q, r.mapError (b.fault a.name .parse)) := by
  unfold parseWith
  rw [h]
  cases r <;> rfl

/-- An annotation with one callback. -/
theorem runTag_single {d : Definition} (hd : b.registry.get? b.filetype a.name = some d)
    (h : b.registry.getOwn? b.filetype a.name = none ∨ b.registry.getDefault? a.name = none) (add : Adder)
    (p : Progress) :
    b.tagScript t a = d.parse { tag := a.prepare, place := b.placeOf t } ∧
      b.runTag t add a p = ((b.exec add (b.tagScript t a) p).1, b.answer a (b.exec add (b.tagScript t a) p).2) := by
  have hname : a.prepare.name = a.name := by dsimp only [Tag.prepare]
  have hscript : b.tagScript t a = d.parse { tag := a.prepare, place := b.placeOf t } := by
    unfold tagScript
    rw [hd]
    dsimp only
    rcases h with h | h
    · rw [h]
    · rw [h]
      cases b.registry.getOwn? b.filetype a.name <;> rfl
  refine ⟨hscript, ?_⟩
  rcases hq : b.exec add (b.tagScript t a) p with ⟨q, r⟩
  have hparse := parseWith_of_exec (hscript ▸ hq)
  rw [hname] at hparse
  unfold runTag
  rw [hd]
  dsimp only
  rw [hname]
  rcases h with h | h
  · rw [h]
    dsimp only
    rw [hparse]
    cases r <;> rfl
  · rw [h]
    cases b.registry.getOwn? b.filetype a.name with
    | none =>
      dsimp only
      rw [hparse]
      cases r <;> rfl
    | some own =>
      dsimp only
      rw [hparse]
      cases r <;> rfl

/-- **An annotation is run as its script is.** -/
theorem runTag_eq (t : Token) (add : Adder) (a : Tag) (p : Progress) :
    b.runTag t add a p = ((b.exec add (b.tagScript t a) p).1, b.answer a (b.exec add (b.tagScript t a) p).2) := by
  cases hd : b.registry.get? b.filetype a.name with
  | none =>
    unfold runTag tagScript
    rw [hd]
    rfl
  | some d =>
    cases hown : b.registry.getOwn? b.filetype a.name with
    | none => exact (runTag_single hd (.inl hown) add p).2
    | some own =>
      cases hbase : b.registry.getDefault? a.name with
      | none => exact (runTag_single hd (.inr hbase) add p).2
      | some base =>
        have hname : a.prepare.name = a.name := by dsimp only [Tag.prepare]
        unfold runTag tagScript
        rw [hd]
        dsimp only
        rw [hname, hown, hbase]
        dsimp only
        -- the value of the first callback goes to the second
        rcases hq : b.exec add (base.parse { tag := a.prepare, place := b.placeOf t }) p with ⟨q, r⟩
        have hparse := parseWith_of_exec hq
        rw [hname] at hparse
        rw [hparse]
        cases r with
        | error f =>
          rw [exec_bind_of_error hq]
          rfl
        | ok v =>
          rw [exec_bind_of_ok hq]
          rcases hq' : b.exec add (d.parse { tag := a.prepare, place := b.placeOf t, default := some v }) q with ⟨q', r'⟩
          have hparse' := parseWith_of_exec hq'
          rw [hname] at hparse'
          dsimp only [Except.mapError]
          rw [hparse']
          cases r' <;> rfl

theorem addAt_succ {r : Except Failure Value}
    (h : b.exec (b.addAt t levels) (b.tagScript t (b.tagOf word text)) p = (q, r)) :
    b.addAt t (levels + 1) word text p =
      (take q (b.tagOf word text).name (b.answer (b.tagOf word text) r), b.answer (b.tagOf word text) r) := by
  have hrun := b.runTag_eq t (b.addAt t levels) (b.tagOf word text) p
  rw [h] at hrun
  unfold addAt
  unfold tagOf at hrun ⊢
  dsimp only at hrun ⊢
  rw [hrun]
  cases b.answer _ _ <;> rfl

/-! ## Every run ends -/

/-- How an addition is answered: it is refused, or the annotation is run. -/
def Adds (b : Builder) (t : Token) (depth : Nat) (word text : String) (p : Progress) (vs : List Visit)
    (o : Progress × Except CallbackFault (Option Value)) : Prop :=
  (b.maxDepth < depth ∧ o = b.refuse word text p ∧ vs = [.added depth word p o.1 o.2]) ∨
    (depth ≤ b.maxDepth ∧ ∃ vs₁ p₁ r₁, b.Runs t depth (b.tagScript t (b.tagOf word text)) p vs₁ p₁ r₁ ∧
      o = (take p₁ (b.tagOf word text).name (b.answer (b.tagOf word text) r₁), b.answer (b.tagOf word text) r₁) ∧
      vs = vs₁ ++ [.ran depth (b.tagOf word text) r₁, .added depth word p o.1 o.2])

theorem Runs.of_adds {next : Except Failure (Option Value) → Script Value} {vs₁ : List Visit}
    {o : Progress × Except CallbackFault (Option Value)} {r : Except Failure Value}
    (hadds : b.Adds t (depth + 1) word text p vs₁ o) (h : b.Runs t depth (next (reply o.2)) o.1 vs q r) :
    b.Runs t depth (.add word text next) p (vs₁ ++ vs) q r := by
  rcases hadds with ⟨hdepth, rfl, rfl⟩ | ⟨hdepth, vs₂, p₁, r₁, hrun, rfl, rfl⟩
  · exact .refused hdepth h
  · rw [List.append_assoc]
    exact .added hdepth hrun h

theorem exists_runs_of_adds (hadd : ∀ word text p, ∃ vs, b.Adds t (depth + 1) word text p vs (add word text p))
    (s : Script Value) (p : Progress) : ∃ vs, b.Runs t depth s p vs (b.exec add s p).1 (b.exec add s p).2 := by
  induction s generalizing p with
  | done v => exact ⟨[], .done v⟩
  | fail f => exact ⟨[], .fail f⟩
  | emit e s ih =>
    obtain ⟨vs, h⟩ := ih (b.tell p e)
    exact ⟨vs, .emit h⟩
  | add word text next ih =>
    obtain ⟨vs₁, hadds⟩ := hadd word text p
    obtain ⟨vs, h⟩ := ih (reply (add word text p).2) (add word text p).1
    rw [exec_add]
    exact ⟨vs₁ ++ vs, .of_adds hadds h⟩

/-- **An addition is answered**, whatever the callbacks do: each annotation that it leads to is one level deeper, and
the limit leaves `levels` of them. -/
theorem exists_adds (t : Token) (levels : Nat) (hlevels : depth + levels = b.maxDepth) (word text : String)
    (p : Progress) : ∃ vs, b.Adds t (depth + 1) word text p vs (b.addAt t levels word text p) := by
  induction levels generalizing depth word text p with
  | zero => exact ⟨_, .inl ⟨by omega, rfl, rfl⟩⟩
  | succ levels ih =>
    have hadd : ∀ word text p, ∃ vs, b.Adds t (depth + 1 + 1) word text p vs (b.addAt t levels word text p) :=
      ih (by omega)
    obtain ⟨vs, h⟩ := exists_runs_of_adds hadd (b.tagScript t (b.tagOf word text)) p
    exact ⟨_, .inr ⟨by omega, vs, _, _, h, addAt_succ rfl, rfl⟩⟩

theorem exists_runs (t : Token) (s : Script Value) (p : Progress) :
    ∃ vs, b.Runs t 0 s p vs (b.exec (b.addAt t b.maxDepth) s p).1 (b.exec (b.addAt t b.maxDepth) s p).2 :=
  exists_runs_of_adds (exists_adds t b.maxDepth (Nat.zero_add _)) s p

theorem exists_runsAll (t : Token) (as : List Tag) (p : Progress) :
    ∃ vs, b.RunsAll t as p vs (b.parseAll t as p).1 (b.parseAll t as p).2 := by
  induction as generalizing p with
  | nil => exact ⟨[], .nil⟩
  | cons a as ih =>
    obtain ⟨vs₁, hrun⟩ := b.exists_runs t (b.tagScript t a) p
    unfold parseAll
    rw [runTag_eq]
    cases hr : (b.exec (b.addAt t b.maxDepth) (b.tagScript t a) p).2 with
    | error f =>
      rw [hr] at hrun
      exact ⟨_, .fault hrun⟩
    | ok v =>
      rw [hr] at hrun
      obtain ⟨vs, h⟩ := ih _
      exact ⟨_, .cons hrun h⟩

/-! ## What holds of all visits -/

section

variable {P : Visit → Prop}
  (hran : ∀ {depth a p vs q r}, depth ≤ b.maxDepth → b.Runs t depth (b.tagScript t a) p vs q r → P (.ran depth a r))
  (hrefused : ∀ {depth word text p}, b.maxDepth < depth →
    P (.added depth word p (b.refuse word text p).1 (b.refuse word text p).2))
  (hadded : ∀ {depth word before after answer}, depth ≤ b.maxDepth → P (.added depth word before after answer))

include hran hrefused hadded

/-- A property of visits needs to be shown of annotations that run within the limit, and of additions on both sides of
it. -/
theorem Runs.forall_mem {r : Except Failure Value} (h : b.Runs t depth s p vs q r) : ∀ v ∈ vs, P v := by
  induction h with
  | done v => intro v hv; cases hv
  | fail f => intro v hv; cases hv
  | emit h ih => exact ih
  | refused hdepth h ih =>
    intro v hv
    rcases List.mem_cons.1 hv with rfl | hv
    · exact hrefused hdepth
    · exact ih v hv
  | added hdepth hrun h ihrun ih =>
    intro v hv
    rcases List.mem_append.1 hv with hv | hv
    · exact ihrun v hv
    · rcases List.mem_cons.1 hv with rfl | hv
      · exact hran hdepth hrun
      · rcases List.mem_cons.1 hv with rfl | hv
        · exact hadded hdepth
        · exact ih v hv

theorem RunsAll.forall_mem {as : List Tag} {r : Except CallbackFault Unit} (h : b.RunsAll t as p vs q r) :
    ∀ v ∈ vs, P v := by
  induction h with
  | nil => intro v hv; cases hv
  | cons hrun h ih =>
    intro v hv
    rcases List.mem_append.1 hv with hv | hv
    · exact hrun.forall_mem hran hrefused hadded v hv
    · rcases List.mem_cons.1 hv with rfl | hv
      · exact hran (Nat.zero_le _) hrun
      · exact ih v hv
  | fault hrun =>
    intro v hv
    rcases List.mem_append.1 hv with hv | hv
    · exact hrun.forall_mem hran hrefused hadded v hv
    · rw [List.mem_singleton.1 hv]
      exact hran (Nat.zero_le _) hrun

end

/-! ## A run is what the builder does -/

theorem Runs.exec_eq {r : Except Failure Value} (h : b.Runs t depth s p vs q r)
    (hlevels : depth + levels = b.maxDepth) : b.exec (b.addAt t levels) s p = (q, r) := by
  induction h generalizing levels with
  | done v => rfl
  | fail f => rfl
  | emit h ih => exact ih hlevels
  | refused hdepth h ih =>
    obtain rfl : levels = 0 := by omega
    rw [exec_add]
    exact ih hlevels
  | added hdepth hrun h ihrun ih =>
    obtain ⟨levels, rfl⟩ : ∃ n, levels = n + 1 := ⟨levels - 1, by omega⟩
    rw [exec_add, addAt_succ (ihrun (by omega))]
    exact ih hlevels

theorem RunsAll.parseAll_eq {as : List Tag} {r : Except CallbackFault Unit} (h : b.RunsAll t as p vs q r) :
    b.parseAll t as p = (q, r) := by
  induction h with
  | nil => rfl
  | cons hrun h ih =>
    unfold parseAll
    rw [runTag_eq, hrun.exec_eq (Nat.zero_add _)]
    exact ih
  | fault hrun =>
    unfold parseAll
    rw [runTag_eq, hrun.exec_eq (Nat.zero_add _)]
    rfl

theorem build_eq (b : Builder) (t : Token) : b.build t = b.complete t (b.parseAll t (b.tags t) {}) := by
  rcases hparse : b.parseAll t (b.tags t) {} with ⟨p, r⟩
  unfold build
  dsimp only
  rw [hparse]
  cases r <;> rfl

/-- **Every block is built**, in finitely many steps. -/
theorem exists_builds (b : Builder) (t : Token) : ∃ vs, b.Builds t vs (b.build t) := by
  obtain ⟨vs, h⟩ := b.exists_runsAll t (b.tags t) {}
  exact ⟨vs, _, _, h, build_eq b t⟩

/-- **The rules lead to what the builder gives.** -/
theorem Builds.eq_build {o : List Event × Except CallbackFault (Option Block)} (h : b.Builds t vs o) :
    o = b.build t := by
  obtain ⟨p, r, hall, rfl⟩ := h
  rw [build_eq, hall.parseAll_eq]

end Builder

end DocComments
