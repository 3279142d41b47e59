import DocComments.Proofs.Block.Run

/-!
# Who told what

The events of a block come from callbacks of the annotations in its comment, from annotations that those add, and from
the builder. Here they are listed with the annotation of the comment that told of them, and nothing of what is told is
left out.

* `Telling`: an event and its teller.
* `Builder.log`: what is told of while the annotations of a comment are run.
* `Builder.exec_events`, `Builder.parseAll_events`: the log is what the run tells of, step by step.
* `Builder.build_events`: **the events of a block are those of the log**, and behind them those of the other phases.
-/

namespace DocComments

/-- An event, and the annotation of the comment whose callback told of it. An event that comes from an annotation that
was added has no such teller. -/
structure Telling where
  teller : Option Tag
  event : Event
  deriving DecidableEq

/-- What was told of between two points of a run. -/
def Progress.since (p q : Progress) : List Event := q.events.drop p.events.length

namespace Builder

variable (b : Builder) (t : Token)

/-- What is told of while a script of the annotation `a` is run. -/
def logScript (add : Adder) (a : Tag) : Script Value → Progress → List Telling
  | .done _, _ => []
  | .fail _, _ => []
  | .emit e s, p => ([e].filter (·.passes b.quiet)).map (⟨some a, ·⟩) ++ logScript add a s (b.tell p e)
  | .add word text next, p =>
    (p.since (add word text p).1).map (⟨none, ·⟩) ++
      logScript add a (next (reply (add word text p).2)) (add word text p).1

/-- What is told of while some annotations are run one after the other, up to the first that fails. -/
def logAll : List Tag → Progress → List Telling
  | [], _ => []
  | a :: as, p =>
    b.logScript (b.addAt t b.maxDepth) a (b.tagScript t a) p ++
      match b.runTag t (b.addAt t b.maxDepth) a p with
      | (_, .error _) => []
      | (q, .ok v) => logAll as (q.merge a.name v)

/-- What is told of while the annotations of a comment are run. -/
def log : List Telling := b.logAll t (b.tags t) {}

variable {b t} {add : Adder} {a : Tag} {as : List Tag} {p q : Progress} {s : Script Value} {x : Telling}

/-! ## Nothing is left out -/

theorem events_eq_append_since (h : p.events <+: q.events) : q.events = p.events ++ p.since q :=
  (List.prefix_iff_eq_append.1 h).symm

theorem events_take (p : Progress) (name : String) (r : Except CallbackFault (Option Value)) :
    (take p name r).events = p.events := by
  rcases r with f | _ | v
  · rfl
  · rfl
  · rfl

theorem events_tellAll (p : Progress) (es : List Event) : p.events <+: (b.tellAll p es).events :=
  List.prefix_append _ _

/-- **The log of a script is what its run tells of**, when additions take no event back. -/
theorem exec_events (hadd : ∀ word text p, p.events <+: (add word text p).1.events) (a : Tag) (s : Script Value)
    (p : Progress) : (b.exec add s p).1.events = p.events ++ (b.logScript add a s p).map (·.event) := by
  induction s generalizing p with
  | done v => simp [exec, logScript]
  | fail f => simp [exec, logScript]
  | emit e s ih =>
    have hown : ([e].filter (·.passes b.quiet)).map (Telling.event ∘ (⟨some a, ·⟩)) =
        [e].filter (·.passes b.quiet) := List.map_id _
    rw [exec, ih, logScript, List.map_append, List.map_map, hown, ← List.append_assoc]
    rfl
  | add word text next ih =>
    have hother : (p.since (add word text p).1).map (Telling.event ∘ (⟨none, ·⟩)) = p.since (add word text p).1 :=
      List.map_id _
    rw [exec_add, ih, logScript, List.map_append, List.map_map, hother, ← List.append_assoc,
      ← events_eq_append_since (hadd word text p)]

/-- An addition takes no event back. -/
theorem addAt_events (t : Token) (levels : Nat) (word text : String) (p : Progress) :
    p.events <+: (b.addAt t levels word text p).1.events := by
  induction levels generalizing word text p with
  | zero => exact events_tellAll p _
  | succ levels ih =>
    rw [addAt_succ rfl, events_take, exec_events ih (b.tagOf word text)]
    exact List.prefix_append _ _

theorem parseAll_events (t : Token) (as : List Tag) (p : Progress) :
    (b.parseAll t as p).1.events = p.events ++ (b.logAll t as p).map (·.event) := by
  induction as generalizing p with
  | nil => simp [parseAll, logAll]
  | cons a as ih =>
    have hexec := exec_events (b := b) (addAt_events (b := b) t b.maxDepth) a (b.tagScript t a) p
    have hrun := congrArg (fun o => o.1.events) (b.runTag_eq t (b.addAt t b.maxDepth) a p)
    dsimp only at hrun
    rw [hexec] at hrun
    unfold parseAll logAll
    rcases ho : b.runTag t (b.addAt t b.maxDepth) a p with ⟨q, f | v⟩
    · rw [ho] at hrun
      dsimp only at hrun ⊢
      rw [hrun, List.append_nil]
    · rw [ho] at hrun
      dsimp only at hrun ⊢
      have hmerge : (q.merge a.name v).events = q.events := events_take q a.name (.ok v)
      rw [ih, hmerge, hrun, List.map_append, List.append_assoc]

theorem autofillAll_events (t : Token) (ds : List (String × Definition)) (p : Progress) :
    p.events <+: (b.autofillAll t ds p).1.events := by
  induction ds generalizing p with
  | nil => exact List.prefix_rfl
  | cons d ds ih =>
    unfold autofillAll
    cases d.2.autofill with
    | none => exact ih p
    | some autofill =>
      dsimp only
      split
      · exact ih p
      · have htold := events_tellAll (b := b) p (autofill ⟨d.1, b.placeOf t, p.block⟩).events
        split
        · exact htold
        · split
          · refine List.IsPrefix.trans ?_ (ih _)
            exact htold
          · exact htold.trans (ih _)

theorem resolveAll_events (t : Token) (positions : List Position) (ds : List (String × Definition)) (p : Progress) :
    p.events <+: (b.resolveAll t positions ds p).1.events := by
  induction ds generalizing p with
  | nil => exact List.prefix_rfl
  | cons d ds ih =>
    unfold resolveAll
    split
    · next resolve v _ _ =>
      have htold := events_tellAll (b := b) p (resolve v ⟨d.1, d.2.aliases, b.placeOf t, p.block, positions⟩).events
      dsimp only
      split
      · exact htold
      · split
        · refine List.IsPrefix.trans ?_ (ih _)
          exact htold
        · exact htold.trans (ih _)
    · exact ih p

/-- The phases behind the annotations take no event back. -/
theorem complete_events (t : Token) (o : Progress × Except CallbackFault Unit) :
    o.1.events <+: (b.complete t o).1 := by
  obtain ⟨p, f | u⟩ := o
  · exact List.prefix_rfl
  have hfill := autofillAll_events (b := b) t (b.registry.withAutofill b.filetype).entries p
  unfold complete
  dsimp only
  generalize b.autofillAll t (b.registry.withAutofill b.filetype).entries p = o at hfill ⊢
  obtain ⟨q, f | u⟩ := o
  · exact hfill
  generalize (b.tags t).map (fun a => (⟨a.name, a.first, a.last⟩ : Position)) = positions
  have hres := resolveAll_events (b := b) t positions (b.registry.withResolve b.filetype).entries q
  dsimp only at hfill ⊢
  split
  · exact hfill
  · generalize b.resolveAll t positions (b.registry.withResolve b.filetype).entries q = o at hres ⊢
    obtain ⟨q', f | u⟩ := o
    · exact hfill.trans hres
    · exact hfill.trans hres

/-- **The events of a block are those of its log**, and behind them what the phases behind the annotations tell of. -/
theorem build_events (b : Builder) (t : Token) :
    ∃ later, (b.build t).1 = (b.log t).map (·.event) ++ later := by
  have hparse : (b.parseAll t (b.tags t) {}).1.events = (b.log t).map (·.event) := by
    rw [parseAll_events]
    exact List.nil_append _
  obtain ⟨later, hlater⟩ := complete_events (b := b) t (b.parseAll t (b.tags t) {})
  refine ⟨later, ?_⟩
  rw [build_eq, ← hlater, hparse]

/-! ## The tellers -/

theorem teller_of_mem_logScript (h : x ∈ b.logScript add a s p) : x.teller = some a ∨ x.teller = none := by
  induction s generalizing p with
  | done v => cases h
  | fail f => cases h
  | emit e s ih =>
    rw [logScript, List.mem_append] at h
    rcases h with h | h
    · obtain ⟨e', -, rfl⟩ := List.mem_map.1 h
      exact .inl rfl
    · exact ih h
  | add word text next ih =>
    rw [logScript, List.mem_append] at h
    rcases h with h | h
    · obtain ⟨e, -, rfl⟩ := List.mem_map.1 h
      exact .inr rfl
    · exact ih _ h

/-- The tellers are the annotations that were run. -/
theorem mem_of_mem_logAll (h : x ∈ b.logAll t as p) (ha : a ∈ x.teller) : a ∈ as := by
  induction as generalizing p with
  | nil => cases h
  | cons a' as ih =>
    unfold logAll at h
    rcases List.mem_append.1 h with h | h
    · rcases teller_of_mem_logScript h with hx | hx
      · rw [hx] at ha
        exact List.mem_cons.2 (.inl (Option.some.inj ha).symm)
      · rw [hx] at ha
        cases ha
    · rcases ho : b.runTag t (b.addAt t b.maxDepth) a' p with ⟨q, f | v⟩
      · rw [ho] at h
        cases h
      · rw [ho] at h
        exact List.mem_cons_of_mem _ (ih h)

end Builder

end DocComments
