import DocComments.Proofs.Block.Run

/-!
# The limit on additions

Callbacks that add one another without end are stopped by the limit of the builder, and nothing else is: a run that
does not reach the limit is the same under every higher one.

* `Builder.RunsAll.keeps`: no annotation is run deeper than the limit, and what an addition beyond it does.
* `Builder.Runs.of_le`: **a run without refusals is a run under every higher limit.**
* `Builder.build_depth_limit`: what the limit does to a block.
-/

namespace DocComments

namespace Visit

/-- An annotation runs within the limit. An addition beyond the limit is told of by one error, gives nothing and leaves
the block as it is. -/
def Keeps (limit : Nat) : Visit → Prop
  | .ran depth _ _ => depth ≤ limit
  | .added depth _ before after answer => limit < depth →
    answer = .ok none ∧ after.block = before.block ∧
      ∃ e : Event, e.level = .error ∧ after.events = before.events ++ [e]

/-- An addition beyond the limit. -/
def Refused (limit : Nat) : Visit → Prop
  | .ran _ _ _ => False
  | .added depth _ _ _ _ => limit < depth

end Visit

namespace Builder

/-- The builder with another limit. -/
def withMaxDepth (b : Builder) (d : Nat) : Builder := { b with maxDepth := d }

variable {b : Builder} {t : Token} {a : Tag} {as : List Tag} {word text : String} {p q : Progress} {s : Script Value}
  {vs : List Visit} {depth d : Nat} {r : Except Failure Value}

/-- **What is run and added keeps to the limit.** -/
theorem RunsAll.keeps {r : Except CallbackFault Unit} (h : b.RunsAll t as p vs q r) :
    ∀ v ∈ vs, v.Keeps b.maxDepth := by
  refine h.forall_mem ?_ ?_ ?_
  · intro depth a p vs q r hdepth _
    exact hdepth
  · intro depth word text p _ _
    exact ⟨rfl, rfl, _, rfl, rfl⟩
  · intro depth word before after answer hdepth hlt
    omega

/-! ## Higher limits -/

theorem tagScript_withMaxDepth (b : Builder) (d : Nat) (t : Token) (a : Tag) :
    (b.withMaxDepth d).tagScript t a = b.tagScript t a := rfl

theorem tagOf_withMaxDepth (b : Builder) (d : Nat) (word text : String) :
    (b.withMaxDepth d).tagOf word text = b.tagOf word text := rfl

theorem answer_withMaxDepth (b : Builder) (d : Nat) (a : Tag) (r : Except Failure Value) :
    (b.withMaxDepth d).answer a r = b.answer a r := rfl

theorem autofillAll_withMaxDepth (b : Builder) (d : Nat) (t : Token) (ds : List (String × Definition))
    (p : Progress) : (b.withMaxDepth d).autofillAll t ds p = b.autofillAll t ds p := by
  induction ds generalizing p with
  | nil => rfl
  | cons x ds ih =>
    unfold autofillAll
    simp only [ih]
    rfl

theorem resolveAll_withMaxDepth (b : Builder) (d : Nat) (t : Token) (positions : List Position)
    (ds : List (String × Definition)) (p : Progress) :
    (b.withMaxDepth d).resolveAll t positions ds p = b.resolveAll t positions ds p := by
  induction ds generalizing p with
  | nil => rfl
  | cons x ds ih =>
    unfold resolveAll
    simp only [ih]
    rfl

/-- Only annotations that are added know of the limit. -/
theorem complete_withMaxDepth (b : Builder) (d : Nat) (t : Token) (o : Progress × Except CallbackFault Unit) :
    (b.withMaxDepth d).complete t o = b.complete t o := by
  unfold complete
  simp only [autofillAll_withMaxDepth, resolveAll_withMaxDepth]
  rfl

/-- **A run without refusals is a run under every higher limit**, with the same visits. -/
theorem Runs.of_le (h : b.Runs t depth s p vs q r) (hd : b.maxDepth ≤ d) (hno : ∀ v ∈ vs, ¬ v.Refused b.maxDepth) :
    (b.withMaxDepth d).Runs t depth s p vs q r := by
  induction h with
  | done v => exact .done v
  | fail f => exact .fail f
  | emit h ih => exact .emit (ih hno)
  | refused hdepth h ih => exact absurd hdepth (hno _ List.mem_cons_self)
  | added hdepth hrun h ihrun ih =>
    have hrun' := ihrun fun v hv => hno v (List.mem_append_left _ hv)
    have h' := ih fun v hv =>
      hno v (List.mem_append_right _ (List.mem_cons_of_mem _ (List.mem_cons_of_mem _ hv)))
    rw [← tagOf_withMaxDepth b d, ← tagScript_withMaxDepth b d] at hrun'
    rw [← tagOf_withMaxDepth b d, ← answer_withMaxDepth b d] at h' ⊢
    exact .added (Nat.le_trans hdepth hd) hrun' h'

theorem RunsAll.of_le {r : Except CallbackFault Unit} (h : b.RunsAll t as p vs q r) (hd : b.maxDepth ≤ d)
    (hno : ∀ v ∈ vs, ¬ v.Refused b.maxDepth) : (b.withMaxDepth d).RunsAll t as p vs q r := by
  induction h with
  | nil => exact .nil
  | cons hrun h ih =>
    refine .cons (hrun.of_le hd fun v hv => hno v (List.mem_append_left _ hv)) (ih fun v hv => ?_)
    exact hno v (List.mem_append_right _ (List.mem_cons_of_mem _ hv))
  | fault hrun => exact .fault (hrun.of_le hd fun v hv => hno v (List.mem_append_left _ hv))

/-- **What the limit does.** Whatever the callbacks are, a block is built in finitely many steps. No annotation, and so
no `parse` callback, is run deeper than the limit. An addition beyond it is told of by one error, gives nothing and
leaves the block as it is. Where there is none, every higher limit leads to the same visits, events and block. -/
theorem build_depth_limit (b : Builder) (t : Token) :
    (∃ vs, b.Builds t vs (b.build t)) ∧
    ∀ vs o, b.Builds t vs o →
      o = b.build t ∧
      (∀ depth a result, .ran depth a result ∈ vs → depth ≤ b.maxDepth) ∧
      (∀ depth word before after answer, .added depth word before after answer ∈ vs → b.maxDepth < depth →
        answer = .ok none ∧ after.block = before.block ∧
          ∃ e : Event, e.level = .error ∧ after.events = before.events ++ [e]) ∧
      ((∀ depth word before after answer, .added depth word before after answer ∈ vs → depth ≤ b.maxDepth) →
        ∀ d, b.maxDepth ≤ d → (b.withMaxDepth d).Builds t vs o ∧ (b.withMaxDepth d).build t = b.build t) := by
  refine ⟨b.exists_builds t, fun vs o h => ?_⟩
  have hbuild := h.eq_build
  obtain ⟨p, r, hall, ho⟩ := h
  refine ⟨hbuild, fun depth a result hmem => hall.keeps _ hmem,
    fun depth word before after answer hmem => hall.keeps _ hmem, fun hno d hd => ?_⟩
  have hnone : ∀ v ∈ vs, ¬ v.Refused b.maxDepth := by
    intro v hv href
    cases v with
    | ran => exact href
    | added depth word before after answer =>
      have hle := hno depth word before after answer hv
      have hlt : b.maxDepth < depth := href
      omega
  have hhigher : (b.withMaxDepth d).Builds t vs o :=
    ⟨p, r, hall.of_le hd hnone, ho.trans (complete_withMaxDepth b d t _).symm⟩
  exact ⟨hhigher, hhigher.eq_build.symm.trans hbuild⟩

theorem builds_of_tags_eq {v : Value} (htags : b.tags t = [a]) (hscript : b.tagScript t a = s)
    (h : b.Runs t 0 s {} vs p (.ok v)) :
    b.Builds t (vs ++ [.ran 0 a (.ok v)]) (b.complete t (p.merge a.name (notNull v), .ok ⟨⟩)) := by
  refine ⟨_, _, ?_, rfl⟩
  rw [htags]
  exact .cons (hscript ▸ h) .nil

/-- A builder with an annotation that adds another one. -/
def pinging : Builder where
  registry := ⟨.ofList [(defaultFiletype, .ofList
    [("ping", { parse := fun _ => .add "pong" "text" fun _ => .done (.str "ping") }), ("pong", {})])]⟩
  file := ⟨"a.js", "", { header := {}, body := { single := some "///" } }⟩

def pingToken : Token := ⟨.body, { contents := ["@ping"] }, {}⟩

/-- With no level for additions the one of `pong` is refused. With one level it is not, and further levels change
nothing. -/
theorem build_depth_limit_ping :
    (∃ vs before after, (pinging.withMaxDepth 0).Builds pingToken vs ((pinging.withMaxDepth 0).build pingToken) ∧
      .added 1 "pong" before after (.ok none) ∈ vs ∧ after.block = before.block ∧
        ∃ e : Event, e.level = .error ∧ after.events = before.events ++ [e]) ∧
    ((pinging.withMaxDepth 1).build pingToken).1 = [] ∧
    ∀ d, 1 ≤ d → (pinging.withMaxDepth d).build pingToken = (pinging.withMaxDepth 1).build pingToken := by
  have htags : pinging.tags pingToken = [⟨"ping", [], "", ["@ping"], some 0, some 0⟩] := by decide +kernel
  have hping : pinging.tagScript pingToken ⟨"ping", [], "", ["@ping"], some 0, some 0⟩ =
      .add "pong" "text" fun _ => .done (.str "ping") := by rfl
  have hpong : pinging.tagScript pingToken (pinging.tagOf "pong" "text") = .done (.str "text") := by rfl
  refine ⟨?_, by decide +kernel, fun d hd => ?_⟩
  · have hb := builds_of_tags_eq (b := pinging.withMaxDepth 0) htags hping (.refused (by decide) (.done _))
    obtain ⟨ho, -, hbeyond, -⟩ := (build_depth_limit (pinging.withMaxDepth 0) pingToken).2 _ _ hb
    exact ⟨_, _, _, ho ▸ hb, List.mem_cons_self, (hbeyond _ _ _ _ _ List.mem_cons_self (by decide)).2⟩
  · have hrun : (pinging.withMaxDepth 1).Runs pingToken 1 (pinging.tagScript pingToken (pinging.tagOf "pong" "text"))
        {} [] {} (.ok (.str "text")) := hpong ▸ .done _
    have hb := builds_of_tags_eq (b := pinging.withMaxDepth 1) htags hping (.added (by decide) hrun (.done _))
    refine (((build_depth_limit (pinging.withMaxDepth 1) pingToken).2 _ _ hb).2.2.2 ?_ d hd).2
    intro depth word before after answer hmem
    simp only [List.nil_append, List.cons_append, List.mem_cons, List.not_mem_nil, reduceCtorEq, Visit.added.injEq,
      false_or, or_false] at hmem
    exact Nat.le_of_eq hmem.1

end Builder

end DocComments
