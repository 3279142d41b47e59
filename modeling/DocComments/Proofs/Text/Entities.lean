import Mathlib.Data.List.Basic
import DocComments.Proofs.Text.Html

/-!
# Reading HTML back

Text that was escaped can stand inside HTML: nothing in it opens or closes a tag or an attribute, and each ampersand
begins one of five entities. No entity begins with another one, so a single pass from the left that puts the characters
back in the place of their entities gives the text again, also where the text had entities of its own.

* `unescaped`: the pass.
* `Safe`: what can stand inside HTML.
* `unescaped_escaped`, `Safe.escaped_unescaped`: **escaping and the pass undo each other**, between all texts and the safe
  ones.
-/

namespace DocComments.Text

/-- What a character is written as, when it is not written as it is. -/
def entities : List String := ["&amp;", "&lt;", "&gt;", "&quot;", "&#39;"]

/-- A text read from HTML, in one pass from the left: an entity becomes its character and all else stays. -/
def unescaped : List Char → List Char
  | [] => []
  | '&' :: 'a' :: 'm' :: 'p' :: ';' :: cs => '&' :: unescaped cs
  | '&' :: 'l' :: 't' :: ';' :: cs => '<' :: unescaped cs
  | '&' :: 'g' :: 't' :: ';' :: cs => '>' :: unescaped cs
  | '&' :: 'q' :: 'u' :: 'o' :: 't' :: ';' :: cs => '"' :: unescaped cs
  | '&' :: '#' :: '3' :: '9' :: ';' :: cs => '\'' :: unescaped cs
  | c :: cs => c :: unescaped cs

def unescapeHtml (s : String) : String :=
  String.ofList (unescaped s.toList)

/-- A text that can stand inside HTML: it has no bracket and no quote, and each ampersand begins an entity. -/
structure Safe (cs : List Char) : Prop where
  unreserved : ∀ c ∈ ['<', '>', '"', '\''], c ∉ cs
  ampersands : ∀ rest, '&' :: rest <:+ cs → ∃ e ∈ entities, e.toList <+: '&' :: rest

/-! ## Escaped text is safe -/

/-- What holds of the five characters holds of any that is not written as it is. -/
theorem of_not_plain {P : Char → Prop} [DecidablePred P] (h : ['&', '<', '>', '"', '\''].all (P ·) = true) {c : Char}
    (hc : ¬ Plain c) : P c := by
  have hmem : c ∈ ['&', '<', '>', '"', '\''] := Decidable.byContradiction fun hmem => hc (plain_of_not_mem hmem)
  exact of_decide_eq_true (List.all_eq_true.1 h c hmem)

/-- An entity has its ampersand at the front and nowhere else. -/
theorem exists_tail_entity {c : Char} (hc : ¬ Plain c) :
    ∃ r, entity c = '&' :: r ∧ '&' ∉ r ∧ String.ofList (entity c) ∈ entities :=
  ⟨(entity c).tail, of_not_plain (P := fun c => entity c = '&' :: (entity c).tail ∧ '&' ∉ (entity c).tail ∧
    String.ofList (entity c) ∈ entities) (by decide) hc⟩

theorem plain_of_mem_entity {c x : Char} (hx : x ∈ entity c) (hne : x ≠ '&') : Plain x := by
  by_cases hc : Plain c
  · rw [hc] at hx
    rwa [List.mem_singleton.1 hx]
  · have hall : (entity c).all (fun x => x = '&' ∨ Plain x) = true :=
      of_not_plain (P := fun c => (entity c).all (fun x => x = '&' ∨ Plain x) = true) (by decide) hc
    exact (of_decide_eq_true (List.all_eq_true.1 hall x hx)).resolve_left hne

/-- What starts with `x` at the end of `cs ++ ds` starts in `ds`, when `cs` has no `x`. -/
theorem suffix_of_not_mem {x : Char} {rest cs ds : List Char} (hx : x ∉ cs) (h : x :: rest <:+ cs ++ ds) :
    x :: rest <:+ ds := by
  induction cs with
  | nil => exact h
  | cons c cs ih =>
    rcases List.suffix_cons_iff.1 h with heq | hsuffix
    · exact absurd ((List.cons.inj heq).1 ▸ List.mem_cons_self) hx
    · exact ih (fun hmem => hx (List.mem_cons_of_mem c hmem)) hsuffix

/-- **Escaped text is safe.** -/
theorem safe_escaped (cs : List Char) : Safe (escaped cs) where
  unreserved := by
    have hreserved : ['<', '>', '"', '\''].all (fun c => ¬ Plain c ∧ c ≠ '&') = true := by decide
    intro c hc hmem
    obtain ⟨hplain, hne⟩ : ¬ Plain c ∧ c ≠ '&' := of_decide_eq_true (List.all_eq_true.1 hreserved c hc)
    obtain ⟨x, -, hx⟩ := List.mem_flatMap.1 hmem
    exact hplain (plain_of_mem_entity hx hne)
  ampersands := by
    intro rest hrest
    induction cs with
    | nil => cases List.suffix_nil.1 hrest
    | cons c cs ih =>
      rw [escaped_cons] at hrest
      by_cases hc : Plain c
      · have hne : '&' ∉ entity c := by
          rw [hc, List.mem_singleton]
          exact (ne_amp_of_plain hc).symm
        exact ih (suffix_of_not_mem hne hrest)
      · obtain ⟨r, hr, hnot, hentity⟩ := exists_tail_entity hc
        -- the ampersand is the first character of this entity, or stands behind all of it
        rw [hr, List.cons_append] at hrest
        rcases List.suffix_cons_iff.1 hrest with heq | hsuffix
        · refine ⟨_, hentity, ?_⟩
          rw [String.toList_ofList, heq, hr]
          exact List.prefix_append _ _
        · exact ih (suffix_of_not_mem hnot hsuffix)

/-! ## Reading back -/

theorem unescaped_cons {c : Char} (hc : c ≠ '&') (cs : List Char) : unescaped (c :: cs) = c :: unescaped cs := by
  conv_lhs => unfold unescaped
  split <;> simp_all

/-- An entity is read as its character, whatever stands behind it. -/
theorem unescaped_entity (c : Char) (cs : List Char) : unescaped (entity c ++ cs) = c :: unescaped cs := by
  by_cases hc : Plain c
  · rw [hc, List.singleton_append, unescaped_cons (ne_amp_of_plain hc)]
  · unfold Plain at hc
    unfold entity at hc ⊢
    split at hc
    · rfl
    · rfl
    · rfl
    · rfl
    · rfl
    · exact absurd rfl hc

/-- **A text is read back from its escaped form.** -/
theorem unescaped_escaped (cs : List Char) : unescaped (escaped cs) = cs := by
  induction cs with
  | nil => rfl
  | cons c cs ih => rw [escaped_cons, unescaped_entity, ih]

theorem Safe.of_suffix {cs ds : List Char} (h : Safe cs) (hds : ds <:+ cs) : Safe ds :=
  ⟨fun c hc hmem => h.unreserved c hc (hds.subset hmem), fun rest hrest => h.ampersands rest (hrest.trans hds)⟩

theorem Safe.escaped_cons {c : Char} {cs : List Char} (h : Safe (entity c ++ cs))
    (hcs : Safe cs → escaped (unescaped cs) = cs) : escaped (c :: unescaped cs) = entity c ++ cs := by
  rw [Text.escaped_cons, hcs (h.of_suffix (List.suffix_append (entity c) cs))]

/-- A safe text that does not begin with an entity begins with a plain character. -/
theorem Safe.plain {c : Char} {cs : List Char} (h : Safe (c :: cs)) (hc : ∀ e ∈ entities, ¬ e.toList <+: c :: cs) :
    Plain c := by
  apply plain_of_not_mem
  intro hmem
  rcases List.mem_cons.1 hmem with rfl | hmem
  · obtain ⟨e, he, hbegins⟩ := h.ampersands cs List.suffix_rfl
    exact hc e he hbegins
  · exact h.unreserved c hmem List.mem_cons_self

/-- **A safe text is the escaped form of what is read from it.** -/
theorem Safe.escaped_unescaped {cs : List Char} (h : Safe cs) : escaped (unescaped cs) = cs := by
  fun_induction unescaped cs with
  | case1 => rfl
  | case2 cs ih => exact Safe.escaped_cons (c := '&') h ih
  | case3 cs ih => exact Safe.escaped_cons (c := '<') h ih
  | case4 cs ih => exact Safe.escaped_cons (c := '>') h ih
  | case5 cs ih => exact Safe.escaped_cons (c := '"') h ih
  | case6 cs ih => exact Safe.escaped_cons (c := '\'') h ih
  | case7 c cs hamp hlt hgt hquot hapos ih =>
    -- none of the patterns above fits, so no entity stands here
    have hplain : Plain c := by
      refine h.plain fun e he hbegins => ?_
      obtain ⟨rest, hrest⟩ := hbegins
      simp only [entities, List.mem_cons, List.not_mem_nil, or_false] at he
      rcases he with rfl | rfl | rfl | rfl | rfl
      all_goals obtain ⟨hfirst, hcs⟩ := List.cons.inj hrest.symm
      · exact hamp rest hfirst hcs
      · exact hlt rest hfirst hcs
      · exact hgt rest hfirst hcs
      · exact hquot rest hfirst hcs
      · exact hapos rest hfirst hcs
    rw [hplain.escaped_cons, ih (h.of_suffix (List.suffix_cons c cs))]

/-- **Escaping is safe and can be undone.** Escaped text can stand inside HTML and the text is read back from it, so no
two texts are escaped alike; texts are escaped piece by piece. And safe text is escaped text. -/
theorem escapeHtml_reversible (s : String) :
    Safe (escapeHtml s).toList ∧
    unescapeHtml (escapeHtml s) = s ∧
    (∀ t, escapeHtml s = escapeHtml t → s = t) ∧
    (∀ t, escapeHtml (s ++ t) = escapeHtml s ++ escapeHtml t) ∧
    (Safe s.toList → escapeHtml (unescapeHtml s) = s) := by
  have hread : ∀ t, unescapeHtml (escapeHtml t) = t := by
    intro t
    rw [unescapeHtml, toList_escapeHtml, unescaped_escaped, String.ofList_toList]
  refine ⟨?_, hread s, fun t h => ?_, fun t => ?_, fun h => ?_⟩
  · rw [toList_escapeHtml]
    exact safe_escaped s.toList
  · rw [← hread s, h, hread t]
  · rw [← String.toList_inj, String.toList_append, toList_escapeHtml, toList_escapeHtml, toList_escapeHtml,
      String.toList_append, escaped_append]
  · rw [unescapeHtml, escapeHtml_ofList, h.escaped_unescaped, String.ofList_toList]

/-- Entities that the text has already, and an ampersand alone. -/
theorem escapeHtml_reversible_twice :
    escapeHtml "&lt;&" = "&amp;lt;&amp;" ∧ unescapeHtml "&amp;lt;&amp;" = "&lt;&" ∧
    Safe "&amp;lt;&amp;".toList ∧ escapeHtml (unescapeHtml "&amp;lt;&amp;") = "&amp;lt;&amp;" := by
  have hescaped : escapeHtml "&lt;&" = "&amp;lt;&amp;" := by decide
  obtain ⟨hsafe, hread, -⟩ := escapeHtml_reversible "&lt;&"
  rw [hescaped] at hsafe hread
  exact ⟨hescaped, hread, hsafe, (escapeHtml_reversible "&amp;lt;&amp;").2.2.2.2 hsafe⟩

end DocComments.Text
