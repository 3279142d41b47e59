import DocComments.Text.Cut
import DocComments.Text.Html
import DocComments.Text.Space

/-!
# Reading escaped text

A text is escaped character by character. An entity starts with `&` and has neither white space nor a brace in it, so
what looks for such characters, or for a word without the five that are escaped, finds the same in both texts.

* `Plain`: the characters that are written as they are.
* `Steady`: a test that an entity passes like its character.
* `takeWhile_escaped`, `dropWhile_escaped`, `after?_escaped`: **reading commutes with escaping.**
-/

namespace DocComments.Text

/-- A list of characters as it is written inside HTML. -/
def escaped (cs : List Char) : List Char :=
  cs.flatMap entity

/-- A character that is written as it is. -/
def Plain (c : Char) : Prop :=
  entity c = [c]

instance (c : Char) : Decidable (Plain c) :=
  inferInstanceAs (Decidable (entity c = [c]))

/-- A test that all characters of an entity pass, or none, like the character that it stands for. -/
def Steady (p : Char → Bool) : Prop :=
  ∀ c, ∀ x ∈ entity c, p x = p c

theorem toList_escapeHtml (s : String) : (escapeHtml s).toList = escaped s.toList := by
  unfold escapeHtml escaped
  rw [String.toList_ofList]

theorem escapeHtml_ofList (cs : List Char) : escapeHtml (String.ofList cs) = String.ofList (escaped cs) := by
  unfold escapeHtml escaped
  rw [String.toList_ofList]

theorem escaped_cons (c : Char) (cs : List Char) : escaped (c :: cs) = entity c ++ escaped cs :=
  List.flatMap_cons

theorem escaped_append (cs ds : List Char) : escaped (cs ++ ds) = escaped cs ++ escaped ds :=
  List.flatMap_append

theorem plain_of_all {cs : List Char} (h : cs.all (Plain ·) = true) : ∀ c ∈ cs, Plain c :=
  fun c hc => of_decide_eq_true (List.all_eq_true.1 h c hc)

theorem Plain.escaped_cons {c : Char} (h : Plain c) (cs : List Char) : escaped (c :: cs) = c :: escaped cs := by
  rw [Text.escaped_cons, h, List.singleton_append]

theorem escaped_of_plain {cs : List Char} (h : ∀ c ∈ cs, Plain c) : escaped cs = cs := by
  induction cs with
  | nil => rfl
  | cons c cs ih =>
    rw [(h c List.mem_cons_self).escaped_cons, ih fun x hx => h x (List.mem_cons_of_mem c hx)]

theorem plain_of_not_mem {c : Char} (h : c ∉ ['&', '<', '>', '"', '\'']) : Plain c := by
  unfold Plain entity
  split <;> simp_all

/-- A character that is not written as it is becomes `&` and more. -/
theorem exists_entity {c : Char} (h : ¬ Plain c) : ∃ x r, entity c = '&' :: x :: r := by
  unfold Plain at h
  unfold entity at h ⊢
  split at h
  · exact ⟨_, _, rfl⟩
  · exact ⟨_, _, rfl⟩
  · exact ⟨_, _, rfl⟩
  · exact ⟨_, _, rfl⟩
  · exact ⟨_, _, rfl⟩
  · exact absurd rfl h

theorem entity_ne_nil (c : Char) : entity c ≠ [] := by
  by_cases h : Plain c
  · rw [h]
    exact List.cons_ne_nil _ _
  · obtain ⟨x, r, hr⟩ := exists_entity h
    rw [hr]
    exact List.cons_ne_nil _ _

theorem ne_amp_of_plain {c : Char} (h : Plain c) : c ≠ '&' := by
  rintro rfl
  revert h
  decide

theorem length_le_escaped (cs : List Char) : cs.length ≤ (escaped cs).length := by
  induction cs with
  | nil => exact Nat.le_refl 0
  | cons c cs ih =>
    have hc : 0 < (entity c).length := List.length_pos_iff.2 (entity_ne_nil c)
    rw [escaped_cons, List.length_append, List.length_cons]
    omega

/-- **Only a text of plain characters stays as it is**, since an entity is longer than its character. -/
theorem escaped_eq_self_iff {cs : List Char} : escaped cs = cs ↔ ∀ c ∈ cs, Plain c := by
  refine ⟨fun h => ?_, escaped_of_plain⟩
  induction cs with
  | nil => exact fun c hc => nomatch hc
  | cons c cs ih =>
    by_cases hc : Plain c
    · rw [hc.escaped_cons] at h
      exact List.forall_mem_cons.2 ⟨hc, ih (List.cons.inj h).2⟩
    · obtain ⟨x, r, hr⟩ := exists_entity hc
      have hlength := congrArg List.length h
      have hlong := length_le_escaped cs
      rw [escaped_cons, hr] at hlength
      simp only [List.length_append, List.length_cons] at hlength
      omega

theorem steady_of_entities {p : Char → Bool}
    (h : (['&', '<', '>', '"', '\''].all fun c => (entity c).all (p · == p c)) = true) : Steady p := by
  intro c x hx
  by_cases hc : c ∈ ['&', '<', '>', '"', '\'']
  · exact eq_of_beq (List.all_eq_true.1 (List.all_eq_true.1 h c hc) x hx)
  · rw [plain_of_not_mem hc] at hx
    rw [List.mem_singleton.1 hx]

theorem steady_isSpace : Steady isSpace :=
  steady_of_entities (by decide)

theorem steady_ne_brace : Steady (· ≠ '\x7d') :=
  steady_of_entities (by decide)

theorem plain_of_isSpace {c : Char} (h : isSpace c = true) : Plain c := by
  refine Decidable.byContradiction fun hc => ?_
  obtain ⟨x, r, hr⟩ := exists_entity hc
  have hamp := steady_isSpace c '&' (hr ▸ List.mem_cons_self)
  rw [h] at hamp
  revert hamp
  decide

variable {p : Char → Bool}

theorem Steady.takeWhile_escaped (hp : Steady p) (cs : List Char) :
    (escaped cs).takeWhile p = escaped (cs.takeWhile p) := by
  induction cs with
  | nil => rfl
  | cons c cs ih =>
    rw [escaped_cons]
    by_cases hc : p c = true
    · have hall : ∀ x ∈ entity c, p x = true := fun x hx => (hp c x hx).trans hc
      rw [List.takeWhile_append_of_pos hall, ih, List.takeWhile_cons_of_pos hc, escaped_cons]
    · obtain ⟨x, r, hx⟩ := List.exists_cons_of_ne_nil (entity_ne_nil c)
      have hno : ¬ p x = true := by rwa [hp c x (hx ▸ List.mem_cons_self)]
      rw [List.takeWhile_cons_of_neg hc, hx, List.cons_append, List.takeWhile_cons_of_neg hno]
      rfl

theorem Steady.dropWhile_escaped (hp : Steady p) (cs : List Char) :
    (escaped cs).dropWhile p = escaped (cs.dropWhile p) := by
  induction cs with
  | nil => rfl
  | cons c cs ih =>
    by_cases hc : p c = true
    · have hall : ∀ x ∈ entity c, p x = true := fun x hx => (hp c x hx).trans hc
      rw [escaped_cons, List.dropWhile_append_of_pos hall, ih, List.dropWhile_cons_of_pos hc]
    · obtain ⟨x, r, hx⟩ := List.exists_cons_of_ne_nil (entity_ne_nil c)
      have hno : ¬ p x = true := by rwa [hp c x (hx ▸ List.mem_cons_self)]
      rw [List.dropWhile_cons_of_neg hc, escaped_cons, hx, List.cons_append, List.dropWhile_cons_of_neg hno]

/-- **A plain word stands at the front of an escaped text** when it stands at the front of the text. -/
theorem after?_escaped {w : List Char} (hw : ∀ a ∈ w, Plain a) (cs : List Char) :
    after? w (escaped cs) = (after? w cs).map escaped := by
  induction w generalizing cs with
  | nil => rfl
  | cons a w ih =>
    have ha := hw a List.mem_cons_self
    cases cs with
    | nil => rfl
    | cons c cs =>
      by_cases hc : Plain c
      · rw [hc.escaped_cons, after?, after?]
        split
        · exact ih (fun x hx => hw x (List.mem_cons_of_mem a hx)) cs
        · rfl
      · obtain ⟨x, r, hr⟩ := exists_entity hc
        have hne : a ≠ c := by
          rintro rfl
          exact hc ha
        rw [escaped_cons, hr, List.cons_append, after?, after?, if_neg (ne_amp_of_plain ha), if_neg hne]
        rfl

end DocComments.Text
