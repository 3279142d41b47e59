import DocComments.Proofs.Table.Lookup
import DocComments.Registry

/-!
# What a registration does

A registry is known by its entries: which definition the table of a file type has for a name. All that a
registration can do is to define its name, one or more times, and a definition only changes the entries of its own
name and file types.

* `lookup?_of_define`: the entries behind a definition.
* `collision?_eq_none_iff`: what it takes to run into nothing.
* `register_induction`: **what definitions preserve, every registration preserves**, also one that fails half-way.
* `get?_list`: the entries that a file type sees.
-/

namespace DocComments.Registry

variable {r r' : Registry} {f g n m : String} {d e : Definition} {as : List String}

/-- The definition that the table of one file type has for a name. -/
def lookup? (r : Registry) (filetype name : String) : Option Definition :=
  (r.tables.get? filetype).bind (·.get? name)

theorem lookup?_eq_some_iff : r.lookup? f n = some d ↔ ∃ t, (f, t) ∈ r.tables.entries ∧ (n, d) ∈ t.entries := by
  simp only [lookup?, Option.bind_eq_some_iff, Table.get?_eq_some_iff]

theorem lookup?_put (r : Registry) (f n : String) (d : Definition) (g m : String) :
    (r.put f n d).lookup? g m = if g = f ∧ m = n then some d else r.lookup? g m := by
  unfold lookup? put
  rw [Table.get?_insert]
  by_cases hg : g = f
  · subst hg
    rw [if_pos rfl, Option.bind_some, Table.get?_insert]
    by_cases hm : m = n
    · simp [hm]
    · simp only [hm, and_false, if_false]
      cases r.tables.get? g <;> rfl
  · simp [hg]

theorem lookup?_foldl_put (r : Registry) (fs : List String) (n : String) (d : Definition) (g m : String) :
    (fs.foldl (fun r f => r.put f n d) r).lookup? g m = if g ∈ fs ∧ m = n then some d else r.lookup? g m := by
  induction fs generalizing r with
  | nil => simp
  | cons f fs ih =>
    rw [List.foldl_cons, ih, lookup?_put]
    by_cases hm : m = n <;> by_cases hg : g = f <;> simp [hm, hg]

theorem mem_dropRepeats {a : String} {l : List String} : a ∈ dropRepeats l ↔ a ∈ l := by
  fun_induction dropRepeats l with
  | case1 => rfl
  | case2 => rfl
  | case3 b l ih => rw [ih]; simp
  | case4 b c l _ ih => rw [List.mem_cons, ih, ← List.mem_cons]

theorem mem_tidy_aliases {a : String} : a ∈ (tidy n d).aliases ↔ a ∈ d.aliases ∧ a ≠ n := by
  simp only [tidy, mem_dropRepeats, List.mem_filter, decide_eq_true_eq]

/-- The aliases of a definition without faults are words. -/
theorem isWord_of_fault?_eq_none (h : definitionFault? d = none) {a : String} (ha : a ∈ d.aliases) :
    isWord a = true := by
  unfold definitionFault? at h
  split at h
  · cases h
  · rw [Option.map_eq_none_iff, List.find?_eq_none] at h
    simpa using h a ha

theorem shareFiles_comm (f g : String) : shareFiles f g = shareFiles g f := by
  unfold shareFiles
  by_cases hf : f = defaultFiletype <;> by_cases hg : g = defaultFiletype <;> simp [hf, hg, eq_comm]

theorem collisionWith?_eq_none_iff :
    collisionWith? n as m e = none ↔ m ∉ as ∧ (∀ a ∈ as, a ∉ e.aliases) ∧ n ∉ e.aliases := by
  unfold collisionWith?
  by_cases hm : m ∈ as
  · simp [hm]
  · cases hfind : as.find? e.aliases.contains with
    | some a =>
      have ha : a ∈ e.aliases := by simpa using List.find?_some hfind
      have has : ¬ ∀ a ∈ as, a ∉ e.aliases := fun h => h a (List.mem_of_find?_eq_some hfind) ha
      simp [hm, has]
    | none =>
      have has : ∀ a ∈ as, a ∉ e.aliases := by simpa using List.find?_eq_none.1 hfind
      by_cases hn : n ∈ e.aliases
      · simp [hm, hn]
      · simpa [hm, hn] using has

/-- **A name and its aliases run into nothing** when no other annotation for common files has one of the aliases as
its name, shares an alias, or has the name as an alias. -/
theorem collision?_eq_none_iff :
    r.collision? f n as = none ↔
      ∀ g m e, shareFiles f g = true → m ≠ n → r.lookup? g m = some e →
        m ∉ as ∧ (∀ a ∈ as, a ∉ e.aliases) ∧ n ∉ e.aliases := by
  unfold collision?
  simp only [List.findSome?_eq_none_iff, List.mem_filter, decide_eq_true_eq, collisionWith?_eq_none_iff,
    lookup?_eq_some_iff]
  constructor
  · rintro h g m e hs hm ⟨t, ht, he⟩
    exact h (g, t) ⟨ht, hs⟩ (m, e) ⟨he, hm⟩
  · rintro h ⟨g, t⟩ ⟨ht, hs⟩ ⟨m, e⟩ ⟨he, hm⟩
    exact h g m e hs hm ⟨t, ht, he⟩

theorem define_eq_ok_iff :
    r.define n d = .ok r' ↔ definitionFault? d = none ∧
      (∀ f ∈ (tidy n d).filetypes, r.collision? f n (tidy n d).aliases = none) ∧
      r' = (tidy n d).filetypes.foldl (fun r f => r.put f n (tidy n d)) r := by
  unfold define
  cases hf : definitionFault? d with
  | some x => simp
  | none =>
    dsimp only
    cases hc : (tidy n d).filetypes.findSome? fun f => r.collision? f n (tidy n d).aliases with
    | some x =>
      have hne : ¬ ∀ f ∈ (tidy n d).filetypes, r.collision? f n (tidy n d).aliases = none := by
        intro h
        rw [List.findSome?_eq_none_iff.2 h] at hc
        cases hc
      simp [hne]
    | none =>
      have hall : ∀ f ∈ (tidy n d).filetypes, r.collision? f n (tidy n d).aliases = none :=
        List.findSome?_eq_none_iff.1 hc
      dsimp only
      rw [Except.ok.injEq, eq_comm]
      exact ⟨fun h => ⟨rfl, hall, h⟩, fun h => h.2.2⟩

/-- **A definition changes the entries of its name and file types**, and no others. -/
theorem lookup?_of_define (h : r.define n d = .ok r') (g m : String) :
    r'.lookup? g m = if g ∈ (tidy n d).filetypes ∧ m = n then some (tidy n d) else r.lookup? g m := by
  obtain ⟨-, -, rfl⟩ := define_eq_ok_iff.1 h
  exact lookup?_foldl_put r _ n _ g m

/-- What definitions of a name preserve, a run of them preserves, wherever it stops. -/
theorem defineEach_induction {P : Registry → Prop}
    (hP : ∀ {r r' : Registry} {d : Definition}, P r → r.define n d = .ok r' → P r')
    (ds : List (String × Definition)) (hr : P r) : P (r.defineEach n ds).1 := by
  induction ds generalizing r with
  | nil => exact hr
  | cons x ds ih =>
    rw [defineEach]
    split
    · next h => exact ih (hP hr h)
    · exact hr

/-- **What definitions preserve, every registration preserves.** -/
theorem register_induction {P : Registry → Prop}
    (hP : ∀ {r r' : Registry} {n : String} {d : Definition}, P r → isWord n = true → r.define n d = .ok r' → P r')
    (n : String) (reg : Registration) (hr : P r) : P (r.register n reg).1 := by
  unfold register
  by_cases hn : isWord n = true
  · rw [if_neg (by simp [hn])]
    cases reg with
    | parse _ | aliases _ | definition _ =>
      dsimp only
      split
      · next h => exact hP hr hn h
      · exact hr
    | filetypes ds =>
      dsimp only
      split
      · exact hr
      · split
        · exact hr
        · exact defineEach_induction (fun hr h => hP hr hn h) ds.entries hr
  · rw [if_pos (by simpa using hn)]
    exact hr

/-- The registries that registrations lead to, whether they fail or not. -/
inductive Reachable : Registry → Prop
  | empty : Reachable {}
  | register {r : Registry} (n : String) (reg : Registration) : Reachable r → Reachable (r.register n reg).1

/-- What holds of no annotations and is preserved by definitions holds of every registry that can be reached. -/
theorem Reachable.induct {P : Registry → Prop} (h0 : P {})
    (hP : ∀ {r r' : Registry} {n : String} {d : Definition}, P r → isWord n = true → r.define n d = .ok r' → P r')
    (h : r.Reachable) : P r := by
  induction h with
  | empty => exact h0
  | register n reg _ ih => exact register_induction hP n reg ih

/-- **A file type sees its own entries, and else those for all files.** -/
theorem get?_list (r : Registry) (f n : String) :
    (r.list f).get? n = (r.lookup? f n <|> r.lookup? defaultFiletype n) := by
  have hentry : ∀ g, ((r.tables.get? g).getD ∅).get? n = r.lookup? g n := by
    intro g
    unfold lookup?
    cases r.tables.get? g <;> rfl
  unfold list
  rw [Table.get?_union, hentry, hentry]

/-- An entry that a file type sees stands in a table that is about files of that type. -/
theorem exists_lookup?_of_list (h : (r.list f).get? n = some d) :
    ∃ g, (g = f ∨ g = defaultFiletype) ∧ r.lookup? g n = some d := by
  rw [get?_list] at h
  cases hf : r.lookup? f n with
  | some x =>
    rw [hf] at h
    obtain rfl := Option.some.inj h
    exact ⟨f, .inl rfl, hf⟩
  | none =>
    rw [hf] at h
    exact ⟨defaultFiletype, .inr rfl, h⟩

theorem shareFiles_of_seen {g g' : String} (hg : g = f ∨ g = defaultFiletype) (hg' : g' = f ∨ g' = defaultFiletype) :
    shareFiles g g' = true := by
  unfold shareFiles
  rcases hg with rfl | rfl <;> rcases hg' with rfl | rfl <;> simp

/-- Asking for a definition is looking into the list. -/
theorem get?_eq_get?_list (r : Registry) (f n : String) : r.get? f n = (r.list f).get? n := by
  rw [get?_list]
  unfold get? getOwn? getDefault?
  by_cases hf : f = defaultFiletype
  · subst hf
    rw [if_pos rfl]
    unfold lookup?
    cases (r.tables.get? defaultFiletype).bind (·.get? n) <;> rfl
  · rw [if_neg hf]
    rfl

theorem mem_names_iff : n ∈ r.names f ↔ (r.get? f n).isSome = true := by
  rw [get?_eq_get?_list]
  exact Table.mem_keys_iff

end DocComments.Registry
