import DocComments.Proofs.Registry.Aliases

/-!
# Lookups agree

A registry can be asked in four ways: for all definitions that a file type sees, for the one of a name, for the names
that aliases stand for, and for the name of any word. The map of aliases leaves out what is a name, and of two names for
one alias it would keep the last. Neither happens, since aliases are unambiguous.

* `of_get?_aliasMap`: what the map of aliases holds, whatever the registry.
* `Sound.get?_aliasMap_iff`: in a sound registry it holds all aliases.
* `Sound.canonical?_eq_some_iff`: the words that a name has.
* `lookups_agree`: **the four ways of asking give one answer.**
-/

namespace DocComments.Registry

variable {r : Registry} {f a n w : String}

/-- An alias stands for a name of the file type, and is no name itself. -/
theorem of_get?_aliasMap (h : (r.aliasMap f).get? a = some n) :
    (∃ d, (r.list f).get? n = some d ∧ a ∈ d.aliases) ∧ r.get? f a = none := by
  have hmem := Table.mem_of_get?_ofList h
  obtain ⟨⟨n', d⟩, hd, hmem⟩ := List.mem_flatMap.1 hmem
  obtain ⟨a', ha, heq⟩ := List.mem_map.1 hmem
  obtain ⟨rfl, rfl⟩ := Prod.mk.inj heq
  obtain ⟨ha, hnot⟩ := List.mem_filter.1 ha
  refine ⟨⟨d, Table.get?_eq_some_iff.2 hd, ha⟩, ?_⟩
  rw [get?_eq_get?_list]
  simpa [Table.contains] using hnot

/-- An alias that is no name has its place in the map. -/
theorem exists_get?_aliasMap {d : Definition} (hd : (r.list f).get? n = some d) (ha : a ∈ d.aliases)
    (hnone : (r.list f).get? a = none) : ∃ m, (r.aliasMap f).get? a = some m := by
  have hkept : a ∈ d.aliases.filter (! (r.list f).contains ·) :=
    List.mem_filter.2 ⟨ha, by rw [Table.contains, hnone]; rfl⟩
  have hkey : a ∈ (r.aliasMap f).keys := by
    refine Table.mem_keys_ofList_iff.2 (List.mem_map.2 ⟨(a, n), ?_, rfl⟩)
    exact List.mem_flatMap.2 ⟨(n, d), Table.get?_eq_some_iff.1 hd, List.mem_map.2 ⟨a, hkept, rfl⟩⟩
  exact Option.isSome_iff_exists.1 (Table.mem_keys_iff.1 hkey)

/-- **The map of aliases leaves out no alias**, and no alias takes the place of another. -/
theorem Sound.get?_aliasMap_iff (hr : r.Sound) :
    (r.aliasMap f).get? a = some n ↔ ∃ d, r.get? f n = some d ∧ a ∈ d.aliases := by
  constructor
  · intro h
    obtain ⟨⟨d, hd, ha⟩, -⟩ := of_get?_aliasMap h
    rw [← get?_eq_get?_list] at hd
    exact ⟨d, hd, ha⟩
  · rintro ⟨d, hd, ha⟩
    rw [get?_eq_get?_list] at hd
    obtain ⟨m, hm⟩ := exists_get?_aliasMap hd ha (hr.alias_not_seen hd ha)
    -- the map has some name for the alias, and an alias belongs to one name
    obtain ⟨⟨e, he, hae⟩, -⟩ := of_get?_aliasMap hm
    obtain rfl : n = m := hr.eq_of_alias hd he ha hae
    exact hm

/-- **A name stands for itself and for its aliases**, and for no other word. -/
theorem Sound.canonical?_eq_some_iff (hr : r.Sound) :
    r.canonical? f w = some n ↔
      (w = n ∧ (r.get? f n).isSome = true) ∨ ∃ d, r.get? f n = some d ∧ w ∈ d.aliases := by
  unfold canonical?
  by_cases hw : (r.get? f w).isSome = true
  · -- a name that is seen is no alias
    have hnot : ¬ ∃ d, r.get? f n = some d ∧ w ∈ d.aliases := by
      rintro ⟨d, hd, ha⟩
      rw [get?_eq_get?_list] at hd hw
      rw [hr.alias_not_seen hd ha] at hw
      cases hw
    rw [if_pos hw, Option.some.injEq]
    constructor
    · rintro rfl
      exact .inl ⟨rfl, hw⟩
    · intro h
      exact (h.resolve_right hnot).1
  · rw [if_neg hw, hr.get?_aliasMap_iff]
    constructor
    · exact .inr
    · rintro (⟨rfl, hsome⟩ | h)
      · exact absurd hsome hw
      · exact h

/-- What a word stands for stands for itself. -/
theorem Sound.canonical?_of_canonical? (hr : r.Sound) (h : r.canonical? f w = some n) : r.canonical? f n = some n := by
  refine hr.canonical?_eq_some_iff.2 (.inl ⟨rfl, ?_⟩)
  rcases hr.canonical?_eq_some_iff.1 h with ⟨-, hsome⟩ | ⟨d, hd, -⟩
  · exact hsome
  · rw [hd]
    rfl

/-- **The lookups of a registry agree**, for each file type. The list holds the definitions that names are answered
with. The map of aliases holds the aliases of all names that are seen, and nothing else. A word stands for a name
exactly when it is the name or one of its aliases, and a name stands for itself. -/
theorem lookups_agree (hr : r.Reachable) (filetype : String) :
    (∀ n d, (n, d) ∈ (r.list filetype).entries ↔ r.get? filetype n = some d) ∧
      (∀ a n, (a, n) ∈ (r.aliasMap filetype).entries ↔
        n ∈ r.names filetype ∧ ∃ d, r.get? filetype n = some d ∧ a ∈ d.aliases) ∧
      (∀ x n, r.canonical? filetype x = some n ↔
        (x = n ∧ (r.get? filetype n).isSome = true) ∨ ∃ d, r.get? filetype n = some d ∧ x ∈ d.aliases) ∧
      ∀ x n, r.canonical? filetype x = some n → r.canonical? filetype n = some n := by
  have hs := hr.sound
  refine ⟨?_, ?_, fun x n => hs.canonical?_eq_some_iff, fun x n => hs.canonical?_of_canonical?⟩
  · intro n d
    rw [get?_eq_get?_list, Table.get?_eq_some_iff]
  · intro a n
    rw [← Table.get?_eq_some_iff, hs.get?_aliasMap_iff]
    constructor
    · rintro ⟨d, hd, ha⟩
      exact ⟨mem_names_iff.2 (Option.isSome_iff_exists.2 ⟨d, hd⟩), d, hd, ha⟩
    · rintro ⟨-, h⟩
      exact h

/-- An annotation for all files is registered again for one file type, with another alias, and then once more in vain.
In files of that type the new alias counts, and elsewhere the old one. -/
theorem lookups_agree_overlay :
    ∃ r : Registry, r.Reachable ∧
      r.canonical? "css" "p" = some "arg" ∧ ("p", "arg") ∈ (r.aliasMap "css").entries ∧
      r.canonical? "js" "param" = some "arg" ∧ ("param", "arg") ∈ (r.aliasMap "js").entries ∧
      r.canonical? "css" "param" ≠ some "arg" := by
  let r := (((({} : Registry).register "arg" (.aliases ["param"])).1.register "arg"
    (.definition { aliases := ["p"], filetypes := ["css"] })).1.register "arg" (.aliases [""])).1
  have hr : r.Reachable := .register _ _ (.register _ _ (.register _ _ .empty))
  obtain ⟨-, hcss, hcss', -⟩ := lookups_agree hr "css"
  obtain ⟨-, hjs, hjs', -⟩ := lookups_agree hr "js"
  have hp : ∃ d, r.get? "css" "arg" = some d ∧ "p" ∈ d.aliases := ⟨_, rfl, by decide +kernel⟩
  have hparam : ∃ d, r.get? "js" "arg" = some d ∧ "param" ∈ d.aliases := ⟨_, rfl, by decide +kernel⟩
  refine ⟨r, hr, (hcss' _ _).2 (.inr hp), (hcss _ _).2 ⟨by decide +kernel, hp⟩, (hjs' _ _).2 (.inr hparam),
    (hjs _ _).2 ⟨by decide +kernel, hparam⟩, fun h => ?_⟩
  rcases (hcss' _ _).1 h with ⟨h, -⟩ | ⟨d, hd, hmem⟩
  · exact absurd h (by decide)
  · obtain rfl := Option.some.inj ((show r.get? "css" "arg" = some _ from rfl).symm.trans hd)
    exact absurd hmem (by decide +kernel)

end DocComments.Registry
