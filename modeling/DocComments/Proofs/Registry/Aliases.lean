import DocComments.Proofs.Registry.Register

/-!
# Aliases are unambiguous

Tables of several file types lie over each other, and a name may be registered again for some of them only. What
keeps an alias unambiguous is a relation between any two entries whose tables are about common files, whichever of
the two was there first.

* `Sound`: the relation, and that names and aliases are words.
* `Reachable.sound`: every registry that can be reached is sound.
* `aliases_unambiguous`: **no alias is a name, and none stands for two names**, in what a file type sees.
-/

namespace DocComments.Registry

variable {r r' : Registry} {f g n m : String} {d e : Definition}

/-- Names and aliases are words, and those of two annotations for common files do not meet. -/
structure Sound (r : Registry) : Prop where
  name : ∀ {f n d}, r.lookup? f n = some d → isWord n = true
  aliases : ∀ {f n d}, r.lookup? f n = some d → ∀ a ∈ d.aliases, isWord a = true
  /-- A name is no alias of itself. -/
  self : ∀ {f n d}, r.lookup? f n = some d → n ∉ d.aliases
  apart : ∀ {f g n m d e}, shareFiles f g = true → n ≠ m → r.lookup? f n = some d → r.lookup? g m = some e →
    m ∉ d.aliases ∧ ∀ a ∈ d.aliases, a ∉ e.aliases

theorem sound_empty : Sound {} := by
  refine ⟨fun h => ?_, fun h => ?_, fun h => ?_, fun _ _ h => ?_⟩ <;> cases h

/-- An entry behind a definition is the new one, or it was there before. -/
theorem lookup?_define_cases (h : r.define n d = .ok r') (he : r'.lookup? g m = some e) :
    (g ∈ (tidy n d).filetypes ∧ m = n ∧ e = tidy n d) ∨ r.lookup? g m = some e := by
  rw [lookup?_of_define h] at he
  split at he
  · next hgm => exact .inl ⟨hgm.1, hgm.2, (Option.some.inj he).symm⟩
  · exact .inr he

/-- **A definition keeps a registry sound**, since it ran into nothing. -/
theorem Sound.define (hr : r.Sound) (hn : isWord n = true) (h : r.define n d = .ok r') : r'.Sound := by
  obtain ⟨hfault, hclear, -⟩ := define_eq_ok_iff.1 h
  refine ⟨?_, ?_, ?_, ?_⟩
  · intro g m e he
    rcases lookup?_define_cases h he with ⟨-, rfl, -⟩ | he
    · exact hn
    · exact hr.name he
  · intro g m e he a ha
    rcases lookup?_define_cases h he with ⟨-, rfl, rfl⟩ | he
    · exact isWord_of_fault?_eq_none hfault (mem_tidy_aliases.1 ha).1
    · exact hr.aliases he a ha
  · intro g m e he ha
    rcases lookup?_define_cases h he with ⟨-, rfl, rfl⟩ | he
    · exact (mem_tidy_aliases.1 ha).2 rfl
    · exact hr.self he ha
  · intro f' g' n' m' d' e' hs hne hd he
    -- of the two entries at most one is new, since they have two names
    rcases lookup?_define_cases h hd with ⟨hf, rfl, rfl⟩ | hd
    · rcases lookup?_define_cases h he with ⟨-, rfl, -⟩ | he
      · exact absurd rfl hne
      · obtain ⟨hname, halias, -⟩ := collision?_eq_none_iff.1 (hclear f' hf) g' m' e' hs hne.symm he
        exact ⟨hname, halias⟩
    · rcases lookup?_define_cases h he with ⟨hg, rfl, rfl⟩ | he
      · rw [shareFiles_comm] at hs
        obtain ⟨-, halias, hself⟩ := collision?_eq_none_iff.1 (hclear g' hg) f' n' d' hs hne hd
        exact ⟨hself, fun a ha ha' => halias a ha' ha⟩
      · exact hr.apart hs hne hd he

theorem Reachable.sound (h : r.Reachable) : r.Sound :=
  Reachable.induct sound_empty (fun hr hn hd => hr.define hn hd) h

/-- In what a file type sees, no alias is a name. -/
theorem Sound.alias_not_seen (hr : r.Sound) (hd : (r.list f).get? n = some d) {a : String} (ha : a ∈ d.aliases) :
    (r.list f).get? a = none := by
  by_contra hsome
  obtain ⟨e, he⟩ := Option.ne_none_iff_exists'.1 hsome
  obtain ⟨g, hg, hgd⟩ := exists_lookup?_of_list hd
  obtain ⟨g', hg', hge⟩ := exists_lookup?_of_list he
  by_cases hna : n = a
  · subst hna
    exact hr.self hgd ha
  · exact (hr.apart (shareFiles_of_seen hg hg') hna hgd hge).1 ha

/-- In what a file type sees, an alias belongs to one name. -/
theorem Sound.eq_of_alias (hr : r.Sound) (hd : (r.list f).get? n = some d) (he : (r.list f).get? m = some e)
    {a : String} (had : a ∈ d.aliases) (hae : a ∈ e.aliases) : n = m := by
  by_contra hne
  obtain ⟨g, hg, hgd⟩ := exists_lookup?_of_list hd
  obtain ⟨g', hg', hge⟩ := exists_lookup?_of_list he
  exact (hr.apart (shareFiles_of_seen hg hg') hne hgd hge).2 a had hae

theorem isWord_iff {s : String} : isWord s = true ↔ s ≠ "" ∧ ∀ c ∈ s.toList, Text.isSpace c = false := by
  simp [isWord, Text.hasSpace]

/-- **Aliases are unambiguous.** For each file type, no alias of an annotation is the name of any annotation, and no
alias belongs to two names. All names and aliases of all tables are words. -/
theorem aliases_unambiguous (hr : r.Reachable) (filetype : String) :
    (∀ x ∈ (r.list filetype).entries, ∀ a ∈ x.2.aliases, a ∉ r.names filetype) ∧
      (∀ x ∈ (r.list filetype).entries, ∀ y ∈ (r.list filetype).entries, ∀ a ∈ x.2.aliases, a ∈ y.2.aliases →
        x.1 = y.1) ∧
      ∀ t ∈ r.tables.entries, ∀ x ∈ t.2.entries, ∀ w ∈ x.1 :: x.2.aliases,
        w ≠ "" ∧ ∀ c ∈ w.toList, Text.isSpace c = false := by
  have hs := hr.sound
  refine ⟨?_, ?_, ?_⟩
  · rintro ⟨n, d⟩ hx a ha hname
    have hnone := hs.alias_not_seen (Table.get?_eq_some_iff.2 hx) ha
    rw [names, Table.mem_keys_iff, Table.contains, hnone] at hname
    cases hname
  · rintro ⟨n, d⟩ hx ⟨m, e⟩ hy a had hae
    exact hs.eq_of_alias (Table.get?_eq_some_iff.2 hx) (Table.get?_eq_some_iff.2 hy) had hae
  · rintro ⟨f, t⟩ ht ⟨n, d⟩ hx w hw
    have hentry : r.lookup? f n = some d := lookup?_eq_some_iff.2 ⟨t, ht, hx⟩
    rw [← isWord_iff]
    rcases List.mem_cons.1 hw with rfl | hw
    · exact hs.name hentry
    · exact hs.aliases hentry w hw

/-- A registration for two file types fails at the second, whose alias belongs to an annotation for all files. The
first one stays, and its alias too is no name. -/
theorem aliases_unambiguous_halfway :
    ∃ r : Registry, r.Reachable ∧ r.names "css" = ["arg", "note"] ∧ r.names "js" = ["arg"] ∧
      "n" ∉ r.names "css" ∧
      ∀ x ∈ (r.list "css").entries, ∀ y ∈ (r.list "css").entries, ∀ a ∈ x.2.aliases, a ∈ y.2.aliases → x.1 = y.1 := by
  let r := ((({} : Registry).register "arg" (.aliases ["param"])).1.register "note"
    (.filetypes (.ofList [("css", { aliases := ["n"] }), ("js", { aliases := ["param"] })]))).1
  have hr : r.Reachable := .register _ _ (.register _ _ .empty)
  have hnote : ∃ x ∈ (r.list "css").entries, "n" ∈ x.2.aliases := by decide +kernel
  obtain ⟨hnames, hone, -⟩ := aliases_unambiguous hr "css"
  obtain ⟨x, hx, hn⟩ := hnote
  exact ⟨r, hr, by decide +kernel, by decide +kernel, hnames x hx "n" hn, hone⟩

end DocComments.Registry
