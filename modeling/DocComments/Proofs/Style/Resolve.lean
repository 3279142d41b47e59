import DocComments.Proofs.Table.Lookup
import DocComments.Proofs.Token.Scan
import DocComments.Style.Resolve

/-!
# What comment styles resolve to

* `scannable_of_resolve`: **every grammar of a table of languages can be scanned.**
* `resolve_builtin`, `languages_builtin`: the built-in styles resolve, and their table has what a run over it finds.
-/

namespace DocComments

/-- A step that is followed by another one has succeeded when both have. -/
theorem exists_of_bind_eq_ok {ε α β : Type} {x : Except ε α} {f : α → Except ε β} {b : β} (h : x >>= f = .ok b) :
    ∃ a, x = .ok a ∧ f a = .ok b := by
  cases x with
  | error e => cases h
  | ok a => exact ⟨a, rfl, h⟩

/-- Both grammars can be scanned. -/
structure Language.Scannable (l : Language) : Prop where
  header : l.header.Scannable
  body : l.body.Scannable

theorem Grammar.nonEmpty_nonEmpty (m : Option String) : nonEmpty (nonEmpty m) = nonEmpty m := by
  unfold nonEmpty
  rw [Option.filter_filter]
  simp only [Bool.and_self]

theorem Grammar.cleaned_cleaned (g : Grammar) : g.cleaned.cleaned = g.cleaned := by
  simp only [cleaned, nonEmpty_nonEmpty]

namespace LanguageTable

variable {name : String} {style : Style} {raw user : Table Style} {t : LanguageTable}

theorem scannable_of_grammar {kind : CommentKind} {m : Option Markers} {g : Grammar}
    (h : grammar name style kind m = .ok g) : g.Scannable := by
  unfold grammar at h
  cases m with
  | none => cases h
  | some m =>
    dsimp only at h
    split at h
    · cases h
    · next hf =>
      obtain rfl := Except.ok.inj h
      exact ⟨Grammar.cleaned_cleaned _, hf⟩

theorem scannable_of_build {l : Language} (h : build name style = .ok l) : l.Scannable := by
  obtain ⟨header, hh, h⟩ := exists_of_bind_eq_ok h
  obtain ⟨body, hb, h⟩ := exists_of_bind_eq_ok h
  obtain rfl := Except.ok.inj h
  exact ⟨scannable_of_grammar hh, scannable_of_grammar hb⟩

/-- What is built, one language after the other, can be scanned. -/
theorem scannable_of_buildAll {fallback : Style} {es : List (String × Style)} {ls : List (String × Language)}
    (h : buildAll raw fallback es = .ok ls) : ∀ x ∈ ls, x.2.Scannable := by
  induction es generalizing ls with
  | nil =>
    obtain rfl := Except.ok.inj h
    intro x hx
    cases hx
  | cons e es ih =>
    obtain ⟨style, -, h⟩ := exists_of_bind_eq_ok h
    obtain ⟨l, hl, h⟩ := exists_of_bind_eq_ok h
    obtain ⟨rest, hrest, h⟩ := exists_of_bind_eq_ok h
    obtain rfl := Except.ok.inj h
    intro x hx
    rcases List.mem_cons.1 hx with rfl | hx
    · exact scannable_of_build hl
    · exact ih hrest x hx

/-- **Every grammar of a table of languages can be scanned.** -/
theorem scannable_of_resolve (h : resolve user = .ok t) (filetype : String) : (t.forFiletype filetype).Scannable := by
  obtain ⟨base, hbase, h⟩ := exists_of_bind_eq_ok h
  obtain ⟨ls, hls, h⟩ := exists_of_bind_eq_ok h
  obtain rfl := Except.ok.inj h
  unfold forFiletype
  cases hg : (Table.ofList ls).get? filetype with
  | none => exact scannable_of_build hbase
  | some l => exact scannable_of_buildAll hls _ (Table.mem_of_get?_ofList hg)

/-- The built-in styles resolve, to a table that has what a run over it finds. -/
theorem resolve_builtin {q : LanguageTable → Bool} (h : (resolve ∅).toOption.any q = true) :
    ∃ t, resolve ∅ = .ok t ∧ q t = true := by
  cases ht : resolve ∅ with
  | error f =>
    rw [ht] at h
    cases h
  | ok t =>
    rw [ht] at h
    exact ⟨t, rfl, h⟩

/-- What a run over the built-in table finds of each language in it holds for all file types. -/
theorem languages_builtin {q : Language → Bool}
    (h : (resolve ∅).toOption.any (fun t => q t.fallback && t.languages.entries.all (q ·.2)) = true) :
    ∃ t, resolve ∅ = .ok t ∧ ∀ filetype, q (t.forFiletype filetype) = true := by
  obtain ⟨t, ht, h⟩ := resolve_builtin h
  refine ⟨t, ht, fun filetype => ?_⟩
  obtain ⟨hfallback, hall⟩ := Bool.and_eq_true_iff.1 h
  unfold forFiletype
  cases hget : t.languages.get? filetype with
  | none => exact hfallback
  | some l => exact List.all_eq_true.1 hall _ (Table.get?_eq_some_iff.1 hget)

/-- The language of the fallback style. -/
def slashes : Language where
  header := { single := some "///", opening := some "////", closing := some "////", inlineSigil := some "#" }
  body := { single := some "///", inlineSigil := some "#" }

theorem forFiletype_js : ∃ t, resolve ∅ = .ok t ∧ t.forFiletype "js" = slashes := by
  obtain ⟨t, ht, h⟩ := resolve_builtin (q := fun t => t.forFiletype "js" = slashes) (by decide +kernel)
  exact ⟨t, ht, of_decide_eq_true h⟩

end LanguageTable

end DocComments
