import Mathlib.Data.List.Perm.Subperm
import DocComments.Proofs.Style.Listing
import DocComments.Proofs.Style.Resolve

/-!
# Chains of comment styles

A style may extend another one, which may extend a third one, and so on. Whether such a chain comes back to where it
was is told by counting its steps against the number of styles. This is exact: a chain that ends has no language twice,
so it is not longer than that number, and a chain that comes back never ends.

* `Style.Chain`: the chain of a language, as a relation.
* `Style.Chain.nodup`: **a chain that ends has no language twice.**
* `flatten_eq_ok_iff`: the styles with a chain are those whose gaps are filled.
* `Style.Gives`: the grammars of a language, each part from the first style of its chain that sets it.
* `resolve_chains`: **which styles resolve, and what to.**
-/

namespace DocComments

namespace Style

variable {raw : Table Style} {l : String} {s : Style} {c c' : List (String × Style)}

/-- The chain of a language: its style, the style of the language that this one extends, and so on up to one that
extends no language or the fallback. -/
inductive Chain (raw : Table Style) : String → List (String × Style) → Prop
  | last {l : String} {s : Style} (hs : raw.get? l = some s) (he : s.extend = none ∨ s.extend = some fallback) :
      Chain raw l [(l, s)]
  | next {l t : String} {s : Style} {c : List (String × Style)} (hs : raw.get? l = some s) (he : s.extend = some t)
      (hne : t ≠ fallback) (h : Chain raw t c) : Chain raw l ((l, s) :: c)

theorem Chain.exists_get? (h : Chain raw l c) : ∃ s, raw.get? l = some s := by
  cases h with
  | last hs => exact ⟨_, hs⟩
  | next hs => exact ⟨_, hs⟩

/-- A language has one chain at most. -/
theorem Chain.eq (h : Chain raw l c) (h' : Chain raw l c') : c = c' := by
  induction h generalizing c' with
  | last hs he =>
    cases h' with
    | last hs' _ => rw [Option.some.inj (hs.symm.trans hs')]
    | next hs' he' hne _ =>
      obtain rfl := Option.some.inj (hs.symm.trans hs')
      rcases he with he | he
      · rw [he] at he'
        cases he'
      · exact absurd (Option.some.inj (he'.symm.trans he)) hne
  | next hs he hne _ ih =>
    cases h' with
    | last hs' he' =>
      obtain rfl := Option.some.inj (hs.symm.trans hs')
      rcases he' with he' | he'
      · rw [he'] at he
        cases he
      · exact absurd (Option.some.inj (he.symm.trans he')) hne
    | next hs' he' _ h' =>
      obtain rfl := Option.some.inj (hs.symm.trans hs')
      obtain rfl := Option.some.inj (he.symm.trans he')
      rw [ih h']

/-- From each of its languages on, a chain is the chain of that language. -/
theorem Chain.exists_of_mem (h : Chain raw l c) {t : String} (ht : t ∈ c.map (·.1)) :
    ∃ c', Chain raw t c' ∧ c'.length ≤ c.length := by
  induction h with
  | @last l s hs he =>
    obtain rfl : t = l := by simpa using ht
    exact ⟨_, .last hs he, le_rfl⟩
  | @next l t' s c hs he hne h ih =>
    rcases List.mem_cons.1 ht with rfl | ht
    · exact ⟨_, .next hs he hne h, le_rfl⟩
    · obtain ⟨c', hc', hle⟩ := ih ht
      exact ⟨c', hc', Nat.le_succ_of_le hle⟩

/-- **A chain that ends has no language twice.** -/
theorem Chain.nodup (h : Chain raw l c) : (c.map (·.1)).Nodup := by
  induction h with
  | last => exact List.nodup_singleton _
  | @next l t s c hs he hne h ih =>
    refine List.nodup_cons.2 ⟨fun hmem => ?_, ih⟩
    -- the chain from the second place on would be the whole chain, and shorter
    obtain ⟨c', hc', hle⟩ := h.exists_of_mem hmem
    rw [hc'.eq (.next hs he hne h), List.length_cons] at hle
    omega

theorem Chain.get? (h : Chain raw l c) : ∀ x ∈ c, raw.get? x.1 = some x.2 := by
  induction h with
  | last hs _ =>
    intro x hx
    rw [List.mem_singleton.1 hx]
    exact hs
  | next hs _ _ _ ih =>
    intro x hx
    rcases List.mem_cons.1 hx with rfl | hx
    · exact hs
    · exact ih x hx

/-- **A chain is not longer than there are styles.** -/
theorem Chain.length_le_size (h : Chain raw l c) : c.length ≤ raw.size := by
  have hsub : c.map (·.1) ⊆ raw.keys := by
    intro t ht
    obtain ⟨x, hx, rfl⟩ := List.mem_map.1 ht
    exact Table.mem_keys_iff.2 (Option.isSome_iff_exists.2 ⟨_, h.get? x hx⟩)
  have hle := (h.nodup.subperm hsub).length_le
  rwa [List.length_map, Table.keys, List.length_map] at hle

/-- The style that a chain comes to, with the gaps of each style filled from the next one. -/
def filledAlong (c : List (String × Style)) (fallback : Style) : Style :=
  c.foldr (fun x base => x.2.filledFrom base) fallback

/-- **Of each part, the first style that sets it decides.** -/
theorem part_filledAlong {α : Type} (part : Style → Option α)
    (hpart : ∀ s base : Style, part (s.filledFrom base) = (part s).or (part base)) (c : List (String × Style))
    (fallback : Style) : part (filledAlong c fallback) = (c.map (·.2) ++ [fallback]).findSome? part := by
  induction c with
  | nil => cases h : part fallback <;> simp [filledAlong, h]
  | cons x c ih =>
    have hcons : filledAlong (x :: c) fallback = x.2.filledFrom (filledAlong c fallback) := rfl
    rw [hcons, hpart, ih, List.map_cons, List.cons_append, List.findSome?_cons]
    cases part x.2 <;> rfl

/-- The markers that a style has for a kind of comment. -/
def markers (s : Style) : CommentKind → Option Markers
  | .header => s.header
  | .body => s.body

/-- The grammar of which each part comes from the first style that sets it, with the empty parts taken out. -/
def firstGrammar? (styles : List Style) (kind : CommentKind) : Option Grammar := do
  let sigil ← styles.findSome? Style.sigil
  let m ← styles.findSome? (·.markers kind)
  some <| Grammar.cleaned
    { single := m.single, opening := m.opening, closing := m.closing,
      sigil := sigil, inlineSigil := styles.findSome? Style.inlineSigil }

/-- The language has the grammars that the styles give, the first style first, and both can be scanned. -/
structure Gives (styles : List Style) (L : Language) : Prop where
  grammar : ∀ kind, firstGrammar? styles kind = some (L.grammar kind)
  valid : ∀ kind, (L.grammar kind).fault? = none

theorem Gives.scans {styles : List Style} {L : Language} (h : Gives styles L) (kind : CommentKind) (blankLines : Nat)
    (mode : CommentKind) : ∃ s, Scanner.ofGrammar (L.grammar kind) blankLines mode = .ok s := by
  have hcleaned : (L.grammar kind).cleaned = L.grammar kind := by
    have hg := h.grammar kind
    unfold firstGrammar? at hg
    obtain ⟨sigil, -, hg⟩ := Option.bind_eq_some_iff.1 hg
    obtain ⟨m, -, hg⟩ := Option.bind_eq_some_iff.1 hg
    rw [← Option.some.inj hg, Grammar.cleaned_cleaned]
  exact ⟨_, Scanner.ofGrammar_of_scannable ⟨hcleaned, h.valid kind⟩ blankLines mode⟩

end Style

namespace LanguageTable

open Style (Chain filledAlong part_filledAlong Gives firstGrammar?)

variable {raw user : Table Style} {base s x : Style} {l : String} {c : List (String × Style)} {budget : Nat}
variable {L : Language}

/-! ### Following a chain -/

/-- A chain that is not longer than the budget is followed to its end. -/
theorem flatten_of_chain (h : Chain raw l c) (hs : raw.get? l = some s) (hbudget : c.length ≤ budget) :
    flatten raw base budget l s = .ok (filledAlong c base) := by
  induction h generalizing s budget with
  | last hs' he =>
    obtain rfl := Option.some.inj (hs.symm.trans hs')
    obtain ⟨budget, rfl⟩ := Nat.exists_eq_add_of_le' hbudget
    rw [flatten]
    rcases he with he | he
    · rw [he]
      rfl
    · rw [he]
      exact if_pos rfl
  | next hs' he hne h ih =>
    obtain rfl := Option.some.inj (hs.symm.trans hs')
    obtain ⟨budget, rfl⟩ := Nat.exists_eq_add_of_le' (Nat.one_le_of_lt hbudget)
    obtain ⟨s', hs''⟩ := h.exists_get?
    rw [flatten, he]
    dsimp only
    rw [if_neg hne, hs'']
    dsimp only
    rw [ih hs'' (Nat.le_of_succ_le_succ hbudget)]
    rfl

theorem chain_of_flatten (hs : raw.get? l = some s) (h : flatten raw base budget l s = .ok x) :
    ∃ c, Chain raw l c ∧ x = filledAlong c base := by
  fun_induction flatten raw base budget l s generalizing x with
  | case1 budget l s he => exact ⟨_, .last hs (.inl he), (Except.ok.inj h).symm⟩
  | case2 l s t he => cases h
  | case3 l s budget he => exact ⟨_, .last hs (.inr he), (Except.ok.inj h).symm⟩
  | case4 l s t he budget hne hnone => cases h
  | case5 l s t he budget hne next hnext ih =>
    cases hf : flatten raw base budget t next with
    | error f =>
      rw [hf] at h
      cases h
    | ok y =>
      rw [hf] at h
      obtain ⟨c, hc, rfl⟩ := ih hnext hf
      exact ⟨_, .next hs he hne hc, (Except.ok.inj h).symm⟩

/-- **Counting steps finds the loops.** With one step per style, what is filled along a chain is what has a chain. -/
theorem flatten_eq_ok_iff (hs : raw.get? l = some s) :
    flatten raw base raw.size l s = .ok x ↔ ∃ c, Chain raw l c ∧ x = filledAlong c base := by
  constructor
  · exact chain_of_flatten hs
  · rintro ⟨c, hc, rfl⟩
    exact flatten_of_chain hc hs hc.length_le_size

/-! ### The grammars of a language -/

theorem grammar_eq_ok_iff {kind : CommentKind} {m : Option Markers} {g : Grammar} :
    grammar l s kind m = .ok g ↔
      (∃ m', m = some m' ∧ g = Grammar.cleaned
        { single := m'.single, opening := m'.opening, closing := m'.closing,
          sigil := s.sigil.getD "@", inlineSigil := s.inlineSigil }) ∧
      g.fault? = none := by
  unfold grammar
  cases m with
  | none => simp
  | some m =>
    dsimp only
    split
    · next f hf =>
      constructor
      · intro h
        cases h
      · rintro ⟨⟨m', hm, rfl⟩, hg⟩
        obtain rfl := Option.some.inj hm
        rw [hf] at hg
        cases hg
    · next hf =>
      constructor
      · intro h
        obtain rfl := Except.ok.inj h
        exact ⟨⟨m, rfl, rfl⟩, hf⟩
      · rintro ⟨⟨m', hm, rfl⟩, -⟩
        obtain rfl := Option.some.inj hm
        rfl

theorem build_eq_ok_iff :
    build l s = .ok L ↔
      grammar l s .header s.header = .ok L.header ∧ grammar l s .body s.body = .ok L.body := by
  constructor
  · intro h
    obtain ⟨header, hh, h⟩ := exists_of_bind_eq_ok h
    obtain ⟨body, hb, h⟩ := exists_of_bind_eq_ok h
    obtain rfl := Except.ok.inj h
    exact ⟨hh, hb⟩
  · rintro ⟨hh, hb⟩
    unfold build
    rw [hh, hb]
    rfl

theorem grammar_filledAlong (hbase : base.sigil.isSome) {kind : CommentKind} {g : Grammar} :
    grammar l (filledAlong c base) kind ((filledAlong c base).markers kind) = .ok g ↔
      firstGrammar? (c.map (·.2) ++ [base]) kind = some g ∧ g.fault? = none := by
  have hsigil : (filledAlong c base).sigil = (c.map (·.2) ++ [base]).findSome? Style.sigil :=
    part_filledAlong Style.sigil (fun _ _ => Option.orElse_eq_or) c base
  have hinline : (filledAlong c base).inlineSigil = (c.map (·.2) ++ [base]).findSome? Style.inlineSigil :=
    part_filledAlong Style.inlineSigil (fun _ _ => Option.orElse_eq_or) c base
  have hmarkers : (filledAlong c base).markers kind = (c.map (·.2) ++ [base]).findSome? (·.markers kind) := by
    refine part_filledAlong (·.markers kind) (fun _ _ => ?_) c base
    cases kind <;> exact Option.orElse_eq_or
  obtain ⟨sigil, hfirst⟩ : ∃ sigil, (c.map (·.2) ++ [base]).findSome? Style.sigil = some sigil := by
    obtain ⟨sigil, hb⟩ := Option.isSome_iff_exists.1 hbase
    rw [← Option.isSome_iff_exists, List.findSome?_append]
    simp [hb]
  rw [grammar_eq_ok_iff, hsigil, hinline, hmarkers, hfirst, firstGrammar?, hfirst]
  cases (c.map (·.2) ++ [base]).findSome? (·.markers kind) with
  | none => simp
  | some m => simp [@eq_comm _ g]

/-- **What a chain comes to.** Each part is from the first style that sets it. -/
theorem build_filledAlong (hbase : base.sigil.isSome) :
    build l (filledAlong c base) = .ok L ↔ Gives (c.map (·.2) ++ [base]) L := by
  rw [build_eq_ok_iff]
  constructor
  · rintro ⟨hh, hb⟩
    have hh := (grammar_filledAlong hbase).1 hh
    have hb := (grammar_filledAlong hbase).1 hb
    exact ⟨fun | .header => hh.1 | .body => hb.1, fun | .header => hh.2 | .body => hb.2⟩
  · intro h
    exact ⟨(grammar_filledAlong hbase).2 ⟨h.grammar .header, h.valid .header⟩,
      (grammar_filledAlong hbase).2 ⟨h.grammar .body, h.valid .body⟩⟩

/-- What a language resolves to, among the raw styles over the style of the fallback. -/
def Resolves (raw : Table Style) (base : Style) (l : String) (L : Language) : Prop :=
  ∃ c, Chain raw l c ∧ Gives (c.map (·.2) ++ [base]) L

theorem resolves_iff (hbase : base.sigil.isSome) (hs : raw.get? l = some s) :
    Resolves raw base l L ↔ ∃ x, flatten raw base raw.size l s = .ok x ∧ build l x = .ok L := by
  simp only [flatten_eq_ok_iff hs]
  constructor
  · rintro ⟨c, hc, hL⟩
    exact ⟨_, ⟨c, hc, rfl⟩, (build_filledAlong hbase).2 hL⟩
  · rintro ⟨_, ⟨c, hc, rfl⟩, hL⟩
    exact ⟨c, hc, (build_filledAlong hbase).1 hL⟩

/-! ### All languages -/

variable {es : List (String × Style)} {ls : List (String × Language)}

theorem buildAll_cons_eq_ok_iff :
    buildAll raw base ((l, s) :: es) = .ok ls ↔
      ∃ L rest, (∃ x, flatten raw base raw.size l s = .ok x ∧ build l x = .ok L) ∧
        buildAll raw base es = .ok rest ∧ ls = (l, L) :: rest := by
  constructor
  · intro h
    obtain ⟨x, hx, h⟩ := exists_of_bind_eq_ok h
    obtain ⟨L, hL, h⟩ := exists_of_bind_eq_ok h
    obtain ⟨rest, hrest, h⟩ := exists_of_bind_eq_ok h
    exact ⟨L, rest, ⟨x, hx, hL⟩, hrest, (Except.ok.inj h).symm⟩
  · rintro ⟨L, rest, ⟨x, hx, hL⟩, hrest, rfl⟩
    rw [buildAll, hx]
    dsimp only [bind, Except.bind]
    rw [hL]
    dsimp only [bind, Except.bind]
    rw [hrest]
    rfl

/-- What is built, one language after the other, is what each language resolves to. -/
theorem of_buildAll (hbase : base.sigil.isSome) (hes : ∀ e ∈ es, raw.get? e.1 = some e.2)
    (h : buildAll raw base es = .ok ls) :
    ls.map (·.1) = es.map (·.1) ∧ ∀ x ∈ ls, Resolves raw base x.1 x.2 := by
  induction es generalizing ls with
  | nil =>
    obtain rfl := Except.ok.inj h
    exact ⟨rfl, fun x hx => absurd hx List.not_mem_nil⟩
  | cons e es ih =>
    obtain ⟨l, s⟩ := e
    obtain ⟨he, hes⟩ := List.forall_mem_cons.1 hes
    obtain ⟨L, rest, hL, hrest, rfl⟩ := buildAll_cons_eq_ok_iff.1 h
    obtain ⟨hkeys, hall⟩ := ih hes hrest
    refine ⟨by rw [List.map_cons, List.map_cons, hkeys], List.forall_mem_cons.2 ⟨?_, hall⟩⟩
    exact (resolves_iff hbase he).2 hL

theorem exists_buildAll (hbase : base.sigil.isSome) (hes : ∀ e ∈ es, raw.get? e.1 = some e.2)
    (h : ∀ e ∈ es, ∃ L, Resolves raw base e.1 L) : ∃ ls, buildAll raw base es = .ok ls := by
  induction es with
  | nil => exact ⟨[], rfl⟩
  | cons e es ih =>
    obtain ⟨l, s⟩ := e
    obtain ⟨he, hes⟩ := List.forall_mem_cons.1 hes
    obtain ⟨⟨L, hL⟩, h⟩ := List.forall_mem_cons.1 h
    obtain ⟨rest, hrest⟩ := ih hes h
    exact ⟨_, buildAll_cons_eq_ok_iff.2 ⟨L, rest, (resolves_iff hbase he).1 hL, hrest, rfl⟩⟩

/-! ### The styles of a user over the built-in ones -/

theorem exists_get?_overlay (user : Table Style) :
    ∃ base, (overlay user).get? Style.fallback = some base ∧ base.extend = none ∧ base.sigil.isSome := by
  obtain ⟨b, hb, hextend, hsigil⟩ := exists_get?_expand_builtin
  rw [get?_overlay, hb]
  cases (Style.expand user).get? Style.fallback with
  | none => exact ⟨b, rfl, hextend, hsigil⟩
  | some s =>
    refine ⟨_, rfl, rfl, ?_⟩
    obtain ⟨sigil, hsigil⟩ := Option.isSome_iff_exists.1 hsigil
    simp [laid, Style.filledFrom, hsigil]

variable {t : LanguageTable}

theorem resolve_eq_ok_iff {base : Style} (h : (overlay user).get? Style.fallback = some base) :
    resolve user = .ok t ↔
      build Style.fallback base = .ok t.fallback ∧
      ∃ ls, buildAll (overlay user) base ((overlay user).entries.filter (·.1 ≠ Style.fallback)) = .ok ls ∧
        t.languages = .ofList ls := by
  have hget : ((overlay user).get? Style.fallback).getD {} = base := by rw [h]; rfl
  constructor
  · intro ht
    obtain ⟨L, hL, ht⟩ := exists_of_bind_eq_ok ht
    obtain ⟨ls, hls, ht⟩ := exists_of_bind_eq_ok ht
    obtain rfl := Except.ok.inj ht
    rw [hget] at hL hls
    exact ⟨hL, ls, hls, rfl⟩
  · rintro ⟨hL, ls, hls, hlanguages⟩
    obtain ⟨_, _⟩ := t
    unfold resolve
    dsimp only at hL hlanguages ⊢
    rw [hget, hL, hls, hlanguages]
    rfl

theorem mem_others {l : String} {s : Style} :
    (l, s) ∈ raw.entries.filter (·.1 ≠ Style.fallback) ↔ raw.get? l = some s ∧ l ≠ Style.fallback := by
  rw [List.mem_filter, Table.get?_eq_some_iff, decide_eq_true_iff]

/-- A resolved table has each language but the fallback, as what it resolves to. -/
theorem languages_of_resolve (hfallback : (overlay user).get? Style.fallback = some base) (hbase : base.sigil.isSome)
    (ht : resolve user = .ok t) :
    (∀ l, t.languages.contains l = true ↔ (overlay user).contains l = true ∧ l ≠ Style.fallback) ∧
      ∀ l L, t.languages.get? l = some L → Resolves (overlay user) base l L := by
  obtain ⟨-, ls, hls, hlanguages⟩ := (resolve_eq_ok_iff hfallback).1 ht
  obtain ⟨hkeys, hall⟩ := of_buildAll hbase (fun e he => (mem_others.1 he).1) hls
  constructor
  · intro l
    rw [← Table.mem_keys_iff, hlanguages, Table.mem_keys_ofList_iff, hkeys, Table.contains, Option.isSome_iff_exists]
    constructor
    · intro hl
      obtain ⟨⟨_, s⟩, he, rfl⟩ := List.mem_map.1 hl
      exact ⟨⟨s, (mem_others.1 he).1⟩, (mem_others.1 he).2⟩
    · rintro ⟨⟨s, hs⟩, hne⟩
      exact List.mem_map_of_mem (f := (·.1)) (mem_others.2 ⟨hs, hne⟩)
  · intro l L hL
    rw [hlanguages] at hL
    exact hall _ (Table.mem_of_get?_ofList hL)

/-- **Which styles resolve, and what to.** The style of a language is the one that is listed for it last, among those of
the user or else the built-in ones, only that the user's style of the fallback keeps what it does not set and extends none.
The styles resolve
exactly when every language has a chain, in which no language stands twice, and what its chain comes to can be scanned.
Then the table has just these languages, and each has, part by part, what the first style of its chain sets. -/
theorem resolve_chains (user : Table Style) :
    (∀ l s, (overlay user).get? l = some s ↔ Style.Overlaid user l s) ∧
    ∃ base, (overlay user).get? Style.fallback = some base ∧ base.extend = none ∧
      ((∃ t, resolve user = .ok t) ↔
        (∃ L, Gives [base] L) ∧
        ∀ l, (overlay user).contains l = true → l ≠ Style.fallback →
          ∃ c, Chain (overlay user) l c ∧ (c.map (·.1)).Nodup ∧ ∃ L, Gives (c.map (·.2) ++ [base]) L) ∧
      ∀ t, resolve user = .ok t →
        Gives [base] t.fallback ∧
        (∀ l, t.languages.contains l = true ↔ (overlay user).contains l = true ∧ l ≠ Style.fallback) ∧
        (∀ l c L, t.languages.get? l = some L → Chain (overlay user) l c → Gives (c.map (·.2) ++ [base]) L) ∧
        ∀ L, (L = t.fallback ∨ ∃ l, t.languages.get? l = some L) → ∀ kind blankLines mode,
          ∃ s, Scanner.ofGrammar (L.grammar kind) blankLines mode = .ok s := by
  obtain ⟨base, hfallback, hextend, hbase⟩ := exists_get?_overlay user
  refine ⟨fun _ _ => get?_overlay_iff, base, hfallback, hextend, ⟨?_, ?_⟩, ?_⟩
  · rintro ⟨t, ht⟩
    obtain ⟨hcontains, hall⟩ := languages_of_resolve hfallback hbase ht
    obtain ⟨hL, -⟩ := (resolve_eq_ok_iff hfallback).1 ht
    refine ⟨⟨_, (build_filledAlong (c := []) hbase).1 hL⟩, fun l hl hne => ?_⟩
    obtain ⟨L, hL⟩ := Option.isSome_iff_exists.1 ((hcontains l).2 ⟨hl, hne⟩)
    obtain ⟨c, hc, hL⟩ := hall l L hL
    exact ⟨c, hc, hc.nodup, L, hL⟩
  · rintro ⟨⟨L, hL⟩, hall⟩
    have hes : ∀ e ∈ (overlay user).entries.filter (·.1 ≠ Style.fallback),
        ∃ L, Resolves (overlay user) base e.1 L := by
      intro e he
      obtain ⟨hs, hne⟩ := mem_others.1 he
      obtain ⟨c, hc, -, L, hL⟩ := hall e.1 (Option.isSome_iff_exists.2 ⟨_, hs⟩) hne
      exact ⟨L, c, hc, hL⟩
    obtain ⟨ls, hls⟩ := exists_buildAll hbase (fun e he => (mem_others.1 he).1) hes
    have hL := (build_filledAlong (c := []) (l := Style.fallback) hbase).2 hL
    exact ⟨⟨L, .ofList ls⟩, (resolve_eq_ok_iff hfallback).2 ⟨hL, ls, hls, rfl⟩⟩
  · intro t ht
    obtain ⟨hcontains, hall⟩ := languages_of_resolve hfallback hbase ht
    obtain ⟨hfall, -⟩ := (resolve_eq_ok_iff hfallback).1 ht
    have hfall := (build_filledAlong (c := []) hbase).1 hfall
    refine ⟨hfall, hcontains, fun l c L hL hc => ?_, fun L hL kind blankLines mode => ?_⟩
    · obtain ⟨c', hc', hL⟩ := hall l L hL
      rwa [hc.eq hc']
    · rcases hL with rfl | ⟨l, hL⟩
      · exact hfall.scans kind blankLines mode
      · obtain ⟨c, -, hL⟩ := hall l L hL
        exact hL.scans kind blankLines mode

/-- A style with a sigil of its own, and all else from another language. -/
def slashed : Style := { sigil := some "\\", extend := some "css" }

def starred : Style := { header := some (Style.framed "/***" "*" "***/"), body := some (Style.framed "/**" "*" "**/") }

/-- Styles of a user, of which two are for one language. -/
def twiceListed : Table Style := .ofList [("ts , py,", slashed), ("py", { extend := some "rb" })]

theorem resolve_chains_listed :
    Style.Overlaid twiceListed "py" slashed ∧ (overlay twiceListed).get? "py" = some slashed ∧
    ∃ t L, resolve twiceListed = .ok t ∧ t.languages.get? "py" = some L ∧
      L.body = { single := some "*", opening := some "/**", closing := some "**/", sigil := "\\",
                 inlineSigil := some "#" } := by
  obtain ⟨hraw, base, hbase, -, -, hgives⟩ := resolve_chains twiceListed
  have hlists : Style.Lists "ts , py," "py" := by
    refine ⟨by decide, by simp, by simp; decide, by simp; decide, "ts ,".toList, [' '], [], [','], ?_⟩
    exact ⟨by simp, by simp, by simp; decide, by simp, by simp⟩
  have hpy : Style.Overlaid twiceListed "py" slashed :=
    .user ⟨[("py", { extend := some "rb" })], "ts , py,", [], by decide +kernel, hlists, by simp⟩ (by decide)
  have hget := (hraw "py" slashed).2 hpy
  refine ⟨hpy, hget, ?_⟩
  obtain ⟨t, ht⟩ : ∃ t, resolve twiceListed = .ok t := by
    have hok : (resolve twiceListed).toOption.isSome = true := by decide +kernel
    cases h : resolve twiceListed with
    | error f =>
      rw [h] at hok
      cases hok
    | ok t => exact ⟨t, rfl⟩
  obtain ⟨-, hcontains, hchains, -⟩ := hgives t ht
  have hcontained : (overlay twiceListed).contains "py" = true := by
    rw [Table.contains, hget]
    rfl
  obtain ⟨L, hL⟩ := Option.isSome_iff_exists.1 ((hcontains "py").2 ⟨hcontained, by decide⟩)
  have hcss : (overlay twiceListed).get? "css" = some starred := by decide +kernel
  have hbody := (hchains "py" _ L hL (.next hget rfl (by decide) (.last hcss (.inl rfl)))).grammar .body
  -- the inline sigil is set by the fallback only
  have hinline : ((overlay twiceListed).get? Style.fallback).bind Style.inlineSigil = some "#" := by decide +kernel
  rw [hbase, Option.bind_some] at hinline
  have hfirst : firstGrammar? [slashed, starred, base] .body =
      some { single := some "*", opening := some "/**", closing := some "**/", sigil := "\\",
             inlineSigil := some "#" } := by
    simp [firstGrammar?, slashed, starred, Style.markers, Style.framed, hinline, Grammar.cleaned, Grammar.nonEmpty]
  exact ⟨t, L, ht, hL, Option.some.inj (hbody.symm.trans hfirst)⟩

end LanguageTable

end DocComments
