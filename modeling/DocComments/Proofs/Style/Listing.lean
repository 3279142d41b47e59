import DocComments.Proofs.Table.Lookup
import DocComments.Proofs.Text.Lines
import DocComments.Style.Resolve

/-!
# The languages that a style is listed for

Styles are kept under keys such as `rb, py`. What a key lists is said here by the characters of the key, and which style
counts for a language by the place of its key among the others.

* `Style.Lists`: a language stands in a key, from comma to comma and without the white space around it.
* `Style.Listed`: the style of the last key that lists a language.
* `get?_expand_iff`: **each language has the style that is listed for it.**
* `Style.Overlaid`: the style of a language, among those of a user over the built-in ones.
* `get?_overlay_iff`: **the styles that are resolved.**
-/

namespace DocComments

namespace Style

variable {styles : Table Style} {key l : String} {s : Style}

/-- The key lists the language: it stands there from a comma or end of the key to the next, with no more than white space
around it. -/
structure Lists (key l : String) : Prop where
  nonempty : l ≠ ""
  single : ',' ∉ l.toList
  start : ∀ c ∈ l.toList.head?, Text.isSpace c = false
  stop : ∀ c ∈ l.toList.getLast?, Text.isSpace c = false
  place : ∃ before lead trail behind, key.toList = before ++ lead ++ l.toList ++ trail ++ behind ∧
    (∀ c ∈ before.getLast?, c = ',') ∧ (∀ c ∈ lead, Text.isSpace c = true) ∧
    (∀ c ∈ trail, Text.isSpace c = true) ∧ ∀ c ∈ behind.head?, c = ','

theorem mem_languages_iff : l ∈ languages key ↔ Lists key l := by
  have hcomma : Text.isSpace ',' = false := by decide
  unfold languages
  rw [List.mem_filter, List.mem_map]
  constructor
  · rintro ⟨⟨piece, hpiece, htrim⟩, hne⟩
    have hne : l ≠ "" := by simpa using hne
    obtain ⟨cs, hcs, rfl⟩ := List.mem_map.1 hpiece
    obtain ⟨hnot, before, behind, hkey, hbefore, hbehind⟩ := Text.mem_splitOn_iff.1 hcs
    obtain ⟨hstart, hstop, lead, trail, hitem, hlead, htrail⟩ := (Text.trim_eq_iff hne).1 htrim
    rw [String.toList_ofList] at hitem
    refine ⟨hne, fun hmem => hnot ?_, hstart, hstop, before, lead, trail, behind, ?_, hbefore, hlead, htrail, hbehind⟩
    · rw [hitem]
      exact List.mem_append_left _ (List.mem_append_right _ hmem)
    · rw [hkey, hitem]
      simp
  · rintro ⟨hne, hnot, hstart, hstop, before, lead, trail, behind, hkey, hbefore, hlead, htrail, hbehind⟩
    refine ⟨⟨String.ofList (lead ++ l.toList ++ trail), List.mem_map_of_mem ?_, ?_⟩, by simpa using hne⟩
    · refine Text.mem_splitOn_iff.2 ⟨?_, before, behind, by rw [hkey]; simp, hbefore, hbehind⟩
      intro hmem
      rcases List.mem_append.1 hmem with hmem | hmem
      · rcases List.mem_append.1 hmem with hmem | hmem
        · rw [hlead _ hmem] at hcomma
          cases hcomma
        · exact hnot hmem
      · rw [htrail _ hmem] at hcomma
        cases hcomma
    · exact (Text.trim_eq_iff hne).2 ⟨hstart, hstop, lead, trail, String.toList_ofList, hlead, htrail⟩

/-- The style that is listed for a language: the one of the last key, in the order of the keys, that lists it. -/
def Listed (styles : Table Style) (l : String) (s : Style) : Prop :=
  ∃ before key after, styles.entries = before ++ (key, s) :: after ∧ Lists key l ∧ ∀ e ∈ after, ¬ Lists e.1 l

theorem find?_map_pair (ls : List String) (s : Style) :
    Entries.find? l (ls.map (·, s)) = if l ∈ ls then some s else none := by
  induction ls with
  | nil => rfl
  | cons k ls ih =>
    rw [List.map_cons, Entries.find?, ih]
    by_cases h : l = k
    · simp [h]
    · simp [h]

theorem get?_expand (styles : Table Style) (l : String) :
    (expand styles).get? l = (styles.entries.reverse.find? (l ∈ languages ·.1)).map (·.2) := by
  have hentries : ∀ es : List (String × Style),
      Entries.find? l (es.flatMap fun e => (languages e.1).map (·, e.2)).reverse =
        (es.reverse.find? (l ∈ languages ·.1)).map (·.2) := by
    intro es
    induction es with
    | nil => rfl
    | cons e es ih =>
      rw [List.flatMap_cons, List.reverse_append, Entries.find?_append, ih, List.reverse_cons, List.find?_append,
        ← List.map_reverse, find?_map_pair]
      cases es.reverse.find? (l ∈ languages ·.1) with
      | some x => rfl
      | none => by_cases h : l ∈ languages e.1 <;> simp [h]
  have hfind : (expand styles).get? l =
      (Entries.find? l (styles.entries.flatMap fun e => (languages e.1).map (·, e.2)).reverse <|> none) :=
    Table.get?_insertAll _ _
  rw [hfind, hentries]
  cases (styles.entries.reverse.find? (l ∈ languages ·.1)).map (·.2) <;> rfl

/-- **Each language has the style that is listed for it.** -/
theorem get?_expand_iff : (expand styles).get? l = some s ↔ Listed styles l s := by
  rw [get?_expand, Option.map_eq_some_iff]
  constructor
  · rintro ⟨⟨key, s⟩, hfind, rfl⟩
    obtain ⟨hkey, after, before, hsplit, hafter⟩ := List.find?_eq_some_iff_append.1 hfind
    refine ⟨before.reverse, key, after.reverse, ?_, mem_languages_iff.1 (by simpa using hkey), fun e he hlists => ?_⟩
    · rw [← List.reverse_reverse styles.entries, hsplit]
      simp
    · have hnot := hafter e (List.mem_reverse.1 he)
      simp [mem_languages_iff.2 hlists] at hnot
  · rintro ⟨before, key, after, hentries, hkey, hafter⟩
    refine ⟨(key, s), List.find?_eq_some_iff_append.2 ⟨?_, after.reverse, before.reverse, ?_, fun e he => ?_⟩, rfl⟩
    · simpa using mem_languages_iff.2 hkey
    · rw [hentries]
      simp
    · have hnot := hafter e (List.mem_reverse.1 he)
      simpa [mem_languages_iff] using hnot

/-- The style of a language, among those of a user over the built-in ones. The user's style of the fallback only sets what
it has, and extends none. -/
inductive Overlaid (user : Table Style) : String → Style → Prop
  | user {l : String} {s : Style} (h : Listed user l s) (hne : l ≠ fallback) : Overlaid user l s
  | fallback {s b : Style} (h : Listed user fallback s) (hb : Listed builtin fallback b) :
      Overlaid user fallback
        { sigil := s.sigil.or b.sigil, inlineSigil := s.inlineSigil.or b.inlineSigil, header := s.header.or b.header,
          body := s.body.or b.body, extend := none }
  | builtin {l : String} {s : Style} (h : Listed builtin l s) (hnone : ∀ s', ¬ Listed user l s') : Overlaid user l s

end Style

namespace LanguageTable

open Style (Listed Overlaid get?_expand_iff)

variable {user : Table Style} {l : String} {s : Style}

/-- The style of a user for a language. The one for the fallback is laid over the style that the fallback has. -/
def laid (base : Option Style) (l : String) (s : Style) : Style :=
  if l = Style.fallback then base.elim s s.filledFrom else s

theorem overlay_eq (user : Table Style) :
    overlay user = (Style.expand user).entries.foldl
      (fun raw e => raw.insert e.1 (laid (raw.get? Style.fallback) e.1 e.2)) (Style.expand Style.builtin) := by
  unfold overlay
  congr
  funext raw ⟨l, s⟩
  unfold laid
  cases raw.get? Style.fallback <;> rfl

theorem get?_foldl_laid {es : List (String × Style)} (hu : Entries.Unique es) (raw : Table Style) :
    (es.foldl (fun raw e => raw.insert e.1 (laid (raw.get? Style.fallback) e.1 e.2)) raw).get? l =
      ((Entries.find? l es).map (laid (raw.get? Style.fallback) l)).or (raw.get? l) := by
  induction es generalizing raw with
  | nil => rfl
  | cons e es ih =>
    obtain ⟨hhd, htl⟩ := List.pairwise_cons.1 hu
    rw [List.foldl_cons, ih htl, Entries.find?, Table.get?_insert, Table.get?_insert]
    by_cases hl : l = e.1
    · have hnone : Entries.find? l es = none := by
        by_contra hsome
        obtain ⟨v, hv⟩ := Option.ne_none_iff_exists'.1 hsome
        exact hhd _ (Entries.mem_of_find? hv) hl.symm
      rw [hnone, if_pos hl, if_pos hl, hl]
      rfl
    · rw [if_neg hl, if_neg hl]
      -- only the fallback is laid over anything, and it is not the entry that is put in here
      have hsame : laid (if Style.fallback = e.1 then some (laid (raw.get? Style.fallback) e.1 e.2)
          else raw.get? Style.fallback) l = laid (raw.get? Style.fallback) l := by
        funext s
        unfold laid
        by_cases hf : l = Style.fallback
        · rw [if_pos hf, if_pos hf, if_neg (hf ▸ hl)]
        · rw [if_neg hf, if_neg hf]
      rw [hsame]

theorem get?_overlay (user : Table Style) (l : String) :
    (overlay user).get? l =
      (((Style.expand user).get? l).map (laid ((Style.expand Style.builtin).get? Style.fallback) l)).or
        ((Style.expand Style.builtin).get? l) := by
  rw [overlay_eq, get?_foldl_laid (Style.expand user).ordered.unique]
  rfl

theorem exists_get?_expand_builtin :
    ∃ b, (Style.expand Style.builtin).get? Style.fallback = some b ∧ b.extend = none ∧ b.sigil.isSome := by
  have hbuiltin : ((Style.expand Style.builtin).get? Style.fallback).any
      (fun s => s.extend = none ∧ s.sigil.isSome) = true := by decide +kernel
  obtain ⟨b, hb, hparts⟩ := (Option.any_eq_true ..).1 hbuiltin
  exact ⟨b, hb, of_decide_eq_true hparts⟩

theorem filledFrom_eq (s b : Style) :
    s.filledFrom b =
      { sigil := s.sigil.or b.sigil, inlineSigil := s.inlineSigil.or b.inlineSigil, header := s.header.or b.header,
        body := s.body.or b.body, extend := none } := by
  simp only [Style.filledFrom, Option.orElse_eq_orElse, Option.orElse_eq_or]

/-- **The styles that are resolved** are those of the user over the built-in ones. -/
theorem get?_overlay_iff : (overlay user).get? l = some s ↔ Overlaid user l s := by
  rw [get?_overlay]
  cases hu : (Style.expand user).get? l with
  | none =>
    have hnone : ∀ s', ¬ Listed user l s' := by
      intro s' h
      rw [get?_expand_iff.2 h] at hu
      cases hu
    constructor
    · exact fun h => .builtin (get?_expand_iff.1 h) hnone
    · rintro (⟨h, -⟩ | ⟨h, -⟩ | ⟨h, -⟩)
      · exact absurd h (hnone _)
      · exact absurd h (hnone _)
      · exact get?_expand_iff.2 h
  | some u =>
    have hlisted := get?_expand_iff.1 hu
    have heq : ∀ {s'}, Listed user l s' → s' = u := by
      intro s' h
      rw [get?_expand_iff.2 h] at hu
      exact Option.some.inj hu
    rw [Option.map_some, Option.some_or, Option.some.injEq]
    by_cases hl : l = Style.fallback
    · subst hl
      obtain ⟨b, hb, -⟩ := exists_get?_expand_builtin
      have hlaid : laid ((Style.expand Style.builtin).get? Style.fallback) Style.fallback u = u.filledFrom b := by
        rw [laid, if_pos rfl, hb]
        rfl
      rw [hlaid, filledFrom_eq]
      constructor
      · rintro rfl
        exact .fallback hlisted (get?_expand_iff.1 hb)
      · rintro (⟨-, hne⟩ | ⟨h, hb'⟩ | ⟨-, hnone⟩)
        · exact absurd rfl hne
        · rw [heq h, Option.some.inj (hb.symm.trans (get?_expand_iff.2 hb'))]
        · exact absurd hlisted (hnone u)
    · rw [laid, if_neg hl]
      constructor
      · rintro rfl
        exact .user hlisted hl
      · rintro (⟨h, -⟩ | - | ⟨-, hnone⟩)
        · exact (heq h).symm
        · exact absurd rfl hl
        · exact absurd hlisted (hnone u)

end LanguageTable

end DocComments
