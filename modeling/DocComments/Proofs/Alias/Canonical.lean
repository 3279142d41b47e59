import DocComments.Proofs.Alias.HeadLine
import DocComments.Proofs.Registry.Lookups
import DocComments.Proofs.Style.Resolve

/-!
# Renaming and the registry

The registry decides about whole words. Renaming takes the longest alias that a word starts with and that ends at a word
boundary, so the two may differ where a word has other characters than those of words.

* `Respelled.eq_self_iff`, `Respelled.eq_of_leads_self`: which words stay, and which aliases give way to their names.
* `isUsual_builtin`: what the built-in languages have in common.
* `rename_head`: **how a head line is renamed**, and when that is what the registry says.
-/

namespace DocComments

variable {aliases : Table String} {a n w w' : String}

/-- A word stays as it is exactly when no alias leads it, if no alias stands for itself. -/
theorem Respelled.eq_self_iff (h : Respelled aliases w w') (hne : ∀ a n, aliases.get? a = some n → n ≠ a) :
    w' = w ↔ ∀ a n, aliases.get? a = some n → ¬ Leads a w := by
  cases h with
  | kept h => exact ⟨fun _ => h, fun _ => rfl⟩
  | @renamed a n rest ha hl hmax =>
    refine ⟨fun heq => ?_, fun h => absurd hl (h a n ha)⟩
    have hlist := congrArg String.toList heq
    rw [String.toList_append, String.toList_append] at hlist
    exact absurd (String.toList_injective (List.append_cancel_right hlist)) (hne a n ha)

/-- An alias that leads itself gives way to its name. -/
theorem Respelled.eq_of_leads_self (h : Respelled aliases w w') (hw : aliases.get? w = some n) (hl : Leads w w) :
    w' = n := by
  cases h with
  | kept h => exact absurd hl (h _ n hw)
  | @renamed a n' rest ha _ hmax =>
    -- the whole word is an alias that leads it, so no shorter one was taken
    have hle := hmax _ n hw hl
    rw [String.length_append] at hle
    obtain rfl : rest = "" := String.length_eq_zero_iff.1 (by omega)
    rw [String.append_empty] at hw ⊢
    exact Option.some.inj (ha.symm.trans hw)

/-- Among the characters of words there is no boundary. -/
theorem Leads.eq_of_isWord (hl : Leads a w) (ha : a ≠ "") (hw : ∀ x ∈ w.toList, Text.isWord x = true) : a = w := by
  obtain ⟨rest, rfl, hb⟩ := hl
  rw [String.toList_append] at hw
  obtain ⟨x, hx⟩ : ∃ x, a.toList.getLast? = some x :=
    ⟨_, List.getLast?_eq_some_getLast (mt String.toList_eq_nil_iff.1 ha)⟩
  have hword := hw x (List.mem_append_left _ (List.mem_of_getLast? hx))
  cases hrest : rest.toList with
  | nil => rw [String.toList_eq_nil_iff.1 hrest, String.append_empty]
  | cons y ys =>
    have hword' := hw y (List.mem_append_right _ (by rw [hrest]; exact List.mem_cons_self))
    rw [hx, hrest] at hb
    simp [Text.isBoundary, hword, hword'] at hb

theorem leads_self (hne : w ≠ "") (hw : ∀ x ∈ w.toList, Text.isWord x = true) : Leads w w := by
  obtain ⟨x, hx⟩ : ∃ x, w.toList.getLast? = some x :=
    ⟨_, List.getLast?_eq_some_getLast (mt String.toList_eq_nil_iff.1 hne)⟩
  refine ⟨"", by rw [String.append_empty], ?_⟩
  rw [hx]
  simp [Text.isBoundary, hw x (List.mem_of_getLast? hx)]

/-- The markers that comments start with. -/
def Grammar.markers (g : Grammar) : List String :=
  [g.opening, g.single].filterMap id

def Language.markers (l : Language) : List String :=
  [l.header, l.body].flatMap Grammar.markers

/-- Annotations start with `@`, and markers are words without it. -/
def Language.isUsual (l : Language) : Bool :=
  l.header.sigil = "@" && l.body.sigil = "@" &&
    l.markers.all fun m => Registry.isWord m && m.toList.all (· ≠ '@')

theorem Language.isUsual_iff {l : Language} :
    l.isUsual = true ↔ l.header.sigil = "@" ∧ l.body.sigil = "@" ∧
      ∀ m ∈ l.markers, Registry.isWord m = true ∧ ∀ x ∈ m.toList, x ≠ '@' := by
  simp only [isUsual, Bool.and_eq_true, decide_eq_true_eq, List.all_eq_true, and_assoc]

/-- The built-in styles are usual in all languages. -/
theorem LanguageTable.isUsual_builtin :
    ∃ t, resolve ∅ = .ok t ∧ ∀ filetype, (t.forFiletype filetype).isUsual = true :=
  languages_builtin (by decide +kernel)

/-- The renamer of a usual language and of words is usual. -/
theorem Renamer.usual_ofLanguage {l : Language} (hl : l.isUsual = true)
    (hwords : ∀ {a n}, aliases.get? a = some n → Registry.isWord a = true) : (ofLanguage l aliases).Usual := by
  obtain ⟨hheader, hbody, hmarkers⟩ := Language.isUsual_iff.1 hl
  refine ⟨proper_ofLanguage l aliases, ?_, ?_, ?_, pairwise_byLength _, hwords⟩
  · unfold ofLanguage
    rw [hheader, hbody]
    -- both grammars have one sigil, which is listed once
    have hsigils : LongestFirst ["@"] ["@", "@"] := by decide +kernel
    exact hsigils.byLength_eq
  · intro w hw hat
    exact absurd rfl ((hmarkers _ (mem_byLength.1 hw).2).2 '@' (by rwa [String.toList_ofList]))
  · intro n
    rw [← Option.isSome_iff_exists, ← Table.contains, ← Table.mem_keys_iff]
    exact mem_byLength

/-- A line with a comment marker, and behind it the sigil and a word. -/
def Language.headLine (l : Language) (marker word tail : String) : String :=
  marker ++ " " ++ l.body.sigil ++ word ++ tail

/-- **A head line of a usual language is renamed by respelling its word.** -/
theorem Renamer.rename_headLine {l : Language} (hl : l.isUsual = true)
    (hwords : ∀ {a n}, aliases.get? a = some n → Registry.isWord a = true) {m tail : String}
    (hm : m ∈ l.body.markers) (hw : Registry.isWord w = true) (htail : ∀ x ∈ tail.toList, x ≠ '@' ∧ x ≠ '\n')
    (hspaced : ∀ x ∈ tail.toList.head?, x = ' ') :
    ∃ w', (ofLanguage l aliases).rename (l.headLine m w tail) = l.headLine m w' tail ∧ Respelled aliases w w' := by
  have hr := usual_ofLanguage hl hwords
  obtain ⟨-, hsigil, hmarkers⟩ := Language.isUsual_iff.1 hl
  have hmem : m ∈ l.markers := List.mem_flatMap.2 ⟨l.body, by simp, hm⟩
  obtain ⟨hword, hat⟩ := hmarkers m hmem
  obtain ⟨hne, hsolid⟩ := Registry.isWord_iff.1 hword
  let h : Head :=
    { marker := m.toList, word := w.toList, tail := tail.toList
      marker_plain := fun x hx => ⟨hat x hx, hsolid x hx⟩
      word_solid := (Registry.isWord_iff.1 hw).2
      tail_plain := htail
      tail_spaced := hspaced }
  have hmarker : h.marker ∈ (ofLanguage l aliases).markers :=
    mem_byLength.2 ⟨mt String.toList_eq_nil_iff.1 hne, by rwa [String.ofList_toList]⟩
  have hline : ∀ w, l.headLine m w tail = String.ofList (h.marker ++ [' '] ++ ['@']) ++ w ++ String.ofList h.tail := by
    intro w
    rw [Language.headLine, hsigil, String.ofList_append, String.ofList_append, String.ofList_toList,
      String.ofList_toList]
  have hw' : String.ofList h.word = w := String.ofList_toList
  have htext : l.headLine m w tail = String.ofList h.text := by rw [hline, h.ofList_text, hw']
  obtain ⟨w', hrename, hrespelled⟩ := rename_text hr h hmarker
  exact ⟨w', by rw [htext, hrename, hline], hw' ▸ hrespelled⟩

namespace Registry

variable {r : Registry} {f : String}

theorem Reachable.isWord_alias (hr : r.Reachable) (h : (r.aliasMap f).get? a = some n) : isWord a = true := by
  obtain ⟨⟨d, hd, ha⟩, -⟩ := of_get?_aliasMap h
  obtain ⟨g, -, hg⟩ := exists_lookup?_of_list hd
  exact hr.sound.aliases hg a ha

theorem ne_of_get?_aliasMap (h : (r.aliasMap f).get? a = some n) : n ≠ a := by
  rintro rfl
  obtain ⟨⟨d, hd, -⟩, hnone⟩ := of_get?_aliasMap h
  rw [get?_eq_get?_list, hd] at hnone
  cases hnone

theorem canonical?_of_alias (h : (r.aliasMap f).get? w = some n) : r.canonical? f w = some n := by
  have hnone := (of_get?_aliasMap h).2
  rw [canonical?, hnone, h]
  rfl

theorem getD_canonical? (h : (r.aliasMap f).get? w = none) : (r.canonical? f w).getD w = w := by
  rw [canonical?, h]
  split <;> rfl

/-- What follows the word of a head line, when it is not the end. -/
theorem plain_tail {rest tail : String} (hsigil : Text.contains rest "@" = false) (hbreak : '\n' ∉ rest.toList)
    (h : tail = "" ∨ tail = " " ++ rest) :
    (∀ x ∈ tail.toList, x ≠ '@' ∧ x ≠ '\n') ∧ ∀ x ∈ tail.toList.head?, x = ' ' := by
  have hat : '@' ∉ rest.toList := by
    intro hmem
    obtain ⟨s, u, hsu⟩ := List.append_of_mem hmem
    have hcontains : Text.contains rest "@" = true := Text.contains_iff.2 ⟨s, u, by rw [hsu]; simp⟩
    rw [hsigil] at hcontains
    cases hcontains
  rcases h with rfl | rfl
  · simp
  · rw [String.toList_append]
    refine ⟨fun x hx => ?_, fun x hx => (Option.some.inj hx).symm⟩
    rcases List.mem_append.1 hx with hx | hx
    · obtain rfl : x = ' ' := List.mem_singleton.1 hx
      decide
    · exact ⟨fun h => hat (h ▸ hx), fun h => hbreak (h ▸ hx)⟩

theorem eq_canonical_iff (h : Respelled (r.aliasMap f) w w') (hw : (r.aliasMap f).get? w = none) :
    w' = (r.canonical? f w).getD w ↔ ∀ a n, (r.aliasMap f).get? a = some n → ¬ Leads a w := by
  rw [getD_canonical? hw]
  exact h.eq_self_iff fun _ _ => ne_of_get?_aliasMap

theorem eq_canonical_of_leads_self (h : Respelled (r.aliasMap f) w w') (hw : (r.aliasMap f).contains w = true)
    (hl : Leads w w) : w' = (r.canonical? f w).getD w := by
  obtain ⟨n, hn⟩ := Option.isSome_iff_exists.1 hw
  rw [canonical?_of_alias hn, h.eq_of_leads_self hn hl]
  rfl

/-- **A word of word characters is respelled as the registry says.** -/
theorem eq_canonical_of_isWord (hr : r.Reachable) (h : Respelled (r.aliasMap f) w w') (hne : w ≠ "")
    (hw : ∀ x ∈ w.toList, Text.isWord x = true) : w' = (r.canonical? f w).getD w := by
  cases hget : (r.aliasMap f).get? w with
  | some n => exact eq_canonical_of_leads_self h (Option.isSome_iff_exists.2 ⟨n, hget⟩) (leads_self hne hw)
  | none =>
    -- an alias that leads the word would be the word
    refine (eq_canonical_iff h hget).2 fun a n ha hl => ?_
    obtain rfl := hl.eq_of_isWord (isWord_iff.1 (hr.isWord_alias ha)).1 hw
    rw [hget] at ha
    cases ha

/-- **How a head line is renamed.** Its word is respelled and all else stays. This is what the registry says of a word
that is no alias exactly when no alias leads it, of an alias that ends in a character of words, and of every word
without other characters. -/
theorem rename_head (hr : r.Reachable) :
    ∃ t, LanguageTable.resolve ∅ = .ok t ∧
      ∀ f, ∀ m ∈ (t.forFiletype f).body.markers, ∀ w rest tail, isWord w = true →
        Text.contains rest (t.forFiletype f).body.sigil = false → '\n' ∉ rest.toList →
        (tail = "" ∨ tail = " " ++ rest) →
        ∃ w', (Renamer.ofLanguage (t.forFiletype f) (r.aliasMap f)).rename ((t.forFiletype f).headLine m w tail) =
            (t.forFiletype f).headLine m w' tail ∧
          Respelled (r.aliasMap f) w w' ∧
          ((r.aliasMap f).get? w = none →
            (w' = (r.canonical? f w).getD w ↔ ∀ a n, (r.aliasMap f).get? a = some n → ¬ Leads a w)) ∧
          ((r.aliasMap f).contains w = true → Leads w w → w' = (r.canonical? f w).getD w) ∧
          ((∀ x ∈ w.toList, Text.isWord x = true) → w' = (r.canonical? f w).getD w) := by
  obtain ⟨t, ht, husual⟩ := LanguageTable.isUsual_builtin
  refine ⟨t, ht, fun f m hm w rest tail hw hsigil hbreak htail => ?_⟩
  rw [(Language.isUsual_iff.1 (husual f)).2.1] at hsigil
  obtain ⟨hplain, hspaced⟩ := plain_tail hsigil hbreak htail
  obtain ⟨w', hrename, hrespelled⟩ :=
    Renamer.rename_headLine (husual f) (fun h => hr.isWord_alias h) hm hw hplain hspaced
  exact ⟨w', hrename, hrespelled, eq_canonical_iff hrespelled, eq_canonical_of_leads_self hrespelled,
    eq_canonical_of_isWord hr hrespelled (isWord_iff.1 hw).1⟩

/-- In a comment between delimiters an alias gives way to its name, though another alias is the start of it. -/
theorem rename_head_param :
    ∃ (r : Registry) (t : LanguageTable), r.Reachable ∧ LanguageTable.resolve ∅ = .ok t ∧
      (Renamer.ofLanguage (t.forFiletype "css") (r.aliasMap "css")).rename "/** @param a" = "/** @arg a" := by
  let r := ((({} : Registry).register "arg" (.aliases ["param"])).1.register "parent" (.aliases ["par"])).1
  have hr : r.Reachable := .register _ _ (.register _ _ .empty)
  obtain ⟨t, ht, hall⟩ := rename_head hr
  obtain ⟨t', ht', hcss⟩ := LanguageTable.resolve_builtin
    (q := fun t => (t.forFiletype "css").body.markers.contains "/**" && (t.forFiletype "css").body.sigil = "@")
    (by decide +kernel)
  obtain rfl := Except.ok.inj (ht.symm.trans ht')
  obtain ⟨hmarker, hsigil⟩ := Bool.and_eq_true_iff.1 hcss
  have hsigil : (t.forFiletype "css").body.sigil = "@" := of_decide_eq_true hsigil
  obtain ⟨w', hrename, -, -, -, hword⟩ := hall "css" "/**" (List.contains_iff_mem.1 hmarker) "param" "a" " a"
    (by decide +kernel) (by rw [hsigil]; decide +kernel) (by decide +kernel) (.inr rfl)
  have hcanonical : r.canonical? "css" "param" = some "arg" := by decide +kernel
  rw [hword (List.all_eq_true.1 (by decide +kernel)), hcanonical] at hrename
  refine ⟨r, t, hr, ht, ?_⟩
  unfold Language.headLine at hrename
  rw [hsigil] at hrename
  exact hrename

/-- The name `raw-code` is altered on its head line, since `raw` is an alias and ends there at a word boundary. -/
theorem rename_head_raw_code :
    ∃ (r : Registry) (t : LanguageTable), r.Reachable ∧ LanguageTable.resolve ∅ = .ok t ∧
      r.canonical? "js" "raw-code" = some "raw-code" ∧
      (Renamer.ofLanguage (t.forFiletype "js") (r.aliasMap "js")).rename "/// @raw-code" = "/// @x-code" := by
  let r := ((({} : Registry).register "x" (.aliases ["raw"])).1.register "raw-code" (.aliases [])).1
  have hr : r.Reachable := .register _ _ (.register _ _ .empty)
  have haliases : r.aliasMap "js" = .ofList [("raw", "x")] := rfl
  obtain ⟨t, ht, hjs⟩ := LanguageTable.forFiletype_js
  refine ⟨r, t, hr, ht, by decide +kernel, ?_⟩
  have hwords : Renamer.ofLanguage LanguageTable.slashes (.ofList [("raw", "x")]) =
      ⟨["////", "///"].map String.toList, ["@"].map String.toList, ["#"].map String.toList, ["raw"].map String.toList,
        .ofList [("raw", "x")]⟩ :=
    Renamer.ofLanguage_eq (by decide +kernel) (by decide +kernel) (by decide +kernel) (by decide +kernel)
  rw [hjs, haliases, hwords]
  decide +kernel

end Registry

end DocComments
