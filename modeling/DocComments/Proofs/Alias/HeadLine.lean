import DocComments.Proofs.Alias.Reading
import DocComments.Proofs.Registry.Aliases

/-!
# Renaming on a head line

A head line has a marker, a sigil and a word behind it. What follows may have inline sigils, and the word may have
sigils in it, yet all leads on the line end at the first sigil. So nothing but the word is renamed.

* `Head`: head lines.
* `Head.eq_of_lead`: **all leads of a head line end at one place.**
* `Leads`, `Respelled`: what renaming makes of a word.
* `rename_text`: **a head line is renamed by respelling its word.**
-/

namespace DocComments

namespace Renamer

variable {r : Renamer} {c c' : Cursor} {k pre z : List Char}

/-- Annotations start with `@`, which is in no marker. The names are the aliases, which are words, longer ones
first. -/
structure Usual (r : Renamer) : Prop where
  proper : r.Proper
  sigils : r.sigils = [['@']]
  markers : ∀ w ∈ r.markers, '@' ∉ w
  names : ∀ {n}, n ∈ r.names ↔ n ≠ [] ∧ ∃ m, r.aliases.get? (String.ofList n) = some m
  longest : r.names.Pairwise fun a b => (String.ofList b).utf8ByteSize ≤ (String.ofList a).utf8ByteSize
  words : ∀ {a n}, r.aliases.get? a = some n → Registry.isWord a = true

theorem not_mem_of_spaces (hk : Spaces k) : '@' ∉ k := by
  intro h
  have hat : Text.isSpace '@' = true := hk _ h
  cases hat

theorem Inline.ends_in_space (h : r.Inline k) : ∃ k' x, k = k' ++ [x] ∧ Text.isSpace x = true := by
  obtain ⟨w, -, sp, ⟨hsp, hne⟩, rfl⟩ := h
  refine ⟨w ++ sp.dropLast, sp.getLast hne, ?_, hsp _ (List.getLast_mem hne)⟩
  rw [List.append_assoc, List.dropLast_append_getLast hne]

/-- A lead at the start of a line has no sigil in it, and another lead ends in white space. -/
theorem Lead.cases (hr : r.Usual) (h : r.Lead c k) :
    (c.atLineStart = true ∧ '@' ∉ k) ∨ ∃ k' x, k = k' ++ [x] ∧ Text.isSpace x = true := by
  rcases h with ⟨hc, ⟨sp, hsp, w, hw, sp', hsp', rfl⟩ | hsp⟩ | ⟨w, -, k', hk, rfl⟩ | hk
  · refine .inl ⟨hc, ?_⟩
    simp only [List.mem_append, not_or]
    exact ⟨not_mem_of_spaces hsp, hr.markers w hw, not_mem_of_spaces hsp'⟩
  · exact .inl ⟨hc, not_mem_of_spaces hsp⟩
  · obtain ⟨k'', x, rfl, hx⟩ := hk.ends_in_space
    exact .inr ⟨w ++ k'', x, (List.append_assoc _ _ _).symm, hx⟩
  · exact .inr hk.ends_in_space

/-- The head line of an annotation: a marker, the sigil with a word behind it, and what follows. -/
structure Head where
  marker : List Char
  word : List Char
  tail : List Char
  marker_plain : ∀ x ∈ marker, x ≠ '@' ∧ Text.isSpace x = false
  word_solid : ∀ x ∈ word, Text.isSpace x = false
  tail_plain : ∀ x ∈ tail, x ≠ '@' ∧ x ≠ '\n'
  tail_spaced : ∀ x ∈ tail.head?, x = ' '

namespace Head

variable (h : Head)

def text : List Char :=
  h.marker ++ [' '] ++ '@' :: (h.word ++ h.tail)

theorem ofList_text : String.ofList h.text =
    String.ofList (h.marker ++ [' '] ++ ['@']) ++ String.ofList h.word ++ String.ofList h.tail := by
  simp [text, ← String.ofList_append]

/-- The place of the sigil. -/
def place : Cursor :=
  ⟨some ' ', '@' :: (h.word ++ h.tail)⟩

theorem skip?_place (b : Option Char) : Cursor.skip? (h.marker ++ [' ']) ⟨b, h.text⟩ = some h.place := by
  rw [Cursor.skip?_eq_some_iff, List.getLast?_concat]
  exact ⟨rfl, rfl⟩

theorem ne_newline {x : Char} (hx : x ∈ h.text) : x ≠ '\n' := by
  rintro rfl
  simp only [text, List.mem_append, List.mem_cons, List.not_mem_nil, or_false] at hx
  rcases hx with (hx | hx) | hx | hx | hx
  · exact absurd (h.marker_plain _ hx).2 (by decide)
  · cases hx
  · cases hx
  · exact absurd (h.word_solid _ hx) (by decide)
  · exact (h.tail_plain _ hx).2 rfl

/-- Of the sigils on a head line, the first one has no other before it, and no other one stands behind white space. -/
theorem eq_of_sigil (ht : h.text = k ++ '@' :: z)
    (hk : '@' ∉ k ∨ ∃ k' x, k = k' ++ [x] ∧ Text.isSpace x = true) : k = h.marker ++ [' '] := by
  have hplain : '@' ∉ h.marker ++ [' '] := by
    intro hx
    rcases List.mem_append.1 hx with hx | hx
    · exact (h.marker_plain _ hx).1 rfl
    · cases List.mem_singleton.1 hx
  rcases List.append_eq_append_iff.1 ht with ⟨as, rfl, has⟩ | ⟨bs, hbs, hz⟩
  · cases as with
    | nil => exact List.append_nil _
    | cons x as =>
      -- a second sigil, behind the first one: it is in the word, for there is none in what follows
      obtain ⟨rfl, hrest⟩ := List.cons_eq_cons.1 has
      obtain ⟨k', x, hkx, hx⟩ := hk.resolve_left fun hn => hn (by simp)
      rcases List.append_eq_append_iff.1 hrest with ⟨bs, rfl, hbs⟩ | ⟨bs, hbs, hz⟩
      · exact absurd rfl (h.tail_plain '@' (by rw [hbs]; simp)).1
      · have hlast : x ∈ '@' :: as := by
          have hlast : (h.marker ++ [' '] ++ '@' :: as).getLast? = some x := by rw [hkx, List.getLast?_concat]
          rw [List.getLast?_append_of_ne_nil _ (List.cons_ne_nil _ _)] at hlast
          exact List.mem_of_getLast? hlast
        rcases List.mem_cons.1 hlast with rfl | hmem
        · cases hx
        · rw [h.word_solid x (by rw [hbs]; exact List.mem_append_left _ hmem)] at hx
          cases hx
  · cases bs with
    | nil => rw [hbs, List.append_nil]
    | cons x bs =>
      obtain ⟨rfl, -⟩ := List.cons_eq_cons.1 hz
      exact absurd (by rw [hbs]; simp) hplain

/-- **All leads of a head line end at one place.** -/
theorem eq_of_lead (hr : r.Usual) (hpre : Cursor.skip? pre ⟨none, h.text⟩ = some c) (hlead : r.Lead c k)
    (hk : c.skip? k = some c') (hz : c'.rest = '@' :: z) : pre ++ k = h.marker ++ [' '] ∧ c' = h.place := by
  have hskip : Cursor.skip? (pre ++ k) ⟨none, h.text⟩ = some c' := by rw [Cursor.skip?_append hpre, hk]
  have htext : h.text = (pre ++ k) ++ '@' :: z := by
    rw [← hz]
    exact (Cursor.skip?_eq_some_iff.1 hskip).1
  have heq : pre ++ k = h.marker ++ [' '] := by
    refine h.eq_of_sigil htext ?_
    rcases hlead.cases hr with ⟨hc, hk⟩ | ⟨k', x, rfl, hx⟩
    · -- the line starts with the text
      obtain ⟨hrest, hbefore⟩ := Cursor.skip?_eq_some_iff.1 hpre
      have hrest : h.text = pre ++ c.rest := hrest
      cases hlast : pre.getLast? with
      | none =>
        rw [List.getLast?_eq_none_iff.1 hlast]
        exact .inl hk
      | some x =>
        rw [hlast] at hbefore
        have hx : x = '\n' := by simpa [Cursor.atLineStart, hbefore] using hc
        have hmem : x ∈ h.text := by
          rw [hrest]
          exact List.mem_append_left _ (List.mem_of_getLast? hlast)
        exact absurd hx (h.ne_newline hmem)
    · exact .inr ⟨pre ++ k', x, (List.append_assoc _ _ _).symm, hx⟩
  refine ⟨heq, ?_⟩
  rw [heq, h.skip?_place] at hskip
  exact (Option.some.inj hskip).symm

theorem rest_of_aliasAt? (hr : r.Usual) (hn : r.names ≠ []) {m : Match} (hm : r.aliasAt? c = some m) :
    ∃ z, c.rest = '@' :: z := by
  obtain ⟨s, hs, n, -, y, hy⟩ := isPrefix_of_aliasAt? (by rw [hr.sigils]; exact List.cons_ne_nil _ _) hn hm
  rw [hr.sigils, List.mem_singleton] at hs
  rw [hs] at hy
  exact ⟨n ++ y, hy.symm⟩

/-- **A head line leads to its first sigil or nowhere.** -/
theorem match?_eq_none (hr : r.Usual) (hn : r.names ≠ []) (hpre : Cursor.skip? pre ⟨none, h.text⟩ = some c)
    (hplace : r.aliasAt? h.place = none ∨ (h.marker ++ [' ']).length < pre.length) : r.match? c = none := by
  refine Renamer.match?_eq_none hr.proper fun k c' hlead hk => ?_
  cases ha : r.aliasAt? c' with
  | none => rfl
  | some a =>
    obtain ⟨z, hz⟩ := rest_of_aliasAt? hr hn ha
    obtain ⟨heq, rfl⟩ := h.eq_of_lead hr hpre hlead hk hz
    rcases hplace with hnone | hlt
    · exact ha.symm.trans hnone
    · rw [← heq, List.length_append] at hlt
      omega

theorem match?_start (hr : r.Usual) (hn : r.names ≠ []) (hm : h.marker ∈ r.markers) {a : Match}
    (ha : r.aliasAt? h.place = some a) : r.match? ⟨none, h.text⟩ = some (a.behind (h.marker ++ [' '])) := by
  have hlead : r.Lead ⟨none, h.text⟩ (h.marker ++ [' ']) := by
    refine .inl ⟨rfl, .inl ⟨[], spaces_nil, h.marker, hm, [' '], ?_, rfl⟩⟩
    exact spaces_cons.2 ⟨rfl, spaces_nil⟩
  have hfinds := finds_match? hr.proper (⟨none, h.text⟩ : Cursor)
  -- there is a match since the marker leads to the sigil, and it is this one since all leads end there
  have hsome := hfinds.complete _ _ hlead (h.skip?_place none) (by rw [ha]; rfl)
  obtain ⟨m, hmatch⟩ := Option.isSome_iff_exists.1 hsome
  obtain ⟨k, c', a', hlead', hk, ha', rfl⟩ := hfinds.sound m hmatch
  obtain ⟨z, hz⟩ := rest_of_aliasAt? hr hn ha'
  have hstart : Cursor.skip? [] ⟨none, h.text⟩ = some ⟨none, h.text⟩ := rfl
  obtain ⟨heq, rfl⟩ := h.eq_of_lead hr hstart hlead' hk hz
  obtain rfl := Option.some.inj (ha.symm.trans ha')
  rw [hmatch, ← heq]
  rfl

/-- A head line whose word no alias leads stays as it is. -/
theorem pieces_of_none (hr : r.Usual) (hn : r.names ≠ []) (hplace : r.aliasAt? h.place = none) :
    pieces 0 true h.text (r.readings none h.text) = h.text.map .kept :=
  pieces_kept fun _ _ hc => h.match?_eq_none hr hn hc (.inl hplace)

/-- A head line whose word an alias leads is renamed there, and stays as it is behind the alias. -/
theorem pieces_of_some (hr : r.Usual) (hn : r.names ≠ []) (hm : h.marker ∈ r.markers) {n y : List Char}
    (hplace : r.aliasAt? h.place = some ⟨['@'], n⟩) (hy : h.word ++ h.tail = n ++ y) :
    pieces 0 true h.text (r.readings none h.text) =
      .found ⟨h.marker ++ [' '] ++ ['@'], n⟩ :: y.map .kept := by
  let k := h.marker ++ [' '] ++ ['@'] ++ n
  have htext : h.text = k ++ y := by
    unfold text
    rw [hy]
    simp [k]
  have hk : k ≠ [] := by simp [k]
  have hskip : Cursor.skip? k ⟨none, h.text⟩ = some ⟨k.getLast?, y⟩ := by
    rw [Cursor.skip?_eq_some_iff]
    refine ⟨htext, ?_⟩
    cases k.getLast? <;> rfl
  -- the match takes all up to the end of the alias, and no place behind the first sigil leads anywhere
  have hmatch := h.match?_start hr hn hm hplace
  rw [htext] at hmatch ⊢
  have hlength : (Match.behind (h.marker ++ [' ']) ⟨['@'], n⟩).length = k.length := by
    simp only [Match.length, Match.behind, k, List.length_append]
  rw [pieces_found hmatch hlength hk, pieces_kept]
  · rfl
  · intro k' c' hc
    rw [← Cursor.skip?_append hskip] at hc
    refine h.match?_eq_none hr hn hc (.inr ?_)
    simp only [k, List.length_append, List.length_singleton]
    omega

/-- What stands behind a solid text at the start of the word belongs to the word. -/
theorem exists_of_append_eq {n y : List Char} (hn : ∀ x ∈ n, Text.isSpace x = false)
    (hy : h.word ++ h.tail = n ++ y) : ∃ rest, h.word = n ++ rest ∧ y = rest ++ h.tail := by
  rcases List.append_eq_append_iff.1 hy with ⟨as, rfl, has⟩ | ⟨bs, hbs, hz⟩
  · cases as with
    | nil => exact ⟨[], by simp, has.symm⟩
    | cons x as =>
      obtain rfl := h.tail_spaced x (by rw [has]; rfl)
      exact absurd (hn ' ' (by simp)) (by decide)
  · exact ⟨bs, hbs, hz⟩

/-- Behind the word there is no character of a word. -/
theorem isBoundary_append_tail (x : Option Char) (rest : List Char) :
    Text.isBoundary x (rest ++ h.tail).head? = Text.isBoundary x rest.head? := by
  cases rest with
  | cons y rest => rfl
  | nil =>
    rw [List.nil_append]
    cases ht : h.tail.head? with
    | none => rfl
    | some y =>
      obtain rfl := h.tail_spaced y (by rw [ht]; rfl)
      have hspace : Text.isWord ' ' = false := by decide
      simp [Text.isBoundary, hspace]

end Head

end Renamer

/-- An alias that a word starts with, up to a word boundary. -/
def Leads (a w : String) : Prop :=
  ∃ rest, w = a ++ rest ∧ Text.isBoundary a.toList.getLast? rest.toList.head? = true

/-- A word respelled: the longest alias that leads it gives way to the name it stands for. -/
inductive Respelled (aliases : Table String) : String → String → Prop
  | kept {w : String} (h : ∀ a n, aliases.get? a = some n → ¬ Leads a w) : Respelled aliases w w
  | renamed {a n rest : String} (ha : aliases.get? a = some n) (hl : Leads a (a ++ rest))
      (hmax : ∀ b n', aliases.get? b = some n' → Leads b (a ++ rest) → b.length ≤ a.length) :
      Respelled aliases (a ++ rest) (n ++ rest)

namespace Renamer.Head

variable {r : Renamer} (h : Head)

/-- The place of the word. -/
def wordPlace : Cursor :=
  ⟨some '@', h.word ++ h.tail⟩

/-- A word at the place of the word that ends at a boundary leads the word. -/
theorem leads_of_atBoundary {n : List Char} {c : Cursor} (hskip : h.wordPlace.skip? n = some c)
    (hc : c.atBoundary = true) (hne : n ≠ []) (hsolid : ∀ y ∈ n, Text.isSpace y = false) :
    ∃ rest, h.word = n ++ rest ∧ Leads (String.ofList n) (String.ofList n ++ String.ofList rest) := by
  obtain ⟨hrest, hbefore⟩ := Cursor.skip?_eq_some_iff.1 hskip
  obtain ⟨rest, hword, htail⟩ := h.exists_of_append_eq hsolid hrest
  refine ⟨rest, hword, String.ofList rest, rfl, ?_⟩
  obtain ⟨y, hy⟩ : ∃ y, n.getLast? = some y := ⟨_, List.getLast?_eq_some_getLast hne⟩
  rw [Cursor.atBoundary, hbefore, hy, htail] at hc
  rw [String.toList_ofList, String.toList_ofList, hy, ← h.isBoundary_append_tail]
  exact hc

/-- An alias that leads the word stands at the place of the word and ends at a boundary. -/
theorem exists_mem_wordsAt (hr : r.Usual) {a n : String} (ha : r.aliases.get? a = some n)
    (hl : Leads a (String.ofList h.word)) :
    ∃ c, (a.toList, c) ∈ wordsAt r.names h.wordPlace ∧ c.atBoundary = true := by
  obtain ⟨rest, hw, hb⟩ := hl
  have hne : a.toList ≠ [] := mt String.toList_eq_nil_iff.1 (Registry.isWord_iff.1 (hr.words ha)).1
  have hname : a.toList ∈ r.names := hr.names.2 ⟨hne, n, by rw [String.ofList_toList, ha]⟩
  have hword : h.word = a.toList ++ rest.toList := by
    rw [← String.toList_append, ← hw, String.toList_ofList]
  obtain ⟨y, hy⟩ : ∃ y, a.toList.getLast? = some y := ⟨_, List.getLast?_eq_some_getLast hne⟩
  have hskip : h.wordPlace.skip? a.toList = some ⟨some y, rest.toList ++ h.tail⟩ := by
    rw [Cursor.skip?_eq_some_iff, hy, wordPlace, hword, List.append_assoc]
    exact ⟨rfl, rfl⟩
  refine ⟨_, mem_wordsAt.2 ⟨hname, hskip⟩, ?_⟩
  rw [Cursor.atBoundary, h.isBoundary_append_tail, ← hy]
  exact hb

/-- Where no word is found, no alias leads the word. -/
theorem respelled_of_none (hr : r.Usual)
    (hfind : (wordsAt r.names h.wordPlace).find? (·.2.atBoundary) = none) :
    Respelled r.aliases (String.ofList h.word) (String.ofList h.word) := by
  refine .kept fun a n ha hl => ?_
  obtain ⟨c, hmem, hc⟩ := h.exists_mem_wordsAt hr ha hl
  exact List.find?_eq_none.1 hfind _ hmem hc

/-- The word that is found is the longest alias that leads the word. -/
theorem respelled_of_some (hr : r.Usual) {x : List Char × Cursor}
    (hfind : (wordsAt r.names h.wordPlace).find? (·.2.atBoundary) = some x) :
    ∃ n rest, r.aliases.get? (String.ofList x.1) = some n ∧ h.word ++ h.tail = x.1 ++ (rest ++ h.tail) ∧
      Respelled r.aliases (String.ofList h.word) (n ++ String.ofList rest) := by
  obtain ⟨hmem, hskip⟩ := mem_wordsAt.1 (List.mem_of_find?_eq_some hfind)
  obtain ⟨hne, n, hn⟩ := hr.names.1 hmem
  have hsolid := (Registry.isWord_iff.1 (hr.words hn)).2
  rw [String.toList_ofList] at hsolid
  have hboundary := List.find?_some hfind
  obtain ⟨rest, hword, hlead⟩ := h.leads_of_atBoundary hskip hboundary hne hsolid
  refine ⟨n, rest, hn, by rw [hword, List.append_assoc], ?_⟩
  rw [hword, String.ofList_append]
  refine .renamed hn hlead fun b m hb hl => ?_
  rw [← String.ofList_append, ← hword] at hl
  -- another alias that leads the word was found too, but later in the order
  obtain ⟨c, hmem', hc⟩ := h.exists_mem_wordsAt hr hb hl
  have hle := length_le_of_find? hr.longest hfind hmem' hc
  rwa [← String.length_toList, ← String.length_toList, String.toList_ofList]

end Renamer.Head

namespace Renamer

variable {r : Renamer}

/-- **A head line is renamed by respelling its word.** -/
theorem rename_text (hr : r.Usual) (h : Head) (hm : h.marker ∈ r.markers) :
    ∃ w', r.rename (String.ofList h.text) =
        String.ofList (h.marker ++ [' '] ++ ['@']) ++ w' ++ String.ofList h.tail ∧
      Respelled r.aliases (String.ofList h.word) w' := by
  by_cases hempty : r.aliases.isEmpty = true
  · refine ⟨String.ofList h.word, ?_, .kept fun a n ha => ?_⟩
    · rw [← h.ofList_text, rename_of_isEmpty hempty]
    · have hmem := Table.get?_eq_some_iff.1 ha
      rw [List.isEmpty_iff.1 hempty] at hmem
      cases hmem
  · have hn : r.names ≠ [] := by
      obtain ⟨e, es, he⟩ := List.exists_cons_of_ne_nil (mt List.isEmpty_iff.2 hempty)
      have hget : r.aliases.get? e.1 = some e.2 := Table.get?_eq_some_iff.2 (by rw [he]; exact List.mem_cons_self)
      have hne : e.1.toList ≠ [] := mt String.toList_eq_nil_iff.1 (Registry.isWord_iff.1 (hr.words hget)).1
      exact List.ne_nil_of_mem (hr.names.2 ⟨hne, e.2, by rw [String.ofList_toList, hget]⟩)
    have hcut : r.cut (String.ofList h.text) = pieces 0 true h.text (r.readings none h.text) := by
      rw [cut, if_neg hempty, String.toList_ofList]
    have hplace : r.aliasAt? h.place =
        ((wordsAt r.names h.wordPlace).find? (·.2.atBoundary)).map fun x => ⟨['@'], x.1⟩ := by
      have hskip : h.place.skip? ['@'] = some h.wordPlace := Cursor.skip?_cons _ _ _ _
      rw [aliasAt?_eq hr.sigils hn, hskip, Option.bind_some]
    cases hfind : (wordsAt r.names h.wordPlace).find? (·.2.atBoundary) with
    | none =>
      rw [hfind] at hplace
      refine ⟨String.ofList h.word, ?_, h.respelled_of_none hr hfind⟩
      rw [← h.ofList_text, rename, hcut, h.pieces_of_none hr hn hplace, flatMap_kept]
    | some x =>
      rw [hfind] at hplace
      obtain ⟨n, rest, hname, hsplit, hrespelled⟩ := h.respelled_of_some hr hfind
      refine ⟨n ++ String.ofList rest, ?_, hrespelled⟩
      have hrender : Piece.render r (.found ⟨h.marker ++ [' '] ++ ['@'], x.1⟩) =
          h.marker ++ [' '] ++ ['@'] ++ n.toList := by
        rw [Piece.render, hname]
        rfl
      rw [rename, hcut, h.pieces_of_some hr hn hm hplace hsplit, List.flatMap_cons, flatMap_kept, hrender]
      simp only [String.ofList_append, String.ofList_toList, String.append_assoc]

end Renamer

end DocComments
