import DocComments.Parser
import DocComments.Proofs.Alias.Canonical
import DocComments.Proofs.Text.Lines

/-!
# Renaming is stable

Where markers and sigils have no word characters in them, a text can be taken as words with gaps between them. What
leads to a word stands in the gap before it, whole. So each word is renamed or not by its own gap, whatever becomes of
the other words, and a text with the names put in is not changed again.

* `Led`: the gaps that end in a sigil with a lead before it.
* `Rewords`: a text and what becomes of it, word by word.
* `rewords_rename`: **renaming goes word by word.**
* `rename_stable`: **renaming twice is renaming once**, and a file with the names put in is read as before.
-/

namespace DocComments

namespace Text

variable {p : Char → Bool} {g g' s s' cs : List Char}

/-- White space is in no word. -/
theorem isWord_of_isSpace {x : Char} (h : isSpace x = true) : isWord x = false := by
  have hspaces : ∀ n ∈ [0x9, 0xA, 0xB, 0xC, 0xD, 0x20, 0x85, 0xA0, 0x1680, 0x2000, 0x2001, 0x2002, 0x2003, 0x2004,
      0x2005, 0x2006, 0x2007, 0x2008, 0x2009, 0x200A, 0x2028, 0x2029, 0x202F, 0x205F, 0x3000],
      isWord (Char.ofNat n) = false := by decide +kernel
  rw [← Char.ofNat_toNat x]
  refine hspaces _ ?_
  simp only [isSpace, Bool.or_eq_true, Bool.and_eq_true, decide_eq_true_eq, beq_iff_eq] at h
  simp only [List.mem_cons, List.not_mem_nil, or_false]
  omega

/-- A word: at least one character, and word characters only. -/
def Word (w : List Char) : Prop :=
  w ≠ [] ∧ ∀ x ∈ w, isWord x = true

/-- What stands between words. -/
def Gap (g : List Char) : Prop :=
  ∀ x ∈ g, isWord x = false

/-- No word starts with the text. -/
def Apart (s : List Char) : Prop :=
  s.head?.any isWord = false

/-- A text falls into its first characters of a kind and the rest in one way. -/
theorem append_inj_of_all (h : g ++ s = g' ++ s') (hg : ∀ x ∈ g, p x = true) (hg' : ∀ x ∈ g', p x = true)
    (hs : s.head?.any p = false) (hs' : s'.head?.any p = false) : g = g' ∧ s = s' := by
  have hrest : ∀ {r : List Char}, r.head?.any p = false → ∀ x ∈ r.head?, p x = false := by
    intro r hr x hx
    rw [hx] at hr
    exact hr
  have hfirst : g = g' := by
    rw [← (takeWhile_append_eq hg (hrest hs)).1, h, (takeWhile_append_eq hg' (hrest hs')).1]
  refine ⟨hfirst, ?_⟩
  rw [hfirst] at h
  exact List.append_cancel_left h

theorem gap_nil : Gap [] :=
  List.forall_mem_nil _

theorem Gap.apart (h : Gap g) : Apart g := by
  cases g with
  | nil => rfl
  | cons x g => exact h x List.mem_cons_self

theorem Word.getLast? {w : List Char} (h : Word w) : ∃ x, w.getLast? = some x ∧ isWord x = true :=
  ⟨_, List.getLast?_eq_some_getLast h.1, h.2 _ (List.getLast_mem h.1)⟩

/-- A text with a word in it is no gap. -/
theorem Word.not_gap {w : List Char} (hw : Word w) (g y : List Char) : ¬ Gap (g ++ (w ++ y)) := by
  intro hgap
  obtain ⟨x, hx, hisWord⟩ := hw.getLast?
  have hmem : x ∈ g ++ (w ++ y) := by simp [List.mem_of_getLast? hx]
  rw [hgap x hmem] at hisWord
  cases hisWord

end Text

namespace Renamer

variable {r : Renamer} {c c' : Cursor} {b b' : Option Char} {x : Char} {cs ds ds' g g' k w n y z : List Char}

open Text (Word Gap Apart)

/-- A character that a lead may have in it. -/
def Sign (x : Char) : Prop :=
  x ≠ '@' ∧ Text.isWord x = false

/-- There are aliases, and they and their names are words. Annotations start with `@`, and markers and inline sigils
have neither it nor a word character in them. -/
structure Symbolic (r : Renamer) : Prop where
  proper : r.Proper
  sigils : ∀ {s}, s ∈ r.sigils ↔ s = ['@']
  signs : ∀ w ∈ r.markers ++ r.inlineSigils, ∀ x ∈ w, Sign x
  names : ∀ {n}, n ∈ r.names ↔ ∃ m, r.aliases.get? (String.ofList n) = some m
  words : ∀ {a n}, r.aliases.get? a = some n → Word a.toList ∧ Word n.toList
  some_names : r.names ≠ []

theorem Spaces.sign (h : Spaces k) : ∀ x ∈ k, Sign x := by
  intro x hx
  refine ⟨?_, Text.isWord_of_isSpace (h x hx)⟩
  rintro rfl
  exact not_mem_of_spaces h hx

theorem Inline.sign (hr : r.Symbolic) (h : r.Inline k) : ∀ x ∈ k, Sign x := by
  obtain ⟨w, hw, sp, ⟨hsp, -⟩, rfl⟩ := h
  exact List.forall_mem_append.2 ⟨hr.signs w (List.mem_append_right _ hw), hsp.sign⟩

/-- **A lead has neither a sigil nor a word character in it.** -/
theorem Lead.sign (hr : r.Symbolic) (h : r.Lead c k) : ∀ x ∈ k, Sign x := by
  rcases h with ⟨-, ⟨sp, hsp, w, hw, sp', hsp', rfl⟩ | hsp⟩ | ⟨w, hw, k', hk, rfl⟩ | hk
  · have hmarker := hr.signs w (List.mem_append_left _ hw)
    exact List.forall_mem_append.2 ⟨hsp.sign, List.forall_mem_append.2 ⟨hmarker, hsp'.sign⟩⟩
  · exact hsp.sign
  · exact List.forall_mem_append.2 ⟨hr.signs w (List.mem_append_left _ hw), hk.sign hr⟩
  · exact hk.sign hr

/-- The gap before a word ends in a sigil, with a lead before it. -/
def Led (r : Renamer) (b : Option Char) (g : List Char) : Prop :=
  ∃ p k, g = p ++ (k ++ ['@']) ∧ r.Lead ⟨p.getLast? <|> b, []⟩ k

theorem not_led_nil : ¬ r.Led b [] := by
  rintro ⟨p, k, h, -⟩
  simp at h

/-- A lead starts at the first character of a gap or behind it. -/
theorem led_cons_iff : r.Led b (x :: g) ↔ (∃ k, x :: g = k ++ ['@'] ∧ r.Lead ⟨b, []⟩ k) ∨ r.Led (some x) g := by
  have hlast : ∀ p : List Char, ((x :: p).getLast? <|> b) = (p.getLast? <|> some x) := by
    intro p
    rw [List.getLast?_cons]
    cases p.getLast? <;> rfl
  constructor
  · rintro ⟨p, k, h, hk⟩
    cases p with
    | nil => exact .inl ⟨k, h, hk⟩
    | cons x' p =>
      obtain ⟨rfl, rfl⟩ := List.cons_eq_cons.1 h
      rw [hlast] at hk
      exact .inr ⟨p, k, rfl, hk⟩
  · rintro (⟨k, h, hk⟩ | ⟨p, k, rfl, hk⟩)
    · exact ⟨[], k, h, hk⟩
    · exact ⟨x :: p, k, rfl, by rwa [hlast]⟩

theorem lead_congr (h : c.atLineStart = c'.atLineStart) : r.Lead c k ↔ r.Lead c' k := by
  unfold Lead
  rw [h]

/-- Of the place before a gap, only whether a line starts there matters. -/
theorem led_congr (hb : Cursor.atLineStart ⟨b, []⟩ = Cursor.atLineStart ⟨b', []⟩) : r.Led b g ↔ r.Led b' g := by
  have hlead : ∀ p k : List Char, r.Lead ⟨p.getLast? <|> b, []⟩ k ↔ r.Lead ⟨p.getLast? <|> b', []⟩ k := by
    intro p k
    cases p.getLast? with
    | some x => exact Iff.rfl
    | none => exact lead_congr hb
  unfold Led
  simp only [hlead]

/-- What a place leads to: a lead with the sigil, and behind it a whole word that is an alias. -/
theorem Symbolic.of_match? (hr : r.Symbolic) {m : Match} (h : r.match? ⟨b, m.lead ++ m.word ++ y⟩ = some m) :
    (∃ k, m.lead = k ++ ['@'] ∧ r.Lead ⟨b, []⟩ k) ∧ Word m.word ∧ Apart y := by
  obtain ⟨k, c', a, hlead, hk, ha, rfl⟩ := (finds_match? hr.proper _).sound m h
  obtain ⟨c₁, c₂, hsigil, hname, hboundary, hs, hn⟩ := of_aliasAt? ha
  obtain ⟨m, hm⟩ := hr.names.1 (hn hr.some_names)
  have hword : Word a.word := by
    have hword := (hr.words hm).1
    rwa [String.toList_ofList] at hword
  have hat : a.lead = ['@'] := hr.sigils.1 (hs (List.ne_nil_of_mem (hr.sigils.2 rfl)))
  refine ⟨⟨k, by rw [Match.behind, hat], hlead⟩, hword, ?_⟩
  obtain ⟨-, hbefore⟩ := Cursor.skip?_eq_some_iff.1 hname
  obtain ⟨x, hx, hisWord⟩ := hword.getLast?
  rw [← Cursor.skip?_append hsigil, ← Cursor.skip?_append hk] at hname
  obtain ⟨hrest, -⟩ := Cursor.skip?_eq_some_iff.1 hname
  have hrest : y = c₂.rest := by
    simp only [Match.behind, List.append_assoc] at hrest
    exact List.append_cancel_left (List.append_cancel_left (List.append_cancel_left hrest))
  rw [hx] at hbefore
  rw [Cursor.atBoundary, hbefore, ← hrest, Text.isBoundary] at hboundary
  simpa [Apart, hisWord] using hboundary

/-- An alias behind a lead and a sigil is found, if it is a whole word. -/
theorem Symbolic.isSome_match? (hr : r.Symbolic) (hlead : r.Lead ⟨b, []⟩ k) (hn : n ∈ r.names) (hy : Apart y) :
    (r.match? ⟨b, k ++ ['@'] ++ (n ++ y)⟩).isSome = true := by
  obtain ⟨m, hm⟩ := hr.names.1 hn
  obtain ⟨x, hx, hisWord⟩ := (hr.words hm).1.getLast?
  rw [String.toList_ofList] at hx
  have hk : Cursor.skip? k ⟨b, k ++ ['@'] ++ (n ++ y)⟩ = some ⟨k.getLast? <|> b, ['@'] ++ (n ++ y)⟩ :=
    Cursor.skip?_eq_some_iff.2 ⟨List.append_assoc _ _ _, rfl⟩
  have hsigil : Cursor.skip? ['@'] ⟨k.getLast? <|> b, ['@'] ++ (n ++ y)⟩ = some ⟨some '@', n ++ y⟩ :=
    Cursor.skip?_eq_some_iff.2 ⟨rfl, rfl⟩
  have hname : Cursor.skip? n ⟨some '@', n ++ y⟩ = some ⟨some x, y⟩ :=
    Cursor.skip?_eq_some_iff.2 ⟨rfl, by rw [hx]; rfl⟩
  have hboundary : Cursor.atBoundary ⟨some x, y⟩ = true := by
    rw [Apart] at hy
    simp [Cursor.atBoundary, Text.isBoundary, hisWord, hy]
  exact (finds_match? hr.proper _).complete k _ hlead hk (isSome_aliasAt? (hr.sigils.2 rfl) hn hsigil hname hboundary)

open Classical in
/-- What becomes of a word behind a gap. -/
noncomputable def spell (r : Renamer) (b : Option Char) (g w : List Char) : List Char :=
  if r.Led b g then ((r.aliases.get? (String.ofList w)).map String.toList).getD w else w

theorem spell_of_not_led (h : ¬ r.Led b g) : r.spell b g w = w :=
  if_neg h

theorem spell_of_led (h : r.Led b g) :
    r.spell b g w = ((r.aliases.get? (String.ofList w)).map String.toList).getD w :=
  if_pos h

theorem spell_of_none (h : r.aliases.get? (String.ofList w) = none) : r.spell b g w = w := by
  unfold spell
  rw [h]
  exact ite_self _

open Classical in
theorem spell_congr (h : r.Led b g ↔ r.Led b' g') : r.spell b g w = r.spell b' g' w := by
  unfold spell
  exact if_congr h rfl rfl

/-- What becomes of a word: it stays, or it is an alias and becomes its name. -/
theorem spell_cases (r : Renamer) (b : Option Char) (g w : List Char) :
    r.spell b g w = w ∨ ∃ n, r.aliases.get? (String.ofList w) = some n ∧ r.spell b g w = n.toList := by
  by_cases hled : r.Led b g
  · cases hget : r.aliases.get? (String.ofList w) with
    | none => exact .inl (spell_of_none hget)
    | some n => exact .inr ⟨n, rfl, by rw [spell_of_led hled, hget]; rfl⟩
  · exact .inl (spell_of_not_led hled)

theorem Symbolic.word_spell (hr : r.Symbolic) (hw : Word w) : Word (r.spell b g w) := by
  rcases spell_cases r b g w with h | ⟨n, hget, h⟩
  · rwa [h]
  · rw [h]
    exact (hr.words hget).2

/-- A text and what becomes of it, word by word. -/
inductive Rewords (r : Renamer) : Option Char → List Char → List Char → Prop
  | gap {b : Option Char} {g : List Char} (hg : Gap g) : Rewords r b g g
  | word {b : Option Char} {g w y z : List Char} (hg : Gap g) (hw : Word w) (hy : Apart y)
      (h : Rewords r w.getLast? y z) : Rewords r b (g ++ (w ++ y)) (g ++ (r.spell b g w ++ z))

/-- A word without a gap before it stays. -/
theorem Rewords.first (hw : Word w) (hy : Apart y) (h : r.Rewords w.getLast? y z) : r.Rewords b (w ++ y) (w ++ z) := by
  have hword := Rewords.word (b := b) Text.gap_nil hw hy h
  rwa [spell_of_not_led not_led_nil] at hword

theorem apart_append (hx : Gap (x :: g)) (s : List Char) : Apart (x :: g ++ s) :=
  hx x List.mem_cons_self

theorem not_apart_append (hw : Word w) (y : List Char) : (w ++ y).head?.any (! Text.isWord ·) = false := by
  obtain ⟨x, w', rfl⟩ := List.exists_cons_of_ne_nil hw.1
  simp [hw.2 x List.mem_cons_self]

/-- **What becomes of a text is one text.** -/
theorem Rewords.unique (h : r.Rewords b cs ds) (h' : r.Rewords b cs ds') : ds = ds' := by
  induction h generalizing ds' with
  | @gap b g hg =>
    cases h' with
    | gap => rfl
    | @word _ g' w y z _ hw _ _ => exact absurd hg (hw.not_gap g' y)
  | @word b g w y z hg hw hy _ ih =>
    generalize hcs : g ++ (w ++ y) = cs at h'
    cases h' with
    | gap hg' =>
      rw [← hcs] at hg'
      exact absurd hg' (hw.not_gap g y)
    | @word _ g' w' y' z' hg' hw' hy' h' =>
      have hnot : ∀ {g : List Char}, Gap g → ∀ x ∈ g, (! Text.isWord x) = true := by
        intro g hg x hx
        rw [hg x hx]
        rfl
      obtain ⟨rfl, hrest⟩ :=
        Text.append_inj_of_all hcs (hnot hg) (hnot hg') (not_apart_append hw y) (not_apart_append hw' y')
      obtain ⟨rfl, rfl⟩ := Text.append_inj_of_all hrest hw.2 hw'.2 hy hy'
      rw [ih h']

theorem Rewords.apart (h : r.Rewords b cs ds) (hcs : Apart cs) : Apart ds := by
  cases h with
  | gap hg => exact hcs
  | @word _ g w y z hg hw hy h =>
    cases g with
    | cons x g => exact apart_append hg _
    | nil =>
      obtain ⟨x, w', rfl⟩ := List.exists_cons_of_ne_nil hw.1
      have hx : Text.isWord x = false := hcs
      rw [hw.2 x List.mem_cons_self] at hx
      cases hx

/-- No character comes in but word characters. -/
theorem Rewords.mem (hr : r.Symbolic) (h : r.Rewords b cs ds) (hx : x ∈ ds) : x ∈ cs ∨ Text.isWord x = true := by
  induction h with
  | gap => exact .inl hx
  | @word b g w y z hg hw hy _ ih =>
    simp only [List.mem_append] at hx ⊢
    rcases hx with hx | hx | hx
    · exact .inl (.inl hx)
    · exact .inr ((hr.word_spell hw).2 x hx)
    · exact (ih hx).imp (fun h => .inr (.inr h)) id

/-- Where a place leads nowhere, its character stays and the rest goes its own way. -/
theorem Rewords.cons (hr : r.Symbolic) (hm : r.match? ⟨b, x :: cs⟩ = none) (h : r.Rewords (some x) cs ds) :
    r.Rewords b (x :: cs) (x :: ds) := by
  cases hx : Text.isWord x with
  | false =>
    cases h with
    | gap hg => exact .gap (List.forall_mem_cons.2 ⟨hx, hg⟩)
    | @word _ g w y z hg hw hy h =>
      -- an alias with a lead from here on would have been found here
      have hspell : r.spell b (x :: g) w = r.spell (some x) g w := by
        cases hget : r.aliases.get? (String.ofList w) with
        | none => rw [spell_of_none hget, spell_of_none hget]
        | some n =>
          have hled : r.Led b (x :: g) ↔ r.Led (some x) g := by
            rw [led_cons_iff, or_iff_right]
            rintro ⟨k, hk, hlead⟩
            have hsome := hr.isSome_match? hlead (hr.names.2 ⟨n, hget⟩) hy
            rw [← hk, List.cons_append, hm] at hsome
            cases hsome
          exact spell_congr hled
      have hcons := Rewords.word (b := b) (List.forall_mem_cons.2 ⟨hx, hg⟩) hw hy h
      rwa [hspell] at hcons
  | true =>
    have hone : Word [x] := ⟨List.cons_ne_nil _ _, List.forall_mem_singleton.2 hx⟩
    have hfirst : Apart cs → r.Rewords b (x :: cs) (x :: ds) := fun hcs => .first hone hcs h
    cases h with
    | gap hg => exact hfirst hg.apart
    | @word _ g w y z hg hw hy h =>
      cases g with
      | cons x' g => exact hfirst (apart_append hg _)
      | nil =>
        -- the character belongs to the word behind it
        have hlonger : Word (x :: w) := ⟨List.cons_ne_nil _ _, List.forall_mem_cons.2 ⟨hx, hw.2⟩⟩
        have hlast : (x :: w).getLast? = w.getLast? := List.getLast?_append_of_ne_nil [x] hw.1
        rw [← hlast] at h
        rw [spell_of_not_led not_led_nil]
        exact .first hlonger hy h

/-- An alias that a place leads to becomes its name. -/
theorem Rewords.found (hr : r.Symbolic) {m : Match} (hm : r.match? ⟨b, m.lead ++ m.word ++ y⟩ = some m)
    (h : r.Rewords m.word.getLast? y z) : r.Rewords b (m.lead ++ m.word ++ y) (Piece.render r (.found m) ++ z) := by
  obtain ⟨⟨k, hk, hlead⟩, hword, hy⟩ := hr.of_match? hm
  have hled : r.Led b m.lead := ⟨[], k, hk, hlead⟩
  have hgap : Gap m.lead := by
    rw [hk]
    exact List.forall_mem_append.2 ⟨fun x hx => (hlead.sign hr x hx).2, List.forall_mem_singleton.2 (by decide +kernel)⟩
  have hmatch := Rewords.word (b := b) hgap hword hy h
  rw [spell_of_led hled] at hmatch
  rw [Piece.render, List.append_assoc, List.append_assoc]
  exact hmatch

/-- **Renaming goes word by word.** -/
theorem rewords_rename (hr : r.Symbolic) (text : String) : r.Rewords none text.toList (r.rename text).toList := by
  have hempty : r.aliases.isEmpty = false := by
    obtain ⟨n, hn⟩ := List.exists_mem_of_ne_nil _ hr.some_names
    obtain ⟨m, hm⟩ := hr.names.1 hn
    exact List.isEmpty_eq_false_iff.2 (List.ne_nil_of_mem (Table.get?_eq_some_iff.1 hm))
  rw [toList_rename hempty]
  refine pieces_induct (motive := fun b cs ps => r.Rewords b cs (ps.flatMap (Piece.render r)))
    hr.proper ?_ ?_ ?_ ?_ none true text.toList
  · intro c m hm
    obtain ⟨n, hn⟩ := hr.names.1 ((Renamer.of_match? hr.proper hm).2 hr.some_names)
    have hword := (hr.words hn).1.1
    rwa [String.toList_ofList] at hword
  · intro b
    exact .gap Text.gap_nil
  · intro b x cs ps hm ih
    exact ih.cons hr hm
  · intro b m y ps hm ih
    exact ih.found hr hm

/-- **What renaming makes stays as it is.** -/
theorem Rewords.stable (hr : r.Symbolic) (hnames : ∀ a n, r.aliases.get? a = some n → r.aliases.get? n = none)
    (h : r.Rewords b cs ds) (hb : Cursor.atLineStart ⟨b, []⟩ = Cursor.atLineStart ⟨b', []⟩) : r.Rewords b' ds ds := by
  have hinside : ∀ {w}, Word w → Cursor.atLineStart ⟨w.getLast?, []⟩ = false := by
    intro w hw
    obtain ⟨x, hx, hisWord⟩ := hw.getLast?
    have hne : x ≠ '\n' := by
      rintro rfl
      rw [Text.isWord_of_isSpace rfl] at hisWord
      cases hisWord
    simpa [Cursor.atLineStart, hx] using hne
  induction h generalizing b' with
  | gap hg => exact .gap hg
  | @word b g w y z hg hw hy h ih =>
    have hw' := hr.word_spell (b := b) (g := g) hw
    -- the gap is the same, and a name is no alias
    have hspell : r.spell b' g (r.spell b g w) = r.spell b g w := by
      rcases spell_cases r b g w with h | ⟨n, hget, h⟩
      · rw [h, ← spell_congr (led_congr hb), h]
      · rw [h]
        exact spell_of_none (by rw [String.ofList_toList]; exact hnames _ n hget)
    have hsame := Rewords.word (b := b') hg hw' (h.apart hy) (ih ((hinside hw).trans (hinside hw').symm))
    rwa [hspell] at hsame

/-- **Renaming twice is renaming once.** -/
theorem rename_rename (hr : r.Symbolic) (hnames : ∀ a n, r.aliases.get? a = some n → r.aliases.get? n = none)
    (text : String) : r.rename (r.rename text) = r.rename text := by
  have hsame : r.Rewords none (r.rename text).toList (r.rename text).toList :=
    (rewords_rename hr text).stable hr hnames rfl
  exact String.toList_inj.1 ((rewords_rename hr (r.rename text)).unique hsame)

theorem not_mem_rename (hr : r.Symbolic) {text : String} (h : '\r' ∉ text.toList) : '\r' ∉ (r.rename text).toList := by
  intro hmem
  rcases (rewords_rename hr text).mem hr hmem with hmem | hisWord
  · exact h hmem
  · rw [Text.isWord_of_isSpace rfl] at hisWord
    cases hisWord

end Renamer

/-- Annotations start with `@`, and markers and inline sigils have neither it nor a word character in them. -/
def Language.isSymbolic (l : Language) : Bool :=
  l.header.sigil = "@" && l.body.sigil = "@" &&
    (l.markers ++ [l.header, l.body].filterMap (·.inlineSigil)).all fun m =>
      m.toList.all fun x => x ≠ '@' && ! Text.isWord x

/-- The built-in styles are symbolic in all languages. -/
theorem LanguageTable.isSymbolic_builtin :
    ∃ t, resolve ∅ = .ok t ∧ ∀ filetype, (t.forFiletype filetype).isSymbolic = true :=
  languages_builtin (by decide +kernel)

theorem Renamer.symbolic_ofLanguage {l : Language} {aliases : Table String} (hl : l.isSymbolic = true)
    (hempty : aliases.isEmpty = false)
    (hwords : ∀ a n, aliases.get? a = some n → Text.Word a.toList ∧ Text.Word n.toList) :
    (ofLanguage l aliases).Symbolic := by
  simp only [Language.isSymbolic, Bool.and_eq_true, decide_eq_true_eq, List.all_eq_true, Bool.not_eq_true'] at hl
  obtain ⟨⟨hheader, hbody⟩, hsigns⟩ := hl
  have hkeys : ∀ a n, aliases.get? a = some n → a ≠ "" := fun a n h =>
    mt String.toList_eq_nil_iff.2 (hwords a n h).1.1
  refine ⟨proper_ofLanguage l aliases, ?_, ?_, ?_, hwords _ _, names_ne_nil l hempty hkeys⟩
  · intro s
    have hmem : s ∈ (ofLanguage l aliases).sigils ↔ s ≠ [] ∧ String.ofList s ∈ [l.header.sigil, l.body.sigil] :=
      mem_byLength
    rw [hmem, hheader, hbody]
    constructor
    · rintro ⟨-, hs⟩
      have hs : String.ofList s = "@" := by simpa using hs
      rw [← String.toList_ofList (l := s), hs]
      rfl
    · rintro rfl
      exact ⟨List.cons_ne_nil _ _, List.mem_cons_self⟩
  · intro w hw x hx
    have hmem : String.ofList w ∈ l.markers ++ [l.header, l.body].filterMap (·.inlineSigil) := by
      rcases List.mem_append.1 hw with hw | hw
      · exact List.mem_append_left _ (mem_byLength.1 hw).2
      · exact List.mem_append_right _ (mem_byLength.1 hw).2
    exact hsigns _ hmem x (by rwa [String.toList_ofList])
  · intro n
    have hmem : n ∈ (ofLanguage l aliases).names ↔ n ≠ [] ∧ String.ofList n ∈ aliases.keys := mem_byLength
    rw [hmem, Table.mem_keys_iff, Table.contains, Option.isSome_iff_exists, and_iff_right_of_imp]
    · rfl
    · rintro ⟨m, hm⟩ rfl
      exact hkeys _ m hm rfl

/-- **Renaming with the built-in styles is stable**, where aliases and names are words and no name is an alias. Then
renaming twice is renaming once, and a text with the names put in is read as the text itself. -/
theorem Renamer.rename_stable :
    ∃ t, LanguageTable.resolve ∅ = .ok t ∧ ∀ (filetype : String) (aliases : Table String),
      (∀ a n, aliases.get? a = some n → Text.Word a.toList ∧ Text.Word n.toList) →
      (∀ a n, aliases.get? a = some n → aliases.get? n = none) →
      ∀ text,
        let r := Renamer.ofLanguage (t.forFiletype filetype) aliases
        r.rename (r.rename text) = r.rename text ∧
          ∀ (p : Parser) (path : String), p.languages = t → Path.filetype path = filetype →
            p.registry.aliasMap filetype = aliases → '\r' ∉ text.toList →
            p.parseSource path (r.rename text) = p.parseSource path text := by
  obtain ⟨t, ht, hsymbolic⟩ := LanguageTable.isSymbolic_builtin
  refine ⟨t, ht, ?_⟩
  intro filetype aliases hwords hnames text r
  have hstable : r.rename (r.rename text) = r.rename text ∧ ('\r' ∉ text.toList → '\r' ∉ (r.rename text).toList) := by
    cases hempty : aliases.isEmpty with
    | true =>
      have hsame : r.rename text = text := rename_of_isEmpty hempty text
      rw [hsame, hsame]
      exact ⟨rfl, id⟩
    | false =>
      have hr := symbolic_ofLanguage (hsymbolic filetype) hempty hwords
      exact ⟨rename_rename hr hnames text, not_mem_rename hr⟩
  refine ⟨hstable.1, ?_⟩
  rintro p path rfl rfl rfl hbreaks
  have hfile : p.sourceFile path (r.rename text) = p.sourceFile path text := by
    unfold Parser.sourceFile
    dsimp only
    rw [Text.foldBreaks_of_not_mem hbreaks, Text.foldBreaks_of_not_mem (hstable.2 hbreaks), hstable.1]
  unfold Parser.parseSource
  rw [hfile]

/-- The alias behind the marker gives way to its name, and the one in the text stays. -/
theorem Renamer.rename_stable_marker :
    ∃ p : Parser, LanguageTable.resolve ∅ = .ok p.languages ∧
      (Renamer.ofLanguage (p.languages.forFiletype "js") (p.registry.aliasMap "js")).rename
        "///@param (@param)" = "///@arg (@param)" ∧
      p.parseSource "a.js" "///@arg (@param)" = p.parseSource "a.js" "///@param (@param)" := by
  have hrename : (ofLanguage LanguageTable.slashes (.ofList [("param", "arg")])).rename
      "///@param (@param)" = "///@arg (@param)" := by
    have hwords : ofLanguage LanguageTable.slashes (.ofList [("param", "arg")]) =
        ⟨["////", "///"].map String.toList, ["@"].map String.toList, ["#"].map String.toList,
          ["param"].map String.toList, .ofList [("param", "arg")]⟩ :=
      ofLanguage_eq (by decide +kernel) (by decide +kernel) (by decide +kernel) (by decide +kernel)
    rw [hwords]
    decide +kernel
  obtain ⟨t, ht, hall⟩ := rename_stable
  obtain ⟨t', ht', hjs⟩ := LanguageTable.forFiletype_js
  obtain rfl := Except.ok.inj (ht.symm.trans ht')
  have hentries : ∀ a n, (Table.ofList [("param", "arg")]).get? a = some n → a = "param" ∧ n = "arg" := by
    intro a n h
    exact Prod.mk.inj (List.mem_singleton.1 (Table.mem_of_get?_ofList h))
  have hwords : ∀ a n, (Table.ofList [("param", "arg")]).get? a = some n →
      Text.Word a.toList ∧ Text.Word n.toList := by
    intro a n h
    obtain ⟨rfl, rfl⟩ := hentries a n h
    exact ⟨⟨by decide, List.all_eq_true.1 (by decide +kernel)⟩, by decide, List.all_eq_true.1 (by decide +kernel)⟩
  have hnames : ∀ a n, (Table.ofList [("param", "arg")]).get? a = some n →
      (Table.ofList [("param", "arg")]).get? n = none := by
    intro a n h
    obtain ⟨rfl, rfl⟩ := hentries a n h
    rfl
  let p : Parser := ⟨(({} : Registry).register "arg" (.aliases ["param"])).1, {}, t⟩
  have haliases : p.registry.aliasMap "js" = .ofList [("param", "arg")] := rfl
  obtain ⟨-, hparse⟩ := hall "js" (.ofList [("param", "arg")]) hwords hnames "///@param (@param)"
  rw [hjs, hrename] at hparse
  refine ⟨p, ht, ?_, hparse p "a.js" rfl (by decide +kernel) haliases (by decide)⟩
  rw [haliases]
  exact hjs ▸ hrename

end DocComments
