import DocComments.Alias
import DocComments.Proofs.Table.Lookup
import DocComments.Proofs.Text.Cut

/-!
# What a place leads to

The readings of a text are found in one pass from its end. Each of them is known by a form of text: it is an alias that
stands behind a text of that form, and there is one whenever an alias stands behind such a text.

* `Finds`: the two halves of this, for a place and a form.
* `Lead`: the texts that may stand before a sigil.
* `finds_match?`: **what a place leads to stands behind a lead**, and every lead leads somewhere.
* `pieces_kept`, `pieces_found`: the pieces of a text, from what its places lead to.
* `pieces_induct`: the induction over the pieces of a text.
* `ofLanguage_eq`: the renamer of a language, when its words are known.
-/

namespace DocComments

namespace Cursor

variable {c c' : Cursor} {b : Option Char} {x : Char} {cs v w : List Char}

theorem skip?_cons (b : Option Char) (x : Char) (w cs : List Char) :
    skip? (x :: w) ⟨b, x :: cs⟩ = skip? w ⟨some x, cs⟩ := by
  have hlast : ((x :: w).getLast? <|> b) = (w.getLast? <|> some x) := by
    rw [List.getLast?_cons]
    cases w.getLast? <;> rfl
  simp only [skip?, Text.after?, if_true, hlast]

theorem skip?_eq_some_iff : c.skip? w = some c' ↔ c.rest = w ++ c'.rest ∧ c'.before = (w.getLast? <|> c.before) := by
  unfold skip?
  rw [Option.map_eq_some_iff]
  constructor
  · rintro ⟨rest, h, rfl⟩
    exact ⟨Text.after?_eq_some_iff.1 h, rfl⟩
  · rintro ⟨h, hb⟩
    exact ⟨c'.rest, Text.after?_eq_some_iff.2 h, by rw [← hb]⟩

theorem skip?_append (h : c.skip? w = some c') (v : List Char) : c.skip? (w ++ v) = c'.skip? v := by
  obtain ⟨b, cs⟩ := c
  induction w generalizing b cs with
  | nil =>
    obtain rfl := Option.some.inj h
    rfl
  | cons x w ih =>
    obtain ⟨hrest, -⟩ := skip?_eq_some_iff.1 h
    obtain rfl : cs = x :: (w ++ c'.rest) := hrest
    rw [skip?_cons] at h
    rw [List.cons_append, skip?_cons]
    exact ih _ _ h

/-- What holds of a place when it holds of the next one holds of all places. -/
theorem induct {motive : Cursor → Prop}
    (h : ∀ c : Cursor, (∀ x cs, c.rest = x :: cs → motive ⟨some x, cs⟩) → motive c) (c : Cursor) : motive c := by
  obtain ⟨b, cs⟩ := c
  induction cs generalizing b with
  | nil =>
    refine h _ fun x cs hcs => ?_
    cases hcs
  | cons x cs ih =>
    refine h _ fun y ds hcs => ?_
    obtain ⟨rfl, rfl⟩ := List.cons_eq_cons.1 hcs
    exact ih _

end Cursor

namespace Renamer

variable {r : Renamer} {c c' : Cursor} {P Q : List Char → Prop} {o o' : Option Match}

theorem Match.behind_behind (m : Match) (v w : List Char) : (m.behind v).behind w = m.behind (w ++ v) := by
  simp only [behind, List.append_assoc]

/-- The reading of one place. -/
def reading (r : Renamer) (c : Cursor) : Reading :=
  (r.readings c.before c.rest).headD {}

/-- The readings of the places behind one place. -/
def later (r : Renamer) (c : Cursor) : List Reading :=
  match c.rest with
  | [] => []
  | x :: cs => r.readings (some x) cs

theorem readings_eq (c : Cursor) : r.readings c.before c.rest = r.reading c :: r.later c := by
  obtain ⟨b, cs⟩ := c
  cases cs <;> rfl

theorem reading_eq (c : Cursor) : r.reading c = r.readingAt c (r.later c) := by
  obtain ⟨b, cs⟩ := c
  cases cs <;> rfl

theorem drop_readings {w : List Char} (h : c.skip? w = some c') :
    (r.readings c.before c.rest).drop w.length = r.readings c'.before c'.rest := by
  obtain ⟨b, cs⟩ := c
  induction w generalizing b cs with
  | nil =>
    obtain rfl := Option.some.inj h
    rfl
  | cons x w ih =>
    obtain ⟨hrest, -⟩ := Cursor.skip?_eq_some_iff.1 h
    obtain rfl : cs = x :: (w ++ c'.rest) := hrest
    rw [Cursor.skip?_cons] at h
    exact ih _ _ h

/-- The reading behind a word, as it is looked up. -/
theorem reading_of_skip? {w : List Char} (hw : w ≠ []) (h : c.skip? w = some c') :
    ((r.later c).drop (w.length - 1)).headD {} = r.reading c' := by
  have hdrop := drop_readings (r := r) h
  obtain ⟨x, w, rfl⟩ := List.exists_cons_of_ne_nil hw
  rw [readings_eq c, List.length_cons, List.drop_succ_cons] at hdrop
  rw [List.length_cons, Nat.add_sub_cancel, hdrop]
  rfl

/-- What a place finds behind a text of some form: an alias that stands there, and one whenever there is any. -/
structure Finds (r : Renamer) (c : Cursor) (P : List Char → Prop) (o : Option Match) : Prop where
  sound : ∀ m, o = some m → ∃ k c' a, P k ∧ c.skip? k = some c' ∧ r.aliasAt? c' = some a ∧ m = a.behind k
  complete : ∀ k c', P k → c.skip? k = some c' → (r.aliasAt? c').isSome = true → o.isSome = true

theorem finds_none (h : ∀ k c', c.skip? k = some c' → ¬ P k) : r.Finds c P none := by
  refine ⟨fun m hm => ?_, fun k c' hk hc _ => absurd hk (h k c' hc)⟩
  cases hm

theorem Finds.congr (h : r.Finds c P o) (hPQ : ∀ k c', c.skip? k = some c' → (P k ↔ Q k)) : r.Finds c Q o := by
  refine ⟨fun m hm => ?_, fun k c' hk hc ha => h.complete k c' ((hPQ k c' hc).2 hk) hc ha⟩
  obtain ⟨k, c', a, hk, hc, ha, rfl⟩ := h.sound m hm
  exact ⟨k, c', a, (hPQ k c' hc).1 hk, hc, ha, rfl⟩

theorem Finds.orElse (h : r.Finds c P o) (h' : r.Finds c Q o') : r.Finds c (fun k => P k ∨ Q k) (o <|> o') := by
  refine ⟨fun m hm => ?_, fun k c' hk hc ha => ?_⟩
  · cases o with
    | some x =>
      obtain ⟨k, c', a, hk, hc⟩ := h.sound m hm
      exact ⟨k, c', a, .inl hk, hc⟩
    | none =>
      obtain ⟨k, c', a, hk, hc⟩ := h'.sound m hm
      exact ⟨k, c', a, .inr hk, hc⟩
  · rcases hk with hk | hk
    · have hsome := h.complete k c' hk hc ha
      cases o with
      | some x => rfl
      | none => cases hsome
    · have hsome := h'.complete k c' hk hc ha
      cases o with
      | some x => rfl
      | none => exact hsome

theorem Finds.behind {w : List Char} (h : r.Finds c' P o) (hw : c.skip? w = some c') :
    r.Finds c (fun k => ∃ k', P k' ∧ k = w ++ k') (o.map (·.behind w)) := by
  refine ⟨fun m hm => ?_, ?_⟩
  · obtain ⟨m', ho, rfl⟩ := Option.map_eq_some_iff.1 hm
    obtain ⟨k, c'', a, hk, hc, ha, rfl⟩ := h.sound m' ho
    exact ⟨w ++ k, c'', a, ⟨k, hk, rfl⟩, by rw [Cursor.skip?_append hw, hc], ha, Match.behind_behind a k w⟩
  · rintro k c'' ⟨k', hk, rfl⟩ hc ha
    rw [Cursor.skip?_append hw] at hc
    rw [Option.isSome_map]
    exact h.complete k' c'' hk hc ha

theorem mem_wordsAt {ws : List (List Char)} {x : List Char × Cursor} :
    x ∈ wordsAt ws c ↔ x.1 ∈ ws ∧ c.skip? x.1 = some x.2 := by
  obtain ⟨w, c'⟩ := x
  simp only [wordsAt, List.mem_filterMap, Option.map_eq_some_iff, Prod.mk.injEq]
  constructor
  · rintro ⟨w', hw, c'', hc, rfl, rfl⟩
    exact ⟨hw, hc⟩
  · rintro ⟨hw, hc⟩
    exact ⟨w, hw, c', hc, rfl, rfl⟩

/-- One of some words, and behind it a text of the form. -/
theorem finds_wordsAt {ws : List (List Char)} {part : Reading → Option Match} (hws : ∀ w ∈ ws, w ≠ [])
    (h : ∀ c', r.Finds c' P (part (r.reading c'))) :
    r.Finds c (fun k => ∃ w ∈ ws, ∃ k', P k' ∧ k = w ++ k')
      ((wordsAt ws c).findSome? fun x => (part (((r.later c).drop (x.1.length - 1)).headD {})).map (·.behind x.1)) := by
  have hone : ∀ x ∈ wordsAt ws c, r.Finds c (fun k => ∃ k', P k' ∧ k = x.1 ++ k')
      ((part (((r.later c).drop (x.1.length - 1)).headD {})).map (·.behind x.1)) := by
    intro x hx
    obtain ⟨hw, hc⟩ := mem_wordsAt.1 hx
    rw [reading_of_skip? (hws _ hw) hc]
    exact (h x.2).behind hc
  refine ⟨fun m hm => ?_, ?_⟩
  · obtain ⟨x, hx, hm⟩ := List.exists_of_findSome?_eq_some hm
    obtain ⟨k, c', a, hk, hc⟩ := (hone x hx).sound m hm
    exact ⟨k, c', a, ⟨x.1, (mem_wordsAt.1 hx).1, hk⟩, hc⟩
  · rintro k c'' ⟨w, hw, k', hk, rfl⟩ hc ha
    obtain ⟨hrest, -⟩ := Cursor.skip?_eq_some_iff.1 hc
    have hskip : c.skip? w = some ⟨w.getLast? <|> c.before, k' ++ c''.rest⟩ :=
      Cursor.skip?_eq_some_iff.2 ⟨by rw [hrest, List.append_assoc], rfl⟩
    have hx : (w, _) ∈ wordsAt ws c := mem_wordsAt.2 ⟨hw, hskip⟩
    rw [List.findSome?_isSome_iff]
    exact ⟨_, hx, (hone _ hx).complete _ _ ⟨k', hk, rfl⟩ hc ha⟩

/-- One character of white space, and behind it a text of the form. -/
theorem finds_space {part : Reading → Option Match}
    (h : ∀ x cs, c.rest = x :: cs → r.Finds ⟨some x, cs⟩ P (part (r.reading ⟨some x, cs⟩))) :
    r.Finds c (fun k => ∃ x k', Text.isSpace x = true ∧ P k' ∧ k = x :: k')
      (match c.rest with
        | x :: _ => if Text.isSpace x then (part ((r.later c).headD {})).map (·.behind [x]) else none
        | [] => none) := by
  obtain ⟨b, cs⟩ := c
  cases cs with
  | nil =>
    refine finds_none ?_
    rintro k c' hc ⟨x, k', -, -, rfl⟩
    cases hc
  | cons x cs =>
    dsimp only
    by_cases hx : Text.isSpace x = true
    · rw [if_pos hx]
      refine ((h x cs rfl).behind (c := ⟨b, x :: cs⟩) (w := [x]) (Cursor.skip?_cons b x [] cs)).congr fun k c' hc => ?_
      -- a text at this place starts with the character that stands there
      constructor
      · rintro ⟨k', hk, rfl⟩
        exact ⟨x, k', hx, hk, rfl⟩
      · rintro ⟨y, k', -, hk, rfl⟩
        obtain ⟨hrest, -⟩ := Cursor.skip?_eq_some_iff.1 hc
        obtain ⟨rfl, -⟩ := List.cons_eq_cons.1 hrest
        exact ⟨k', hk, rfl⟩
    · rw [if_neg hx]
      refine finds_none ?_
      rintro k c' hc ⟨y, k', hy, -, rfl⟩
      obtain ⟨hrest, -⟩ := Cursor.skip?_eq_some_iff.1 hc
      obtain ⟨rfl, -⟩ := List.cons_eq_cons.1 hrest
      exact hx hy

def Spaces (k : List Char) : Prop :=
  ∀ x ∈ k, Text.isSpace x = true

theorem spaces_nil : Spaces [] := by
  intro x hx
  cases hx

theorem spaces_cons {x : Char} {k : List Char} : Spaces (x :: k) ↔ Text.isSpace x = true ∧ Spaces k :=
  List.forall_mem_cons

/-- A comment marker, with or without white space around it. -/
def Marked (r : Renamer) (k : List Char) : Prop :=
  ∃ sp, Spaces sp ∧ ∃ w ∈ r.markers, ∃ sp', Spaces sp' ∧ k = sp ++ (w ++ sp')

/-- An inline sigil and white space. -/
def Inline (r : Renamer) (k : List Char) : Prop :=
  ∃ w ∈ r.inlineSigils, ∃ sp, (Spaces sp ∧ sp ≠ []) ∧ k = w ++ sp

/-- The texts that may stand before a sigil, behind one place. -/
def Lead (r : Renamer) (c : Cursor) (k : List Char) : Prop :=
  (c.atLineStart = true ∧ (r.Marked k ∨ Spaces k)) ∨ (∃ w ∈ r.markers, ∃ k', r.Inline k' ∧ k = w ++ k') ∨ r.Inline k

/-- No marker and no inline sigil is empty. -/
structure Proper (r : Renamer) : Prop where
  markers : ∀ w ∈ r.markers, w ≠ []
  inlineSigils : ∀ w ∈ r.inlineSigils, w ≠ []

theorem finds_aliasAt? (c : Cursor) : r.Finds c (· = []) (r.aliasAt? c) := by
  refine ⟨fun m hm => ⟨[], c, m, rfl, rfl, hm, rfl⟩, ?_⟩
  rintro k c' rfl hc ha
  obtain rfl := Option.some.inj hc
  exact ha

theorem finds_sigil (c : Cursor) : r.Finds c Spaces (r.reading c).sigil := by
  induction c using Cursor.induct with
  | h c ih =>
    rw [reading_eq]
    -- white space is read one character at a time, and an alias at the place itself has nothing before it
    refine ((finds_space ih).orElse (finds_aliasAt? c)).congr fun k _ _ => ?_
    cases k with
    | nil => simp [spaces_nil]
    | cons x k => simp [spaces_cons]

theorem finds_spaced (c : Cursor) : r.Finds c (fun k => Spaces k ∧ k ≠ []) (r.reading c).spaced := by
  rw [reading_eq]
  refine (finds_space fun x cs _ => finds_sigil ⟨some x, cs⟩).congr fun k _ _ => ?_
  cases k with
  | nil => simp
  | cons x k => simp [spaces_cons]

theorem finds_marker (hr : r.Proper) (c : Cursor) : r.Finds c r.Marked (r.reading c).marker := by
  induction c using Cursor.induct with
  | h c ih =>
    rw [reading_eq]
    unfold readingAt
    dsimp only
    rw [List.findSome?_map]
    -- the recursion takes the white space before the marker, the reading behind the marker takes the rest
    refine ((finds_space ih).orElse (finds_wordsAt hr.markers finds_sigil)).congr fun k _ _ => ?_
    constructor
    · rintro (⟨x, _, hx, ⟨sp, hsp, w, hw, sp', hsp', rfl⟩, rfl⟩ | ⟨w, hw, sp', hsp', rfl⟩)
      · exact ⟨x :: sp, spaces_cons.2 ⟨hx, hsp⟩, w, hw, sp', hsp', rfl⟩
      · exact ⟨[], spaces_nil, w, hw, sp', hsp', rfl⟩
    · rintro ⟨sp, hsp, w, hw, sp', hsp', rfl⟩
      cases sp with
      | nil => exact .inr ⟨w, hw, sp', hsp', rfl⟩
      | cons x sp =>
        obtain ⟨hx, hsp⟩ := spaces_cons.1 hsp
        exact .inl ⟨x, _, hx, ⟨sp, hsp, w, hw, sp', hsp', rfl⟩, rfl⟩

theorem finds_inline (hr : r.Proper) (c : Cursor) : r.Finds c r.Inline (r.reading c).inline := by
  rw [reading_eq]
  exact finds_wordsAt hr.inlineSigils finds_spaced

/-- **What a place leads to stands behind a lead**, and every lead leads somewhere. -/
theorem finds_match? (hr : r.Proper) (c : Cursor) : r.Finds c (r.Lead c) (r.match? c) := by
  have hfound : r.match? c = ((if c.atLineStart then (r.reading c).marker <|> (r.reading c).sigil else none) <|>
      ((wordsAt r.markers c).findSome? fun x =>
        (((r.later c).drop (x.1.length - 1)).headD {}).inline.map (·.behind x.1)) <|> (r.reading c).inline) := by
    have hmap : ∀ f : List Char → Option Match,
        ((wordsAt r.markers c).map (·.1)).findSome? f = (wordsAt r.markers c).findSome? fun x => f x.1 := by
      intro f
      rw [List.findSome?_map]
      rfl
    have hmatch : r.match? c = (r.reading c).found := rfl
    rw [hmatch, reading_eq, ← hmap fun w => (((r.later c).drop (w.length - 1)).headD {}).inline.map (·.behind w)]
    rfl
  have hline : r.Finds c (fun k => c.atLineStart = true ∧ (r.Marked k ∨ Spaces k))
      (if c.atLineStart then (r.reading c).marker <|> (r.reading c).sigil else none) := by
    cases h : c.atLineStart with
    | true => exact ((finds_marker hr c).orElse (finds_sigil c)).congr fun k _ _ => by simp
    | false => exact finds_none fun k _ _ hk => by cases hk.1
  rw [hfound]
  exact hline.orElse ((finds_wordsAt hr.markers (finds_inline hr)).orElse (finds_inline hr c))

theorem of_mem_wordsOrNoneAt {ws : List (List Char)} {x : List Char × Cursor} (h : x ∈ wordsOrNoneAt ws c) :
    c.skip? x.1 = some x.2 ∧ (ws ≠ [] → x.1 ∈ ws) := by
  obtain ⟨hmem, hskip⟩ := mem_wordsAt.1 h
  refine ⟨hskip, fun hne => ?_⟩
  rwa [List.isEmpty_eq_false_iff.2 hne] at hmem

/-- What is found at a place: a sigil, and behind it a name that ends at a boundary. -/
theorem of_aliasAt? {a : Match} (h : r.aliasAt? c = some a) :
    ∃ c' c'', c.skip? a.lead = some c' ∧ c'.skip? a.word = some c'' ∧ c''.atBoundary = true ∧
      (r.sigils ≠ [] → a.lead ∈ r.sigils) ∧ (r.names ≠ [] → a.word ∈ r.names) := by
  obtain ⟨⟨s, c'⟩, hs, h⟩ := List.exists_of_findSome?_eq_some h
  obtain ⟨⟨n, c''⟩, hfind, rfl⟩ := Option.map_eq_some_iff.1 h
  obtain ⟨hskip, hsigil⟩ := of_mem_wordsOrNoneAt hs
  obtain ⟨hskip', hname⟩ := of_mem_wordsOrNoneAt (List.mem_of_find?_eq_some hfind)
  have hboundary := List.find?_some hfind
  exact ⟨c', c'', hskip, hskip', hboundary, hsigil, hname⟩

theorem isSome_aliasAt? {s n : List Char} {c'' : Cursor} (hs : s ∈ r.sigils) (hn : n ∈ r.names)
    (hskip : c.skip? s = some c') (hskip' : c'.skip? n = some c'') (hboundary : c''.atBoundary = true) :
    (r.aliasAt? c).isSome = true := by
  have hnames : r.names.isEmpty = false := List.isEmpty_eq_false_iff.2 (List.ne_nil_of_mem hn)
  have hsigils : r.sigils.isEmpty = false := List.isEmpty_eq_false_iff.2 (List.ne_nil_of_mem hs)
  unfold aliasAt? wordsOrNoneAt
  rw [hnames, hsigils, List.findSome?_isSome_iff]
  refine ⟨(s, c'), mem_wordsAt.2 ⟨hs, hskip⟩, ?_⟩
  rw [Option.isSome_map, List.find?_isSome]
  exact ⟨(n, c''), mem_wordsAt.2 ⟨hn, hskip'⟩, hboundary⟩

/-- A match stands at its place, and its word is a name if there are any names. -/
theorem of_match? (hr : r.Proper) {m : Match} (h : r.match? c = some m) :
    m.lead ++ m.word <+: c.rest ∧ (r.names ≠ [] → m.word ∈ r.names) := by
  obtain ⟨k, c', a, -, hk, ha, rfl⟩ := (finds_match? hr c).sound m h
  obtain ⟨c₁, c₂, hlead, hword, -, -, hname⟩ := of_aliasAt? ha
  rw [← Cursor.skip?_append hlead, ← Cursor.skip?_append hk] at hword
  obtain ⟨hrest, -⟩ := Cursor.skip?_eq_some_iff.1 hword
  refine ⟨⟨c₂.rest, ?_⟩, hname⟩
  rw [hrest]
  simp only [Match.behind, List.append_assoc]

theorem match?_eq_none (hr : r.Proper)
    (h : ∀ k c', r.Lead c k → c.skip? k = some c' → r.aliasAt? c' = none) : r.match? c = none := by
  cases hm : r.match? c with
  | none => rfl
  | some m =>
    obtain ⟨k, c', a, hlead, hk, ha, -⟩ := (finds_match? hr c).sound m hm
    rw [h k c' hlead hk] at ha
    cases ha

theorem mem_byLength {ws : List String} {w : List Char} : w ∈ byLength ws ↔ w ≠ [] ∧ String.ofList w ∈ ws := by
  simp only [byLength, List.mem_map, List.mem_mergeSort, Table.mem_keys_ofList_iff, List.map_map, List.mem_filter]
  constructor
  · rintro ⟨s, ⟨s', ⟨hs, hne⟩, rfl⟩, rfl⟩
    exact ⟨by simpa using hne, by rwa [String.ofList_toList]⟩
  · rintro ⟨hne, hw⟩
    exact ⟨_, ⟨String.ofList w, ⟨hw, by simpa using hne⟩, rfl⟩, String.toList_ofList⟩

/-- Longer words come first. -/
theorem pairwise_byLength (ws : List String) :
    (byLength ws).Pairwise fun a b => (String.ofList b).utf8ByteSize ≤ (String.ofList a).utf8ByteSize := by
  unfold byLength
  refine List.pairwise_map.2 ((List.pairwise_mergeSort ?_ ?_ _).imp fun {a b} h => ?_)
  · intro a b c hab hbc
    simp only [decide_eq_true_eq] at hab hbc ⊢
    omega
  · intro a b
    simp only [Bool.or_eq_true, decide_eq_true_eq]
    omega
  · rw [String.ofList_toList, String.ofList_toList]
    exact of_decide_eq_true h

/-- The words, each once, where their lengths alone decide on the order. -/
def LongestFirst (us ws : List String) : Prop :=
  us.Perm (Table.ofList ((ws.filter (! ·.isEmpty)).map (·, ()))).keys ∧
    us.Pairwise fun a b => b.utf8ByteSize < a.utf8ByteSize

instance (us ws : List String) : Decidable (LongestFirst us ws) :=
  inferInstanceAs (Decidable (_ ∧ _))

/-- Words of different lengths are in order in one way. -/
theorem LongestFirst.byLength_eq {us ws : List String} (h : LongestFirst us ws) : byLength ws = us.map String.toList := by
  obtain ⟨hkeys, hlt⟩ := h
  have hperm : (byLength ws).Perm (us.map String.toList) := ((List.mergeSort_perm _ _).trans hkeys.symm).map _
  have hsizes : (us.map String.utf8ByteSize).Nodup :=
    List.pairwise_map.2 (hlt.imp fun {a b} h => (Nat.ne_of_lt h).symm)
  refine List.Perm.eq_of_pairwise (fun a b ha hb hab hba => ?_) (pairwise_byLength ws)
    (List.pairwise_map.2 (hlt.imp fun {a b} h => ?_)) hperm
  · -- two words of one length are one word
    obtain ⟨x, hx, rfl⟩ := List.mem_map.1 (hperm.mem_iff.1 ha)
    obtain ⟨y, hy, rfl⟩ := List.mem_map.1 hb
    rw [String.ofList_toList, String.ofList_toList] at hab hba
    rw [List.inj_on_of_nodup_map hsizes hx hy (Nat.le_antisymm hba hab)]
  · rw [String.ofList_toList, String.ofList_toList]
    exact Nat.le_of_lt h

/-- The renamer of a language, when its words are known. -/
theorem ofLanguage_eq {l : Language} {aliases : Table String} {markers sigils inline names : List String}
    (hmarkers : LongestFirst markers ([l.header, l.body].flatMap fun g => [g.opening, g.single].filterMap id))
    (hsigils : LongestFirst sigils [l.header.sigil, l.body.sigil])
    (hinline : LongestFirst inline ([l.header, l.body].filterMap (·.inlineSigil)))
    (hnames : LongestFirst names aliases.keys) :
    ofLanguage l aliases =
      ⟨markers.map String.toList, sigils.map String.toList, inline.map String.toList, names.map String.toList,
        aliases⟩ := by
  unfold ofLanguage
  rw [hmarkers.byLength_eq, hsigils.byLength_eq, hinline.byLength_eq, hnames.byLength_eq]

theorem proper_ofLanguage (l : Language) (aliases : Table String) : (ofLanguage l aliases).Proper :=
  ⟨fun _ hw => (mem_byLength.1 hw).1, fun _ hw => (mem_byLength.1 hw).1⟩

theorem names_ne_nil (l : Language) {aliases : Table String} (h : aliases.isEmpty = false)
    (hne : ∀ a n, aliases.get? a = some n → a ≠ "") : (ofLanguage l aliases).names ≠ [] := by
  obtain ⟨e, es, he⟩ := List.exists_cons_of_ne_nil (List.isEmpty_eq_false_iff.1 h)
  have hget : aliases.get? e.1 = some e.2 := Table.get?_eq_some_iff.2 (by rw [he]; exact List.mem_cons_self)
  have hkey : e.1 ∈ aliases.keys := Table.mem_keys_iff.2 (Option.isSome_iff_exists.2 ⟨_, hget⟩)
  have hne' : e.1.toList ≠ [] := mt String.toList_eq_nil_iff.1 (hne _ _ hget)
  exact List.ne_nil_of_mem (mem_byLength.2 ⟨hne', by rwa [String.ofList_toList]⟩)

/-- Of the words at a place, the first one with a property is the longest one with it. -/
theorem length_le_of_find? {ws : List (List Char)} {p : List Char × Cursor → Bool} {x y : List Char × Cursor}
    (hws : ws.Pairwise fun a b => (String.ofList b).utf8ByteSize ≤ (String.ofList a).utf8ByteSize)
    (hx : (wordsAt ws c).find? p = some x) (hy : y ∈ wordsAt ws c) (hp : p y = true) : y.1.length ≤ x.1.length := by
  -- the words that stand at the place keep their order
  have hpair : (wordsAt ws c).Pairwise fun a b =>
      (String.ofList b.1).utf8ByteSize ≤ (String.ofList a.1).utf8ByteSize := by
    refine hws.filterMap _ fun a a' h b hb b' hb' => ?_
    obtain ⟨_, -, rfl⟩ := Option.map_eq_some_iff.1 hb
    obtain ⟨_, -, rfl⟩ := Option.map_eq_some_iff.1 hb'
    exact h
  have hfront : ∀ z ∈ wordsAt ws c, z.1 <+: c.rest := by
    intro z hz
    obtain ⟨hrest, -⟩ := Cursor.skip?_eq_some_iff.1 (mem_wordsAt.1 hz).2
    exact ⟨_, hrest.symm⟩
  have hxm := List.mem_of_find?_eq_some hx
  obtain ⟨-, as, bs, hl, has⟩ := List.find?_eq_some_iff_append.1 hx
  rw [hl] at hpair hy
  rcases List.mem_append.1 hy with hy | hy
  · have := has y hy
    rw [hp] at this
    cases this
  · rcases List.mem_cons.1 hy with rfl | hyb
    · exact Nat.le_refl _
    · have hle := (List.pairwise_cons.1 (List.pairwise_append.1 hpair).2.1).1 y hyb
      -- of two words at one place one is the start of the other
      rcases List.prefix_or_prefix_of_prefix (hfront x hxm) (hfront y (by rw [hl]; exact List.mem_append_right _ hy))
        with ⟨e, he⟩ | h
      · rw [← he, String.ofList_append, String.utf8ByteSize_append] at hle
        have hzero : (String.ofList e).utf8ByteSize = 0 := by omega
        have hnil : e = [] := by simpa using String.utf8ByteSize_eq_zero_iff.1 hzero
        exact Nat.le_of_eq (by rw [← he, hnil, List.append_nil])
      · exact h.length_le

theorem aliasAt?_eq {s : List Char} (hs : r.sigils = [s]) (hn : r.names ≠ []) (c : Cursor) :
    r.aliasAt? c = (c.skip? s).bind fun c' =>
      ((wordsAt r.names c').find? (·.2.atBoundary)).map fun x => ⟨s, x.1⟩ := by
  have hnames : r.names.isEmpty = false := List.isEmpty_eq_false_iff.2 hn
  unfold aliasAt? wordsOrNoneAt
  rw [hs, hnames]
  cases hc : c.skip? s with
  | none => simp [wordsAt, hc]
  | some c' => simp [wordsAt, hc]

variable {b : Option Char} {fresh : Bool} {cs k y : List Char}

/-- A text stays as it is where no place leads anywhere. -/
theorem pieces_kept (h : ∀ k c', Cursor.skip? k ⟨b, cs⟩ = some c' → r.match? c' = none) :
    pieces 0 fresh cs (r.readings b cs) = cs.map .kept := by
  have hhere : ((r.readings b cs).headD {}).found = none := h [] _ rfl
  induction cs generalizing b fresh with
  | nil => rw [pieces, hhere]; rfl
  | cons x cs ih =>
    have hnext : ∀ k c', Cursor.skip? k ⟨some x, cs⟩ = some c' → r.match? c' = none := by
      intro k c' hc
      rw [← Cursor.skip?_cons b] at hc
      exact h _ _ hc
    rw [pieces, hhere, List.map_cons, ← ih hnext (hnext [] _ rfl)]
    rfl

theorem pieces_skip (fresh : Bool) (b : Option Char) (k y : List Char) (hk : k ≠ []) :
    pieces k.length fresh (k ++ y) (r.readings b (k ++ y)) = pieces 0 false y (r.readings k.getLast? y) := by
  induction k generalizing b fresh with
  | nil => exact absurd rfl hk
  | cons x k ih =>
    rw [List.length_cons, List.cons_append, pieces]
    cases k with
    | nil => rfl
    | cons x' k =>
      rw [List.getLast?_cons_cons]
      exact ih false (some x) (List.cons_ne_nil x' k)

/-- A match at the start of a text takes what it covers. -/
theorem pieces_found {m : Match} (h : r.match? ⟨b, k ++ y⟩ = some m) (hm : m.length = k.length) (hk : k ≠ []) :
    pieces 0 fresh (k ++ y) (r.readings b (k ++ y)) = .found m :: pieces 0 false y (r.readings k.getLast? y) := by
  -- the first character is taken here, the others are skipped
  have hskip := pieces_skip (r := r) true b k y hk
  obtain ⟨x, k, rfl⟩ := List.exists_cons_of_ne_nil hk
  have hhere : ((r.readings b (x :: (k ++ y))).headD {}).found = some m := h
  have hpos : m.length ≠ 0 := by rw [hm, List.length_cons]; omega
  rw [List.length_cons, List.cons_append, pieces] at hskip
  rw [List.cons_append, pieces, hhere]
  dsimp only
  rw [if_neg hpos, hm, List.length_cons, Nat.add_sub_cancel]
  exact congrArg (_ :: ·) hskip

/-- **A text is cut into pieces from left to right.** What holds of the end, and of a place when it holds of the place
behind the piece there, holds of all places. No match may be empty. -/
theorem pieces_induct {motive : Option Char → List Char → List Piece → Prop} (hr : r.Proper)
    (hword : ∀ c m, r.match? c = some m → m.word ≠ [])
    (nil : ∀ b, motive b [] [])
    (kept : ∀ b x cs ps, r.match? ⟨b, x :: cs⟩ = none → motive (some x) cs ps → motive b (x :: cs) (.kept x :: ps))
    (found : ∀ b m y ps, r.match? ⟨b, m.lead ++ m.word ++ y⟩ = some m → motive m.word.getLast? y ps →
      motive b (m.lead ++ m.word ++ y) (.found m :: ps))
    (b : Option Char) (fresh : Bool) (cs : List Char) : motive b cs (pieces 0 fresh cs (r.readings b cs)) := by
  -- a piece is not empty, so the text behind it is shorter
  induction hlen : cs.length using Nat.strongRecOn generalizing b fresh cs with
  | _ len ih =>
    cases hm : r.match? ⟨b, cs⟩ with
    | some m =>
      obtain ⟨y, rfl⟩ := (of_match? hr hm).1
      have hne := hword _ m hm
      have hlast : (m.lead ++ m.word).getLast? = m.word.getLast? := List.getLast?_append_of_ne_nil _ hne
      rw [pieces_found hm List.length_append.symm (List.append_ne_nil_of_right_ne_nil _ hne), hlast]
      refine found b m y _ hm (ih _ ?_ _ _ _ rfl)
      have hpos := List.length_pos_iff.2 hne
      rw [← hlen, List.length_append, List.length_append]
      omega
    | none =>
      have hhere : ((r.readings b cs).headD {}).found = none := hm
      cases cs with
      | nil =>
        rw [pieces, hhere]
        exact nil b
      | cons x cs =>
        rw [pieces, hhere]
        refine kept b x cs _ hm (ih cs.length ?_ (some x) true cs rfl)
        rw [← hlen, List.length_cons]
        omega

theorem flatMap_kept (r : Renamer) (cs : List Char) : (cs.map Piece.kept).flatMap (Piece.render r) = cs := by
  induction cs with
  | nil => rfl
  | cons x cs ih => rw [List.map_cons, List.flatMap_cons, ih]; rfl

theorem rename_of_isEmpty (h : r.aliases.isEmpty = true) (text : String) : r.rename text = text := by
  unfold rename cut
  rw [if_pos h, flatMap_kept, String.ofList_toList]

theorem toList_rename (h : r.aliases.isEmpty = false) (text : String) :
    (r.rename text).toList = (pieces 0 true text.toList (r.readings none text.toList)).flatMap (Piece.render r) := by
  unfold rename cut
  rw [String.toList_ofList, h, if_neg Bool.false_ne_true]

theorem isPrefix_of_aliasAt? (hs : r.sigils ≠ []) (hn : r.names ≠ []) {m : Match} (hm : r.aliasAt? c = some m) :
    ∃ s ∈ r.sigils, ∃ n ∈ r.names, s ++ n <+: c.rest := by
  obtain ⟨c', c'', hlead, hword, -, hsigil, hname⟩ := of_aliasAt? hm
  obtain ⟨hrest, -⟩ := Cursor.skip?_eq_some_iff.1 hlead
  obtain ⟨hrest', -⟩ := Cursor.skip?_eq_some_iff.1 hword
  exact ⟨_, hsigil hs, _, hname hn, c''.rest, by rw [hrest, hrest', List.append_assoc]⟩

/-- **A text where no alias stands behind a sigil is not changed.** -/
theorem rename_of_not_infix (hr : r.Proper) (hs : r.sigils ≠ []) (hn : r.names ≠ []) {text : String}
    (h : ∀ s ∈ r.sigils, ∀ n ∈ r.names, ¬ s ++ n <:+: text.toList) : r.rename text = text := by
  have hpieces : pieces 0 true text.toList (r.readings none text.toList) = text.toList.map .kept := by
    refine pieces_kept fun k c hk => match?_eq_none hr fun k' c' _ hk' => ?_
    rw [← Cursor.skip?_append hk] at hk'
    obtain ⟨hrest, -⟩ := Cursor.skip?_eq_some_iff.1 hk'
    have hsuffix : c'.rest <:+ text.toList := ⟨k ++ k', hrest.symm⟩
    cases ha : r.aliasAt? c' with
    | none => rfl
    | some a =>
      obtain ⟨s, hs, n, hn, hstart⟩ := isPrefix_of_aliasAt? hs hn ha
      exact absurd (hstart.isInfix.trans hsuffix.isInfix) (h s hs n hn)
  unfold rename cut
  rw [hpieces, ite_self, flatMap_kept, String.ofList_toList]

/-- The same for a language and its sigils. -/
theorem rename_ofLanguage {l : Language} {aliases : Table String} {a text : String} (hs : l.body.sigil ≠ "")
    (ha : a ∈ aliases.keys) (hne : a ≠ "")
    (h : ∀ s ∈ [l.header.sigil, l.body.sigil], ∀ a ∈ aliases.keys, Text.contains text (s ++ a) = false) :
    (ofLanguage l aliases).rename text = text := by
  have hmem : ∀ {w : String} {ws : List String}, w ∈ ws → w ≠ "" → byLength ws ≠ [] := by
    intro w ws hw hw'
    exact List.ne_nil_of_mem (mem_byLength.2 ⟨mt String.toList_eq_nil_iff.1 hw', by rwa [String.ofList_toList]⟩)
  refine rename_of_not_infix (proper_ofLanguage l aliases) (hmem (by simp) hs) (hmem ha hne) ?_
  intro s hs n hn hpiece
  have hcontains : Text.contains text (String.ofList s ++ String.ofList n) = true := by
    rw [Text.contains_iff, String.toList_append, String.toList_ofList, String.toList_ofList]
    exact hpiece
  rw [h _ (mem_byLength.1 hs).2 _ (mem_byLength.1 hn).2] at hcontains
  cases hcontains

end Renamer

end DocComments
