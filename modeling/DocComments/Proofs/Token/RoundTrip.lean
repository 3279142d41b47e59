import DocComments.Proofs.Token.CommentText

/-!
# Documented units can be written and read back

A documented unit is a comment and the code below it. Units are written one below the other with an empty line behind
each of them. Reading what was written gives the units back: **one token for each of them, in order, with nothing of one
unit in the next.**

* `DocUnit`, `Grammar.Shape.write`: units and how they are written.
* `Grammar.Shape.tokensOf`: the tokens that stand for them.
* `Legible`: what a unit needs to be read back.
* `tokenize_write`: reading back.
-/

namespace DocComments

open Text (normalize indentBy)

attribute [ext] Span Token

/-- The lines of a comment and the lines of the code below it. -/
structure DocUnit where
  comment : List String
  code : List String
  deriving DecidableEq

namespace Grammar.Shape

/-- A comment as it is written. An empty line stays so between delimiters, and has the marker alone otherwise. -/
def writeComment : Grammar.Shape → List String → List String
  | .lines m, c => c.map fun l => if l = "" then m.getD "" else m.getD "" ++ " " ++ l
  | .delimited o e, c => o :: (c.map fun l => if l = "" then "" else " " ++ l) ++ [e]

/-- A unit as it is written, with an empty line behind it. -/
def write (sh : Grammar.Shape) (u : DocUnit) : List String :=
  sh.writeComment u.comment ++ u.code ++ [""]

/-- The lines of a written comment above its first text. -/
def lead : Grammar.Shape → Nat
  | .lines _ => 0
  | .delimited _ _ => 1

/-- The span of code that starts on the line `n`. -/
def codeAt (n : Nat) (code : List String) : Span :=
  if code = [] then {}
  else { contents := normalize code, first := some n, last := some (n + code.length - 1), offset := 0 }

/-- The token of a unit that is written from the line `n` on. -/
def tokenOf (sh : Grammar.Shape) (n : Nat) (u : DocUnit) : Token where
  kind := .body
  comment :=
    { contents := u.comment
      first := some n
      last := some (n + (sh.writeComment u.comment).length - 1)
      offset := sh.lead }
  code := codeAt (n + (sh.writeComment u.comment).length) u.code

/-- The tokens of units that are written one below the other. -/
def tokensOf (sh : Grammar.Shape) (n : Nat) : List DocUnit → List Token
  | [] => []
  | u :: us => sh.tokenOf n u :: sh.tokensOf (n + (sh.write u).length) us

end Grammar.Shape

/-- What a unit needs to be read back, when `B` blank lines in a row end a run of code: its comment is in normal form and
does not close before its end, its code opens no comment, neither starts nor ends with a blank line, and has no `B` blank
lines in a row. -/
structure Legible (g : Grammar) (B : Nat) (u : DocUnit) : Prop where
  comment_ne : u.comment ≠ []
  normal : normalize u.comment = u.comment
  stays : ∀ o e, g.shape = .delimited o e → ∀ l ∈ u.comment, findMarker (" " ++ l) e = none
  plain : ∀ l ∈ u.code, g.opens l = false
  first : ∀ l ∈ u.code.head?, Text.isBlank l = false
  last : ∀ l ∈ u.code.getLast?, Text.isBlank l = false
  runs : ∀ j, j + B ≤ u.code.length → ∃ l ∈ (u.code.drop j).take B, Text.isBlank l = false

/-- What the scanner needs to know of a written comment with the first line `l` and the lines `ls` behind it. -/
structure Written (g : Grammar) (c : List String) (l : String) (ls : List String) : Prop where
  write_eq : g.shape.writeComment c = l :: ls
  opens : g.opens l = true
  indent : Text.indent l = 0
  tail : ∀ more, (∀ x ∈ more.head?, g.opens x = false) → g.tail l (ls ++ more) = ls.length
  contents : normalize (g.texts (l :: ls)) = c
  solid : ∃ r ∈ g.texts (l :: ls), Text.isBlank r = false
  leading : ((g.texts (l :: ls)).takeWhile Text.isBlank).length = g.shape.lead

section Comment

theorem isBlank_of_hasSpace {m : String} (hm : m ≠ "") (hs : Text.hasSpace m = false) : Text.isBlank m = false := by
  obtain ⟨c, cs, hc⟩ := List.exists_cons_of_ne_nil (fun h => hm (String.toList_eq_nil_iff.1 h))
  unfold Text.hasSpace at hs
  unfold Text.isBlank
  rw [hc] at hs ⊢
  simp only [List.any_cons, Bool.or_eq_false_iff] at hs
  simp [hs.1]

/-- A line that starts with a marker without white space has no indent. -/
theorem indent_append {m : String} (hm : m ≠ "") (hs : Text.hasSpace m = false) (r : String) :
    Text.indent (m ++ r) = 0 := by
  obtain ⟨c, cs, hc⟩ := List.exists_cons_of_ne_nil (fun h => hm (String.toList_eq_nil_iff.1 h))
  unfold Text.hasSpace at hs
  unfold Text.indent
  rw [hc] at hs
  simp only [List.any_cons, Bool.or_eq_false_iff] at hs
  rw [String.toList_append, hc, List.cons_append, List.takeWhile_cons_of_neg (by simp [hs.1])]
  rfl

/-- The text of a line that is written behind a blank: nothing for an empty line. -/
def pad (l : String) : String := if l = "" then "" else " " ++ l

theorem head?_pad (l : String) : (pad l).toList.head?.all Text.isSpace = true := by
  unfold pad
  split
  · rfl
  · rw [String.toList_append]; rfl

theorem pad_eq_indentBy {l : String} (h : Text.isBlank l = true → l = "") : pad l = indentBy " " l := by
  unfold pad indentBy
  by_cases hl : l = ""
  · rw [if_pos hl, hl]; rfl
  · rw [if_neg hl, if_neg fun hb => hl (h hb)]

variable {c : List String}

/-- The lines of a normal comment, each behind a blank, have that comment as their normal form. -/
theorem normalize_map_pad (hn : normalize c = c) : normalize (c.map pad) = c := by
  have hpad : c.map pad = c.map (indentBy " ") := by
    apply List.map_congr_left
    intro l hl
    exact pad_eq_indentBy fun hb => Text.eq_empty_of_mem_normalize (hn.symm ▸ hl) hb
  rw [hpad, Text.normalize_map_indentBy (by decide), hn]

/-- A normal comment starts with a line that is not blank, and so does its padded form. -/
theorem exists_cons_of_normal (hne : c ≠ []) (hn : normalize c = c) :
    ∃ x xs, c = x :: xs ∧ Text.isBlank (pad x) = false := by
  obtain ⟨x, xs, rfl⟩ := List.exists_cons_of_ne_nil hne
  have hhead : (normalize (x :: xs)).head? = some x := by rw [hn]; rfl
  have hx : Text.isBlank x = false := Text.isBlank_of_head?_normalize hhead
  refine ⟨x, xs, rfl, ?_⟩
  rw [pad_eq_indentBy (fun h => by rw [hx] at h; cases h), Text.isBlank_indentBy, hx]

variable {g : Grammar}

/-- A written comment of the line form. -/
theorem written_lines {m : String} (hs : g.shape = .lines (some m)) (hm : m ≠ "") (hsp : Text.hasSpace m = false)
    (hne : c ≠ []) (hn : normalize c = c) : ∃ l ls, Written g c l ls := by
  -- in both cases the written line is the marker and the padded text behind it
  have hline : ∀ l : String, (if l = "" then m else m ++ " " ++ l) = m ++ pad l := by
    intro l
    unfold pad
    split
    · rw [String.append_empty]
    · rw [String.append_assoc]
  have hfind : ∀ l, findMarker (m ++ pad l) m = some ⟨"", pad l⟩ := fun l => findMarker_append_self hm (head?_pad l)
  have hopens : ∀ l, g.opens (m ++ pad l) = true := by
    intro l; simp only [Grammar.opens, hs, Option.bind_some, hfind, Option.isSome_some]
  have hhead : ∀ l, g.headText (m ++ pad l) = pad l := by
    intro l; simp [Grammar.headText, hs, Marker.behind, hfind]
  have htext : ∀ l, g.lineText (m ++ pad l) = pad l := by
    intro l; simp [Grammar.lineText, hs, Marker.behind, hfind]
  obtain ⟨x, xs, rfl, hx⟩ := exists_cons_of_normal hne hn
  have htexts : g.texts ((m ++ pad x) :: xs.map fun l => m ++ pad l) = (x :: xs).map pad := by
    simp only [Grammar.texts, hhead, List.map_map, List.map_cons, List.cons.injEq, true_and]
    exact List.map_congr_left fun l _ => htext l
  refine ⟨m ++ pad x, xs.map fun l => m ++ pad l, ?_, hopens x, indent_append hm hsp _, ?_, ?_, ?_, ?_⟩
  · simp only [hs, Grammar.Shape.writeComment, Option.getD_some, hline, List.map_cons]
  · intro more hmore
    have hall : ∀ l ∈ xs.map (fun l => m ++ pad l), g.opens l = true := by
      intro l hl
      obtain ⟨y, -, rfl⟩ := List.mem_map.1 hl
      exact hopens y
    have hstop : more.takeWhile g.opens = [] := by
      cases more with
      | nil => rfl
      | cons y ys => rw [List.takeWhile_cons_of_neg (by simp [hmore y rfl])]
    simp only [Grammar.tail, hs]
    rw [List.takeWhile_append_of_pos hall, hstop, List.append_nil]
  · rw [htexts, normalize_map_pad hn]
  · exact ⟨pad x, by rw [htexts]; exact List.mem_cons_self, hx⟩
  · rw [htexts, List.map_cons, List.takeWhile_cons_of_neg (by simp [hx]), hs]
    rfl

/-- The first line with a marker, when the lines before it do not have it. -/
theorem through_append {e y : String} {xs : List String} (hxs : ∀ x ∈ xs, findMarker x e = none)
    (hy : (findMarker y e).isSome = true) (more : List String) :
    Grammar.through e (xs ++ y :: more) = xs.length + 1 := by
  induction xs with
  | nil => exact Grammar.through_cons_pos hy more
  | cons x xs ih =>
    rw [List.cons_append, Grammar.through_cons_neg (hxs x List.mem_cons_self),
      ih fun z hz => hxs z (List.mem_cons_of_mem x hz), List.length_cons]

/-- A written comment between delimiters. -/
theorem written_delimited {o e : String} (hs : g.shape = .delimited o e) (hsingle : g.single = none)
    (ho : o ≠ "") (he : e ≠ "") (hosp : Text.hasSpace o = false) (hesp : Text.hasSpace e = false)
    (hne : c ≠ []) (hn : normalize c = c) (hstays : ∀ l ∈ c, findMarker (" " ++ l) e = none) :
    ∃ l ls, Written g c l ls := by
  have hself : ∀ {m : String}, m ≠ "" → findMarker m m = some ⟨"", ""⟩ := by
    intro m hm
    have := findMarker_append_self (r := "") hm rfl
    rwa [String.append_empty] at this
  have hempty : findMarker "" e = none := findMarker_of_blank (isBlank_of_hasSpace he hesp) rfl
  have hpad : ∀ l ∈ c, findMarker (pad l) e = none := by
    intro l hl
    unfold pad
    split
    · exact hempty
    · exact hstays l hl
  -- the delimiters stand alone on their lines, so these two lines say nothing
  have hbare : ∀ t, g.bare t = t := by intro t; simp [Grammar.bare, hsingle]
  have hhead : g.headText o = "" := by
    simp [Grammar.headText, hs, Marker.behind, Marker.upTo, hself ho, hempty, hbare]
  have hlast : g.lineText e = "" := by simp [Grammar.lineText, hs, Marker.upTo, hself he, hbare]
  have htexts : g.texts (o :: (c.map pad ++ [e])) = [""] ++ c.map pad ++ [""] := by
    have hmap : (c.map pad).map g.lineText = c.map pad := by
      rw [List.map_map]
      apply List.map_congr_left
      intro l hl
      simp [Grammar.lineText, hs, Marker.upTo, hpad l hl, hbare]
    rw [Grammar.texts, hhead, List.map_append, hmap, List.map_cons, hlast]
    rfl
  have hblank : ∀ l ∈ [""], Text.isBlank l = true := by decide
  obtain ⟨x, xs, hc, hx⟩ := exists_cons_of_normal hne hn
  refine ⟨o, c.map pad ++ [e], ?_, ?_, ?_, ?_, ?_, ?_, ?_⟩
  · simp only [hs, Grammar.Shape.writeComment]
    rfl
  · simp only [Grammar.opens, hs, hself ho, Option.isSome_some]
  · have := indent_append ho hosp ""
    rwa [String.append_empty] at this
  · intro more _
    have hopen : ¬ ((findMarker o o).any fun h => (findMarker h.after e).isSome) = true := by
      simp [hself ho, hempty]
    simp only [Grammar.tail, hs]
    rw [if_neg hopen, List.append_assoc, List.singleton_append, through_append _ (by rw [hself he]; rfl),
      List.length_append, List.length_singleton]
    intro y hy
    obtain ⟨l, hl, rfl⟩ := List.mem_map.1 hy
    exact hpad l hl
  · rw [htexts, Text.normalize_append_blank hblank, Text.normalize_blank_append hblank, normalize_map_pad hn]
  · refine ⟨pad x, ?_, hx⟩
    rw [htexts, hc]
    simp
  · rw [htexts, hc, hs]
    have h0 : Text.isBlank "" = true := rfl
    simp [h0, hx, Grammar.Shape.lead]

end Comment

section Code

variable {lines code more : List String} {B e : Nat}

theorem solidAt_of_drop (hls : lines.drop (e + 1) = code ++ "" :: more) {k : Nat} {l : String}
    (hk : code[k]? = some l) : solidAt lines (e + 1 + k) = ! Text.isBlank l := by
  have hlt : k < code.length := (List.getElem?_eq_some_iff.1 hk).1
  apply solidAt_of_getElem?
  rw [getElem?_of_drop hls, List.getElem?_append_left hlt, hk]

/-- The line behind the code of a unit is blank. -/
theorem solidAt_behind (hls : lines.drop (e + 1) = code ++ "" :: more) :
    solidAt lines (e + 1 + code.length) = false := by
  have hget : lines[e + 1 + code.length]? = some "" := by
    rw [getElem?_of_drop hls, List.getElem?_append_right le_rfl, Nat.sub_self]
    rfl
  rw [solidAt_of_getElem? hget]
  rfl

/-- The code of a unit reaches its last line. -/
theorem isGreatest_reaches (hls : lines.drop (e + 1) = code ++ "" :: more) (hne : code ≠ [])
    (hlast : ∀ l ∈ code.getLast?, Text.isBlank l = false)
    (hruns : ∀ j, j + B ≤ code.length → ∃ l ∈ (code.drop j).take B, Text.isBlank l = false) :
    IsGreatest {g | Reaches lines B 0 (e + 1 + code.length + 1) (e + 1) g} (e + code.length) := by
  have hpos : 0 < code.length := List.length_pos_iff.2 hne
  constructor
  · refine ⟨by omega, by omega, ?_, fun _ _ _ _ => Nat.zero_le _, ?_⟩
    · have hget : code[code.length - 1]? = some (code.getLast hne) := by
        rw [← List.getLast?_eq_getElem?, List.getLast?_eq_some_getLast hne]
      have hsolid := solidAt_of_drop hls hget
      rw [hlast _ (List.getLast?_eq_some_getLast hne)] at hsolid
      rwa [show e + 1 + (code.length - 1) = e + code.length by omega] at hsolid
    · -- a window of `B` lines of the file up to that line is one of the code
      intro j h1 h2
      obtain ⟨l, hl, hb⟩ := hruns (j - (e + 1)) (by omega)
      obtain ⟨k, hk⟩ := List.mem_iff_getElem?.1 hl
      rw [List.getElem?_take] at hk
      split at hk
      · next hkB =>
        rw [List.getElem?_drop] at hk
        have hsolid := solidAt_of_drop hls hk
        rw [show e + 1 + (j - (e + 1) + k) = j + k by omega, hb] at hsolid
        exact ⟨k, hkB, hsolid⟩
      · cases hk
  · -- the only line beyond it is the empty one behind the unit
    rintro g hg
    have h1 := hg.lt
    by_contra hlt
    have hg' : g = e + 1 + code.length := by omega
    have := hg.solid
    rw [hg', solidAt_behind hls] at this
    cases this

/-- **The code of a unit**, found again from the lines of the file. -/
theorem CodeOf.eq_codeAt {span : Span} (h : CodeOf lines B 0 e (e + 1 + code.length + 1) span) (hB : 0 < B)
    (hls : lines.drop (e + 1) = code ++ "" :: more) (hfirst : ∀ l ∈ code.head?, Text.isBlank l = false)
    (hlast : ∀ l ∈ code.getLast?, Text.isBlank l = false)
    (hruns : ∀ j, j + B ≤ code.length → ∃ l ∈ (code.drop j).take B, Text.isBlank l = false) :
    span = Grammar.Shape.codeAt (e + 1) code := by
  unfold Grammar.Shape.codeAt
  by_cases hne : code = []
  · -- the line behind the comment is then the empty one, and code has no line to start on
    rw [if_pos hne]
    apply h.empty
    rintro ⟨f, hf⟩
    have h1 := hf.gt
    have h2 := hf.lt
    have hbehind := solidAt_behind hls
    rw [hne, List.length_nil] at h2 hbehind
    rw [show e + 1 + 0 = f by omega, hf.solid] at hbehind
    cases hbehind
  · rw [if_neg hne]
    have hpos : 0 < code.length := List.length_pos_iff.2 hne
    have hstarts : Starts lines B 0 e (e + 1 + code.length + 1) (e + 1) := by
      refine ⟨by omega, by omega, ?_, fun j h1 h2 => by omega, by omega, Nat.zero_le _⟩
      obtain ⟨x, xs, rfl⟩ := List.exists_cons_of_ne_nil hne
      have hsolid := solidAt_of_drop hls (k := 0) rfl
      rwa [hfirst x rfl] at hsolid
    obtain ⟨g, hg, hspan⟩ := h.span (e + 1) hstarts
    obtain rfl := hg.unique (isGreatest_reaches hls hne hlast hruns)
    have hslice : (lines.take (e + code.length + 1)).drop (e + 1) = code := by
      rw [List.drop_take, hls, show e + code.length + 1 - (e + 1) = code.length by omega, List.take_left]
    rw [hspan, hslice, show e + 1 + code.length - 1 = e + code.length by omega]

end Code

namespace Grammar

/-- One marker, or two delimiters without a marker inside them. None is empty or has white space in it. -/
inductive Plain (g : Grammar) : Prop
  | lines {m : String} (single : g.single = some m) (opening : g.opening = none) (closing : g.closing = none)
      (ne : m ≠ "") (tight : Text.hasSpace m = false)
  | delimited {o e : String} (single : g.single = none) (opening : g.opening = some o) (closing : g.closing = some e)
      (ne_opening : o ≠ "") (ne_closing : e ≠ "") (tight_opening : Text.hasSpace o = false)
      (tight_closing : Text.hasSpace e = false)

namespace Plain

variable {g : Grammar}

theorem visible (h : g.Plain) : g.Visible := by
  cases h with
  | lines hs ho hc ne tight =>
    refine ⟨fun m hm => ?_, by simp [ho], by simp [hc]⟩
    rw [hs] at hm
    obtain rfl := Option.some.inj hm
    exact isBlank_of_hasSpace ne tight
  | delimited hs ho hc neo nec hto htc =>
    refine ⟨by simp [hs], fun m hm => ?_, fun m hm => ?_⟩
    · rw [ho] at hm
      obtain rfl := Option.some.inj hm
      exact isBlank_of_hasSpace neo hto
    · rw [hc] at hm
      obtain rfl := Option.some.inj hm
      exact isBlank_of_hasSpace nec htc

/-- A plain grammar can be scanned. -/
theorem fault?_eq_none (h : g.Plain) (hsigil : g.sigil ≠ "") : g.fault? = none := by
  have hsig : ¬ g.sigil.isEmpty = true := by simpa using hsigil
  unfold fault?
  rw [if_neg hsig]
  cases h with
  | lines hs ho hc ne _ => rw [ho, hc, nonEmpty_eq_some_iff.2 ⟨hs, ne⟩]; rfl
  | delimited hs ho hc neo nec _ _ =>
    rw [hs, nonEmpty_eq_some_iff.2 ⟨ho, neo⟩, nonEmpty_eq_some_iff.2 ⟨hc, nec⟩]; rfl

end Plain

end Grammar

/-- The written form of a comment that is legible. -/
theorem Legible.written {g : Grammar} (hg : g.Plain) {B : Nat} {u : DocUnit} (hu : Legible g B u) :
    ∃ l ls, Written g u.comment l ls := by
  cases hg with
  | @lines m hs ho hc ne tight =>
    have hshape : g.shape = .lines (some m) := by unfold Grammar.shape; rw [hs, ho, hc]
    exact written_lines hshape ne tight hu.comment_ne hu.normal
  | @delimited o e hs ho hc neo nec hto htc =>
    have hshape : g.shape = .delimited o e := by unfold Grammar.shape; rw [ho, hc]
    exact written_delimited hshape hs neo nec hto htc hu.comment_ne hu.normal (hu.stays o e hshape)

namespace Scanner

variable {s : Scanner} {lines more : List String} {n : Nat} {u : DocUnit} {l : String} {ls : List String}

theorem write_append (hw : Written s.grammar u.comment l ls) (more : List String) :
    s.grammar.shape.write u ++ more = l :: (ls ++ (u.code ++ "" :: more)) := by
  rw [Grammar.Shape.write, hw.write_eq]
  simp

/-- The lines behind a written comment open no comment, up to the next unit. -/
theorem plain_of_mem (hv : s.grammar.Visible) {B : Nat} (hu : Legible s.grammar B u) {x : String}
    (hx : x ∈ u.code ++ [""]) : s.grammar.opens x = false := by
  rcases List.mem_append.1 hx with hx | hx
  · exact hu.plain x hx
  · rw [List.mem_singleton.1 hx]
    exact hv.opens_blank rfl

/-- The number of lines behind the first one of a written comment. -/
theorem tail_write (hv : s.grammar.Visible) {B : Nat} (hu : Legible s.grammar B u)
    (hw : Written s.grammar u.comment l ls) (more : List String) :
    s.grammar.tail l (ls ++ (u.code ++ "" :: more)) = ls.length := by
  apply hw.tail
  intro x hx
  apply plain_of_mem hv hu
  rw [List.head?_append] at hx
  cases hc : u.code with
  | nil => rw [hc] at hx; simpa using hx.symm
  | cons y ys =>
    rw [hc] at hx
    have hyx : y = x := by simpa using hx
    simp [hyx]

/-- The comment of a written unit. -/
theorem comment_write (hv : s.grammar.Visible) {B : Nat} (hu : Legible s.grammar B u)
    (hw : Written s.grammar u.comment l ls) (hls : lines.drop n = l :: (ls ++ (u.code ++ "" :: more))) :
    (s.tokenAt n l (ls ++ (u.code ++ "" :: more))).comment = (s.grammar.shape.tokenOf n u).comment := by
  have htail := tail_write hv hu hw more
  have hwrite : (s.grammar.shape.writeComment u.comment).length = ls.length + 1 := by
    rw [hw.write_eq, List.length_cons]
  obtain ⟨r, hr, hrb⟩ := hw.solid
  apply Span.ext
  · rw [contents_tokenAt hls, slice_of_drop hls, htail, List.take_left, hw.contents]
    rfl
  · exact first_tokenAt n l _
  · rw [last_tokenAt, htail, Grammar.Shape.tokenOf, hwrite]
    rfl
  · rw [offset_tokenAt hls, slice_of_drop hls, htail, List.take_left, Grammar.leading_spoken hr hrb, hw.leading]
    rfl

/-- The code of a written unit. -/
theorem code_write (hv : s.grammar.Visible) (hk : s.kind = .body) (hB : 0 < s.blankLimit)
    (hu : Legible s.grammar s.blankLimit u) (hw : Written s.grammar u.comment l ls)
    (hls : lines.drop n = l :: (ls ++ (u.code ++ "" :: more)))
    (hmore : ∀ x ∈ more.head?, s.grammar.opens x = true) :
    (s.tokenAt n l (ls ++ (u.code ++ "" :: more))).code = (s.grammar.shape.tokenOf n u).code := by
  have htail := tail_write hv hu hw more
  have hl : lines[n]? = some l := getElem?_of_drop_cons hls
  have hdrop : lines.drop (n + ls.length + 1) = u.code ++ "" :: more := by
    have := drop_of_drop_cons hls ls.length
    rwa [List.drop_left, Nat.add_right_comm] at this
  have hlen : lines.length = n + ls.length + 1 + u.code.length + 1 + more.length := by
    have := congrArg List.length hls
    simp only [List.length_drop, List.length_cons, List.length_append] at this
    omega
  -- up to the next unit no line opens a comment, and the next unit does
  have hbefore : ∀ k, n + 1 + s.grammar.tail l (ls ++ (u.code ++ "" :: more)) ≤ k →
      k < n + ls.length + 1 + u.code.length + 1 → lines[k]?.any s.grammar.opens = false := by
    intro k h1 h2
    rw [htail] at h1
    obtain ⟨j, rfl⟩ : ∃ j, k = n + ls.length + 1 + j := ⟨k - (n + ls.length + 1), by omega⟩
    have hj : j < (u.code ++ [""]).length := by
      rw [List.length_append, List.length_singleton]; omega
    rw [getElem?_of_drop hdrop, show u.code ++ "" :: more = u.code ++ [""] ++ more by simp,
      List.getElem?_append_left hj, List.getElem?_eq_getElem hj, Option.any_some]
    exact plain_of_mem hv hu (List.getElem_mem hj)
  have hat : n + ls.length + 1 + u.code.length + 1 < lines.length →
      lines[n + ls.length + 1 + u.code.length + 1]?.any s.grammar.opens = true := by
    intro hlt
    obtain ⟨x, xs, rfl⟩ := List.exists_cons_of_ne_nil (List.ne_nil_of_length_pos (l := more) (by omega))
    rw [Nat.add_assoc, getElem?_of_drop hdrop, List.getElem?_append_right (by omega), Nat.add_sub_cancel_left]
    exact hmore x rfl
  have hspan := codeOf_tokenAt hv hk hB hls (by rw [htail]; omega) (by omega) hbefore hat
  rw [htail, indentAt_of_getElem? hl, hw.indent] at hspan
  rw [hspan.eq_codeAt hB hdrop hu.first hu.last hu.runs, Grammar.Shape.tokenOf, hw.write_eq]
  rfl

/-- **One unit is read back**, and the scan goes on behind it. -/
theorem scan_write (hv : s.grammar.Visible) (hk : s.kind = .body) (hB : 0 < s.blankLimit)
    (hu : Legible s.grammar s.blankLimit u) (hw : Written s.grammar u.comment l ls)
    (hls : lines.drop n = s.grammar.shape.write u ++ more)
    (hmore : ∀ x ∈ more.head?, s.grammar.opens x = true) :
    s.scan .outside n (s.grammar.shape.write u ++ more) =
      s.grammar.shape.tokenOf n u :: s.scan .outside (n + (s.grammar.shape.write u).length) more := by
  have htail := tail_write hv hu hw more
  have hlen : (s.grammar.shape.write u).length = 1 + ls.length + (u.code.length + 1) := by
    rw [Grammar.Shape.write, hw.write_eq]
    simp only [List.length_append, List.length_cons, List.length_nil]
    omega
  rw [write_append hw] at hls ⊢
  have htoken : s.tokenAt n l (ls ++ (u.code ++ "" :: more)) = s.grammar.shape.tokenOf n u :=
    Token.ext hk (comment_write hv hu hw hls) (code_write hv hk hB hu hw hls hmore)
  have hskip : s.scan .outside (n + 1 + ls.length) (u.code ++ "" :: more) =
      s.scan .outside (n + (s.grammar.shape.write u).length) more := by
    have := scan_outside_append (fun x hx => plain_of_mem hv hu hx) (n + 1 + ls.length) more
    rwa [List.append_assoc, List.singleton_append, List.length_append, List.length_singleton,
      show n + 1 + ls.length + (u.code.length + 1) = n + (s.grammar.shape.write u).length by omega] at this
  rw [scan_outside_opens hv hw.opens, htail, List.drop_left, rest_of_body hk, htoken, hskip]

/-- Units are read back one by one. -/
theorem scan_units (hg : s.grammar.Plain) (hk : s.kind = .body) (hB : 0 < s.blankLimit) {us : List DocUnit}
    (hus : ∀ u ∈ us, Legible s.grammar s.blankLimit u) (hls : lines.drop n = us.flatMap s.grammar.shape.write) :
    s.scan .outside n (us.flatMap s.grammar.shape.write) = s.grammar.shape.tokensOf n us := by
  -- the lines of the whole file stay, and the units that are left are those from the line `n` on
  induction us generalizing n with
  | nil => rfl
  | cons u us ih =>
    have hu := hus u List.mem_cons_self
    have hus' : ∀ v ∈ us, Legible s.grammar s.blankLimit v := fun v hv => hus v (List.mem_cons_of_mem u hv)
    obtain ⟨l, ls, hw⟩ := hu.written hg
    -- what comes behind the unit is nothing, or the first line of the next comment
    have hmore : ∀ x ∈ (us.flatMap s.grammar.shape.write).head?, s.grammar.opens x = true := by
      intro x hx
      cases us with
      | nil => simp at hx
      | cons v vs =>
        obtain ⟨l', ls', hw'⟩ := (hus' v List.mem_cons_self).written hg
        rw [List.flatMap_cons, write_append hw'] at hx
        obtain rfl := Option.some.inj hx
        exact hw'.opens
    rw [List.flatMap_cons] at hls ⊢
    have hrest : lines.drop (n + (s.grammar.shape.write u).length) = us.flatMap s.grammar.shape.write := by
      rw [← List.drop_drop, hls, List.drop_left]
    rw [scan_write hg.visible hk hB hu hw hls hmore, ih hus' hrest]
    rfl

end Scanner

/-- **Written units are read back.** A plain grammar can be scanned, and what it gives for written units is one token
for each of them. -/
theorem tokenize_write {g : Grammar} (hg : g.cleaned.Plain) (hsigil : g.sigil ≠ "") (blankLines : Nat) :
    ∃ s, Scanner.ofGrammar g blankLines .body = .ok s ∧ ∀ us : List DocUnit,
      (∀ u ∈ us, Legible g.cleaned (max blankLines 1) u) →
        s.tokenize (us.flatMap g.cleaned.shape.write) 0 = g.cleaned.shape.tokensOf 0 us := by
  refine ⟨_, Scanner.ofGrammar_eq_ok_iff.2 ⟨hg.fault?_eq_none hsigil, rfl⟩, ?_⟩
  intro us hus
  exact Scanner.scan_units hg rfl (Nat.lt_of_lt_of_le Nat.zero_lt_one (Nat.le_max_right _ _)) hus rfl

/-- Two units between delimiters, the first with an empty line in its comment and one in its code. -/
theorem tokenize_write_two :
    ∃ s, Scanner.ofGrammar (.ofDelimiters "/*" "*/") 2 .body = .ok s ∧
      (∀ u ∈ [DocUnit.mk ["a", "", "  b"] ["f()", "", "g()"], ⟨["c"], []⟩],
        Legible (Grammar.ofDelimiters "/*" "*/").cleaned 2 u) ∧
      s.tokenize ["/*", " a", "", "   b", "*/", "f()", "", "g()", "", "/*", " c", "*/", ""] 0 =
        (Grammar.Shape.delimited "/*" "*/").tokensOf 0 [⟨["a", "", "  b"], ["f()", "", "g()"]⟩, ⟨["c"], []⟩] := by
  have hg : (Grammar.ofDelimiters "/*" "*/").cleaned.Plain :=
    .delimited (by decide) rfl rfl (by decide) (by decide) (by decide) (by decide)
  have hshape : (Grammar.ofDelimiters "/*" "*/").cleaned.shape = .delimited "/*" "*/" := rfl
  have hus : ∀ u ∈ [DocUnit.mk ["a", "", "  b"] ["f()", "", "g()"], ⟨["c"], []⟩],
      Legible (Grammar.ofDelimiters "/*" "*/").cleaned 2 u := by
    intro u hu
    rcases List.mem_pair.1 hu with rfl | rfl
    · refine ⟨by decide, by decide, ?_, by decide, by decide, by decide, ?_⟩
      · intro o e h
        rw [hshape] at h
        cases h
        decide
      · intro j hj
        obtain rfl | rfl : j = 0 ∨ j = 1 := by simp only [List.length_cons, List.length_nil] at hj; omega
        · decide
        · decide
    · refine ⟨by decide, by decide, ?_, by decide, by decide, by decide, ?_⟩
      · intro o e h
        rw [hshape] at h
        cases h
        decide
      · intro j hj
        simp at hj
  have hwrite : [DocUnit.mk ["a", "", "  b"] ["f()", "", "g()"], ⟨["c"], []⟩].flatMap
      (Grammar.ofDelimiters "/*" "*/").cleaned.shape.write =
      ["/*", " a", "", "   b", "*/", "f()", "", "g()", "", "/*", " c", "*/", ""] := by decide
  obtain ⟨s, hs, hread⟩ := tokenize_write hg (by decide) 2
  refine ⟨s, hs, hus, ?_⟩
  rw [← hwrite]
  exact hread _ hus

end DocComments
