import DocComments.Proofs.Builtin.Reference
import DocComments.Proofs.Builtin.States

/-!
# Linked markup

States are linked to a copy of their markup in which the references are filled in, both in the text and in the escaped
text. The second one has the same references with their paths escaped, and what they stand for is put in as it is.

* `Reference.Pieces`: a text cut at its references.
* `Reference.fill_eq`, `Reference.fill_escapeHtml`: the two texts, piece by piece.
* `Reference.Safe`: a path that stands for the same in both texts, once escaped.
* `Builder.linked_texts`: **the texts of a linked markup, and when one is the other escaped.**
-/

namespace DocComments.Builtin.Reference

open Text

variable {names : List String} {f : List Char → String} {cs rest path : List Char}

/-! ## References and what is between them -/

inductive Piece where
  | char (c : Char)
  | reference (path : List Char)

/-- A text cut into its references and the characters between them. -/
inductive Pieces (names : List String) : List Char → List Piece → Prop
  | nil : Pieces names [] []
  | char {c : Char} {cs : List Char} {ps : List Piece} (hno : path? names (c :: cs) = none) (h : Pieces names cs ps) :
      Pieces names (c :: cs) (.char c :: ps)
  | reference {cs path rest : List Char} {ps : List Piece} (hpath : path? names cs = some (path, rest))
      (h : Pieces names rest ps) : Pieces names cs (.reference path :: ps)

/-- The paths of the references among some pieces, in order. -/
def paths (ps : List Piece) : List (List Char) :=
  ps.filterMap fun
    | .char _ => none
    | .reference p => some p

/-- A piece of a text whose references are filled in. -/
def Piece.filled (f : List Char → String) : Piece → List Char
  | .char c => [c]
  | .reference p => (f p).toList

/-- A piece of an escaped text whose references are filled in: the path is escaped, and what it stands for is not. -/
def Piece.filledEscaped (f : List Char → String) : Piece → List Char
  | .char c => entity c
  | .reference p => (f (escaped p)).toList

/-- A path for which an escaped text gets what the text gets, escaped. -/
def Safe (f : List Char → String) (p : List Char) : Prop :=
  f (escaped p) = escapeHtml (f p)

/-- A reference is written with one of the names, and its path goes up to the first closing brace. -/
theorem exists_of_path? (h : path? names cs = some (path, rest)) :
    ∃ n ∈ names, cs = ['$', '\x7b', '@'] ++ n.toList ++ path ++ '\x7d' :: rest ∧ '\x7d' ∉ path := by
  unfold path? at h
  obtain ⟨cs', hcs, hfind⟩ := Option.bind_eq_some_iff.1 h
  obtain ⟨n, hn, hpath⟩ := List.exists_of_findSome?_eq_some hfind
  obtain ⟨cs'', hname, hbrace⟩ := Option.bind_eq_some_iff.1 hpath
  obtain ⟨rfl, hmem⟩ := toBrace?_eq_some_iff.1 hbrace
  rw [after?_eq_some_iff] at hcs hname
  exact ⟨n, hn, by rw [hcs, hname]; simp, hmem⟩

theorem exists_cons_of_path? (h : path? names cs = some (path, rest)) : ∃ c tail, cs = c :: tail ∧ rest <:+ tail := by
  obtain ⟨n, -, rfl, -⟩ := exists_of_path? h
  refine ⟨'$', _, rfl, ['\x7b', '@'] ++ n.toList ++ path ++ ['\x7d'], ?_⟩
  simp

theorem path?_of_ne {c : Char} (hc : c ≠ '$') (names : List String) (cs : List Char) :
    path? names (c :: cs) = none := by
  unfold path?
  rw [after?, if_neg (Ne.symm hc)]
  rfl

/-- **References are found at the same places of an escaped text**, with their paths escaped. -/
theorem path?_escaped (hnames : ∀ n ∈ names, ∀ c ∈ n.toList, Plain c) (cs : List Char) :
    path? names (escaped cs) = (path? names cs).map (Prod.map escaped escaped) := by
  unfold path?
  rw [after?_escaped (plain_of_all (by decide))]
  cases after? ['$', '\x7b', '@'] cs with
  | none => rfl
  | some cs =>
    dsimp only [Option.map_some, Option.bind_eq_bind, Option.bind_some]
    induction names with
    | nil => rfl
    | cons n names ih =>
      have hn : (after? n.toList (escaped cs)).bind toBrace? =
          ((after? n.toList cs).bind toBrace?).map (Prod.map escaped escaped) := by
        rw [after?_escaped (hnames n List.mem_cons_self), Option.bind_map, Option.map_bind]
        exact congrArg _ (funext toBrace?_escaped)
      rw [List.findSome?_cons, List.findSome?_cons, hn]
      cases (after? n.toList cs).bind toBrace? with
      | none => exact ih fun x hx => hnames x (List.mem_cons_of_mem n hx)
      | some p => rfl

/-! ## Filling them in -/

theorem fillFrom_skip (n : Nat) (cs : List Char) : fillFrom names f n cs = fillFrom names f 0 (cs.drop n) := by
  induction n generalizing cs with
  | zero => rw [List.drop_zero]
  | succ n ih =>
    cases cs with
    | nil => rw [List.drop_nil, fillFrom, fillFrom]
    | cons c cs => rw [fillFrom, ih, List.drop_succ_cons]

theorem fillFrom_char {c : Char} (h : path? names (c :: cs) = none) :
    fillFrom names f 0 (c :: cs) = c :: fillFrom names f 0 cs := by
  rw [fillFrom, h]

theorem fillFrom_reference (h : path? names cs = some (path, rest)) :
    fillFrom names f 0 cs = (f path).toList ++ fillFrom names f 0 rest := by
  obtain ⟨c, tail, rfl, hsuffix⟩ := exists_cons_of_path? h
  have hdrop : tail.drop (tail.length - rest.length) = rest := (List.suffix_iff_eq_drop.1 hsuffix).symm
  rw [fillFrom, h]
  dsimp only
  rw [fillFrom_skip, hdrop]

theorem exists_pieces (names : List String) (cs : List Char) : ∃ ps, Pieces names cs ps := by
  match cs with
  | [] => exact ⟨[], .nil⟩
  | c :: cs =>
    cases hpath : path? names (c :: cs) with
    | none =>
      obtain ⟨ps, hps⟩ := exists_pieces names cs
      exact ⟨.char c :: ps, .char hpath hps⟩
    | some p =>
      obtain ⟨_, tail, hcs, hsuffix⟩ := exists_cons_of_path? hpath
      have hshort : p.2.length ≤ cs.length := (List.cons.inj hcs).2 ▸ hsuffix.length_le
      obtain ⟨ps, hps⟩ := exists_pieces names p.2
      exact ⟨.reference p.1 :: ps, .reference hpath hps⟩
  termination_by cs.length

/-- **A text with its references filled in**, piece by piece. -/
theorem Pieces.fillFrom_eq {ps : List Piece} (h : Pieces names cs ps) :
    fillFrom names f 0 cs = ps.flatMap (·.filled f) := by
  induction h with
  | nil => rfl
  | char hno _ ih =>
    rw [fillFrom_char hno, ih]
    rfl
  | reference hpath _ ih =>
    rw [fillFrom_reference hpath, ih]
    rfl

/-- An entity stays as it is, since no reference starts in it. -/
theorem fillFrom_entity {c : Char} (hc : ¬ Plain c) (cs : List Char) :
    fillFrom names f 0 (entity c ++ cs) = entity c ++ fillFrom names f 0 cs := by
  have hsolid : ∀ x ∈ entity c, x ≠ '$' := fun x hx => (solid_of_mem_entity hc hx).2
  generalize entity c = u at hsolid ⊢
  induction u with
  | nil => rfl
  | cons x u ih =>
    obtain ⟨hx, hu⟩ := List.forall_mem_cons.1 hsolid
    rw [List.cons_append, fillFrom_char (path?_of_ne hx _ _), ih hu, List.cons_append]

/-- **An escaped text with its references filled in**, from the pieces of the text. -/
theorem Pieces.fillFrom_escaped (hnames : ∀ n ∈ names, ∀ c ∈ n.toList, Plain c) {ps : List Piece}
    (h : Pieces names cs ps) : fillFrom names f 0 (escaped cs) = ps.flatMap (·.filledEscaped f) := by
  induction h with
  | nil => rfl
  | @char c cs ps hno _ ih =>
    rw [List.flatMap_cons, ← ih]
    have hfound := path?_escaped hnames (c :: cs)
    by_cases hc : Plain c
    · have hentity : Piece.filledEscaped f (.char c) = [c] := hc
      rw [hno, hc.escaped_cons] at hfound
      rw [hc.escaped_cons, fillFrom_char hfound, hentity, List.singleton_append]
    · rw [escaped_cons, fillFrom_entity hc]
      rfl
  | @reference cs path rest ps hpath _ ih =>
    have hfound := path?_escaped hnames cs
    rw [hpath] at hfound
    rw [fillFrom_reference hfound, ih]
    rfl

theorem fill_eq {s : String} {ps : List Piece} (h : Pieces names s.toList ps) :
    fill names f s = String.ofList (ps.flatMap (·.filled f)) := by
  unfold fill
  rw [h.fillFrom_eq]

theorem fill_escapeHtml (hnames : ∀ n ∈ names, ∀ c ∈ n.toList, Plain c) {s : String} {ps : List Piece}
    (h : Pieces names s.toList ps) :
    fill names f (escapeHtml s) = String.ofList (ps.flatMap (·.filledEscaped f)) := by
  unfold fill
  rw [toList_escapeHtml, h.fillFrom_escaped hnames]

/-! ## When one text is the other escaped -/

variable {ps : List Piece} {p : List Char}

theorem escaped_filled_char (c : Char) : escaped (Piece.filled f (.char c)) = entity c :=
  List.flatMap_singleton entity c

/-- With safe paths only, filling in commutes with escaping. -/
theorem flatMap_filledEscaped (h : ∀ p ∈ paths ps, Safe f p) :
    ps.flatMap (·.filledEscaped f) = escaped (ps.flatMap (·.filled f)) := by
  induction ps with
  | nil => rfl
  | cons x ps ih =>
    have htail : ∀ p ∈ paths ps, Safe f p := by
      intro p hp
      apply h
      cases x with
      | char c => exact hp
      | reference q => exact List.mem_cons_of_mem q hp
    rw [List.flatMap_cons, List.flatMap_cons, escaped_append, ih htail]
    congr 1
    cases x with
    | char c => exact (escaped_filled_char c).symm
    | reference q =>
      have hq : f (escaped q) = escapeHtml (f q) := h q List.mem_cons_self
      rw [Piece.filledEscaped, Piece.filled, hq, toList_escapeHtml]

/-- With paths of plain characters, what is put into an escaped text is never too long. -/
theorem length_filledEscaped_le (h : ∀ p ∈ paths ps, ∀ c ∈ p, Plain c) :
    (ps.flatMap (·.filledEscaped f)).length ≤ (escaped (ps.flatMap (·.filled f))).length := by
  induction ps with
  | nil => exact Nat.le_refl 0
  | cons x ps ih =>
    rw [List.flatMap_cons, List.flatMap_cons, escaped_append, List.length_append, List.length_append]
    cases x with
    | char c =>
      rw [escaped_filled_char]
      exact Nat.add_le_add_left (ih h) _
    | reference q =>
      obtain ⟨hq, htail⟩ := List.forall_mem_cons.1 h
      rw [Piece.filledEscaped, Piece.filled, escaped_of_plain hq]
      exact Nat.add_le_add (length_le_escaped _) (ih htail)

/-- With paths of plain characters, filling in commutes with escaping exactly when all that they stand for is plain: one
text that is not leaves the escaped text too short, and no other one makes up for it. -/
theorem flatMap_filledEscaped_iff_of_plain (h : ∀ p ∈ paths ps, ∀ c ∈ p, Plain c) :
    ps.flatMap (·.filledEscaped f) = escaped (ps.flatMap (·.filled f)) ↔
      ∀ p ∈ paths ps, ∀ c ∈ (f p).toList, Plain c := by
  induction ps with
  | nil => exact ⟨fun _ => List.forall_mem_nil _, fun _ => rfl⟩
  | cons x ps ih =>
    rw [List.flatMap_cons, List.flatMap_cons, escaped_append]
    cases x with
    | char c =>
      rw [escaped_filled_char, Piece.filledEscaped, List.append_cancel_left_eq]
      exact ih h
    | reference q =>
      obtain ⟨hq, htail⟩ := List.forall_mem_cons.1 h
      have hcons : paths (.reference q :: ps) = q :: paths ps := rfl
      rw [Piece.filledEscaped, Piece.filled, escaped_of_plain hq, hcons, List.forall_mem_cons, ← ih htail]
      constructor
      · intro heq
        have hfirst := length_le_escaped (f q).toList
        have hrest := length_filledEscaped_le (f := f) htail
        have hlength := congrArg List.length heq
        rw [List.length_append, List.length_append] at hlength
        obtain ⟨htext, hmore⟩ := List.append_inj heq (by omega)
        exact ⟨escaped_eq_self_iff.1 htext.symm, hmore⟩
      · rintro ⟨htext, hmore⟩
        rw [escaped_of_plain htext, hmore]

theorem exists_of_paths_eq (h : paths ps = [p]) :
    ∃ before behind, ps = before ++ .reference p :: behind ∧ paths before = [] ∧ paths behind = [] := by
  induction ps with
  | nil => cases h
  | cons x ps ih =>
    cases x with
    | char c =>
      obtain ⟨before, behind, rfl, hbefore, hbehind⟩ := ih h
      exact ⟨.char c :: before, behind, rfl, hbefore, hbehind⟩
    | reference q =>
      obtain ⟨rfl, hnone⟩ := List.cons.inj h
      exact ⟨[], ps, rfl, rfl, hnone⟩

/-- With one reference, filling in commutes with escaping exactly when its path is safe. -/
theorem flatMap_filledEscaped_iff (h : paths ps = [p]) :
    ps.flatMap (·.filledEscaped f) = escaped (ps.flatMap (·.filled f)) ↔ Safe f p := by
  obtain ⟨before, behind, rfl, hbefore, hbehind⟩ := exists_of_paths_eq h
  have hnone : ∀ qs, paths qs = [] → qs.flatMap (·.filledEscaped f) = escaped (qs.flatMap (·.filled f)) := by
    intro qs hqs
    apply flatMap_filledEscaped
    rw [hqs]
    exact List.forall_mem_nil _
  rw [List.flatMap_append, List.flatMap_append, List.flatMap_cons, List.flatMap_cons, escaped_append, escaped_append,
    hnone before hbefore, hnone behind hbehind, List.append_cancel_left_eq, List.append_cancel_right_eq,
    Piece.filledEscaped, Piece.filled, ← toList_escapeHtml, String.toList_inj]
  rfl

end DocComments.Builtin.Reference

namespace DocComments

namespace Builtin

open Reference

variable {c : ResolveContext} {k : Nat} {wanted : Option String}

theorem mem_of_findMarkup {m : Value} (h : findMarkup c k wanted = .ok m) :
    ∃ ms, (c.parsed.get? "markup").bind Value.items? = some ms ∧ m ∈ ms := by
  unfold findMarkup at h
  split at h
  · cases h
  · next ms id hms =>
    refine ⟨ms, hms, ?_⟩
    split at h
    · next hfind =>
      obtain rfl := Except.ok.inj h
      exact List.mem_of_find?_eq_some hfind
    · cases h
  · next ms hms =>
    refine ⟨ms, hms, ?_⟩
    dsimp only at h
    split at h
    · next hindex =>
      obtain rfl := Except.ok.inj h
      obtain ⟨j, -, hj⟩ := Option.bind_eq_some_iff.1 hindex
      exact List.mem_of_getElem? hj
    · cases h

/-- An entry holds its states and an empty markup, or one of the markups with its references filled in. -/
theorem linkEntry_eq (c : ResolveContext) (k : Nat) (item : Value) :
    ∃ state m, (linkEntry c k item).2.1 = .object [("state", state), ("markup", m)] ∧
      (m = .obj [] ∨ ∃ ms m₀, (c.parsed.get? "markup").bind Value.items? = some ms ∧ m₀ ∈ ms ∧
        m = linkMarkup c state m₀) := by
  unfold linkEntry
  dsimp only
  split
  · next m₀ hfound =>
    obtain ⟨ms, hms, hmem⟩ := mem_of_findMarkup hfound
    exact ⟨_, _, rfl, .inr ⟨ms, m₀, hms, hmem, rfl⟩⟩
  · exact ⟨_, _, rfl, .inl rfl⟩

theorem mem_of_groupById {es : List (String × Value)} {key : String} {entries : List Value} {e : Value}
    (hkey : (Value.ofTable ((groupById es).map fun _ => .arr)).field? key = some (.arr entries)) (he : e ∈ entries) :
    (key, e) ∈ es := by
  obtain ⟨⟨key', entries'⟩, hgroup, heq⟩ := List.mem_map.1 (Entries.mem_of_find? hkey)
  obtain ⟨rfl, harr⟩ : key' = key ∧ Value.arr entries' = .arr entries := Prod.mk.inj heq
  obtain rfl := Value.arr.inj harr
  have hget := Table.get?_eq_some_iff.2 hgroup
  rw [get?_groupById] at hget
  split at hget
  · cases hget
  obtain rfl := Option.some.inj hget
  obtain ⟨x, hx, rfl⟩ := List.mem_map.1 he
  obtain ⟨hmem, hkey'⟩ := List.mem_filter.1 hx
  obtain rfl : x.1 = key' := by simpa using hkey'
  exact hmem

end Builtin

namespace Builder

open Builtin Reference

variable {b : Builder} {t : Token} {es : List Event} {block : Block}

/-- The two texts that a markup annotation gives. -/
theorem texts_markup (hb : b.registry = Registry.builtin) {a : Tag} (ha : a.name = "markup")
    {o : List (String × Value)} (h : b.Gives t a (.arr [.obj o])) :
    Entries.find? "raw" o = some (.str a.prepare.body) ∧
      Entries.find? "escaped" o = some (.str (Text.escapeHtml a.prepare.body)) := by
  have hvalue := h.eq_of_done hb (ha ▸ Registry.mem_markup) rfl
  unfold parseMarkup record at hvalue
  have hobj := (List.cons.inj (Value.arr.inj hvalue)).1
  have hfind : ∀ k, Entries.find? k o = (Value.obj o).field? k := fun _ => rfl
  simp [hfind, hobj, Value.field?_object, Entries.find?]

/-- What is kept under `states` in the block of a comment: the entries of its states, made with the markups at hand. -/
theorem get?_states (hb : b.registry = Registry.builtin) (h : b.build t = (es, .ok (some block))) :
    ∃ given c, ∃ items : List Value,
      List.Forall₂ (fun a o => b.Gives t a (.arr [.obj o])) (b.occurrences t "markup") given ∧
      c.name = "states" ∧ c.aliases = ["state"] ∧
      (c.parsed.get? "markup").bind Value.items? =
        (if given.isEmpty then none else some ((given.mapIdx numberFields).map .obj)) ∧
      block.get? "states" = if items.isEmpty then none else
        some (.ofTable ((groupById ((items.mapIdx (linkEntry c)).map fun x => (x.1, x.2.1))).map fun _ => .arr)) := by
  obtain ⟨parsed, filled, hparse, hfill, ⟨-, hnone⟩ | ⟨-, resolved, hresolve, hblock⟩⟩ := build_eq_ok h
  · cases hnone
  obtain rfl := Option.some.inj hblock
  obtain ⟨given, hgiven, hmarkup⟩ := exists_filled_objects hb Registry.mem_markup records_markup rfl hparse hfill
  obtain ⟨items, -, hstates⟩ := exists_filled_objects hb Registry.mem_states records_states rfl hparse hfill
  generalize (b.tags t).map (fun a => (⟨a.name, a.first, a.last⟩ : Position)) = positions at hresolve
  obtain ⟨numbered, hnumber, -, hother, hnumbered⟩ := rework_markup (b := b) t positions [("states", states)] hmarkup
  rw [hb, Registry.entries_withResolve_builtin, hnumber] at hresolve
  rw [← hother "states" (by decide)] at hstates
  refine ⟨given, ⟨"states", states.aliases, b.placeOf t, numbered.block, positions⟩, items.map .obj, hgiven, rfl, rfl,
    ?_, ?_⟩
  · dsimp only
    rw [hnumbered]
    split <;> rfl
  · rw [List.isEmpty_map]
    cases hempty : items.isEmpty with
    | true =>
      rw [hempty, if_pos rfl] at hstates
      rw [resolveAll_cons_of_absent hstates] at hresolve
      obtain ⟨rfl, -⟩ := Prod.mk.inj hresolve
      exact hstates
    | false =>
      rw [hempty, if_neg (by simp)] at hstates
      rw [resolveAll_cons_of_ok rfl hstates (linkStates_arr _ _) rfl] at hresolve
      obtain ⟨rfl, -⟩ := Prod.mk.inj hresolve
      exact (Block.get?_insert _ _ _ _).trans (if_pos rfl)

/-- An entry of linked states that has a markup, with the annotation that gave it. -/
theorem exists_linked (hb : b.registry = Registry.builtin) (h : b.build t = (es, .ok (some block))) {v : Value}
    (hv : block.get? "states" = some v) {key : String} {entries : List Value}
    (hkey : v.field? key = some (.arr entries)) {e state m : Value} (he : e ∈ entries)
    (hstate : e.field? "state" = some state) (hmarkup : e.field? "markup" = some m) (hm : m ≠ .obj []) :
    ∃ a ∈ b.occurrences t "markup", ∃ o filled, m = .obj filled ∧ Fills state o filled ∧
      Entries.find? "raw" o = some (.str a.prepare.body) ∧
      Entries.find? "escaped" o = some (.str (Text.escapeHtml a.prepare.body)) := by
  obtain ⟨given, c, items, hgiven, hname, haliases, hseen, hstates⟩ := get?_states hb h
  rw [hv] at hstates
  split at hstates
  · cases hstates
  obtain rfl := Option.some.inj hstates
  -- the entry is one that was made from an item
  obtain ⟨x, hx, hxe⟩ := List.mem_map.1 (mem_of_groupById hkey he)
  obtain ⟨k, hk, rfl⟩ := List.mem_mapIdx.1 hx
  obtain ⟨state', m', hentry, hcase⟩ := linkEntry_eq c k items[k]
  obtain ⟨-, rfl⟩ := Prod.mk.inj hxe
  rw [hentry, Value.field?_object] at hstate hmarkup
  obtain rfl : state' = state := by simpa [Entries.find?] using hstate
  obtain rfl : m' = m := by simpa [Entries.find?] using hmarkup
  obtain rfl | ⟨ms, m₀, hms, hmem, rfl⟩ := hcase
  · exact absurd rfl hm
  -- its markup is one that an annotation gave, with an id
  rw [hms] at hseen
  split at hseen
  · cases hseen
  obtain rfl := Option.some.inj hseen
  obtain ⟨o, ho, rfl⟩ := List.mem_map.1 hmem
  obtain ⟨j, hj, rfl⟩ := List.mem_mapIdx.1 ho
  have hja : j < (b.occurrences t "markup").length := hgiven.length_eq ▸ hj
  have ha := List.getElem_mem hja
  obtain ⟨hraw, hescaped⟩ := texts_markup hb (name_of_mem_occurrences ha) (hgiven.get hja hj)
  rw [← find?_numberFields_of_ne (j := j) (by decide)] at hraw hescaped
  have htexts : ∀ k ∈ ["raw", "escaped"], ∃ s, Entries.find? k (numberFields j given[j]) = some (.str s) := by
    simp only [List.forall_mem_cons]
    exact ⟨⟨_, hraw⟩, ⟨_, hescaped⟩, List.forall_mem_nil _⟩
  obtain ⟨filled, hlink, hfills⟩ := linkMarkup_fills hname haliases state' htexts
  exact ⟨_, ha, _, filled, hlink, hfills, hraw, hescaped⟩

/-- **The texts of a linked markup, and when one is the other escaped.** The markup of an entry is that of an
annotation, with its references filled in. The escaped text is that of the annotation with the same references: their
paths are escaped, and what they stand for is not. It is the other text escaped when all paths are safe; with one
reference, only then. With paths of plain characters, it is exactly when all that they stand for is plain. -/
theorem linked_texts (hb : b.registry = Registry.builtin) (h : b.build t = (es, .ok (some block))) {v : Value}
    (hv : block.get? "states" = some v) {key : String} {entries : List Value}
    (hkey : v.field? key = some (.arr entries)) {e state m : Value} (he : e ∈ entries)
    (hstate : e.field? "state" = some state) (hmarkup : e.field? "markup" = some m) (hm : m ≠ .obj []) :
    ∃ a ∈ b.occurrences t "markup", ∃ ps raw html,
      Pieces ["states", "state"] a.prepare.body.toList ps ∧
      m.field? "raw" = some (.str raw) ∧ m.field? "escaped" = some (.str html) ∧
      raw.toList = ps.flatMap (·.filled (interpolate (stateFields state))) ∧
      html.toList = ps.flatMap (·.filledEscaped (interpolate (stateFields state))) ∧
      ((∀ p ∈ paths ps, Safe (interpolate (stateFields state)) p) → html = Text.escapeHtml raw) ∧
      (∀ p, paths ps = [p] → (html = Text.escapeHtml raw ↔ Safe (interpolate (stateFields state)) p)) ∧
      ((∀ p ∈ paths ps, ∀ c ∈ p, Text.Plain c) → (html = Text.escapeHtml raw ↔
        ∀ p ∈ paths ps, ∀ c ∈ (interpolate (stateFields state) p).toList, Text.Plain c)) := by
  obtain ⟨a, ha, o, filled, rfl, hfills, hraw, hescaped⟩ := exists_linked hb h hv hkey he hstate hmarkup hm
  obtain ⟨ps, hps⟩ := exists_pieces ["states", "state"] a.prepare.body.toList
  have htexts := hfills.texts
  simp only [List.forall_mem_cons, hraw, hescaped, Option.some.injEq, Value.str.injEq] at htexts
  obtain ⟨⟨_, rfl, hfilled⟩, ⟨_, rfl, hfilledEscaped⟩, -⟩ := htexts
  rw [fill_eq hps] at hfilled
  have hnames : ∀ n ∈ ["states", "state"], n.toList.all (Text.Plain ·) = true := by decide
  rw [fill_escapeHtml (fun n hn => Text.plain_of_all (hnames n hn)) hps] at hfilledEscaped
  have hequal : ∀ f : List Char → String,
      String.ofList (ps.flatMap (·.filledEscaped f)) = Text.escapeHtml (String.ofList (ps.flatMap (·.filled f))) ↔
        ps.flatMap (·.filledEscaped f) = Text.escaped (ps.flatMap (·.filled f)) := by
    intro f
    rw [Text.escapeHtml_ofList, String.ofList_inj]
  refine ⟨a, ha, ps, _, _, hps, hfilled, hfilledEscaped, String.toList_ofList, String.toList_ofList, ?_, ?_,
    fun hplain => (hequal _).trans (flatMap_filledEscaped_iff_of_plain hplain)⟩
  · intro hsafe
    exact (hequal _).2 (flatMap_filledEscaped hsafe)
  · intro p hp
    exact (hequal _).trans (flatMap_filledEscaped_iff hp)

/-- A comment with two lists of states for one markup. -/
def marked : Token :=
  ⟨.body,
    { contents := ["@states (m)", "\x7b.on\x7d", "@states (m)", "\x7ba > b\x7d", "@markup (m)",
        "<i>$\x7b@state\x7d</i>"] },
    {}⟩

/-- The states of one line, as they are kept. -/
def lone (text : String) : Value :=
  .obj [("0", .obj [("description", .str ""), ("state", .str text)])]

/-- The markup with a text filled in. -/
def framed (raw html : String) : Value :=
  .obj [("description", .str ""), ("escaped", .str html), ("id", .str "m"), ("language", .str "js"), ("raw", .str raw),
    ("settings", .obj [])]

/-- The two entries of the comment. -/
def markedEntries : List Value :=
  [.obj [("markup", framed "<i>.on</i>" "&lt;i&gt;.on&lt;/i&gt;"), ("state", lone ".on")],
   .obj [("markup", framed "<i>a > b</i>" "&lt;i&gt;a > b&lt;/i&gt;"), ("state", lone "a > b")]]

theorem states_marked : ((script.build marked).2.toOption.bind fun o => o.bind fun block => block.get? "states") =
    some (.obj [("m", .arr markedEntries)]) := by
  rfl

theorem exists_marked : ∃ es block, script.build marked = (es, .ok (some block)) ∧
    block.get? "states" = some (.obj [("m", .arr markedEntries)]) := by
  obtain ⟨es, block, hbuild, -, -⟩ := build_builtin registry_script marked
  refine ⟨es, block, hbuild, ?_⟩
  rw [← states_marked, hbuild]
  rfl

/-- The text of the first states has none of the five characters, and the escaped text is as it should be. -/
theorem linked_texts_marked :
    ∃ es block, script.build marked = (es, .ok (some block)) ∧
      block.get? "states" = some (.obj [("m", .arr markedEntries)]) ∧
      ∃ a ∈ script.occurrences marked "markup", ∃ ps, Pieces ["states", "state"] a.prepare.body.toList ps ∧
        "<i>.on</i>".toList = ps.flatMap (·.filled (interpolate (stateFields (lone ".on")))) ∧
        "&lt;i&gt;.on&lt;/i&gt;".toList = ps.flatMap (·.filledEscaped (interpolate (stateFields (lone ".on")))) := by
  obtain ⟨es, block, hbuild, hstates⟩ := exists_marked
  have hkey : (Value.obj [("m", .arr markedEntries)]).field? "m" = some (.arr markedEntries) := rfl
  obtain ⟨a, ha, ps, raw, html, hps, hraw, hhtml, hfilled, hfilledEscaped, -⟩ :=
    linked_texts registry_script hbuild hstates hkey List.mem_cons_self rfl rfl (nomatch ·)
  obtain rfl := Value.str.inj (Option.some.inj hraw)
  obtain rfl := Value.str.inj (Option.some.inj hhtml)
  exact ⟨es, block, hbuild, hstates, a, ha, ps, hps, hfilled, hfilledEscaped⟩

/-- **A text with one of the five characters is not escaped** when it is filled in. -/
theorem linked_texts_unescaped :
    ∃ es block e m, ∃ raw html : String, script.build marked = (es, .ok (some block)) ∧
      block.get? "states" = some (.obj [("m", .arr markedEntries)]) ∧ e ∈ markedEntries ∧
      e.field? "markup" = some m ∧ m ≠ .obj [] ∧ m.field? "raw" = some (.str raw) ∧
      m.field? "escaped" = some (.str html) ∧ html ≠ Text.escapeHtml raw := by
  obtain ⟨es, block, hbuild, hstates⟩ := exists_marked
  exact ⟨es, block, _, _, _, _, hbuild, hstates, List.mem_cons_of_mem _ List.mem_cons_self, rfl, (nomatch ·), rfl, rfl,
    by decide⟩

end Builder

end DocComments
