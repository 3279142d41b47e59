import DocComments.Proofs.Builtin.Linked

/-!
# Spellings of a reference

A reference names a state and a field of it, each behind a point or in brackets. A path is not read key by key: it is
cut in two where the second key starts, and points and brackets are dropped from both halves.

* `Reference.IsKey`: the keys that can be written in a path.
* `Reference.Setting`: the two ways to write a key.
* `Reference.lookup?_two`, `Reference.lookup?_one`: a path leads to what its keys lead to.
* `Reference.spellings_agree`: **a reference stands for the same in all spellings.**
-/

namespace DocComments.Builtin.Reference

open Text

/-- A text that can stand in a path as a key. -/
structure IsKey (k : String) : Prop where
  ne_empty : k ≠ ""
  free : ∀ c ∈ ['.', '[', ']', '\x7d'], c ∉ k.toList

/-- How a key is set off in a path. -/
inductive Setting where
  | point
  | brackets

namespace Setting

/-- A key as it is written in a path. -/
def write : Setting → String → String
  | .point, k => "." ++ k
  | .brackets, k => "[" ++ k ++ "]"

def opening : Setting → Char
  | .point => '.'
  | .brackets => '['

def closing : Setting → List Char
  | .point => []
  | .brackets => [']']

theorem toList_write (x : Setting) (k : String) : (x.write k).toList = x.opening :: (k.toList ++ x.closing) := by
  cases x <;> simp [write, opening, closing]

end Setting

/-- The text that is put in for a value: a text as it is, any other value as JSON. -/
inductive StandsFor : Option Value → String → Prop
  | text (s : String) : StandsFor (some (.str s)) s
  | json {v : Value} (h : v.str? = none) : StandsFor (some v) v.compact
  | missing : StandsFor none "undefined"

variable {states : List (String × Value)} {k id field : String} {c : Char} {u v path : List Char}

theorem standsFor_interpolate (states : List (String × Value)) (path : List Char) :
    StandsFor (lookup? states path) (interpolate states path) := by
  unfold interpolate
  split
  · next s hs =>
    rw [hs]
    exact .text s
  · next v hv hne =>
    rw [hne]
    refine .json ?_
    cases v with
    | str s => exact absurd rfl (hv s)
    | _ => rfl
  · next hnone =>
    rw [hnone]
    exact .missing

/-! ## Where a path is cut -/

theorem idxOf?_append_cons (h : c ∉ u) : (u ++ c :: v).idxOf? c = some u.length := by
  induction u with
  | nil => simp [List.idxOf?_cons]
  | cons x u ih =>
    obtain ⟨hx, hu⟩ := not_or.1 (List.mem_cons.not.1 h)
    simp [List.idxOf?_cons, ih hu, Ne.symm hx]

/-- A path with one point or opening bracket is cut there. -/
theorem cutAt?_append_cons (x : Setting) (hu : '.' ∉ u ∧ '[' ∉ u) (hv : '.' ∉ v ∧ '[' ∉ v) :
    cutAt? (u ++ x.opening :: v) = some u.length := by
  unfold cutAt?
  cases x with
  | point =>
    have hpoint : (u ++ '.' :: v).idxOf? '.' = some u.length := idxOf?_append_cons hu.1
    have hbracket : (u ++ '.' :: v).idxOf? '[' = none := by simp [List.idxOf?_eq_none_iff, hu.2, hv.2]
    rw [Setting.opening, hpoint, hbracket]
    rfl
  | brackets =>
    have hpoint : (u ++ '[' :: v).idxOf? '.' = none := by simp [List.idxOf?_eq_none_iff, hu.1, hv.1]
    have hbracket : (u ++ '[' :: v).idxOf? '[' = some u.length := idxOf?_append_cons hu.2
    rw [Setting.opening, hpoint, hbracket]
    rfl

theorem cutAt?_eq_none (hu : '.' ∉ u ∧ '[' ∉ u) : cutAt? u = none := by
  unfold cutAt?
  rw [List.idxOf?_eq_none_iff.2 hu.1, List.idxOf?_eq_none_iff.2 hu.2]
  rfl

theorem pathBody_cons_opening (x : Setting) (u : List Char) : pathBody (x.opening :: u) = u := by
  cases x <;> rfl

/-- Behind the first character of a key as it is written there is nothing that a path is cut at. -/
theorem IsKey.not_mem_closed (h : IsKey k) (x : Setting) :
    '.' ∉ k.toList ++ x.closing ∧ '[' ∉ k.toList ++ x.closing := by
  have hpoint : '.' ∉ k.toList := h.free '.' (by simp)
  have hbracket : '[' ∉ k.toList := h.free '[' (by simp)
  cases x <;> simp [Setting.closing, hpoint, hbracket]

theorem IsKey.clean_closed (h : IsKey k) (x : Setting) : clean (k.toList ++ x.closing) = k := by
  have hkey : k.toList.filter (fun c => c ≠ '[' && c ≠ ']' && c ≠ '.') = k.toList := by
    rw [List.filter_eq_self]
    intro c hc
    have hne : ∀ d ∈ ['.', '[', ']', '\x7d'], c ≠ d := fun d hd => ne_of_mem_of_not_mem hc (h.free d hd)
    simp [hne]
  have hclosing : x.closing.filter (fun c => c ≠ '[' && c ≠ ']' && c ≠ '.') = [] := by
    cases x <;> rfl
  rw [clean, List.filter_append, hkey, hclosing, List.append_nil, String.ofList_toList]

theorem clean_opening (x : Setting) (u : List Char) : clean (x.opening :: u) = clean u := by
  cases x <;> rfl

/-! ## What a path leads to -/

/-- **Two keys lead to a field of a state**, however they are written. -/
theorem lookup?_two (states : List (String × Value)) (hid : IsKey id) (hfield : IsKey field) (a b : Setting) :
    lookup? states (a.write id ++ b.write field).toList = (Entries.find? id states).bind (·.field? field) := by
  have hpath : (a.write id ++ b.write field).toList =
      a.opening :: (id.toList ++ a.closing ++ b.opening :: (field.toList ++ b.closing)) := by
    simp [Setting.toList_write]
  -- the cut is where the second key starts: a closing bracket of the first one is left of it, and dropped there
  have hcut := cutAt?_append_cons b (hid.not_mem_closed a) (hfield.not_mem_closed b)
  have hne : (id.toList ++ a.closing ++ b.opening :: (field.toList ++ b.closing)).isEmpty = false := by simp
  unfold lookup?
  dsimp only
  rw [hpath, pathBody_cons_opening, hne, hcut]
  dsimp only
  rw [List.take_left, List.drop_left, clean_opening, hid.clean_closed, hfield.clean_closed]
  rfl

/-- **One key leads to a state**, and to the field `state` of one that has it. -/
theorem lookup?_one (states : List (String × Value)) (hid : IsKey id) (a : Setting) :
    lookup? states (a.write id).toList = (Entries.find? id states).map fun v => (v.field? "state").getD v := by
  have hne : (id.toList ++ a.closing).isEmpty = false := by simp [hid.ne_empty]
  unfold lookup?
  dsimp only
  rw [Setting.toList_write, pathBody_cons_opening, hne, cutAt?_eq_none (hid.not_mem_closed a)]
  dsimp only
  rw [hid.clean_closed]
  rfl

/-- Paths that lead to the same stand for the same. -/
theorem interpolate_congr {path' : List Char} (h : lookup? states path = lookup? states path') :
    interpolate states path = interpolate states path' := by
  unfold interpolate
  rw [h]

/-! ## References in a text -/

/-- The path of a reference by one of the names of the states goes up to the closing brace. -/
theorem path?_states {n : String} (hn : n ∈ "states" :: Builtin.states.aliases) (x : Setting)
    (hbrace : '\x7d' ∉ x.opening :: u) :
    path? ("states" :: Builtin.states.aliases) (['$', '\x7b', '@'] ++ (n.toList ++ (x.opening :: u ++ '\x7d' :: v))) =
      some (x.opening :: u, v) := by
  have hsigil : path? ("states" :: Builtin.states.aliases)
      (['$', '\x7b', '@'] ++ (n.toList ++ (x.opening :: u ++ '\x7d' :: v))) =
        ("states" :: Builtin.states.aliases).findSome? fun m =>
          (after? m.toList (n.toList ++ (x.opening :: u ++ '\x7d' :: v))).bind toBrace? := by
    unfold path?
    rw [after?_eq_some_iff.2 rfl]
    rfl
  have hname : (after? n.toList (n.toList ++ (x.opening :: u ++ '\x7d' :: v))).bind toBrace? =
      some (x.opening :: u, v) := by
    rw [after?_eq_some_iff.2 rfl, Option.bind_some, toBrace?_eq_some_iff.2 ⟨rfl, hbrace⟩]
  rw [hsigil, List.findSome?_cons]
  rcases List.mem_cons.1 hn with rfl | halias
  · rw [hname]
  · -- the longer name does not fit, since a path does not start with its last letter
    obtain rfl : n = "state" := List.mem_singleton.1 halias
    have hlong : after? "states".toList ("state".toList ++ (x.opening :: u ++ '\x7d' :: v)) = none := by
      cases x <;> rfl
    rw [hlong]
    dsimp only [Option.bind_none]
    rw [Builtin.states, List.findSome?_cons, hname]

/-- A path stands for a text, by itself and in references to the states. -/
structure Reads (states : List (String × Value)) (path text : String) : Prop where
  alone : interpolate states path.toList = text
  /-- A reference in a markup is replaced by the text, with whatever behind it. -/
  filled : ∀ n ∈ "states" :: Builtin.states.aliases, ∀ rest,
    fill ("states" :: Builtin.states.aliases) (interpolate states) ("$\x7b@" ++ n ++ path ++ "\x7d" ++ rest) =
      text ++ fill ("states" :: Builtin.states.aliases) (interpolate states) rest

theorem reads_interpolate (x : Setting) {path : String} (hpath : path.toList = x.opening :: u)
    (hbrace : '\x7d' ∉ path.toList) : Reads states path (interpolate states path.toList) := by
  refine ⟨rfl, ?_⟩
  intro n hn rest
  have htext : ("$\x7b@" ++ n ++ path ++ "\x7d" ++ rest).toList =
      ['$', '\x7b', '@'] ++ (n.toList ++ (x.opening :: u ++ '\x7d' :: rest.toList)) := by
    simp [hpath]
  rw [hpath] at hbrace
  unfold fill
  rw [htext, fillFrom_reference (path?_states hn x hbrace), ← hpath, String.ofList_append, String.ofList_toList]

theorem IsKey.brace_not_mem (h : IsKey k) (x : Setting) : '\x7d' ∉ (x.write k).toList := by
  have hkey : '\x7d' ∉ k.toList := h.free '\x7d' (by simp)
  cases x <;> simp [Setting.write, hkey]

/-- **A reference stands for the same in all spellings.** Two keys stand for a field of a state, however they are
written. One key stands for the field `state` of a state, or for the state itself when it has no such field. -/
theorem spellings_agree (states : List (String × Value)) (id field : String) (hid : IsKey id) (hfield : IsKey field) :
    (∃ t, StandsFor ((Entries.find? id states).bind (·.field? field)) t ∧
      ∀ a b : Setting, Reads states (a.write id ++ b.write field) t) ∧
    ∃ t, StandsFor ((Entries.find? id states).map fun v => (v.field? "state").getD v) t ∧
      ∀ a : Setting, Reads states (a.write id) t := by
  refine ⟨⟨interpolate states (Setting.point.write id ++ Setting.point.write field).toList, ?_, ?_⟩,
    ⟨interpolate states (Setting.point.write id).toList, ?_, ?_⟩⟩
  · rw [← lookup?_two states hid hfield .point .point]
    exact standsFor_interpolate states _
  · intro a b
    have hsame : interpolate states (a.write id ++ b.write field).toList =
        interpolate states (Setting.point.write id ++ Setting.point.write field).toList := by
      apply interpolate_congr
      rw [lookup?_two states hid hfield, lookup?_two states hid hfield]
    rw [← hsame]
    apply reads_interpolate a (u := id.toList ++ a.closing ++ (b.write field).toList)
    · simp [Setting.toList_write]
    · simp [hid.brace_not_mem, hfield.brace_not_mem]
  · rw [← lookup?_one states hid .point]
    exact standsFor_interpolate states _
  · intro a
    have hsame : interpolate states (a.write id).toList = interpolate states (Setting.point.write id).toList := by
      apply interpolate_congr
      rw [lookup?_one states hid, lookup?_one states hid]
    rw [← hsame]
    exact reads_interpolate a (a.toList_write id) (hid.brace_not_mem a)

/-- A state whose name has characters of more than one byte. -/
def sized : List (String × Value) :=
  [("größe", .obj [("höhe", .int 3), ("state", .str ":hover")])]

/-- A number and a text, in all spellings. -/
theorem spellings_agree_wide :
    IsKey "größe" ∧ IsKey "höhe" ∧
    (∀ a b : Setting, interpolate sized (a.write "größe" ++ b.write "höhe").toList = "3") ∧
    ∀ a : Setting, interpolate sized (a.write "größe").toList = ":hover" := by
  have hid : IsKey "größe" := ⟨by decide, by simp⟩
  have hfield : IsKey "höhe" := ⟨by decide, by simp⟩
  obtain ⟨⟨t, ht, htwo⟩, ⟨t', ht', hone⟩⟩ := spellings_agree sized "größe" "höhe" hid hfield
  have hnumber : (Entries.find? "größe" sized).bind (·.field? "höhe") = some (.int 3) := rfl
  have htext : ((Entries.find? "größe" sized).map fun v => (v.field? "state").getD v) = some (.str ":hover") := rfl
  rw [hnumber] at ht
  rw [htext] at ht'
  refine ⟨hid, hfield, ?_, ?_⟩
  · intro a b
    cases ht
    exact (htwo a b).alone
  · intro a
    cases ht' with
    | text => exact (hone a).alone
    | json h => cases h

end DocComments.Builtin.Reference
