import Mathlib.Data.List.TakeWhile
import DocComments.Builtin.Signature
import DocComments.Proofs.Builtin.Links
import DocComments.Proofs.Text.Cut
import DocComments.Proofs.Text.NormalForm

/-!
# Head lines as they are written

The head line of an argument or a property is written `{types} name [value] - description`, where the value may be
left out. A bracketed part is read up to the last closing bracket on the line, so a description with such a bracket in
it does not come back as it was written.

* `HeadLine.Signature`: what is written, with what must not stand in it.
* `HeadLine.Signature.read_written`: what is read back as it is written.
* `HeadLine.Signature.read_swallowed`, `HeadLine.Signature.read_overrun`: what closing brackets in the description do.
* `Builtin.parse_signature`: **what is read from a head line, and when it is what was written.**
-/

namespace DocComments

namespace HeadLine

open Text

/-- The characters that enclose a part. -/
def enclosing : List Char := ['\x7b', '\x7d', '[', ']']

/-- Whether a text has none of some characters. -/
def Free (out : List Char) (s : String) : Prop :=
  ∀ x ∈ out, x ∉ s.toList

instance (out : List Char) (s : String) : Decidable (Free out s) :=
  List.decidableBAll _ out

/-- What is written on a head line. The description may be any text on the line, without white space around it. -/
structure Signature where
  types : String
  name : String
  value : Option String
  description : String
  types_ne : types ≠ "" := by decide
  types_free : Free ('\n' :: enclosing) types := by decide
  name_ne : name ≠ "" := by decide
  name_free : Free enclosing name := by decide
  name_word : hasSpace name = false := by decide
  value_ne : ∀ v ∈ value, v ≠ "" := by decide
  value_free : ∀ v ∈ value, Free ('\n' :: enclosing) v := by decide
  description_ne : description ≠ "" := by decide
  description_line : '\n' ∉ description.toList := by decide
  description_trim : trim description = description := by decide

variable {o c : Char} {h : HeadLine} {cs inner rest : List Char} {p : Pattern}

/-! ## Reading one part -/

/-- **A bracketed part goes up to the last closing bracket.** -/
theorem enclosed?_of_last (hc : c ≠ '\n') (hinner : '\n' ∉ inner) (hrest : c ∉ rest) :
    enclosed? o c (o :: (inner ++ c :: rest)) = some (inner, rest) := by
  have hall : ∀ x ∈ inner, decide (x ≠ '\n') = true := fun x hx => by simpa using ne_of_mem_of_not_mem hx hinner
  have hline : (inner ++ c :: rest).takeWhile (· ≠ '\n') = inner ++ c :: rest.takeWhile (· ≠ '\n') := by
    rw [List.takeWhile_append_of_pos hall, List.takeWhile_cons_of_pos (by simpa using hc)]
  have hbehind : ∀ x ∈ (rest.takeWhile (· ≠ '\n')).reverse, decide (x ≠ c) = true := by
    intro x hx
    have hmem := (List.takeWhile_sublist _).subset (List.mem_reverse.1 hx)
    simpa using ne_of_mem_of_not_mem hmem hrest
  have hlast : (inner ++ c :: rest.takeWhile (· ≠ '\n')).reverse.dropWhile (· ≠ c) = c :: inner.reverse := by
    rw [List.reverse_append, List.reverse_cons, List.append_assoc, List.dropWhile_append_of_pos hbehind,
      List.singleton_append, List.dropWhile_cons_of_neg (by simp)]
  rw [enclosed?, if_pos rfl]
  dsimp only
  rw [hline, hlast, List.drop_one, List.tail_cons, List.reverse_reverse, if_pos (by simp)]
  simp

theorem enclosed?_of_ne {x : Char} (hx : x ≠ o) (cs : List Char) : enclosed? o c (x :: cs) = none := by
  rw [enclosed?, if_neg hx]

theorem enclosed?_of_not_mem (hc : c ∉ cs) : enclosed? o c cs = none := by
  cases cs with
  | nil => rfl
  | cons x cs =>
    have hline : c ∉ cs.takeWhile (· ≠ '\n') := fun hmem =>
      hc (List.mem_cons_of_mem x ((List.takeWhile_sublist _).subset hmem))
    have hcontains : (cs.takeWhile (· ≠ '\n')).contains c = false := by
      rw [List.contains_eq_mem]
      exact decide_eq_false hline
    rw [enclosed?]
    dsimp only
    rw [hcontains]
    exact ite_self none

theorem found_of_ne_nil (hcs : cs ≠ []) : found cs = some (String.ofList cs) := by
  rw [found, if_neg (by simpa using hcs)]

theorem found_toList {s : String} (hs : s ≠ "") : found s.toList = some s := by
  rw [found_of_ne_nil (by simpa using hs), String.ofList_toList]

/-! ## Reading part after part -/

/-- Reads the parts of a pattern, and gives back the text behind them. -/
def scan (p : Pattern) (s : HeadLine × List Char) : HeadLine × List Char :=
  p.foldl (fun s part => readPart s.1 s.2 part) s

theorem read_eq (p : Pattern) (line : String) : read p line = (scan p ({}, line.toList)).1 := rfl

theorem scan_cons (part : Part) (p : Pattern) (s : HeadLine × List Char) :
    scan (part :: p) s = scan p (readPart s.1 s.2 part) := rfl

/-- What comes behind the types does not depend on them. -/
theorem scan_withTypes (hp : .types ∉ p) (types : Option String) (s : HeadLine × List Char) :
    scan p ({ s.1 with types := types }, s.2) = ({ (scan p s).1 with types := types }, (scan p s).2) := by
  induction p generalizing s with
  | nil => rfl
  | cons part p ih =>
    obtain ⟨hpart, htail⟩ := List.ne_and_not_mem_of_not_mem_cons hp
    have hstep : readPart { s.1 with types := types } s.2 part =
        ({ (readPart s.1 s.2 part).1 with types := types }, (readPart s.1 s.2 part).2) := by
      unfold readPart
      cases part with
      | types => exact absurd rfl hpart
      | id => cases enclosed? '(' ')' s.2 <;> rfl
      | value => cases enclosed? '[' ']' s.2 <;> rfl
      | _ => rfl
    rw [scan_cons, scan_cons, hstep, ih htail]

theorem readPart_types (henclosed : enclosed? '\x7b' '\x7d' cs = some (inner, rest)) :
    readPart h cs .types = ({ h with types := found inner }, rest) := by
  rw [readPart, henclosed]

theorem readPart_types_none (henclosed : enclosed? '\x7b' '\x7d' cs = none) : readPart h cs .types = (h, cs) := by
  rw [readPart, henclosed]

theorem read_argument {line : String} {s : HeadLine × List Char} (htypes : readPart {} line.toList .types = s) :
    read .argument line = (scan [.space, .name, .space, .value, .space, .description] s).1 := by
  rw [read_eq, Pattern.argument, scan_cons, htypes]

/-- A name goes up to the next white space. -/
theorem scan_name {name : List Char} (hne : name ≠ []) (hname : ∀ x ∈ name, isSpace x = false)
    (hrest : rest.dropWhile isSpace = rest) :
    scan (.space :: .name :: .space :: p) (h, ' ' :: (name ++ ' ' :: rest)) =
      scan p ({ h with name := some (String.ofList name) }, rest) := by
  have hall : ∀ x ∈ name, (! isSpace x) = true := fun x hx => by rw [hname x hx]; rfl
  have hstart : (' ' :: (name ++ ' ' :: rest)).dropWhile isSpace = name ++ ' ' :: rest := by
    cases name with
    | nil => exact absurd rfl hne
    | cons x xs =>
      have hx : isSpace x = false := hname x List.mem_cons_self
      rw [List.dropWhile_cons_of_pos (by decide), List.cons_append,
        List.dropWhile_cons_of_neg (by rw [hx]; decide)]
  have htake : (name ++ ' ' :: rest).takeWhile (! isSpace ·) = name := by
    rw [List.takeWhile_append_of_pos hall, List.takeWhile_cons_of_neg (by decide), List.append_nil]
  have hdrop : (name ++ ' ' :: rest).dropWhile (! isSpace ·) = ' ' :: rest := by
    rw [List.dropWhile_append_of_pos hall, List.dropWhile_cons_of_neg (by decide)]
  have hbehind : (' ' :: rest).dropWhile isSpace = rest := by
    rw [List.dropWhile_cons_of_pos (by decide), hrest]
  rw [scan_cons, scan_cons, scan_cons]
  dsimp only [readPart]
  rw [hstart, htake, hdrop, hbehind, found_of_ne_nil hne]

theorem readPart_value (henclosed : enclosed? '[' ']' cs = some (inner, rest)) :
    readPart h cs .value = ({ h with value := found inner }, rest) := by
  rw [readPart, henclosed]

theorem readPart_value_none (henclosed : enclosed? '[' ']' cs = none) : readPart h cs .value = (h, cs) := by
  rw [readPart, henclosed]

/-! ## The description -/

theorem afterDash_dropWhile (cs : List Char) : afterDash (cs.dropWhile isSpace) = afterDash cs := by
  unfold afterDash
  rw [List.dropWhile_idempotent]

theorem afterDash_dash (hcs : cs.dropWhile isSpace = cs) : afterDash ('-' :: ' ' :: cs) = cs :=
  hcs

theorem scan_description (h : HeadLine) (cs : List Char) :
    (scan [.space, .description] (h, cs)).1 =
      { h with description := found ((afterDash cs).takeWhile (· ≠ '\n')) } := by
  rw [← afterDash_dropWhile cs]
  rfl

theorem read_typed_description (hcs : '\x7d' ∉ cs) :
    (read .typed (String.ofList cs)).description = found ((afterDash cs).takeWhile (· ≠ '\n')) := by
  have htypes : readPart {} cs .types = ({}, cs) := readPart_types_none (enclosed?_of_not_mem hcs)
  rw [read_eq, String.toList_ofList, Pattern.typed, scan_cons, htypes, scan_description]

namespace Signature

variable (w : Signature)

/-! ## The line as it is written -/

/-- The value in its brackets, with a blank behind them. -/
def bracketed (value : Option String) : List Char :=
  value.elim [] fun v => '[' :: (v.toList ++ [']', ' '])

/-- What stands between the opening brace and the description. -/
def opening : String :=
  w.types ++ "\x7d " ++ w.name ++ " " ++ w.value.elim "" (fun v => "[" ++ v ++ "] ") ++ "- "

/-- The head line, `{types} name [value] - description` or `{types} name - description`. -/
def line : String :=
  "\x7b" ++ w.opening ++ w.description

theorem toList_opening : w.opening.toList =
    w.types.toList ++ '\x7d' :: ' ' :: (w.name.toList ++ ' ' :: (bracketed w.value ++ ['-', ' '])) := by
  unfold opening bracketed
  cases w.value <;> simp [String.toList_append]

theorem toList_line : w.line.toList = '\x7b' :: (w.opening.toList ++ w.description.toList) := by
  simp [line, String.toList_append]

variable {w} {front back v : String}

theorem isSpace_name {x : Char} (hx : x ∈ w.name.toList) : isSpace x = false :=
  Bool.eq_false_iff.2 (List.any_eq_false.1 w.name_word x hx)

theorem not_mem_bracketed {x : Char} (hx : x = '\n' ∨ x = '\x7d') : x ∉ bracketed w.value := by
  unfold bracketed
  cases hv : w.value with
  | none => exact List.not_mem_nil
  | some v =>
    have hmem : x ∉ v.toList := w.value_free v hv x (by rcases hx with rfl | rfl <;> decide)
    rcases hx with rfl | rfl <;> simpa using hmem

theorem newline_not_mem_opening : '\n' ∉ w.opening.toList := by
  have htypes : '\n' ∉ w.types.toList := w.types_free _ (by decide)
  have hname : '\n' ∉ w.name.toList := fun hmem => Bool.false_ne_true (isSpace_name hmem).symm
  have hvalue : '\n' ∉ bracketed w.value := not_mem_bracketed (.inl rfl)
  rw [toList_opening]
  simp [htypes, hname, hvalue]

theorem description_toList_ne : w.description.toList ≠ [] := by
  simpa using w.description_ne

theorem dropWhile_description : w.description.toList.dropWhile isSpace = w.description.toList := by
  have htrim : dropSpaceEnd (w.description.toList.dropWhile isSpace) = w.description.toList := by
    simpa [trim] using congrArg String.toList w.description_trim
  have hle := (dropSpaceEnd_isPrefix (w.description.toList.dropWhile isSpace)).length_le
  rw [htrim] at hle
  exact (List.dropWhile_suffix isSpace).eq_of_length_le hle

theorem isBlank_description : isBlank w.description = false := by
  rw [Bool.eq_false_iff, Ne, isBlank_iff]
  intro hall
  have hnil := List.dropWhile_eq_nil_iff.2 hall
  exact description_toList_ne (dropWhile_description.symm.trans hnil)

theorem takeWhile_description : w.description.toList.takeWhile (· ≠ '\n') = w.description.toList := by
  rw [List.takeWhile_eq_self_iff]
  intro x hx
  simpa using ne_of_mem_of_not_mem hx w.description_line

theorem found_description {cs : List Char} (hcs : afterDash cs = w.description.toList) :
    found ((afterDash cs).takeWhile (· ≠ '\n')) = some w.description := by
  rw [hcs, takeWhile_description, found_toList w.description_ne]

/-! ## What is read from it -/

/-- **A closing brace in the description** ends the types, and the other parts are read behind it. -/
theorem read_swallowed (hd : w.description = front ++ "\x7d" ++ back) (hback : '\x7d' ∉ back.toList) :
    read .argument w.line = { read .argument back with types := some (w.opening ++ front) } := by
  have hsplit : w.opening.toList ++ w.description.toList =
      (w.opening ++ front).toList ++ '\x7d' :: back.toList := by
    simp [hd, String.toList_append]
  have hinner : '\n' ∉ (w.opening ++ front).toList := by
    have hfront : '\n' ∉ front.toList := fun hmem =>
      w.description_line (by simp [hd, String.toList_append, hmem])
    simp [String.toList_append, newline_not_mem_opening, hfront]
  have hne : w.opening ++ front ≠ "" := by
    intro hempty
    have hlist := congrArg String.toList hempty
    rw [String.toList_append, toList_opening] at hlist
    simp at hlist
  have hwritten : readPart {} w.line.toList .types = ({ types := some (w.opening ++ front) }, back.toList) := by
    rw [toList_line, hsplit, readPart_types (enclosed?_of_last (by decide) hinner hback), found_toList hne]
  have hbehind : readPart {} back.toList .types = ({}, back.toList) :=
    readPart_types_none (enclosed?_of_not_mem hback)
  rw [read_argument hwritten, read_argument hbehind]
  exact congrArg Prod.fst (scan_withTypes (by decide) (some (w.opening ++ front)) ({}, back.toList))

/-- **Without a closing brace in the description** the types and the name are those that are written. -/
theorem read_front (hbrace : '\x7d' ∉ w.description.toList) :
    read .argument w.line = (scan [.value, .space, .description]
      ({ types := some w.types, name := some w.name },
        bracketed w.value ++ '-' :: ' ' :: w.description.toList)).1 := by
  have hrest : '\x7d' ∉ ' ' :: (w.name.toList ++ ' ' :: (bracketed w.value ++ '-' :: ' ' :: w.description.toList)) := by
    have hname : '\x7d' ∉ w.name.toList := w.name_free _ (by decide)
    have hvalue : '\x7d' ∉ bracketed w.value := not_mem_bracketed (.inr rfl)
    simp [hname, hvalue, hbrace]
  have htypes : readPart {} w.line.toList .types = ({ types := some w.types },
      ' ' :: (w.name.toList ++ ' ' :: (bracketed w.value ++ '-' :: ' ' :: w.description.toList))) := by
    have hline : w.line.toList = '\x7b' :: (w.types.toList ++ '\x7d' ::
        ' ' :: (w.name.toList ++ ' ' :: (bracketed w.value ++ '-' :: ' ' :: w.description.toList))) := by
      simp [toList_line, toList_opening]
    rw [hline, readPart_types (enclosed?_of_last (by decide) (w.types_free _ (by decide)) hrest),
      found_toList w.types_ne]
  have hstart : (bracketed w.value ++ '-' :: ' ' :: w.description.toList).dropWhile isSpace =
      bracketed w.value ++ '-' :: ' ' :: w.description.toList := by
    unfold bracketed
    cases w.value <;> rfl
  rw [read_argument htypes, scan_name (by simpa using w.name_ne) (fun _ => isSpace_name) hstart,
    String.ofList_toList]

/-- A value is read up to the last closing bracket. -/
theorem read_bracketed (hbrace : '\x7d' ∉ w.description.toList) (hv : w.value = some v) {inner rest : List Char}
    (hsplit : v.toList ++ ']' :: ' ' :: '-' :: ' ' :: w.description.toList = inner ++ ']' :: rest)
    (hinner : '\n' ∉ inner) (hrest : ']' ∉ rest) :
    read .argument w.line =
      { types := some w.types, name := some w.name, value := found inner,
        description := found ((afterDash rest).takeWhile (· ≠ '\n')) } := by
  have hlist : bracketed w.value ++ '-' :: ' ' :: w.description.toList = '[' :: (inner ++ ']' :: rest) := by
    rw [← hsplit, hv]
    simp [bracketed]
  rw [read_front hbrace, hlist, scan_cons, readPart_value (enclosed?_of_last (by decide) hinner hrest),
    scan_description]

/-- **What is written is read back** where no closing bracket in the description is taken for the end of a part. -/
theorem read_written (hbrace : '\x7d' ∉ w.description.toList)
    (hbracket : w.value.isSome = true → ']' ∉ w.description.toList) :
    read .argument w.line =
      { types := some w.types, name := some w.name, value := w.value, description := some w.description } := by
  cases hv : w.value with
  | none =>
    have hnone : enclosed? '[' ']' ('-' :: ' ' :: w.description.toList) = none := enclosed?_of_ne (by decide) _
    have hdash := found_description (afterDash_dash (dropWhile_description (w := w)))
    rw [read_front hbrace, hv, bracketed, Option.elim_none, List.nil_append, scan_cons, readPart_value_none hnone,
      scan_description, hdash]
  | some v =>
    have hrest : ']' ∉ ' ' :: '-' :: ' ' :: w.description.toList := by simpa using hbracket (by rw [hv]; rfl)
    have hdash : afterDash (' ' :: '-' :: ' ' :: w.description.toList) = w.description.toList :=
      afterDash_dash dropWhile_description
    rw [read_bracketed hbrace hv rfl (w.value_free v hv _ (by decide)) hrest, found_toList (w.value_ne v hv),
      found_description hdash]

/-- **A closing bracket in the description** ends the value, and the description is read behind it. -/
theorem read_overrun (hbrace : '\x7d' ∉ w.description.toList) (hv : w.value = some v)
    (hd : w.description = front ++ "]" ++ back) (hback : ']' ∉ back.toList) :
    read .argument w.line =
      { types := some w.types, name := some w.name, value := some (v ++ "] - " ++ front),
        description := (read .typed back).description } := by
  have hsplit : v.toList ++ ']' :: ' ' :: '-' :: ' ' :: w.description.toList =
      (v ++ "] - " ++ front).toList ++ ']' :: back.toList := by
    simp [hd, String.toList_append]
  have hinner : '\n' ∉ (v ++ "] - " ++ front).toList := by
    have hvalue : '\n' ∉ v.toList := w.value_free v hv _ (by decide)
    have hfront : '\n' ∉ front.toList := fun hmem =>
      w.description_line (by simp [hd, String.toList_append, hmem])
    simp [String.toList_append, hvalue, hfront]
  have hne : v ++ "] - " ++ front ≠ "" := by simp
  have hbehind : '\x7d' ∉ back.toList := fun hmem => hbrace (by simp [hd, String.toList_append, hmem])
  have htyped := read_typed_description hbehind
  rw [String.ofList_toList] at htyped
  rw [read_bracketed hbrace hv hsplit hinner hback, found_toList hne, htyped]

end Signature

end HeadLine

namespace Builtin

open HeadLine Text

variable {x : Char} {s e : String} {h : HeadLine} {a : Tag} {w : Signature}

/-! ## Entries -/

theorem exists_mem_commaList (hx : x ∈ s.toList) (hcomma : x ≠ ',') (hspace : isSpace x = false) :
    ∃ e ∈ commaList s, x ∈ e.toList := by
  obtain ⟨l, hl, hxl⟩ := exists_mem_splitOnChar hx hcomma
  have hmem : x ∈ (trim l).toList := mem_trim_of_mem hxl hspace
  have hne : trim l ≠ "" := by
    intro hempty
    rw [hempty] at hmem
    cases hmem
  exact ⟨trim l, List.mem_filter.2 ⟨List.mem_map_of_mem hl, by simpa using hne⟩, hmem⟩

theorem mem_of_mem_commaList (he : e ∈ commaList s) (hx : x ∈ e.toList) : x ∈ s.toList := by
  obtain ⟨l, hl, rfl⟩ := List.mem_map.1 (List.mem_of_mem_filter he)
  exact (isInfix_of_mem_splitOnChar hl).subset (mem_of_mem_trim hx)

/-! ## The object of an argument -/

/-- The object that the parts of a head line come to. -/
def typedObject (h : HeadLine) (a : Tag) : Value :=
  record
    [("types", .ofStrings (entries h.types)),
     ("name", .str (h.name.getD "")),
     ("value", .str (h.value.getD "")),
     ("description", .str (description h.description a))]

theorem typedName_eq (c : ParseContext) : typedName c = typedObject (read .argument c.tag.line) c.tag := rfl

/-- The object that a signature stands for. -/
def written (w : Signature) : Value :=
  record
    [("types", .ofStrings (commaList w.types)),
     ("name", .str w.name),
     ("value", .str (w.value.getD "")),
     ("description", .str w.description)]

/-- Objects of one kind are equal only if their fields are. -/
theorem typedObject_eq_written (heq : typedObject h a = written w) :
    entries h.types = commaList w.types ∧ h.value.getD "" = w.value.getD "" := by
  have hobject := (List.cons.inj (Value.arr.inj heq)).1
  have htypes := congrArg (·.field? "types") hobject
  have hvalue := congrArg (·.field? "value") hobject
  rw [Value.field?_object, Value.field?_object] at htypes hvalue
  refine ⟨?_, Value.str.inj (Option.some.inj hvalue)⟩
  exact List.map_injective_iff.2 (fun _ _ => Value.str.inj) (Value.arr.inj (Option.some.inj htypes))

theorem description_of_no_body (hw : isBlank e = false) (ha : a.contents = []) : description (some e) a = e := by
  simp [description, ha, joinText, hw, unlines]

theorem typedObject_written (ha : a.contents = []) :
    typedObject { types := some w.types, name := some w.name, value := w.value, description := some w.description } a =
      written w := by
  unfold typedObject written
  rw [description_of_no_body Signature.isBlank_description ha]
  rfl

theorem brace_not_mem (heq : typedObject (read .argument w.line) a = written w) : '\x7d' ∉ w.description.toList := by
  intro hmem
  obtain ⟨front, back, hsplit, hback⟩ := exists_last hmem
  have hswallowed : '\x7d' ∈ (w.opening ++ front).toList := by
    simp [String.toList_append, Signature.toList_opening]
  obtain ⟨e, he, hxe⟩ := exists_mem_commaList hswallowed (by decide) (by decide)
  have htypes := (typedObject_eq_written heq).1
  rw [Signature.read_swallowed hsplit hback, entries, Option.getD_some] at htypes
  exact w.types_free _ (by decide) (mem_of_mem_commaList (htypes ▸ he) hxe)

theorem bracket_not_mem (heq : typedObject (read .argument w.line) a = written w) (hsome : w.value.isSome = true) :
    ']' ∉ w.description.toList := by
  intro hmem
  obtain ⟨v, hv⟩ := Option.isSome_iff_exists.1 hsome
  obtain ⟨front, back, hsplit, hback⟩ := exists_last hmem
  have hoverrun : ']' ∈ (v ++ "] - " ++ front).toList := by simp [String.toList_append]
  have hvalue := (typedObject_eq_written heq).2
  rw [Signature.read_overrun (brace_not_mem heq) hv hsplit hback, hv, Option.getD_some, Option.getD_some] at hvalue
  rw [hvalue] at hoverrun
  exact w.value_free v hv _ (by decide) hoverrun

/-- **An argument or a property is what is written** exactly if its description has no closing brace and, where a value
is written, no closing bracket. Otherwise the last one of them ends the types or the value. -/
theorem parse_signature (w : Signature) (c : ParseContext) (hline : c.tag.line = w.line) (hbody : c.tag.contents = []) :
    ∀ d ∈ [arg, property], ∃ h, d.parse c = .done (typedObject h c.tag) ∧
      (typedObject h c.tag = written w ↔
        '\x7d' ∉ w.description.toList ∧ (w.value.isSome = true → ']' ∉ w.description.toList)) ∧
      (∀ front back : String, w.description = front ++ "\x7d" ++ back → '\x7d' ∉ back.toList →
        h = { read .argument back with types := some (w.opening ++ front) }) ∧
      ∀ v front back : String, '\x7d' ∉ w.description.toList → w.value = some v →
        w.description = front ++ "]" ++ back → ']' ∉ back.toList →
        h = { types := some w.types, name := some w.name, value := some (v ++ "] - " ++ front),
              description := (read .typed back).description } := by
  intro d hd
  refine ⟨read .argument w.line, ?_, ⟨fun heq => ⟨brace_not_mem heq, bracket_not_mem heq⟩, ?_⟩, ?_, ?_⟩
  · rw [← hline, ← typedName_eq]
    simp only [List.mem_cons, List.not_mem_nil, or_false] at hd
    rcases hd with rfl | rfl <;> rfl
  · rintro ⟨hbrace, hbracket⟩
    rw [Signature.read_written hbrace hbracket, typedObject_written hbody]
  · exact fun front back => Signature.read_swallowed
  · exact fun v front back => Signature.read_overrun

/-- An argument with nothing below its head line. -/
def headed (line : String) : ParseContext where
  tag := { name := "arg", line := line, contents := [] }
  place := default

/-- A description may hold dashes and brackets that open. -/
def opened : Signature where
  types := "a, b"
  name := "bar"
  value := some "10"
  description := "- an [open \x7b one -"

/-- A description with a closing brace. -/
def closingBrace : Signature where
  types := "string"
  name := "bar"
  value := none
  description := "a \x7d b"

/-- A description with a closing bracket behind a value. -/
def closingBracket : Signature where
  types := "string"
  name := "bar"
  value := some "10"
  description := "a ] b"

theorem parse_signature_opened :
    opened.line = "\x7ba, b\x7d bar [10] - - an [open \x7b one -" ∧
      arg.parse (headed opened.line) = .done (written opened) ∧
      property.parse (headed closingBrace.line) =
        .done (typedObject { types := some "string\x7d bar - a ", name := some "b" }
          (headed closingBrace.line).tag) ∧
      arg.parse (headed closingBracket.line) =
        .done (typedObject { types := some "string", name := some "bar", value := some "10] - a ",
                             description := some "b" } (headed closingBracket.line).tag) := by
  have hopened := parse_signature opened (headed opened.line) rfl rfl arg (by simp)
  have hbrace := parse_signature closingBrace (headed closingBrace.line) rfl rfl property (by simp)
  have hbracket := parse_signature closingBracket (headed closingBracket.line) rfl rfl arg (by simp)
  refine ⟨by decide, ?_, ?_, ?_⟩
  · obtain ⟨h, hparse, hiff, -⟩ := hopened
    rw [hparse, hiff.2 (by decide)]
  · obtain ⟨h, hparse, -, hswallowed, -⟩ := hbrace
    have hrest : read .argument " b" = { name := some "b" } := by decide
    rw [hparse, hswallowed "a " " b" (by decide) (by decide), hrest]
    rfl
  · obtain ⟨h, hparse, -, -, hoverrun⟩ := hbracket
    have hrest : (read .typed " b").description = some "b" := by decide
    rw [hparse, hoverrun "10" "a " " b" (by decide) rfl (by decide) (by decide), hrest]
    rfl

/-- A closing brace is lost from a description, and so is a closing bracket behind a value. -/
theorem parse_signature_closed :
    (¬ ∀ w : Signature, ']' ∉ w.description.toList → arg.parse (headed w.line) = .done (written w)) ∧
      ¬ ∀ w : Signature, '\x7d' ∉ w.description.toList → arg.parse (headed w.line) = .done (written w) := by
  refine ⟨fun h => ?_, fun h => ?_⟩
  · have htypes := (typedObject_eq_written (Script.done.inj (h closingBrace (by decide)))).1
    exact absurd htypes (by decide)
  · have hvalue := (typedObject_eq_written (Script.done.inj (h closingBracket (by decide)))).2
    exact absurd hvalue (by decide)

end Builtin

end DocComments
