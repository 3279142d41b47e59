import Mathlib.Data.List.Forall2
import Mathlib.Data.List.TakeWhile
import DocComments.Proofs.Builtin.Links
import DocComments.Proofs.Text.Cut
import DocComments.Proofs.Text.Html

/-!
# References in escaped text

A markup is kept as it is written and as it is written inside HTML, and references are looked for in both texts. What
makes a reference is never escaped, and what is escaped can only stand inside of one.

* `Reference.IsReference`: the texts that count as a reference, with the white space around it.
* `Reference.Stripped`: a text without its references, said without a scan.
* `Reference.stripped_strip`: the scan takes the references away, and nothing else.
* `Reference.strip_escapeHtml`: **taking references away commutes with escaping.**
-/

namespace DocComments.Builtin.Reference

open Text

variable {cs rest u : List Char}

/-! ## What a reference is -/

/-- The word `state` with its letters in either case. -/
def Spelled (word : List Char) : Prop :=
  List.Forall₂ (fun l c => isLetter l c = true) ['s', 't', 'a', 't', 'e'] word

/-- A text that is a reference to a state, with white space around it. The path goes up to the first closing brace, and
has the `s` of `states` in it. -/
inductive IsReference : List Char → Prop
  | intro {before word path behind : List Char} (hbefore : ∀ c ∈ before, isSpace c = true) (hword : Spelled word)
      (hpath : '\x7d' ∉ path) (hbehind : ∀ c ∈ behind, isSpace c = true) :
      IsReference (before ++ (['$', '\x7b', '@'] ++ word ++ path ++ '\x7d' :: behind))

/-- A text without its references: from left to right, the longest reference that starts at a place is left out, and a
character where none starts stays. -/
inductive Stripped : List Char → List Char → Prop
  | nil : Stripped [] []
  | keep {c : Char} {cs out : List Char} (hno : ∀ u, IsReference u → ¬ u <+: c :: cs) (h : Stripped cs out) :
      Stripped (c :: cs) (c :: out)
  | drop {u rest out : List Char} (hu : IsReference u)
      (hlongest : ∀ v, IsReference v → v <+: u ++ rest → v.length ≤ u.length) (h : Stripped rest out) :
      Stripped (u ++ rest) out

theorem toBrace?_eq_some_iff {a r : List Char} : toBrace? cs = some (a, r) ↔ cs = a ++ '\x7d' :: r ∧ '\x7d' ∉ a := by
  unfold toBrace?
  constructor
  · intro h
    have hparts : cs.takeWhile (· ≠ '\x7d') ++ cs.dropWhile (· ≠ '\x7d') = cs := List.takeWhile_append_dropWhile
    have hstop := List.head?_dropWhile_not (· ≠ '\x7d') cs
    split at h
    · cases h
    · next x tail hdrop =>
      obtain ⟨rfl, rfl⟩ := Prod.mk.inj (Option.some.inj h)
      rw [hdrop] at hparts hstop
      obtain rfl : x = '\x7d' := by simpa using hstop
      refine ⟨hparts.symm, fun hmem => ?_⟩
      simpa using List.mem_takeWhile_imp hmem
  · rintro ⟨rfl, ha⟩
    have hall : ∀ x ∈ a, decide (x ≠ '\x7d') = true := by
      intro x hx
      simpa using ne_of_mem_of_not_mem hx ha
    rw [List.dropWhile_append_of_pos hall, List.dropWhile_cons_of_neg (by simp), List.takeWhile_append_of_pos hall,
      List.takeWhile_cons_of_neg (by simp), List.append_nil]

theorem afterWord?_eq_some_iff {w : List Char} :
    afterWord? w cs = some rest ↔ ∃ word, List.Forall₂ (fun l c => isLetter l c = true) w word ∧ cs = word ++ rest := by
  induction w generalizing cs with
  | nil =>
    rw [afterWord?, Option.some.injEq]
    constructor
    · rintro rfl
      exact ⟨[], .nil, rfl⟩
    · rintro ⟨word, hword, rfl⟩
      obtain rfl := List.forall₂_nil_left_iff.1 hword
      rfl
  | cons l w ih =>
    cases cs with
    | nil =>
      refine ⟨(nomatch ·), ?_⟩
      rintro ⟨word, hword, heq⟩
      obtain ⟨x, tail, -, -, rfl⟩ := List.forall₂_cons_left_iff.1 hword
      cases heq
    | cons c cs =>
      rw [afterWord?]
      by_cases hl : isLetter l c = true
      · rw [if_pos hl, ih]
        constructor
        · rintro ⟨word, hword, rfl⟩
          exact ⟨c :: word, .cons hl hword, rfl⟩
        · rintro ⟨word, hword, heq⟩
          obtain ⟨x, tail, -, htail, rfl⟩ := List.forall₂_cons_left_iff.1 hword
          exact ⟨tail, htail, (List.cons.inj heq).2⟩
      · rw [if_neg hl]
        refine ⟨(nomatch ·), ?_⟩
        rintro ⟨word, hword, heq⟩
        obtain ⟨x, tail, hx, -, rfl⟩ := List.forall₂_cons_left_iff.1 hword
        obtain rfl : c = x := (List.cons.inj heq).1
        exact absurd hx hl

theorem afterReference?_eq_some_iff :
    afterReference? cs = some rest ↔ ∃ word path r, Spelled word ∧ '\x7d' ∉ path ∧
      cs = ['$', '\x7b', '@'] ++ word ++ path ++ '\x7d' :: r ∧ rest = r.dropWhile isSpace := by
  have hbind : afterReference? cs = (after? ['$', '\x7b', '@'] cs).bind fun cs =>
      (afterWord? ['s', 't', 'a', 't', 'e'] cs).bind fun cs =>
        (toBrace? cs).bind fun p => some (p.2.dropWhile isSpace) := rfl
  rw [hbind]
  simp only [Option.bind_eq_some_iff, after?_eq_some_iff, afterWord?_eq_some_iff, Prod.exists, toBrace?_eq_some_iff]
  constructor
  · rintro ⟨_, rfl, _, ⟨word, hword, rfl⟩, path, r, ⟨rfl, hpath⟩, hrest⟩
    exact ⟨word, path, r, hword, hpath, by simp, (Option.some.inj hrest).symm⟩
  · rintro ⟨word, path, r, hword, hpath, rfl, rfl⟩
    exact ⟨_, by simp, _, ⟨word, hword, rfl⟩, path, r, ⟨rfl, hpath⟩, rfl⟩

/-- A reference at the front of a text is found behind the white space that it starts with. -/
theorem IsReference.afterReference? (h : IsReference u) (r : List Char) :
    afterReference? ((u ++ r).dropWhile isSpace) = some (r.dropWhile isSpace) := by
  obtain @⟨before, word, path, behind, hbefore, hword, hpath, hbehind⟩ := h
  rw [List.append_assoc, List.dropWhile_append_of_pos hbefore, List.append_assoc, List.append_assoc,
    List.append_assoc, List.cons_append, List.cons_append]
  rw [List.dropWhile_cons_of_neg (by decide)]
  refine afterReference?_eq_some_iff.2 ⟨word, path, behind ++ r, hword, hpath, by simp, ?_⟩
  rw [List.dropWhile_append_of_pos hbehind]

/-- What is found behind white space is the longest reference. -/
theorem exists_longest (h : afterReference? (cs.dropWhile isSpace) = some rest) :
    ∃ u, IsReference u ∧ cs = u ++ rest ∧ ∀ v, IsReference v → v <+: cs → v.length ≤ u.length := by
  obtain ⟨word, path, r, hword, hpath, hcs, hrest⟩ := afterReference?_eq_some_iff.1 h
  have hspaces : ∀ l : List Char, ∀ c ∈ l.takeWhile isSpace, isSpace c = true := fun l c hc => List.mem_takeWhile_imp hc
  have hsplit : cs = cs.takeWhile isSpace ++ (['$', '\x7b', '@'] ++ word ++ path ++ '\x7d' :: r.takeWhile isSpace) ++
      rest := by
    have hr : r.takeWhile isSpace ++ rest = r := hrest ▸ List.takeWhile_append_dropWhile
    conv_lhs => rw [← List.takeWhile_append_dropWhile (p := isSpace) (l := cs), hcs, ← hr]
    simp
  refine ⟨_, .intro (hspaces cs) hword hpath (hspaces r), hsplit, ?_⟩
  rintro v hv ⟨r', rfl⟩
  have hshort : rest.length ≤ r'.length := by
    rw [← Option.some.inj ((hv.afterReference? r').symm.trans h)]
    exact List.length_dropWhile_le _ _
  have hlength := congrArg List.length hsplit
  simp only [List.length_append] at hlength ⊢
  omega

/-! ## Taking references away -/

theorem afterReference?_isSuffix {c : Char} (h : afterReference? (c :: cs) = some rest) : rest <:+ cs := by
  obtain ⟨word, path, r, -, -, hcs, rfl⟩ := afterReference?_eq_some_iff.1 h
  refine (List.dropWhile_suffix _).trans ⟨['\x7b', '@'] ++ word ++ path ++ ['\x7d'], ?_⟩
  rw [(List.cons.inj hcs).2]
  simp

theorem stripFrom_skip (n : Nat) (held cs : List Char) : stripFrom n held cs = stripFrom 0 held (cs.drop n) := by
  induction n generalizing cs with
  | zero => rw [List.drop_zero]
  | succ n ih =>
    cases cs with
    | nil => rw [List.drop_nil, stripFrom, stripFrom]
    | cons c cs => rw [stripFrom, ih, List.drop_succ_cons]

theorem stripFrom_space {c : Char} (hc : isSpace c = true) (held cs : List Char) :
    stripFrom 0 held (c :: cs) = stripFrom 0 (c :: held) cs := by
  rw [stripFrom, if_pos hc]

/-- A reference is left out with the white space that is held back. -/
theorem stripFrom_reference {c : Char} (hc : isSpace c = false) (h : afterReference? (c :: cs) = some rest)
    (held : List Char) : stripFrom 0 held (c :: cs) = stripFrom 0 [] rest := by
  have hdrop : cs.drop (cs.length - rest.length) = rest :=
    (List.suffix_iff_eq_drop.1 (afterReference?_isSuffix h)).symm
  rw [stripFrom, if_neg (by simp [hc]), h]
  dsimp only
  rw [stripFrom_skip, hdrop]

theorem stripFrom_other {c : Char} (hc : isSpace c = false) (h : afterReference? (c :: cs) = none)
    (held : List Char) : stripFrom 0 held (c :: cs) = held.reverse ++ c :: stripFrom 0 [] cs := by
  rw [stripFrom, if_neg (by simp [hc]), h]

theorem not_isPrefix (hno : afterReference? (cs.dropWhile isSpace) = none) (hu : IsReference u) : ¬ u <+: cs := by
  rintro ⟨r, rfl⟩
  rw [hu.afterReference? r] at hno
  cases hno

/-- White space stays before what is no reference. -/
theorem Stripped.spaces {out spaces : List Char} (h : Stripped cs out) (hspaces : ∀ c ∈ spaces, isSpace c = true)
    (hno : afterReference? (cs.dropWhile isSpace) = none) : Stripped (spaces ++ cs) (spaces ++ out) := by
  induction spaces with
  | nil => exact h
  | cons c spaces ih =>
    rw [List.cons_append, List.cons_append]
    refine .keep (fun u hu => not_isPrefix ?_ hu) (ih fun x hx => hspaces x (List.mem_cons_of_mem c hx))
    rw [← List.cons_append, List.dropWhile_append_of_pos hspaces, hno]

/-- **The scan takes the references away, and nothing else.** What it holds back is the white space before the place
where it stands. -/
theorem stripped_stripFrom (held cs : List Char) (hheld : ∀ c ∈ held, isSpace c = true) :
    Stripped (held.reverse ++ cs) (stripFrom 0 held cs) := by
  have hspaces : ∀ c ∈ held.reverse, isSpace c = true := fun c hc => hheld c (List.mem_reverse.1 hc)
  match cs with
  | [] =>
    have hall := Stripped.nil.spaces hspaces rfl
    rwa [List.append_nil (held.reverse)] at hall ⊢
  | c :: cs =>
    cases hc : isSpace c with
    | true =>
      have hmore : ∀ x ∈ c :: held, isSpace x = true := List.forall_mem_cons.2 ⟨hc, hheld⟩
      rw [stripFrom_space hc, ← List.singleton_append, ← List.append_assoc, ← List.reverse_cons]
      exact stripped_stripFrom (c :: held) cs hmore
    | false =>
      have hstay : (c :: cs).dropWhile isSpace = c :: cs := List.dropWhile_cons_of_neg (by simp [hc])
      cases hfound : afterReference? (c :: cs) with
      | some rest =>
        have hshort := (afterReference?_isSuffix hfound).length_le
        have hbehind : afterReference? ((held.reverse ++ c :: cs).dropWhile isSpace) = some rest := by
          rw [List.dropWhile_append_of_pos hspaces, hstay, hfound]
        obtain ⟨u, hu, hsplit, hlongest⟩ := exists_longest hbehind
        rw [stripFrom_reference hc hfound, hsplit]
        exact .drop hu (hsplit ▸ hlongest) (stripped_stripFrom [] rest (List.forall_mem_nil _))
      | none =>
        have hno : afterReference? ((c :: cs).dropWhile isSpace) = none := by rw [hstay, hfound]
        rw [stripFrom_other hc hfound]
        have hrest := stripped_stripFrom [] cs (List.forall_mem_nil _)
        exact Stripped.spaces (.keep (fun u hu => not_isPrefix hno hu) hrest) hspaces hno
  termination_by cs.length

theorem stripped_strip (s : String) : Stripped s.toList (strip s).toList := by
  unfold strip
  rw [String.toList_ofList]
  exact stripped_stripFrom [] s.toList (List.forall_mem_nil _)

/-! ## References in an escaped text -/

theorem toBrace?_escaped (cs : List Char) : toBrace? (escaped cs) = (toBrace? cs).map (Prod.map escaped escaped) := by
  unfold toBrace?
  rw [steady_ne_brace.dropWhile_escaped, steady_ne_brace.takeWhile_escaped]
  have hstop := List.head?_dropWhile_not (· ≠ '\x7d') cs
  cases hdrop : cs.dropWhile (· ≠ '\x7d') with
  | nil => rfl
  | cons c r =>
    rw [hdrop] at hstop
    obtain rfl : c = '\x7d' := by simpa using hstop
    rfl

theorem afterWord?_escaped {w : List Char} (hw : ∀ l ∈ w, ∀ c, isLetter l c = true → Plain c) (cs : List Char) :
    afterWord? w (escaped cs) = (afterWord? w cs).map escaped := by
  induction w generalizing cs with
  | nil => rfl
  | cons l w ih =>
    have hl := hw l List.mem_cons_self
    cases cs with
    | nil => rfl
    | cons c cs =>
      by_cases hc : Plain c
      · rw [hc.escaped_cons, afterWord?, afterWord?]
        split
        · exact ih (fun x hx => hw x (List.mem_cons_of_mem l hx)) cs
        · rfl
      · obtain ⟨x, r, hr⟩ := exists_entity hc
        rw [escaped_cons, hr, List.cons_append, afterWord?, afterWord?, if_neg fun h => ne_amp_of_plain (hl _ h) rfl,
          if_neg fun h => hc (hl c h)]
        rfl

theorem plain_of_isLetter : ∀ l ∈ ['s', 't', 'a', 't', 'e'], ∀ c, isLetter l c = true → Plain c := by
  intro l hl c hc
  have hcase : c = l ∨ c = l.toUpper ∨ c = 'ſ' := by
    simp only [isLetter, Bool.or_eq_true, Bool.and_eq_true, decide_eq_true_eq] at hc
    tauto
  have hall : ['s', 't', 'a', 't', 'e'].all (fun l => Plain l ∧ Plain l.toUpper) = true := by decide
  have hplain : Plain l ∧ Plain l.toUpper := of_decide_eq_true (List.all_eq_true.1 hall l hl)
  rcases hcase with rfl | rfl | rfl
  · exact hplain.1
  · exact hplain.2
  · decide

/-- **A reference starts at the same places** of a text and of the escaped text, and what is behind it is the same. -/
theorem afterReference?_escaped (cs : List Char) :
    afterReference? (escaped cs) = (afterReference? cs).map escaped := by
  unfold afterReference?
  rw [after?_escaped (plain_of_all (by decide))]
  cases after? ['$', '\x7b', '@'] cs with
  | none => rfl
  | some cs =>
    dsimp only [Option.map_some, Option.bind_eq_bind, Option.bind_some]
    rw [afterWord?_escaped plain_of_isLetter]
    cases afterWord? ['s', 't', 'a', 't', 'e'] cs with
    | none => rfl
    | some cs =>
      dsimp only [Option.map_some, Option.bind_some]
      rw [toBrace?_escaped]
      cases toBrace? cs with
      | none => rfl
      | some p => exact congrArg some (steady_isSpace.dropWhile_escaped p.2)

theorem afterReference?_of_ne {c : Char} (hc : c ≠ '$') (cs : List Char) : afterReference? (c :: cs) = none := by
  unfold afterReference?
  rw [after?, if_neg (Ne.symm hc)]
  rfl

theorem ne_dollar_of_not_plain {c : Char} (hc : ¬ Plain c) : c ≠ '$' := by
  rintro rfl
  exact hc rfl

theorem solid_of_mem_entity {c x : Char} (hc : ¬ Plain c) (hx : x ∈ entity c) : isSpace x = false ∧ x ≠ '$' := by
  have hsteady : Steady (· ≠ '$') := steady_of_entities (by decide)
  refine ⟨?_, by simpa [ne_dollar_of_not_plain hc] using hsteady c x hx⟩
  rw [steady_isSpace c x hx]
  exact Bool.eq_false_iff.2 fun h => hc (plain_of_isSpace h)

/-- What holds neither white space nor the start of a reference stays as it is. -/
theorem stripFrom_solid (hu : ∀ x ∈ u, isSpace x = false ∧ x ≠ '$') (cs : List Char) :
    stripFrom 0 [] (u ++ cs) = u ++ stripFrom 0 [] cs := by
  induction u with
  | nil => rfl
  | cons x u ih =>
    obtain ⟨⟨hspace, hdollar⟩, htail⟩ := List.forall_mem_cons.1 hu
    rw [List.cons_append, stripFrom_other hspace (afterReference?_of_ne hdollar _), ih htail]
    rfl

theorem stripFrom_entity {c : Char} (hc : ¬ Plain c) (held cs : List Char) :
    stripFrom 0 held (entity c ++ cs) = held.reverse ++ (entity c ++ stripFrom 0 [] cs) := by
  have hsolid : ∀ x ∈ entity c, isSpace x = false ∧ x ≠ '$' := fun x hx => solid_of_mem_entity hc hx
  obtain ⟨x, r, hr⟩ := exists_entity hc
  rw [hr] at hsolid ⊢
  obtain ⟨⟨hspace, hdollar⟩, htail⟩ := List.forall_mem_cons.1 hsolid
  rw [List.cons_append, stripFrom_other hspace (afterReference?_of_ne hdollar _), stripFrom_solid htail]
  rfl

theorem stripFrom_escaped (held cs : List Char) (hheld : ∀ c ∈ held, isSpace c = true) :
    stripFrom 0 held (escaped cs) = escaped (stripFrom 0 held cs) := by
  have hspaces : escaped held.reverse = held.reverse :=
    escaped_of_plain fun c hc => plain_of_isSpace (hheld c (List.mem_reverse.1 hc))
  match cs with
  | [] => exact hspaces.symm
  | c :: cs =>
    cases hc : isSpace c with
    | true =>
      have hmore : ∀ x ∈ c :: held, isSpace x = true := List.forall_mem_cons.2 ⟨hc, hheld⟩
      rw [(plain_of_isSpace hc).escaped_cons, stripFrom_space hc, stripFrom_space hc]
      exact stripFrom_escaped (c :: held) cs hmore
    | false =>
      have hfound := afterReference?_escaped (c :: cs)
      by_cases hplain : Plain c
      · rw [hplain.escaped_cons] at hfound ⊢
        cases href : afterReference? (c :: cs) with
        | some rest =>
          have hshort := (afterReference?_isSuffix href).length_le
          rw [href] at hfound
          rw [stripFrom_reference hc hfound, stripFrom_reference hc href]
          exact stripFrom_escaped [] rest (List.forall_mem_nil _)
        | none =>
          rw [href] at hfound
          rw [stripFrom_other hc hfound, stripFrom_other hc href, escaped_append, hspaces, hplain.escaped_cons,
            stripFrom_escaped [] cs (List.forall_mem_nil _)]
      · have hnone := afterReference?_of_ne (ne_dollar_of_not_plain hplain) cs
        rw [escaped_cons, stripFrom_entity hplain, stripFrom_other hc hnone, escaped_append, hspaces, escaped_cons,
          stripFrom_escaped [] cs (List.forall_mem_nil _)]
  termination_by cs.length

/-- **Taking references away commutes with escaping.** -/
theorem strip_escapeHtml (s : String) : strip (escapeHtml s) = escapeHtml (strip s) := by
  unfold strip
  rw [toList_escapeHtml, stripFrom_escaped [] s.toList (List.forall_mem_nil _), escapeHtml_ofList]

end DocComments.Builtin.Reference

namespace DocComments.Builtin

open Reference

/-- **The texts of a markup without references are one text, as it is and escaped.** A markup is kept with four texts:
its body, the body escaped, and each of the two without the references in it. The last is the third one escaped, so
escaping neither makes a reference nor breaks one. -/
theorem markup_stateless (c : ParseContext) :
    ∃ o stateless escapedStateless, markup.parse c = .done (.arr [.obj o]) ∧
      Entries.find? "raw" o = some (.str c.tag.body) ∧
      Entries.find? "escaped" o = some (.str (Text.escapeHtml c.tag.body)) ∧
      Entries.find? "raw_stateless" o = some (.str stateless) ∧
      Entries.find? "escaped_stateless" o = some (.str escapedStateless) ∧
      Stripped c.tag.body.toList stateless.toList ∧
      Stripped (Text.escapeHtml c.tag.body).toList escapedStateless.toList ∧
      escapedStateless = Text.escapeHtml stateless := by
  have hfields : ∀ fields k, Entries.find? k (Table.ofList fields).entries = Entries.find? k fields.reverse :=
    Value.field?_object
  refine ⟨_, strip c.tag.body, strip (Text.escapeHtml c.tag.body), rfl, ?_, ?_, ?_, ?_, stripped_strip _,
    stripped_strip _, strip_escapeHtml _⟩
  all_goals
    rw [hfields]
    simp [Entries.find?]

end DocComments.Builtin
