import DocComments.Proofs.Grammar.Places

/-!
# Markers that overlap themselves

Whether a marker is found at its first free place on every line depends on the marker alone. Two of its places overlap
when its end is also its beginning. The right one of them is free only if the character before it, which lies inside the
left one, is not the last one of the marker. A run of one character overlaps itself but hides nothing, since each of its
places but the first has that character before it.

* `Marker.hides`: the markers with an end of that kind.
* `hides_of_overlap`: no other marker has a free place that is hidden.
* `exists_hidden`: each of these markers has a free place that is hidden, on some line.
* `findMarker_leftmost`: **the markers that are found at their first free place, on every line.**
-/

namespace DocComments

namespace Marker

/-- Whether a marker can hide a free place of itself: its end is also its beginning, and the character before that end is
not the last one. -/
def hides (m : List Char) : Bool :=
  (List.range m.length).any fun p => (m.drop (p + 1)).isPrefixOf m && m[p]? != m.getLast?

theorem hides_iff {m : List Char} :
    hides m = true ↔ ∃ d r, m = d ++ r ∧ d ≠ [] ∧ r <+: m ∧ d.getLast? ≠ m.getLast? := by
  unfold hides
  simp only [List.any_eq_true, List.mem_range, Bool.and_eq_true, List.isPrefixOf_iff_prefix, bne_iff_ne]
  constructor
  · rintro ⟨p, hp, hr, hlast⟩
    refine ⟨m.take (p + 1), m.drop (p + 1), (List.take_append_drop _ m).symm, ?_, hr, ?_⟩
    · intro hnil
      have := congrArg List.length hnil
      rw [List.length_take, List.length_nil] at this
      omega
    · rw [List.getLast?_take, if_neg (Nat.succ_ne_zero p), Nat.add_sub_cancel, List.getElem?_eq_getElem hp]
      rw [List.getElem?_eq_getElem hp] at hlast
      exact hlast
  · rintro ⟨d, r, rfl, hd, hr, hlast⟩
    have hpos := List.length_pos_iff.2 hd
    refine ⟨d.length - 1, ?_, ?_, ?_⟩
    · rw [List.length_append]
      omega
    · rw [Nat.sub_add_cancel hpos, List.drop_left]
      exact hr
    · rw [List.getElem?_append_left (by omega), ← List.getLast?_eq_getElem?]
      exact hlast

end Marker

namespace Hit

variable {line m : String} {h k : Hit}

/-- A free place overlaps a place on its left only when the marker can hide it. -/
theorem hides_of_overlap (hh : h.On line m) (hf : h.Free m) (hk : k.On line m) (hlt : k.offset < h.offset)
    (hover : h.offset < k.offset + m.utf8ByteSize) : Marker.hides m.toList = true := by
  obtain ⟨d, hb, hd⟩ := Text.exists_append_of_le (hk.cut hh) hlt.le
  have hsize : h.offset = k.offset + d.utf8ByteSize := by
    unfold offset
    rw [hb, String.utf8ByteSize_append]
  -- `d` is the part of the left place that the right one leaves free, and `r` the part that both share
  obtain ⟨r, hr, hr'⟩ := Text.exists_append_of_le hd.symm (by omega)
  have hdne : d.toList ≠ [] := by
    intro hnil
    rw [String.toList_eq_nil_iff] at hnil
    rw [hnil, String.utf8ByteSize_empty] at hsize
    omega
  have hshared : r.toList <+: m.toList := by
    have hlen : r.utf8ByteSize ≤ m.utf8ByteSize := by
      have := congrArg String.utf8ByteSize hr
      rw [String.utf8ByteSize_append] at this
      omega
    obtain ⟨e, he, -⟩ := Text.exists_append_of_le hr'.symm hlen
    rw [he, String.toList_append]
    exact List.prefix_append _ _
  have hbefore := hf.before
  rw [hb, String.toList_append, List.getLast?_append_of_ne_nil _ hdne] at hbefore
  refine Marker.hides_iff.2 ⟨d.toList, r.toList, ?_, hdne, hshared, hbefore⟩
  rw [← String.toList_append, ← hr]

/-- A text that is a beginning of itself with one more character in front has that character everywhere. -/
theorem eq_of_mem_of_cons {c : Char} {l r a : List Char} (h : c :: (l ++ r) = l ++ a) : ∀ x ∈ l, x = c := by
  induction l generalizing c with
  | nil => intro x hx; cases hx
  | cons y l ih =>
    obtain ⟨rfl, htail⟩ := List.cons.inj h
    intro x hx
    rcases List.mem_cons.1 hx with rfl | hx
    · rfl
    · exact ih htail x hx

/-- With one character before it, a marker that is not a run of that character has its first place behind it. -/
theorem firstFrom_singleton {c x : Char} (hx : x ∈ m.toList) (hne : x ≠ c) (a : String) :
    FirstFrom (String.singleton c ++ m ++ a) m 0 ⟨String.singleton c, a⟩ := by
  refine ⟨rfl, Nat.zero_le _, fun k hk _ => ?_⟩
  by_contra hlt
  have hon : Hit.On ⟨String.singleton c, a⟩ (String.singleton c ++ m ++ a) m := rfl
  obtain ⟨y, hy, hy'⟩ := Text.exists_append_of_le (hk.cut hon) (Nat.le_of_not_le hlt)
  have hsplit : k.before.toList ++ y.toList = [c] := by
    rw [← String.toList_append, ← hy, String.toList_singleton]
  rcases List.append_eq_singleton_iff.1 hsplit with ⟨-, hyc⟩ | ⟨hbc, -⟩
  · have hshift := congrArg String.toList hy'
    simp only [String.toList_append, hyc, List.singleton_append] at hshift
    exact hne (eq_of_mem_of_cons hshift.symm x hx)
  · apply hlt
    have hb : k.before = String.singleton c := by
      apply String.toList_injective
      rw [hbc, String.toList_singleton]
    unfold offset
    rw [hb]

/-- A first place that is not free hides the first free place, when there is a free place that it overlaps. -/
theorem hidden_of_firstFrom (hfirst : FirstFrom line m 0 k) (hk : ¬ k.Free m) (hh : h.On line m) (hf : h.Free m)
    (hover : h.offset < k.offset + m.utf8ByteSize) :
    ∃ x, LeftmostFree m (·.On line m) (some x) ∧ Hidden line m x := by
  obtain ⟨x, hx⟩ := exists_leftmostFree hh hf
  obtain ⟨hon, hfree, hleast⟩ := hx.found x rfl
  have hkx := hfirst.least x hon (Nat.zero_le _)
  have hne : k.offset ≠ x.offset := fun heq => hk (hfirst.on.eq_of_offset hon heq ▸ hfree)
  have hxh := hleast h hh hf
  exact ⟨x, hx, k, .first hfirst, by omega, by omega⟩

/-- **A marker that can hide a free place does so on some line**: its last character comes first, so that the left one of
two overlapping places is not free, and the right one ends the line. -/
theorem exists_hidden (hm : Marker.hides m.toList = true) :
    ∃ line h, LeftmostFree m (·.On line m) (some h) ∧ Hidden line m h := by
  obtain ⟨d, r, hdr, hd, ⟨e, he⟩, hlast⟩ := Marker.hides_iff.1 hm
  have hdm : m = String.ofList d ++ String.ofList r := by rw [← String.ofList_append, ← hdr, String.ofList_toList]
  have hem : m = String.ofList r ++ String.ofList e := by rw [← String.ofList_append, he, String.ofList_toList]
  obtain ⟨last, hl⟩ : ∃ last, m.toList.getLast? = some last := by
    refine Option.isSome_iff_exists.1 (List.getLast?_isSome.2 fun hnil => hd ?_)
    rw [hdr] at hnil
    exact (List.append_eq_nil_iff.1 hnil).1
  obtain ⟨x, hx⟩ : ∃ x, d.getLast? = some x := Option.isSome_iff_exists.1 (List.getLast?_isSome.2 hd)
  rw [hx, hl] at hlast
  have hxm : x ∈ m.toList := by
    rw [hdr]
    exact List.mem_append_left r (List.mem_of_getLast? hx)
  -- the left place has the last character before it, the right one has `d` before it
  let k : Hit := ⟨String.singleton last, String.ofList e⟩
  let h : Hit := ⟨String.singleton last ++ String.ofList d, ""⟩
  have hfirst : FirstFrom (String.singleton last ++ m ++ String.ofList e) m 0 k :=
    firstFrom_singleton hxm (fun heq => hlast (by rw [heq])) _
  have hkfree : ¬ k.Free m := by
    intro hf
    apply hf.before
    rw [hl, String.toList_singleton, List.getLast?_singleton]
  have hon : h.On (String.singleton last ++ m ++ String.ofList e) m := by
    unfold On
    rw [String.append_empty, String.append_assoc, String.append_assoc]
    congr 1
    conv_lhs => rw [hdm, String.append_assoc, ← hem]
  have hfree : h.Free m := by
    refine ⟨fun c hc => (by cases hc), ?_⟩
    rw [String.toList_append, String.toList_ofList, List.getLast?_append_of_ne_nil _ hd, hx, hl]
    exact hlast
  have hover : h.offset < k.offset + m.utf8ByteSize := by
    have hr : (String.ofList r).utf8ByteSize ≠ 0 := by
      intro h0
      rw [String.utf8ByteSize_eq_zero_iff.1 h0, String.append_empty] at hdm
      rw [hdm, String.toList_ofList, hx] at hl
      exact hlast hl
    have hsize := congrArg String.utf8ByteSize hdm
    rw [String.utf8ByteSize_append] at hsize
    unfold offset
    rw [String.utf8ByteSize_append]
    dsimp only [k]
    omega
  exact ⟨_, hidden_of_firstFrom hfirst hkfree hon hfree hover⟩

/-- **A marker that hides nothing is found at its first free place**, on every line. -/
theorem leftmostFree_on (hm : m ≠ "") (hhides : Marker.hides m.toList = false) (line : String) :
    LeftmostFree m (·.On line m) (findMarker line m) := by
  rw [leftmostFree_on_iff hm]
  rintro h hfirst ⟨k, hk, hlt, hover⟩
  obtain ⟨hon, hfree, -⟩ := hfirst.found h rfl
  rw [hides_of_overlap hon hfree hk.on hlt hover] at hhides
  cases hhides

end Hit

/-- **What the search for a marker finds.** It finds the leftmost free place of those it tries, and these are places that
do not overlap. So the first free place of a line is found exactly when it is not hidden, and it is found on every line
exactly when the marker cannot hide a free place of itself. -/
theorem findMarker_leftmost {m : String} (hm : m ≠ "") :
    (∀ line, Hit.LeftmostFree m (Hit.Tried line m 0) (findMarker line m)) ∧
    (∀ line, Hit.LeftmostFree m (·.On line m) (findMarker line m) ↔
      ∀ h, Hit.LeftmostFree m (·.On line m) (some h) → ¬ Hit.Hidden line m h) ∧
    ((∀ line, Hit.LeftmostFree m (·.On line m) (findMarker line m)) ↔ Marker.hides m.toList = false) := by
  refine ⟨Hit.leftmostFree_tried hm, Hit.leftmostFree_on_iff hm, ?_, Hit.leftmostFree_on hm⟩
  intro hall
  by_contra hhides
  obtain ⟨line, h, hfirst, hhidden⟩ := Hit.exists_hidden (m := m) (by simpa using hhides)
  exact (Hit.leftmostFree_on_iff hm line).1 (hall line) h hfirst hhidden

/-- The delimiters of a block of comments hide nothing, but a marker with its beginning at its end does. -/
theorem findMarker_leftmost_delimiters :
    (∀ line, Hit.LeftmostFree "/**" (·.On line "/**") (findMarker line "/**")) ∧
      ¬ ∀ line, Hit.LeftmostFree "//-/" (·.On line "//-/") (findMarker line "//-/") := by
  obtain ⟨-, -, hstar⟩ := findMarker_leftmost (m := "/**") (by decide)
  obtain ⟨-, -, hdash⟩ := findMarker_leftmost (m := "//-/") (by decide)
  refine ⟨hstar.2 (by decide +kernel), fun hall => ?_⟩
  have hhides : Marker.hides "//-/".toList = true := by decide +kernel
  rw [hdash.1 hall] at hhides
  cases hhides

-- of the markers that languages come with, two can hide a free place
example : ["////", "///", "/***", "*", "***/", "/**", "**/", "###", "##", "<!----", "---->", "<!---", "--->", "//-//",
    "//-/", "<!-----", "----->"].filter (fun m => Marker.hides m.toList) = ["//-//", "//-/"] := by decide +kernel

/-- A free place three bytes into a line that is missed: the place at the front is not free and overlaps it. -/
theorem findMarker_misses_overlap :
    ∃ h : Hit, h.On "//-//-//" "//-//" ∧ h.Free "//-//" ∧ h.offset = 3 ∧ findMarker "//-//-//" "//-//" = none ∧
      ¬ Hit.LeftmostFree "//-//" (·.On "//-//-//" "//-//") (findMarker "//-//-//" "//-//") := by
  have hon : Hit.On ⟨"//-", ""⟩ "//-//-//" "//-//" := by decide +kernel
  have hfree : Hit.Free ⟨"//-", ""⟩ "//-//" := by decide +kernel
  have hnone : findMarker "//-//-//" "//-//" = none := by decide +kernel
  exact ⟨_, hon, hfree, by decide +kernel, hnone, fun hleft => hleft.missed hnone _ hon hfree⟩

end DocComments
