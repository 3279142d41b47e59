import Mathlib.Order.WellFounded
import DocComments.Proofs.Grammar.Marker

/-!
# Which places of a marker are tried

A marker may stand on a line many times, and its places may overlap. The search goes from place to place, and from a
place that does not count it goes on behind the end of that place, so it never tries one that overlaps it. The first free
place of a line is missed when it is hidden in this way.

* `Hit.Tried`: the places that the search tries.
* `tried_or_hidden`: a place is tried, or a place that is tried overlaps it from the left.
* `leftmostFree_tried`: **the search finds the leftmost free place of those it tries.**
* `leftmostFree_on_iff`: the first free place of a line is found exactly when it is not hidden.
-/

namespace DocComments

/-- Of two beginnings of a text, the one with more bytes starts with the other. -/
theorem Text.exists_append_of_le {a b x y : String} (h : a ++ x = b ++ y) (hle : a.utf8ByteSize ≤ b.utf8ByteSize) :
    ∃ d, b = a ++ d ∧ x = d ++ y := by
  have hl : a.toList ++ x.toList = b.toList ++ y.toList := by rw [← String.toList_append, h, String.toList_append]
  rcases List.append_eq_append_iff.1 hl with ⟨d, hb, hx⟩ | ⟨d, ha, hy⟩
  · refine ⟨String.ofList d, String.toList_injective ?_, String.toList_injective ?_⟩
    · rw [hb, String.toList_append, String.toList_ofList]
    · rw [hx, String.toList_append, String.toList_ofList]
  · -- then `a` has no more bytes than `b` only when they are the same
    have ha' : a = b ++ String.ofList d := by
      apply String.toList_injective
      rw [ha, String.toList_append, String.toList_ofList]
    have hd : (String.ofList d).utf8ByteSize = 0 := by
      rw [ha', String.utf8ByteSize_append] at hle
      omega
    have hempty : String.ofList d = "" := String.utf8ByteSize_eq_zero_iff.1 hd
    rw [hempty, String.append_empty] at ha'
    refine ⟨"", ?_, ?_⟩
    · rw [String.append_empty, ha']
    · rw [String.empty_append]
      rw [ha'] at h
      exact (String.append_right_inj b).1 h

/-- A text is cut in one way at a number of bytes. -/
theorem Text.append_inj_of_size {a b x y : String} (h : a ++ x = b ++ y)
    (hsize : a.utf8ByteSize = b.utf8ByteSize) : a = b ∧ x = y := by
  obtain ⟨d, hb, hx⟩ := Text.exists_append_of_le h hsize.le
  have hd : d.utf8ByteSize = 0 := by
    rw [hb, String.utf8ByteSize_append] at hsize
    omega
  rw [String.utf8ByteSize_eq_zero_iff.1 hd] at hb hx
  rw [String.append_empty] at hb
  rw [String.empty_append] at hx
  exact ⟨hb.symm, hx⟩

namespace Hit

/-- A place of a marker on a line. -/
def On (h : Hit) (line m : String) : Prop :=
  line = h.before ++ m ++ h.after

instance (h : Hit) (line m : String) : Decidable (h.On line m) :=
  inferInstanceAs (Decidable (line = h.before ++ m ++ h.after))

/-- A marker stands free: white space or nothing comes behind it, and what comes before it is not its last character. -/
structure Free (h : Hit) (m : String) : Prop where
  after : ∀ c ∈ h.after.toList.head?, Text.isSpace c = true
  before : h.before.toList.getLast? ≠ m.toList.getLast?

theorem free_iff_all {h : Hit} {m : String} :
    h.Free m ↔ h.after.toList.head?.all Text.isSpace = true ∧ h.before.toList.getLast? ≠ m.toList.getLast? := by
  rw [Option.all_eq_true]
  exact ⟨fun hf => ⟨hf.after, hf.before⟩, fun hf => ⟨hf.1, hf.2⟩⟩

instance (h : Hit) (m : String) : Decidable (h.Free m) :=
  decidable_of_iff _ free_iff_all.symm

/-- The first of the places that start `i` bytes into a line or later. -/
structure FirstFrom (line m : String) (i : Nat) (h : Hit) : Prop where
  on : h.On line m
  le : i ≤ h.offset
  least : ∀ k : Hit, k.On line m → i ≤ k.offset → h.offset ≤ k.offset

/-- The places that a search tries when it starts `i` bytes into a line: the first one, and those that it tries when it
starts behind that one. -/
inductive Tried (line m : String) : Nat → Hit → Prop
  | first {i : Nat} {h : Hit} : FirstFrom line m i h → Tried line m i h
  | behind {i : Nat} {h k : Hit} :
      FirstFrom line m i h → Tried line m (h.offset + m.utf8ByteSize) k → Tried line m i k

/-- The leftmost free place among those with a property, or nothing when none of them is free. -/
structure LeftmostFree (m : String) (P : Hit → Prop) (o : Option Hit) : Prop where
  found : ∀ h ∈ o, P h ∧ h.Free m ∧ ∀ k, P k → k.Free m → h.offset ≤ k.offset
  missed : o = none → ∀ k, P k → ¬ k.Free m

variable {line m : String} {h k : Hit} {i j : Nat}

/-- Two places of a line cut it in two ways, each before the marker. -/
theorem On.cut (hh : h.On line m) {n : String} (hk : k.On line n) :
    h.before ++ (m ++ h.after) = k.before ++ (n ++ k.after) := by
  rw [← String.append_assoc, ← String.append_assoc, ← hh, ← hk]

/-- A place is known by its offset. -/
theorem On.eq_of_offset (hh : h.On line m) (hk : k.On line m) (he : h.offset = k.offset) : h = k := by
  obtain ⟨hbefore, hrest⟩ := Text.append_inj_of_size (hh.cut hk) he
  have hafter : h.after = k.after := (String.append_right_inj m).1 hrest
  cases h
  cases k
  dsimp only at hbefore hafter
  rw [hbefore, hafter]

/-- A place ends on the line. -/
theorem On.end_le (hh : h.On line m) : h.offset + m.utf8ByteSize ≤ line.utf8ByteSize := by
  have hsize := congrArg String.utf8ByteSize hh
  rw [String.utf8ByteSize_append, String.utf8ByteSize_append] at hsize
  unfold offset
  omega

/-- Of the places with a property, one is leftmost. -/
theorem exists_least {P : Hit → Prop} (hP : P h) : ∃ k, P k ∧ ∀ x, P x → k.offset ≤ x.offset := by
  obtain ⟨k, hk, hmin⟩ := (measure Hit.offset).wf.has_min {x | P x} ⟨h, hP⟩
  exact ⟨k, hk, fun x hx => Nat.le_of_not_lt (hmin x hx)⟩

theorem exists_firstFrom (hh : h.On line m) (hi : i ≤ h.offset) : ∃ k, FirstFrom line m i k := by
  have hP : h.On line m ∧ i ≤ h.offset := ⟨hh, hi⟩
  obtain ⟨k, ⟨hon, hle⟩, hleast⟩ := exists_least (P := fun x => x.On line m ∧ i ≤ x.offset) hP
  exact ⟨k, hon, hle, fun x hx hix => hleast x ⟨hx, hix⟩⟩

theorem FirstFrom.unique (hh : FirstFrom line m i h) (hk : FirstFrom line m i k) : h = k :=
  hh.on.eq_of_offset hk.on (le_antisymm (hh.least k hk.on hk.le) (hk.least h hh.on hh.le))

namespace Tried

theorem on (hh : Tried line m i h) : h.On line m := by
  induction hh with
  | first hf => exact hf.on
  | behind _ _ ih => exact ih

theorem le (hh : Tried line m i h) : i ≤ h.offset := by
  induction hh with
  | first hf => exact hf.le
  | behind hf _ ih =>
    have := hf.le
    omega

/-- The places that are tried, from the first one. -/
theorem iff_of_firstFrom (hf : FirstFrom line m i h) :
    Tried line m i k ↔ k = h ∨ Tried line m (h.offset + m.utf8ByteSize) k := by
  constructor
  · intro hk
    cases hk with
    | first hf' => exact .inl (hf'.unique hf)
    | behind hf' hk =>
      rw [hf'.unique hf] at hk
      exact .inr hk
  · rintro (rfl | hk)
    · exact .first hf
    · exact .behind hf hk

/-- Where a search starts does not matter when no place is passed over. -/
theorem congr (hij : ∀ x : Hit, x.On line m → (i ≤ x.offset ↔ j ≤ x.offset)) :
    Tried line m i k ↔ Tried line m j k := by
  have move : ∀ {i j : Nat}, (∀ x : Hit, x.On line m → (i ≤ x.offset ↔ j ≤ x.offset)) →
      ∀ x, FirstFrom line m i x → FirstFrom line m j x := by
    intro i j hij x hx
    exact ⟨hx.on, (hij x hx.on).1 hx.le, fun y hy hjy => hx.least y hy ((hij y hy).2 hjy)⟩
  have hji : ∀ x : Hit, x.On line m → (j ≤ x.offset ↔ i ≤ x.offset) := fun x hx => (hij x hx).symm
  constructor
  · intro hk
    cases hk with
    | first hf => exact .first (move hij _ hf)
    | behind hf hk => exact .behind (move hij _ hf) hk
  · intro hk
    cases hk with
    | first hf => exact .first (move hji _ hf)
    | behind hf hk => exact .behind (move hji _ hf) hk

/-- **Places that are tried do not overlap.** -/
theorem disjoint (hk : Tried line m i k) (hh : Tried line m i h) (hlt : k.offset < h.offset) :
    k.offset + m.utf8ByteSize ≤ h.offset := by
  induction hk with
  | first hf =>
    rcases (iff_of_firstFrom hf).1 hh with rfl | hh
    · omega
    · exact hh.le
  | behind hf hk ih =>
    rcases (iff_of_firstFrom hf).1 hh with rfl | hh
    · have := hk.le
      omega
    · exact ih hh hlt

end Tried

/-- **A place is tried or hidden**: a place that is tried overlaps it from the left. -/
theorem tried_or_hidden (hm : m ≠ "") (hh : h.On line m) (hi : i ≤ h.offset) :
    Tried line m i h ∨ ∃ k, Tried line m i k ∧ k.offset < h.offset ∧ h.offset < k.offset + m.utf8ByteSize := by
  have hpos : m.utf8ByteSize ≠ 0 := fun h0 => hm (String.utf8ByteSize_eq_zero_iff.1 h0)
  -- the search comes closer to the place with every place that it tries
  induction hn : h.offset - i using Nat.strongRecOn generalizing i with
  | ind n ih =>
    obtain ⟨k, hk⟩ := exists_firstFrom hh hi
    have hle := hk.least h hh hi
    by_cases heq : k.offset = h.offset
    · rw [← hk.on.eq_of_offset hh heq]
      exact .inl (.first hk)
    by_cases hover : h.offset < k.offset + m.utf8ByteSize
    · exact .inr ⟨k, .first hk, by omega, hover⟩
    · have hik := hk.le
      rcases ih (h.offset - (k.offset + m.utf8ByteSize)) (by omega) (by omega) rfl with ht | ⟨x, hx, hlt, hxo⟩
      · exact .inl (.behind hk ht)
      · exact .inr ⟨x, .behind hk hx, hlt, hxo⟩

/-- Only free places matter. -/
theorem LeftmostFree.congr {P Q : Hit → Prop} {o : Option Hit} (hPQ : ∀ k, k.Free m → (P k ↔ Q k))
    (hP : LeftmostFree m P o) : LeftmostFree m Q o := by
  refine ⟨fun x hx => ?_, fun hn k hk hf => hP.missed hn k ((hPQ k hf).2 hk) hf⟩
  obtain ⟨hxP, hfree, hleast⟩ := hP.found x hx
  exact ⟨(hPQ x hfree).1 hxP, hfree, fun k hk hf => hleast k ((hPQ k hf).2 hk) hf⟩

theorem exists_leftmostFree (hh : h.On line m) (hf : h.Free m) :
    ∃ k, LeftmostFree m (·.On line m) (some k) := by
  have hP : h.On line m ∧ h.Free m := ⟨hh, hf⟩
  obtain ⟨k, ⟨hon, hfree⟩, hleast⟩ := exists_least (P := fun x => x.On line m ∧ x.Free m) hP
  refine ⟨k, ?_, fun hnone => by cases hnone⟩
  rintro x ⟨⟩
  exact ⟨hon, hfree, fun y hy hyf => hleast y ⟨hy, hyf⟩⟩

/-- The neighbours of a place decide whether it is free. -/
theorem free_iff {pre rest : List Char} {last : Char} (hlast : m.toList.getLast? = some last) :
    (Hit.mk (String.ofList pre) (String.ofList rest)).Free m ↔ Marker.isFree last pre.getLast? rest = true := by
  unfold Marker.isFree
  rw [free_iff_all, Bool.and_eq_true, bne_iff_ne, hlast, String.toList_ofList, String.toList_ofList]

/-- A marker that does not stand behind `pre` has no place there, so all places behind `pre` have the next character
before them too. -/
theorem On.passes {pre cs : List Char} {c : Char} (hline : line.toList = pre ++ c :: cs)
    (hnone : Text.after? m.toList (c :: cs) = none) (hh : h.On line m) :
    (String.ofList pre).utf8ByteSize ≤ h.offset ↔ (String.ofList (pre ++ [c])).utf8ByteSize ≤ h.offset := by
  have hsnoc : String.ofList (pre ++ [c]) = String.ofList pre ++ String.singleton c := by
    rw [String.ofList_append, String.singleton_eq_ofList]
  constructor
  · intro hle
    have hcut : String.ofList pre ++ String.ofList (c :: cs) = h.before ++ (m ++ h.after) := by
      rw [← String.ofList_append, ← hline, String.ofList_toList, ← String.append_assoc]
      exact hh
    obtain ⟨d, hb, hd⟩ := Text.exists_append_of_le hcut hle
    have hd' : c :: cs = d.toList ++ (m.toList ++ h.after.toList) := by
      have hlist := congrArg String.toList hd
      simpa only [String.toList_ofList, String.toList_append] using hlist
    cases hdl : d.toList with
    | nil =>
      rw [hdl] at hd'
      have hsome : Text.after? m.toList (c :: cs) = some h.after.toList := Text.after?_eq_some_iff.2 hd'
      rw [hnone] at hsome
      cases hsome
    | cons x ds =>
      rw [hdl] at hd'
      obtain rfl : c = x := (List.cons.inj hd').1
      have hds : d = String.singleton c ++ String.ofList ds := by
        rw [← String.ofList_cons, ← hdl, String.ofList_toList]
      unfold offset
      rw [hb, hds, hsnoc, String.utf8ByteSize_append, String.utf8ByteSize_append, String.utf8ByteSize_append]
      omega
  · intro hle
    rw [hsnoc, String.utf8ByteSize_append] at hle
    omega

/-- A marker that stands behind `pre` has its first place there, as seen from the end of `pre`. -/
theorem firstFrom_of_after? {pre cs rest : List Char} (hline : line.toList = pre ++ cs)
    (ha : Text.after? m.toList cs = some rest) :
    FirstFrom line m (String.ofList pre).utf8ByteSize ⟨String.ofList pre, String.ofList rest⟩ := by
  refine ⟨?_, le_rfl, fun k _ hk => hk⟩
  apply String.toList_injective
  simp only [String.toList_append, String.toList_ofList]
  rw [hline, Text.after?_eq_some_iff.1 ha, List.append_assoc]

/-- The first character of a place, and as many more as the search passes over, are the marker. -/
theorem cons_take_of_after? {ms cs rest : List Char} {c : Char} (hm : ms ≠ [])
    (ha : Text.after? ms (c :: cs) = some rest) : c :: cs.take (ms.length - 1) = ms := by
  have hcs : c :: cs = ms ++ rest := Text.after?_eq_some_iff.1 ha
  obtain ⟨x, xs, rfl⟩ := List.exists_cons_of_ne_nil hm
  obtain ⟨rfl, rfl⟩ := List.cons.inj hcs
  simp

/-- **What a search finds** when `pre` lies behind it and it passes over `skip` characters more. -/
theorem leftmostFree_seek {last : Char} (hlast : m.toList.getLast? = some last) (pre cs : List Char) (skip : Nat)
    (hline : line.toList = pre ++ cs) :
    LeftmostFree m (Tried line m (String.ofList (pre ++ cs.take skip)).utf8ByteSize)
      ((Marker.seek m.toList last skip pre.getLast? cs).map fun q =>
        ⟨String.ofList (pre ++ q.1), String.ofList q.2⟩) := by
  have hm : m.utf8ByteSize ≠ 0 := by
    intro h0
    rw [String.utf8ByteSize_eq_zero_iff.1 h0] at hlast
    cases hlast
  induction cs generalizing pre skip with
  | nil =>
    refine ⟨fun x hx => (by cases hx), fun _ k hk _ => ?_⟩
    -- there is no room for the marker behind the end of the line
    have hle := hk.le
    have hend := hk.on.end_le
    rw [List.take_nil, ← hline, String.ofList_toList] at hle
    omega
  | cons c cs ih =>
    have hline' : line.toList = (pre ++ [c]) ++ cs := by rw [hline, List.append_assoc, List.singleton_append]
    have hlast' : (pre ++ [c]).getLast? = some c := List.getLast?_concat
    -- a character that is passed over goes in front of what the rest gives
    have pass : ∀ n, LeftmostFree m (Tried line m (String.ofList ((pre ++ [c]) ++ cs.take n)).utf8ByteSize)
        (((Marker.seek m.toList last n (some c) cs).map fun q => (c :: q.1, q.2)).map fun q =>
          ⟨String.ofList (pre ++ q.1), String.ofList q.2⟩) := by
      intro n
      have hrest := ih (pre ++ [c]) n hline'
      rw [hlast'] at hrest
      rw [Option.map_map]
      simpa [Function.comp_def, List.append_assoc] using hrest
    cases skip with
    | succ n =>
      rw [Marker.seek, List.take_succ_cons]
      have hn := pass n
      rwa [List.append_assoc, List.singleton_append] at hn
    | zero =>
      rw [Marker.seek, List.take_zero, List.append_nil]
      have hzero := pass 0
      rw [List.take_zero, List.append_nil] at hzero
      cases ha : Text.after? m.toList (c :: cs) with
      | none =>
        dsimp only
        refine hzero.congr fun k _ => ?_
        exact (Tried.congr fun x hx => hx.passes hline ha).symm
      | some rest =>
        have hfirst := firstFrom_of_after? hline ha
        dsimp only
        by_cases hfree : Marker.isFree last pre.getLast? rest = true
        · rw [if_pos hfree, Option.map_some, List.append_nil]
          refine ⟨?_, fun hnone => by cases hnone⟩
          rintro x ⟨⟩
          exact ⟨.first hfirst, (free_iff hlast).2 hfree, fun k hk _ => hk.le⟩
        · rw [if_neg hfree]
          -- the search goes on behind the place, which is not free, and loses none that it would try
          have hskip : (pre ++ [c]) ++ cs.take (m.toList.length - 1) = pre ++ m.toList := by
            have hne : m.toList ≠ [] := fun hnil => by rw [hnil] at hlast; cases hlast
            rw [List.append_assoc, List.singleton_append, cons_take_of_after? hne ha]
          have hbehind := pass (m.toList.length - 1)
          rw [hskip, String.ofList_append, String.ofList_toList, String.utf8ByteSize_append] at hbehind
          refine hbehind.congr fun k hk => ?_
          rw [Tried.iff_of_firstFrom hfirst]
          constructor
          · exact .inr
          · rintro (rfl | ht)
            · exact absurd ((free_iff hlast).1 hk) hfree
            · exact ht

/-- **The search finds the leftmost free place of those it tries.** -/
theorem leftmostFree_tried (hm : m ≠ "") (line : String) : LeftmostFree m (Tried line m 0) (findMarker line m) := by
  unfold findMarker
  cases hlast : m.toList.getLast? with
  | none =>
    rw [List.getLast?_eq_none_iff, String.toList_eq_nil_iff] at hlast
    exact absurd hlast hm
  | some last =>
    have hseek := leftmostFree_seek hlast [] line.toList 0 rfl
    simpa using hseek

/-- A place is hidden when a place that is tried overlaps it from the left. -/
def Hidden (line m : String) (h : Hit) : Prop :=
  ∃ k, Tried line m 0 k ∧ k.offset < h.offset ∧ h.offset < k.offset + m.utf8ByteSize

theorem Tried.not_hidden (hh : Tried line m 0 h) : ¬ Hidden line m h := by
  rintro ⟨k, hk, hlt, hover⟩
  have := hk.disjoint hh hlt
  omega

/-- **The first free place of a line is found exactly when it is not hidden.** -/
theorem leftmostFree_on_iff (hm : m ≠ "") (line : String) :
    LeftmostFree m (·.On line m) (findMarker line m) ↔
      ∀ h, LeftmostFree m (·.On line m) (some h) → ¬ Hidden line m h := by
  have htried := leftmostFree_tried hm line
  constructor
  · intro hfound h hh
    obtain ⟨hon, hfree, hleast⟩ := hh.found h rfl
    cases hf : findMarker line m with
    | none => exact absurd hfree (hfound.missed hf h hon)
    | some x =>
      obtain ⟨hxon, hxfree, hxleast⟩ := hfound.found x hf
      obtain rfl := hxon.eq_of_offset hon (le_antisymm (hxleast h hon hfree) (hleast x hxon hxfree))
      exact (htried.found x hf).1.not_hidden
  · intro hhidden
    -- a free place is not left of the first one, which is tried
    have hfirst : ∀ k : Hit, k.On line m → k.Free m → ∃ x, Tried line m 0 x ∧ x.Free m ∧ x.offset ≤ k.offset := by
      intro k hk hkfree
      obtain ⟨x, hx⟩ := exists_leftmostFree hk hkfree
      obtain ⟨hon, hfree, hleast⟩ := hx.found x rfl
      have ht := (tried_or_hidden hm hon (Nat.zero_le _)).resolve_right (hhidden x hx)
      exact ⟨x, ht, hfree, hleast k hk hkfree⟩
    refine ⟨fun h hh => ?_, fun hnone k hk hkfree => ?_⟩
    · obtain ⟨ht, hfree, hleast⟩ := htried.found h hh
      refine ⟨ht.on, hfree, fun k hk hkfree => ?_⟩
      obtain ⟨x, hx, hxfree, hxk⟩ := hfirst k hk hkfree
      exact le_trans (hleast x hx hxfree) hxk
    · obtain ⟨x, hx, hxfree, -⟩ := hfirst k hk hkfree
      exact htried.missed hnone x hx hxfree

end Hit

end DocComments
