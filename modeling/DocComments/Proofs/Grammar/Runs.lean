import DocComments.Proofs.Grammar.Overlap

/-!
# Markers of one character

Markers such as `///` and `////` are told apart by their length. The search for one of them goes through a longer run in
steps of the marker's length and looks one character to the left and to the right, and this is enough: what it finds is
a whole run.

* `hides_replicate`: a run of one character hides no free place.
* `free_iff_isRun`: a free place of such a marker is a **maximal run**, with white space or nothing behind it.
* `findMarker_run`: the search finds the first of these runs.
-/

namespace DocComments

/-- The marker that repeats a character. -/
def Marker.run (c : Char) (n : Nat) : String :=
  String.ofList (List.replicate n c)

namespace Hit

/-- A maximal run of `n` characters `c` on a line: one more `c` stands neither before nor behind it. -/
structure IsRun (line : String) (c : Char) (n : Nat) (h : Hit) : Prop where
  on : h.On line (Marker.run c n)
  before : h.before.toList.getLast? ≠ some c
  after : h.after.toList.head? ≠ some c

/-- White space or the end of the line comes behind a place. -/
def EndsWord (h : Hit) : Prop :=
  ∀ x ∈ h.after.toList.head?, Text.isSpace x = true

variable {line : String} {c : Char} {n : Nat} {h k : Hit}

theorem getLast?_run (hn : 0 < n) : (Marker.run c n).toList.getLast? = some c := by
  unfold Marker.run
  rw [String.toList_ofList, List.getLast?_replicate, if_neg (by omega)]

theorem run_ne_empty (hn : 0 < n) : Marker.run c n ≠ "" := by
  intro hempty
  have hlast := getLast?_run (c := c) hn
  rw [hempty] at hlast
  cases hlast

/-- A marker of one character hides no free place: the character before a second place is the last one too. -/
theorem hides_replicate (c : Char) (n : Nat) : Marker.hides (List.replicate n c) = false := by
  rw [Bool.eq_false_iff]
  intro hhides
  obtain ⟨d, r, hdr, hd, -, hlast⟩ := Marker.hides_iff.1 hhides
  have hall : ∀ x ∈ d, x = c := by
    intro x hx
    have hmem : x ∈ List.replicate n c := by
      rw [hdr]
      exact List.mem_append_left r hx
    exact (List.mem_replicate.1 hmem).2
  have hrep : d = List.replicate d.length c := List.eq_replicate_of_mem hall
  have hpos := List.length_pos_iff.2 hd
  have hn : n ≠ 0 := by
    have hlen := congrArg List.length hdr
    rw [List.length_replicate, List.length_append] at hlen
    omega
  apply hlast
  rw [hrep, List.getLast?_replicate, List.getLast?_replicate, if_neg (by omega), if_neg hn]

/-- **A free place of a marker of one character is a maximal run** with white space or nothing behind it. -/
theorem free_iff_isRun (hc : Text.isSpace c = false) (hn : 0 < n) :
    h.On line (Marker.run c n) ∧ h.Free (Marker.run c n) ↔ IsRun line c n h ∧ h.EndsWord := by
  constructor
  · rintro ⟨hon, hafter, hbefore⟩
    rw [getLast?_run hn] at hbefore
    refine ⟨⟨hon, hbefore, fun hhead => ?_⟩, hafter⟩
    rw [hafter c hhead] at hc
    cases hc
  · rintro ⟨⟨hon, hbefore, -⟩, hafter⟩
    refine ⟨hon, hafter, ?_⟩
    rw [getLast?_run hn]
    exact hbefore

/-- The length of a run, read off from the text that starts with it. -/
theorem takeWhile_run {a : List Char} (ha : a.head? ≠ some c) :
    (List.replicate n c ++ a).takeWhile (· == c) = List.replicate n c := by
  refine (Text.takeWhile_append_eq (fun x hx => ?_) fun x hx => ?_).1
  · simpa using List.eq_of_mem_replicate hx
  · rw [beq_eq_false_iff_ne]
    rintro rfl
    exact ha hx

/-- Two maximal runs that start at one place have one length. -/
theorem IsRun.length_eq {n' : Nat} (hh : IsRun line c n h) (hk : IsRun line c n' k) (he : h.offset = k.offset) :
    n = n' := by
  obtain ⟨-, hrest⟩ := Text.append_inj_of_size (hh.on.cut hk.on) he
  have hlist := congrArg String.toList hrest
  unfold Marker.run at hlist
  simp only [String.toList_append, String.toList_ofList] at hlist
  have hlength := congrArg (fun l => (l.takeWhile (· == c)).length) hlist
  simpa [takeWhile_run hh.after, takeWhile_run hk.after] using hlength

theorem leftmostFree_run (hn : 0 < n) (line : String) :
    LeftmostFree (Marker.run c n) (·.On line (Marker.run c n)) (findMarker line (Marker.run c n)) := by
  apply leftmostFree_on (run_ne_empty hn)
  unfold Marker.run
  rw [String.toList_ofList]
  exact hides_replicate c n

/-- What the search for a marker of one character finds is the first of its maximal runs that end a word. -/
theorem isRun_of_findMarker (hc : Text.isSpace c = false) (hn : 0 < n)
    (hf : findMarker line (Marker.run c n) = some h) :
    IsRun line c n h ∧ h.EndsWord ∧ ∀ k, IsRun line c n k → k.EndsWord → h.offset ≤ k.offset := by
  obtain ⟨hon, hfree, hleast⟩ := (leftmostFree_run hn line).found h hf
  obtain ⟨hrun, hends⟩ := (free_iff_isRun hc hn).1 ⟨hon, hfree⟩
  refine ⟨hrun, hends, fun k hk hkends => ?_⟩
  obtain ⟨hkon, hkfree⟩ := (free_iff_isRun hc hn).2 ⟨hk, hkends⟩
  exact hleast k hkon hkfree

theorem not_endsWord_of_findMarker (hc : Text.isSpace c = false) (hn : 0 < n)
    (hf : findMarker line (Marker.run c n) = none) (hk : IsRun line c n k) : ¬ k.EndsWord := by
  intro hends
  obtain ⟨hon, hfree⟩ := (free_iff_isRun hc hn).2 ⟨hk, hends⟩
  exact (leftmostFree_run hn line).missed hf k hon hfree

end Hit

/-- **A marker of one character is found by the length of its runs.** The place that is found is the first maximal run
that has the marker's length and white space or the end of the line behind it, and nothing is found when there is no
such run. So two markers of different lengths are never found at one place. -/
theorem findMarker_run {c : Char} (hc : Text.isSpace c = false) {n : Nat} (hn : 0 < n) (line : String) :
    (∀ h, findMarker line (Marker.run c n) = some h ↔
      Hit.IsRun line c n h ∧ h.EndsWord ∧ ∀ k, Hit.IsRun line c n k → k.EndsWord → h.offset ≤ k.offset) ∧
    (findMarker line (Marker.run c n) = none ↔ ∀ k, Hit.IsRun line c n k → ¬ k.EndsWord) ∧
    ∀ n', 0 < n' → n' ≠ n → ∀ h k, findMarker line (Marker.run c n) = some h →
      findMarker line (Marker.run c n') = some k → h.offset ≠ k.offset := by
  refine ⟨fun h => ⟨Hit.isRun_of_findMarker hc hn, ?_⟩, ⟨?_, ?_⟩, ?_⟩
  · rintro ⟨hrun, hends, hleast⟩
    cases hf : findMarker line (Marker.run c n) with
    | none => exact absurd hends (Hit.not_endsWord_of_findMarker hc hn hf hrun)
    | some x =>
      obtain ⟨hxrun, hxends, hxleast⟩ := Hit.isRun_of_findMarker hc hn hf
      have hoffset : x.offset = h.offset := le_antisymm (hxleast h hrun hends) (hleast x hxrun hxends)
      rw [hxrun.on.eq_of_offset hrun.on hoffset]
  · intro hf k hk
    exact Hit.not_endsWord_of_findMarker hc hn hf hk
  · intro hall
    cases hf : findMarker line (Marker.run c n) with
    | none => rfl
    | some x =>
      obtain ⟨hxrun, hxends, -⟩ := Hit.isRun_of_findMarker hc hn hf
      exact absurd hxends (hall x hxrun)
  · intro n' hn' hne h k hh hk heq
    obtain ⟨hrun, -, -⟩ := Hit.isRun_of_findMarker hc hn hh
    obtain ⟨hkrun, -, -⟩ := Hit.isRun_of_findMarker hc hn' hk
    exact hne (hrun.length_eq hkrun heq).symm

/-- A longer run, a run inside a word, and at last the run that counts. -/
theorem findMarker_run_slashes :
    ∃ h k, findMarker "//// a ///b ///" (Marker.run '/' 3) = some h ∧
      findMarker "//// a ///b ///" (Marker.run '/' 4) = some k ∧ h.offset = 12 ∧ k.offset = 0 ∧
      Hit.IsRun "//// a ///b ///" '/' 3 h ∧ h.EndsWord := by
  have hc : Text.isSpace '/' = false := by decide
  have hf : findMarker "//// a ///b ///" (Marker.run '/' 3) = some ⟨"//// a ///b ", ""⟩ := by decide +kernel
  have hk : findMarker "//// a ///b ///" (Marker.run '/' 4) = some ⟨"", " a ///b ///"⟩ := by decide +kernel
  obtain ⟨hrun, hends, -⟩ := ((findMarker_run hc (n := 3) (by decide) "//// a ///b ///").1 _).1 hf
  exact ⟨_, _, hf, hk, by decide +kernel, by decide +kernel, hrun, hends⟩

end DocComments
