import Mathlib.Data.List.Forall2
import DocComments.Diagnostic.Snippet

/-!
# What a snippet shows

The rows of a snippet are written from top to bottom, and what some of them should have been is held back meanwhile. It
is let go in three places: at the last row of the annotation, at the first row with nothing to set against it, and at
the end. Since the rows with an expectation stand next to each other, this comes to one group below the last of them.

* `Snippet.Marks`: the rows that should have been something else.
* `Snippet.body_of_marked`: what is held back is written as one group.
* `Snippet.Shows`: which rows are shown, under which sign, in which order.
* `Snippet.render_shows`: **a snippet shows each row of its window once, and each expectation once.**
-/

namespace DocComments.Snippet

variable (s : Snippet)

/-! ## The window -/

/-- The index of the first row that is shown. -/
def start : Nat :=
  s.first - s.context

/-- The index behind the last row that is shown. -/
def stop : Nat :=
  min (s.last + s.context + 1) s.rows.length

theorem getElem?_window (k : Nat) :
    s.window[k]? = if s.start + k < s.stop then (s.rows[s.start + k]?).map (s.start + k, ·) else none := by
  have hstart : s.first - s.context = s.start := rfl
  unfold window
  rw [List.getElem?_drop, List.getElem?_take, List.getElem?_mapIdx, hstart]
  by_cases hrow : s.start + k < s.rows.length
  · have hiff : s.start + k < s.last + s.context + 1 ↔ s.start + k < s.stop := by
      unfold stop
      omega
    simp only [hiff]
  · have hout : s.rows[s.start + k]? = none := List.getElem?_eq_none (by omega)
    simp [hout]

/-- The window has the rows from `start` to `stop`, in order. -/
theorem map_fst_window : s.window.map Prod.fst = List.range' s.start (s.stop - s.start) := by
  apply List.ext_getElem?
  intro k
  rw [List.getElem?_map, getElem?_window]
  by_cases hk : s.start + k < s.stop
  · have hrow : s.start + k < s.rows.length := by
      unfold stop at hk
      omega
    rw [if_pos hk, List.getElem?_eq_getElem hrow, List.getElem?_range' (by omega)]
    simp
  · rw [if_neg hk, List.getElem?_eq_none (by simp; omega)]
    rfl

theorem mem_window_iff {i : Nat} {r : Row} :
    (i, r) ∈ s.window ↔ s.start ≤ i ∧ i < s.stop ∧ s.rows[i]? = some r := by
  rw [List.mem_iff_getElem?]
  constructor
  · rintro ⟨k, hk⟩
    rw [getElem?_window, Option.ite_none_right_eq_some, Option.map_eq_some_iff] at hk
    obtain ⟨hstop, r', hr', heq⟩ := hk
    obtain ⟨rfl, rfl⟩ := Prod.mk.inj heq
    exact ⟨by omega, hstop, hr'⟩
  · rintro ⟨hstart, hstop, hr⟩
    obtain ⟨k, rfl⟩ := Nat.exists_eq_add_of_le hstart
    exact ⟨k, by rw [getElem?_window, if_pos hstop, hr]; rfl⟩

theorem pairwise_window : s.window.Pairwise fun a b => a.1 < b.1 := by
  rw [← List.pairwise_map (f := Prod.fst) (R := (· < ·)), map_fst_window]
  exact List.pairwise_lt_range'

/-- **The window holds all rows of the annotation that there are.** -/
theorem mem_window_of_range {i : Nat} {r : Row} (hfirst : s.first ≤ i) (hlast : i ≤ s.last)
    (hr : s.rows[i]? = some r) : (i, r) ∈ s.window := by
  have hrow : i < s.rows.length := (List.getElem?_eq_some_iff.1 hr).1
  rw [mem_window_iff]
  unfold start stop
  exact ⟨by omega, by omega, hr⟩

/-! ## Rows that should have been something else -/

/-- The row at an index stands in the annotation, and there is something that it should have been. -/
def Marks (i : Nat) : Prop :=
  s.first ≤ i ∧ i ≤ s.last ∧ i - s.first < s.expected.length

instance (i : Nat) : Decidable (s.Marks i) :=
  inferInstanceAs (Decidable (_ ∧ _ ∧ _))

variable {s} {i : Nat} {q : Nat × Row} {v w above marked below : List (Nat × Row)}

theorem wanted?_of_not_marks (h : ¬ s.Marks i) : s.wanted? i = none := by
  unfold wanted?
  by_cases hrange : s.first ≤ i ∧ i ≤ s.last
  · rw [if_pos hrange, List.getElem?_eq_none_iff]
    exact Nat.le_of_not_lt fun hlt => h ⟨hrange.1, hrange.2, hlt⟩
  · rw [if_neg hrange]

theorem Marks.exists_wanted? (h : s.Marks i) : ∃ t, s.expected[i - s.first]? = some t ∧ s.wanted? i = some t := by
  obtain ⟨hfirst, hlast, hlt⟩ := h
  refine ⟨_, List.getElem?_eq_getElem hlt, ?_⟩
  rw [wanted?, if_pos ⟨hfirst, hlast⟩, List.getElem?_eq_getElem hlt]

/-- Rows in order fall into those below an index and the others. -/
theorem exists_cut (hinc : w.Pairwise fun a b => a.1 < b.1) (k : Nat) :
    ∃ u v, w = u ++ v ∧ (∀ q ∈ u, q.1 < k) ∧ ∀ q ∈ v, k ≤ q.1 := by
  induction w with
  | nil => exact ⟨[], [], rfl, List.forall_mem_nil _, List.forall_mem_nil _⟩
  | cons q w ih =>
    obtain ⟨hq, hw⟩ := List.pairwise_cons.1 hinc
    by_cases hk : q.1 < k
    · obtain ⟨u, v, rfl, hu, hv⟩ := ih hw
      exact ⟨q :: u, v, rfl, List.forall_mem_cons.2 ⟨hk, hu⟩, hv⟩
    · refine ⟨[], q :: w, rfl, List.forall_mem_nil _, List.forall_mem_cons.2 ⟨by omega, ?_⟩⟩
      intro x hx
      have := hq x hx
      omega

/-- The window in three parts, of which the middle one has the rows that should have been something else. -/
structure Parted (s : Snippet) (above marked below : List (Nat × Row)) : Prop where
  window : s.window = above ++ (marked ++ below)
  above : ∀ q ∈ above, ¬ s.Marks q.1
  marked : ∀ q ∈ marked, s.Marks q.1
  below : ∀ q ∈ below, ¬ s.Marks q.1

/-- **The rows that should have been something else stand together.** -/
theorem exists_parted (s : Snippet) : ∃ above marked below, s.Parted above marked below := by
  have hinc := s.pairwise_window
  -- marked indices start with the annotation and stop where it ends or the expectations run out
  obtain ⟨above, rest, hw, habove, hrest⟩ := exists_cut hinc s.first
  rw [hw] at hinc
  obtain ⟨marked, below, rfl, hmarked, hbelow⟩ := exists_cut (List.pairwise_append.1 hinc).2.1
    (s.first + min (s.last + 1 - s.first) s.expected.length)
  refine ⟨above, marked, below, hw, ?_, ?_, ?_⟩
  · rintro q hq ⟨hfirst, -, -⟩
    have := habove q hq
    omega
  · intro q hq
    have hfirst := hrest q (List.mem_append_left _ hq)
    have hend := hmarked q hq
    exact ⟨hfirst, by omega, by omega⟩
  · rintro q hq ⟨hfirst, hlast, hlt⟩
    have := hbelow q hq
    omega

/-! ## What is held back -/

section Body

variable (s) (p : Paint) (width : Nat) (pending : List String)

/-- What some rows should have been, as it is written. -/
def expectedRows (w : List (Nat × Row)) : List String :=
  w.filterMap fun q => (s.wanted? q.1).map (s.expectedRow p width q.2)

variable {s}

theorem expectedRows_cons {t : String} (h : s.wanted? q.1 = some t) :
    s.expectedRows p width (q :: w) = s.expectedRow p width q.2 t :: s.expectedRows p width w := by
  simp [expectedRows, h]

theorem body_cons_of_not_marks (h : ¬ s.Marks q.1) :
    s.body p width pending (q :: w) = pending ++ plainRow width q.2 :: s.body p width [] w := by
  rw [body, wanted?_of_not_marks h]

theorem body_cons_of_wanted {t : String} (h : s.wanted? q.1 = some t) :
    s.body p width pending (q :: w) = actualRow p width q.2 ::
      if q.1 = s.last then pending ++ [s.expectedRow p width q.2 t] ++ s.body p width [] w
      else s.body p width (pending ++ [s.expectedRow p width q.2 t]) w := by
  rw [body, h]

theorem body_append (h : ∀ q ∈ w, ¬ s.Marks q.1) :
    s.body p width [] (w ++ v) = w.map (plainRow width ·.2) ++ s.body p width [] v := by
  induction w with
  | nil => rfl
  | cons q w ih =>
    obtain ⟨hq, hw⟩ := List.forall_mem_cons.1 h
    rw [List.cons_append, body_cons_of_not_marks p width [] hq, ih hw]
    rfl

/-- What is held back is let go at the first row with nothing to set against it, or at the end. -/
theorem body_of_not_marks (h : ∀ q ∈ w, ¬ s.Marks q.1) :
    s.body p width pending w = pending ++ w.map (plainRow width ·.2) := by
  cases w with
  | nil => rw [body, List.map_nil, List.append_nil]
  | cons q w =>
    obtain ⟨hq, hw⟩ := List.forall_mem_cons.1 h
    have hrest := body_append p width (v := []) hw
    rw [List.append_nil, body, List.append_nil] at hrest
    rw [body_cons_of_not_marks p width pending hq, hrest, List.map_cons]

/-- **What is held back is written as one group**, below the last row that it is set against. -/
theorem body_of_marked (hinc : marked.Pairwise fun a b => a.1 < b.1) (hmarked : ∀ q ∈ marked, s.Marks q.1)
    (hbelow : ∀ q ∈ below, ¬ s.Marks q.1) :
    s.body p width pending (marked ++ below) =
      marked.map (actualRow p width ·.2) ++ (pending ++ s.expectedRows p width marked) ++
        below.map (plainRow width ·.2) := by
  -- each marked row adds to what is held back, so the induction is over any `pending`
  induction marked generalizing pending with
  | nil =>
    rw [List.nil_append, body_of_not_marks p width pending hbelow]
    simp [expectedRows]
  | cons q marked ih =>
    obtain ⟨hq, hrest⟩ := List.forall_mem_cons.1 hmarked
    obtain ⟨hlt, hinc⟩ := List.pairwise_cons.1 hinc
    obtain ⟨t, -, ht⟩ := hq.exists_wanted?
    rw [List.cons_append, body_cons_of_wanted p width pending ht, expectedRows_cons p width ht]
    by_cases hlast : q.1 = s.last
    · -- here the group is let go early, but the last row of the annotation is the last one that is marked
      have hnil : marked = [] := by
        apply List.eq_nil_iff_forall_not_mem.2
        intro x hx
        have hxlast := (hrest x hx).2.1
        have hxlt := hlt x hx
        omega
      subst hnil
      rw [if_pos hlast, List.nil_append, body_of_not_marks p width [] hbelow]
      simp [expectedRows]
    · rw [if_neg hlast, ih (pending ++ [s.expectedRow p width q.2 t]) hinc hrest]
      simp

end Body

/-! ## Rows as they are written -/

variable (s)

/-- A number, aligned to the right. -/
def cell (n : Nat) : String :=
  String.ofList ((toString n).toList.leftpad s.width ' ')

/-- A row as it is written, with a sign in front. -/
def written (sign : Char) (n : Nat) (text : String) : String :=
  String.ofList [' ', ' ', sign, ' '] ++ s.cell n ++ " | " ++ text

/-- The sign in front of a row. -/
def sign? (line : String) : Option Char :=
  line.toList[2]?

theorem sign?_written (c : Char) (n : Nat) (t : String) : sign? (s.written c n t) = some c := by
  simp [sign?, written]

theorem numberOf_eq (r : Row) : numberOf s.width r = s.cell r.number := by
  unfold numberOf cell List.leftpad
  dsimp only
  rw [String.ofList_append, String.ofList_toList, String.length_toList]

theorem plainRow_eq (r : Row) : plainRow s.width r = s.written ' ' r.number r.text := by
  rw [plainRow, numberOf_eq]
  rfl

theorem actualRow_eq (r : Row) : actualRow .plain s.width r = s.written '-' r.number r.text := by
  unfold actualRow
  rw [numberOf_eq]
  rfl

theorem expectedRow_eq (r : Row) (t : String) :
    s.expectedRow .plain s.width r t = s.written '+' r.number (s.marked t) := by
  unfold expectedRow
  rw [numberOf_eq]
  rfl

theorem length_cell {r : Row} (h : r ∈ s.rows) : (s.cell r.number).length = s.width := by
  have hle : (toString r.number).length ≤ s.width :=
    List.le_max?_getD_of_mem (List.mem_map.2 ⟨r, h, rfl⟩)
  rw [cell, String.length_ofList, List.length_leftpad, String.length_toList]
  omega

theorem getElem?_spanRows (span : Span) (f : String → String) (i : Nat) :
    (spanRows span f)[i]? = (span.contents[i]?).map fun l => ⟨(span.lineNumber? i).getD i + 1, f l⟩ := by
  rw [spanRows, List.getElem?_mapIdx]

theorem length_spanRows (span : Span) (f : String → String) : (spanRows span f).length = span.contents.length :=
  List.length_mapIdx

/-! ## What is shown -/

/-- A line says what a row should have been, and has its number. -/
def Corrects (q : Nat × Row) (line : String) : Prop :=
  ∃ t, s.expected[q.1 - s.first]? = some t ∧ line = s.written '+' q.2.number (s.marker ++ " " ++ t)

/-- **What a snippet shows**, between its head and the empty row at its end. -/
structure Shows (out : List String) : Prop where
  /-- Without the expectations, the rows of the window are left, in order. A minus marks those that should have been
  something else. -/
  rows : out.filter (sign? · ≠ some '+') =
    s.window.map fun q => s.written (if s.Marks q.1 then '-' else ' ') q.2.number q.2.text
  /-- For each row with a minus there is its expectation, in order. -/
  expectations : List.Forall₂ s.Corrects (s.window.filter (s.Marks ·.1)) (out.filter (sign? · = some '+'))
  /-- The expectations stand together, right below the last row with a minus. -/
  group : ∃ above below, out = above ++ out.filter (sign? · = some '+') ++ below ∧
    (out.filter (sign? · = some '+') ≠ [] → ∃ line, above.getLast? = some line ∧ sign? line = some '-') ∧
    ∀ line ∈ below, sign? line ≠ some '-'

/-- Some rows as they are written, all with one sign. -/
def signedRows (sign : Char) (w : List (Nat × Row)) : List String :=
  w.map fun q => s.written sign q.2.number q.2.text

variable {s}

theorem sign?_of_mem_signedRows {c : Char} {line : String} (h : line ∈ s.signedRows c w) : sign? line = some c := by
  obtain ⟨q, -, rfl⟩ := List.mem_map.1 h
  exact s.sign?_written c _ _

theorem sign?_of_mem_expectedRows {line : String} (h : line ∈ s.expectedRows .plain s.width w) :
    sign? line = some '+' := by
  obtain ⟨q, -, hline⟩ := List.mem_filterMap.1 h
  obtain ⟨t, -, rfl⟩ := Option.map_eq_some_iff.1 hline
  rw [expectedRow_eq, sign?_written]

theorem forall₂_expectedRows (h : ∀ q ∈ marked, s.Marks q.1) :
    List.Forall₂ s.Corrects marked (s.expectedRows .plain s.width marked) := by
  induction marked with
  | nil => exact .nil
  | cons q marked ih =>
    obtain ⟨hq, hrest⟩ := List.forall_mem_cons.1 h
    obtain ⟨t, ht, hwanted⟩ := hq.exists_wanted?
    rw [expectedRows_cons _ _ hwanted, expectedRow_eq]
    exact .cons ⟨t, ht, rfl⟩ (ih hrest)

/-- The three parts of the window as they are written, with the expectations below the second one. -/
theorem Parted.body_eq (h : s.Parted above marked below) :
    s.body .plain s.width [] s.window =
      s.signedRows ' ' above ++ s.signedRows '-' marked ++ s.expectedRows .plain s.width marked ++
        s.signedRows ' ' below := by
  have hinc : marked.Pairwise fun a b => a.1 < b.1 := by
    have hall := s.pairwise_window
    rw [h.window] at hall
    exact (List.pairwise_append.1 (List.pairwise_append.1 hall).2.1).1
  rw [h.window, body_append _ _ h.above, body_of_marked _ _ _ hinc h.marked h.below]
  simp only [plainRow_eq, actualRow_eq, signedRows, List.nil_append, List.append_assoc]

theorem Parted.filter_marks (h : s.Parted above marked below) : s.window.filter (s.Marks ·.1) = marked := by
  have hnone : ∀ w : List (Nat × Row), (∀ q ∈ w, ¬ s.Marks q.1) → w.filter (s.Marks ·.1) = [] := by
    intro w hw
    rw [List.filter_eq_nil_iff]
    simpa using hw
  have hall : marked.filter (s.Marks ·.1) = marked := by
    rw [List.filter_eq_self]
    simpa using h.marked
  rw [h.window, List.filter_append, List.filter_append, hnone above h.above, hall, hnone below h.below]
  simp

/-- The rows with certain signs, part by part. -/
theorem Parted.filter_body (h : s.Parted above marked below) (f : Option Char → Bool) :
    (s.body .plain s.width [] s.window).filter (fun line => f (sign? line)) =
      (if f (some ' ') then s.signedRows ' ' above else []) ++ (if f (some '-') then s.signedRows '-' marked else []) ++
        (if f (some '+') then s.expectedRows .plain s.width marked else []) ++
        (if f (some ' ') then s.signedRows ' ' below else []) := by
  have hsign : ∀ (c : Char) (ls : List String), (∀ line ∈ ls, sign? line = some c) →
      ls.filter (fun line => f (sign? line)) = if f (some c) then ls else [] := by
    intro c ls hls
    split
    · next hc =>
      rw [List.filter_eq_self]
      intro line hline
      rw [hls line hline, hc]
    · next hc =>
      rw [List.filter_eq_nil_iff]
      intro line hline
      rwa [hls line hline]
  rw [h.body_eq, List.filter_append, List.filter_append, List.filter_append,
    hsign ' ' _ fun _ => sign?_of_mem_signedRows, hsign '-' _ fun _ => sign?_of_mem_signedRows,
    hsign '+' _ fun _ => sign?_of_mem_expectedRows, hsign ' ' _ fun _ => sign?_of_mem_signedRows]

theorem Parted.filter_expected (h : s.Parted above marked below) :
    (s.body .plain s.width [] s.window).filter (sign? · = some '+') = s.expectedRows .plain s.width marked := by
  have hparts := h.filter_body (· = some '+')
  simpa using hparts

theorem Parted.filter_others (h : s.Parted above marked below) :
    (s.body .plain s.width [] s.window).filter (sign? · ≠ some '+') =
      s.window.map fun q => s.written (if s.Marks q.1 then '-' else ' ') q.2.number q.2.text := by
  have hunmarked : ∀ w : List (Nat × Row), (∀ q ∈ w, ¬ s.Marks q.1) →
      (w.map fun q => s.written (if s.Marks q.1 then '-' else ' ') q.2.number q.2.text) = s.signedRows ' ' w := by
    intro w hw
    apply List.map_congr_left
    intro q hq
    rw [if_neg (hw q hq)]
  have hmarked : (marked.map fun q => s.written (if s.Marks q.1 then '-' else ' ') q.2.number q.2.text) =
      s.signedRows '-' marked := by
    apply List.map_congr_left
    intro q hq
    rw [if_pos (h.marked q hq)]
  have hparts := h.filter_body (· ≠ some '+')
  rw [h.window, List.map_append, List.map_append, hunmarked above h.above, hmarked, hunmarked below h.below,
    ← h.window]
  simpa using hparts

theorem shows_body (s : Snippet) : s.Shows (s.body .plain s.width [] s.window) := by
  obtain ⟨above, marked, below, h⟩ := exists_parted s
  refine ⟨h.filter_others, ?_, ?_⟩
  · rw [h.filter_expected, h.filter_marks]
    exact forall₂_expectedRows h.marked
  · rw [h.filter_expected]
    refine ⟨_, _, h.body_eq, ?_, ?_⟩
    · intro hsome
      -- an expectation is there because a row is marked, and the last of these rows stands right above
      have hne : marked ≠ [] := by
        rintro rfl
        exact hsome rfl
      have hlast := List.getLast?_eq_some_getLast (l := s.signedRows '-' marked) (by simpa [signedRows] using hne)
      refine ⟨_, by rw [List.getLast?_append, hlast]; rfl, sign?_of_mem_signedRows (List.getLast_mem _)⟩
    · intro line hline
      rw [sign?_of_mem_signedRows hline]
      decide

/-- **A snippet shows each row of its window once, and each expectation once.** The rows are the lines of the comment
and then those of the code, each with the number of its line. Numbers are aligned, the window has the rows from `start`
to `stop`, and all rows of the annotation that there are stand in it. -/
theorem render_shows (s : Snippet) :
    (∃ out, s.Shows out ∧ s.render .plain =
      Text.unlines (["", "    " ++ s.path, "    + expected - actual", ""] ++ out ++ [""])) ∧
    s.rows.length = s.comment.contents.length + s.code.contents.length ∧
    (∀ (i : Nat) (l : String), s.comment.contents[i]? = some l →
      s.rows[i]? = some ⟨(s.comment.lineNumber? i).getD i + 1, s.marker ++ " " ++ l⟩) ∧
    (∀ (i : Nat) (l : String), s.code.contents[i]? = some l →
      s.rows[s.comment.contents.length + i]? = some ⟨(s.code.lineNumber? i).getD i + 1, l⟩) ∧
    (∀ r ∈ s.rows, (s.cell r.number).length = s.width) ∧
    s.window.map Prod.fst = List.range' s.start (s.stop - s.start) ∧
    (∀ q ∈ s.window, s.rows[q.1]? = some q.2) ∧
    ∀ (i : Nat) (r : Row), s.first ≤ i → i ≤ s.last → s.rows[i]? = some r → (i, r) ∈ s.window := by
  refine ⟨⟨_, s.shows_body, rfl⟩, ?_, ?_, ?_, fun r => s.length_cell, s.map_fst_window, ?_, ?_⟩
  · rw [rows, List.length_append, length_spanRows, length_spanRows]
  · intro i l hl
    have hi : i < s.comment.contents.length := (List.getElem?_eq_some_iff.1 hl).1
    rw [rows, List.getElem?_append_left (by rwa [length_spanRows]), getElem?_spanRows, hl]
    rfl
  · intro i l hl
    rw [rows, List.getElem?_append_right (by rw [length_spanRows]; omega), length_spanRows, Nat.add_sub_cancel_left,
      getElem?_spanRows, hl]
    rfl
  · intro q hq
    exact (s.mem_window_iff.1 hq).2.2
  · intro i r
    exact s.mem_window_of_range

/-- An annotation that goes on into code of which the place is not known, with one expectation too many. -/
def crossing : Snippet where
  path := "a.js"
  marker := "///"
  comment := { contents := ["@a", "@b"], first := some 8 }
  code := { contents := ["x", "y"] }
  first := 1
  last := 2
  expected := ["@c", "@d", "@e"]

/-- The last row of the annotation is in the window, and both expectations stand below it. -/
theorem render_shows_crossing :
    crossing.rows[2]? = some ⟨1, "x"⟩ ∧ (2, ⟨1, "x"⟩) ∈ crossing.window ∧
    crossing.render .plain = Text.unlines
      ["", "    a.js", "    + expected - actual", "",
       "     9 | /// @a",
       "  - 10 | /// @b",
       "  -  1 | x",
       "  + 10 | /// @c",
       "  +  1 | /// @d",
       "     2 | y", ""] := by
  have hrow : crossing.rows[2]? = some ⟨1, "x"⟩ := rfl
  obtain ⟨-, -, -, -, -, -, -, hrange⟩ := render_shows crossing
  exact ⟨hrow, hrange 2 _ (by decide) (by decide) hrow, by decide +kernel⟩

end DocComments.Snippet
