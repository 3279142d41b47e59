import DocComments.Grammar.Marker
import DocComments.Proofs.Text.Cut
import DocComments.Proofs.Text.NormalForm

/-!
# Where markers stand

A place of a marker cuts the line in three: what stands before it, the marker, and what stands behind it.

* `line_eq_of_findMarker`: the two sides of a place, with the marker between them, are the line.
* `findMarker_of_blank`: a marker with something other than white space stands on no blank line.
* `findMarker_append_self`: a marker at the front of a line stands free when white space or nothing comes behind.
* `Marker.behind`, `Marker.upTo`: the text on one side of a marker, or all of it when the marker does not stand there.
-/

namespace DocComments

/-- The two sides that a search finds, with the marker between them, are the text. -/
theorem Marker.eq_of_seek {m : List Char} {last : Char} {skip : Nat} {before : Option Char} {cs b a : List Char}
    (h : Marker.seek m last skip before cs = some (b, a)) : cs = b ++ m ++ a := by
  induction cs generalizing skip before b a with
  | nil => simp [Marker.seek] at h
  | cons c cs ih =>
    -- a character that is passed over goes in front of what the rest gives
    have pass : ∀ {skip : Nat} {x : Option (List Char × List Char)},
        x = Marker.seek m last skip (some c) cs →
        x.map (fun q => (c :: q.1, q.2)) = some (b, a) → c :: cs = b ++ m ++ a := by
      rintro skip x rfl hx
      obtain ⟨⟨b', a'⟩, hs, hba⟩ := Option.map_eq_some_iff.1 hx
      obtain ⟨rfl, rfl⟩ := Prod.mk.inj hba
      rw [ih hs]
      simp
    cases skip with
    | succ k =>
      rw [Marker.seek] at h
      exact pass rfl h
    | zero =>
      rw [Marker.seek] at h
      split at h
      · exact pass rfl h
      · next rest hr =>
        split at h
        · obtain ⟨rfl, rfl⟩ := Prod.mk.inj (Option.some.inj h)
          simpa using Text.after?_eq_some_iff.1 hr
        · exact pass rfl h

/-- **A place cuts its line in three.** -/
theorem line_eq_of_findMarker {line m : String} {h : Hit} (hf : findMarker line m = some h) :
    line = h.before ++ m ++ h.after := by
  unfold findMarker at hf
  split at hf
  · cases hf
  · obtain ⟨⟨b, a⟩, hs, rfl⟩ := Option.map_eq_some_iff.1 hf
    apply String.toList_injective
    simpa [String.toList_append] using Marker.eq_of_seek hs

theorem before_isInfix {line m : String} {h : Hit} (hf : findMarker line m = some h) :
    h.before.toList <:+: line.toList := by
  rw [line_eq_of_findMarker hf, String.toList_append, String.toList_append, List.append_assoc]
  exact (List.prefix_append _ _).isInfix

theorem after_isInfix {line m : String} {h : Hit} (hf : findMarker line m = some h) :
    h.after.toList <:+: line.toList := by
  rw [line_eq_of_findMarker hf, String.toList_append]
  exact (List.suffix_append _ _).isInfix

/-- The text behind a marker. -/
def Marker.behind (m text : String) : String :=
  ((findMarker text m).map Hit.after).getD text

/-- The text before a marker. -/
def Marker.upTo (m text : String) : String :=
  ((findMarker text m).map Hit.before).getD text

theorem Marker.behind_isInfix (m text : String) : (Marker.behind m text).toList <:+: text.toList := by
  unfold Marker.behind
  cases hf : findMarker text m with
  | none => exact List.infix_rfl
  | some h => exact after_isInfix hf

theorem Marker.upTo_isInfix (m text : String) : (Marker.upTo m text).toList <:+: text.toList := by
  unfold Marker.upTo
  cases hf : findMarker text m with
  | none => exact List.infix_rfl
  | some h => exact before_isInfix hf

/-- A marker that shows stands on no blank line. -/
theorem findMarker_of_blank {line m : String} (hm : Text.isBlank m = false) (hl : Text.isBlank line = true) :
    findMarker line m = none := by
  cases hf : findMarker line m with
  | none => rfl
  | some h =>
    rw [line_eq_of_findMarker hf, Text.isBlank_append, Text.isBlank_append, hm] at hl
    simp at hl

theorem isBlank_of_findMarker {line m : String} {h : Hit} (hm : Text.isBlank m = false)
    (hf : findMarker line m = some h) : Text.isBlank line = false := by
  by_contra hb
  rw [findMarker_of_blank hm (by simpa using hb)] at hf
  cases hf

/-- **A marker at the front of a line** counts when white space or the end of the line comes behind it. -/
theorem findMarker_append_self {m r : String} (hm : m ≠ "") (hr : r.toList.head?.all Text.isSpace = true) :
    findMarker (m ++ r) m = some ⟨"", r⟩ := by
  have hne : m.toList ≠ [] := fun h => hm (String.toList_eq_nil_iff.1 h)
  obtain ⟨c, cs, hc⟩ := List.exists_cons_of_ne_nil hne
  unfold findMarker
  rw [List.getLast?_eq_some_getLast hne]
  have ha : Text.after? m.toList (c :: (cs ++ r.toList)) = some r.toList := by
    rw [Text.after?_eq_some_iff, hc]; rfl
  have hl : (m ++ r).toList = c :: (cs ++ r.toList) := by rw [String.toList_append, hc]; rfl
  simp only [hl, Marker.seek, ha, Marker.isFree, hr]
  simp [String.ofList_toList]

end DocComments
