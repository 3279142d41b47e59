import DocComments.Proofs.Alias.Reading
import DocComments.Proofs.Block.Log
import DocComments.Proofs.Builtin.Blocks
import DocComments.Proofs.Tag.Split
import DocComments.Proofs.Token.CommentText

/-!
# Warnings name the line of their annotation

The line that a warning names is put together from the first line of the comment, the blank lines that were dropped
before its contents, and the index of the annotation in them. On that line of the file stands the head of the
annotation.

* `Scanner.lineNumber?_of_mem_tokenize`: the lines of a comment are pieces of the lines that their numbers name.
* `Parser.warning_line`: **a warning about an annotation names a line with the head of the annotation.**
-/

namespace DocComments

/-- On a head the sigil stands directly before the name. -/
theorem Splitter.Head.isInfix {s : Splitter} {line name rest : String} (h : s.Head line name rest) :
    (s.sigil ++ name).toList <:+: line.toList := by
  obtain ⟨before, hline, -⟩ := h.place
  refine ⟨before.toList, rest.toList, ?_⟩
  simp only [hline, String.toList_append, List.append_assoc]

/-- Each line of a comment is a piece of the line that its number names. -/
theorem Scanner.lineNumber?_of_mem_tokenize {s : Scanner} (hv : s.grammar.Visible) {lines : List String} {start : Nat}
    {t : Token} (ht : t ∈ s.tokenize lines start) {k : Nat} {x : String} (hx : t.comment.contents[k]? = some x) :
    ∃ n line, t.comment.lineNumber? k = some n ∧ lines[n]? = some line ∧ x.toList <:+: line.toList := by
  obtain ⟨i, hi⟩ := List.mem_iff_getElem?.1 ht
  obtain ⟨p, l, tl, -, hls, -, rfl, -⟩ := exists_turn hv rfl hi
  obtain ⟨n, line, hn, -, -, hline, hpiece⟩ := lineNumber?_tokenAt hls hx
  exact ⟨n, line, hn, hline, hpiece⟩

namespace Builder

variable {b : Builder} {t : Token} {a : Tag} {e : Event}

/-- The event is a warning about an annotation, told of by a `parse` callback that was run for it. -/
def Warns (b : Builder) (t : Token) (a : Tag) (e : Event) : Prop :=
  ∃ default message expected,
    e = ({ tag := a.prepare, place := b.placeOf t, default := default } : ParseContext).warning message expected

/-- The event names a line of the file, counted from 1, on which the name of an annotation follows the sigil. -/
def NamesHead (b : Builder) (t : Token) (a : Tag) (e : Event) : Prop :=
  ∃ n line, e.diagnostic.line = some (n + 1) ∧ b.file.lines[n]? = some line ∧
    ((b.file.language.grammar t.kind).sigil ++ a.name).toList <:+: line.toList

/-- **A warning names the line of its annotation**, when the comment was found in the file. -/
theorem namesHead_of_warns {s : Scanner} (hv : s.grammar.Visible) {start : Nat}
    (ht : t ∈ s.tokenize b.file.lines start) (ha : a ∈ b.tags t) (h : b.Warns t a e) : b.NamesHead t a e := by
  obtain ⟨default, message, expected, rfl⟩ := h
  obtain ⟨i, l, hfirst, hl, hhead⟩ := Splitter.exists_head ha
  obtain ⟨n, line, hn, hline, hpiece⟩ := Scanner.lineNumber?_of_mem_tokenize hv ht hl
  refine ⟨n, line, ?_, hline, hhead.isInfix.trans hpiece⟩
  have hindex : a.prepare.first.getD 0 = i := by
    dsimp only [Tag.prepare]
    rw [hfirst, Option.getD_some]
  have hcomment : (b.placeOf t).comment = t.comment := rfl
  simp only [ParseContext.warning, ParseContext.lineNumber?, hindex, hcomment, hn, Option.map_some]

end Builder

namespace Parser

/-- **Warnings point at the right line.** In every text that is read, and for every registry: the events of a comment
start with those of its log, where each event that an annotation of the comment tells of has that annotation as its
teller. A warning about such an annotation names a line of the file as it is read, and on that line the sigil of the
comment is directly followed by the name of the annotation. -/
theorem warning_line {r : Registry} {c : Config} {p : Parser} (hp : ofConfig r c = .ok p) (path text : String)
    (hheader : (p.sourceFile path text).language.header.Visible)
    (hbody : (p.sourceFile path text).language.body.Visible) :
    ∃ header body, p.tokens (p.sourceFile path text) = .ok (header, body) ∧
      ∀ t ∈ header ++ body,
        (∃ later, ((p.builder (p.sourceFile path text)).build t).1 =
          ((p.builder (p.sourceFile path text)).log t).map (·.event) ++ later) ∧
        (∀ x ∈ (p.builder (p.sourceFile path text)).log t, ∀ a ∈ x.teller,
          a ∈ (p.builder (p.sourceFile path text)).tags t) ∧
        ∀ a ∈ (p.builder (p.sourceFile path text)).tags t, ∀ e,
          (p.builder (p.sourceFile path text)).Warns t a e →
            (p.builder (p.sourceFile path text)).NamesHead t a e := by
  obtain ⟨-, -, hresolve⟩ := ofConfig_eq_ok hp
  have hscan := LanguageTable.scannable_of_resolve hresolve (Path.filetype path)
  generalize hf : p.sourceFile path text = f at hheader hbody
  have hlanguage : f.language = p.languages.forFiletype (Path.filetype path) := hf ▸ rfl
  rw [← hlanguage] at hscan
  refine ⟨_, _, tokens_of_scannable p hscan.header hscan.body, fun t ht => ⟨Builder.build_events _ t, ?_, ?_⟩⟩
  · intro x hx a ha
    exact Builder.mem_of_mem_logAll hx ha
  · intro a ha e hwarns
    rcases List.mem_append.1 ht with ht | ht
    · exact Builder.namesHead_of_warns hheader ht ha hwarns
    · exact Builder.namesHead_of_warns hbody ht ha hwarns

/-- A registry with an annotation that is never content. -/
def demanding : Registry :=
  ⟨.ofList [(defaultFiletype, .ofList
    [("type", { parse := fun c => .emit (c.warning "no type is given" ["@type {type}"]) (.done .null) })])]⟩

/-- A file with an annotation on its last line. -/
def untyped : SourceFile :=
  ⟨"a.js", "////\n@name n\n////\n///\n/// text\n/// @type", LanguageTable.slashes⟩

/-- Below the comment at the head of the file, and below a blank line and a line of text in its own comment, the
annotation is on line 6. -/
theorem warning_line_below_text :
    ∃ p header t x a, ofConfig demanding {} = .ok p ∧ p.sourceFile "a.js" untyped.contents = untyped ∧
      p.tokens untyped = .ok ([header], [t]) ∧ x ∈ (p.builder untyped).log t ∧ a ∈ x.teller ∧
      x.event.diagnostic.line = some 6 ∧ (p.builder untyped).NamesHead t a x.event := by
  obtain ⟨languages, ht, hl⟩ := LanguageTable.forFiletype_js
  have hp : ofConfig demanding {} = .ok ⟨demanding, {}, languages⟩ := by
    have hstyles : LanguageTable.resolve ({} : Config).styles = .ok languages := ht
    unfold ofConfig
    rw [hstyles]
  have hfile : (⟨demanding, {}, languages⟩ : Parser).sourceFile "a.js" untyped.contents = untyped := by
    have hjs : Path.filetype "a.js" = "js" := by decide +kernel
    have hfold : Text.foldBreaks untyped.contents = untyped.contents := by decide +kernel
    have hempty : (Renamer.ofLanguage LanguageTable.slashes (demanding.aliasMap "js")).aliases.isEmpty = true := by
      decide +kernel
    unfold sourceFile
    dsimp only
    rw [hjs, hl, hfold, Renamer.rename_of_isEmpty hempty]
    rfl
  have hwarning := warning_line hp "a.js" untyped.contents
  rw [hfile] at hwarning
  obtain ⟨header, body, htokens, hall⟩ :=
    hwarning ⟨by decide, by decide, by decide⟩ ⟨by decide, by decide, by decide⟩
  -- neither the scan nor the log looks at the languages again
  have hscanned : (⟨demanding, {}, languages⟩ : Parser).tokens untyped =
      .ok ([⟨.header, ⟨["@name n"], some 0, some 2, 1⟩, {}⟩],
        [⟨.body, ⟨["text", "@type"], some 3, some 5, 1⟩, {}⟩]) := by
    show (⟨demanding, {}, ⟨LanguageTable.slashes, ∅⟩⟩ : Parser).tokens untyped = _
    decide +kernel
  obtain ⟨rfl, rfl⟩ := Prod.mk.inj (Except.ok.inj (htokens.symm.trans hscanned))
  generalize hb : (⟨demanding, {}, languages⟩ : Parser).builder untyped = b at hall
  obtain rfl : b = { registry := demanding, file := untyped } := hb.symm
  have hlog : ({ registry := demanding, file := untyped } : Builder).log
      ⟨.body, ⟨["text", "@type"], some 3, some 5, 1⟩, {}⟩ =
        [⟨some ⟨"type", [], "", ["@type"], some 1, some 1⟩,
          ({ tag := Tag.prepare ⟨"type", [], "", ["@type"], some 1, some 1⟩
             place := ⟨⟨["text", "@type"], some 3, some 5, 1⟩, {}, .body, untyped⟩ } : ParseContext).warning
            "no type is given" ["@type {type}"]⟩] := by decide +kernel
  obtain ⟨-, htellers, hlines⟩ := hall _ (List.mem_append_right _ List.mem_cons_self)
  have hx := hlog ▸ List.mem_singleton_self _
  refine ⟨_, _, _, _, _, hp, hfile, hscanned, hb ▸ hx, rfl, by decide +kernel, ?_⟩
  exact hb ▸ hlines _ (htellers _ hx _ rfl) _ ⟨none, _, _, rfl⟩

end Parser

end DocComments
