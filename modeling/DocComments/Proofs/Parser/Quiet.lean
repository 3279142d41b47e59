import DocComments.Parser
import DocComments.Proofs.Block.Run

/-!
# Reading without warnings

Events are told in many places: by callbacks at any depth, by the phases of a block, by the builder and by the parser.
Each of them asks on its own whether an event is passed on. A reader without warnings goes through the same states as
one with them, but for the warnings that it does not tell of.

* `Progress.hush`: what is left of some progress without its warnings.
* `Builder.exec_hushed`: what a script does, when additions go the same way.
* `Builder.addAt_hushed`: **an addition goes the same way**, however deep it is.
* `Parser.parseSource_quiet`: without warnings a text has the same documentation, and the other events in their order.
-/

namespace DocComments

/-- Whether an event is passed on without warnings. -/
abbrev Event.isKept : Event → Bool := Event.passes true

theorem Event.isKept_eq (e : Event) : e.isKept = decide (e.level ≠ .warning) := by
  simp [isKept, passes]

/-- What is passed on without warnings is passed on anyway. -/
theorem Event.filter_isKept (quiet : Bool) (es : List Event) :
    (es.filter (·.passes quiet)).filter isKept = es.filter isKept := by
  rw [List.filter_filter]
  congr 1
  funext e
  cases quiet <;> simp [isKept, passes]

/-- The progress without its warnings. -/
def Progress.hush (p : Progress) : Progress := { p with events := p.events.filter Event.isKept }

namespace Builder

/-- The builder that keeps warnings back. -/
def hushed (b : Builder) : Builder := { b with quiet := true }

variable {b : Builder} {t : Token} {add add' : Adder}

theorem tellAll_hushed (p : Progress) (es : List Event) :
    b.hushed.tellAll p.hush es = (b.tellAll p es).hush := by
  have hquiet : b.hushed.quiet = true := rfl
  simp only [tellAll, Progress.emitAll, Progress.hush, hquiet, List.filter_append, Event.filter_isKept]

theorem tell_hushed (p : Progress) (e : Event) : b.hushed.tell p.hush e = (b.tell p e).hush :=
  tellAll_hushed p [e]

theorem merge_hush (p : Progress) (name : String) (v : Option Value) :
    p.hush.merge name v = (p.merge name v).hush := by
  cases v <;> rfl

theorem take_hush (p : Progress) (name : String) (r : Except CallbackFault (Option Value)) :
    take p.hush name r = (take p name r).hush := by
  cases r with
  | ok v => exact merge_hush p name v
  | error f => rfl

/-! ## Annotations -/

/-- **A script does the same without warnings**, when what it adds does. -/
theorem exec_hushed (hadd : ∀ word text p, add' word text p.hush = (add word text p).map Progress.hush id)
    (s : Script Value) (p : Progress) :
    b.hushed.exec add' s p.hush = (b.exec add s p).map Progress.hush id := by
  induction s generalizing p with
  | done v => rfl
  | fail f => rfl
  | emit e s ih =>
    rw [exec, exec, tell_hushed]
    exact ih (b.tell p e)
  | add word text next ih =>
    rw [exec_add, exec_add, hadd]
    exact ih _ (add word text p).1

theorem runTag_hushed (hadd : ∀ word text p, add' word text p.hush = (add word text p).map Progress.hush id)
    (t : Token) (a : Tag) (p : Progress) :
    b.hushed.runTag t add' a p.hush = (b.runTag t add a p).map Progress.hush id := by
  have hscript : b.hushed.tagScript t a = b.tagScript t a := rfl
  rw [runTag_eq, runTag_eq, hscript, exec_hushed hadd]
  rfl

/-- **An addition does the same without warnings.** The induction is on the levels that are left: the callbacks of the
annotation add with one level less. -/
theorem addAt_hushed (t : Token) (levels : Nat) (word text : String) (p : Progress) :
    b.hushed.addAt t levels word text p.hush = (b.addAt t levels word text p).map Progress.hush id := by
  induction levels generalizing word text p with
  | zero =>
    -- a refusal is told of by an error, with the limit in its words
    have hmax : b.hushed.maxDepth = b.maxDepth := rfl
    have hpath : b.hushed.file.path = b.file.path := rfl
    unfold addAt refuse
    rw [hmax, hpath, tell_hushed]
    rfl
  | succ levels ih =>
    rcases hrun : b.exec (b.addAt t levels) (b.tagScript t (b.tagOf word text)) p with ⟨q, r⟩
    have hquiet : b.hushed.exec (b.hushed.addAt t levels) (b.hushed.tagScript t (b.hushed.tagOf word text)) p.hush =
        (q.hush, r) := by
      have hexec := exec_hushed (b := b) ih (b.tagScript t (b.tagOf word text)) p
      rw [hrun] at hexec
      exact hexec
    rw [addAt_succ hrun, addAt_succ hquiet, take_hush]
    rfl

theorem parseAll_hushed (t : Token) (as : List Tag) (p : Progress) :
    b.hushed.parseAll t as p.hush = (b.parseAll t as p).map Progress.hush id := by
  induction as generalizing p with
  | nil => rfl
  | cons a as ih =>
    have hrun := runTag_hushed (b := b) (addAt_hushed (b := b) t b.maxDepth) t a p
    have hmax : b.hushed.maxDepth = b.maxDepth := rfl
    unfold parseAll
    rw [hmax, hrun]
    rcases b.runTag t (b.addAt t b.maxDepth) a p with ⟨q, f | v⟩
    · rfl
    · have hmerge : (q.hush.merge a.name v) = (q.merge a.name v).hush := merge_hush q a.name v
      dsimp only [Prod.map, id]
      rw [hmerge]
      exact ih (q.merge a.name v)

/-! ## The phases behind them -/

/-- What a phase puts into a block does not depend on the events. -/
theorem insert_hush (p : Progress) (block : Block) :
    ({ p.hush with block := block } : Progress) = ({ p with block := block } : Progress).hush := rfl

theorem autofillAll_hushed (t : Token) (ds : List (String × Definition)) (p : Progress) :
    b.hushed.autofillAll t ds p.hush = (b.autofillAll t ds p).map Progress.hush id := by
  induction ds generalizing p with
  | nil => rfl
  | cons x ds ih =>
    obtain ⟨name, d⟩ := x
    have hblock : p.hush.block = p.block := rfl
    have hplace : b.hushed.placeOf t = b.placeOf t := rfl
    unfold autofillAll
    cases d.autofill with
    | none => exact ih p
    | some autofill =>
      dsimp only
      rw [hblock, hplace, tellAll_hushed]
      split
      · exact ih p
      · cases (autofill { name := name, place := b.placeOf t, parsed := p.block }).result with
        | error f => rfl
        | ok v =>
          dsimp only
          cases v.bind notNull with
          | none => exact ih _
          | some v =>
            dsimp only
            rw [insert_hush]
            exact ih _

theorem resolveAll_hushed (t : Token) (positions : List Position) (ds : List (String × Definition)) (p : Progress) :
    b.hushed.resolveAll t positions ds p.hush = (b.resolveAll t positions ds p).map Progress.hush id := by
  induction ds generalizing p with
  | nil => rfl
  | cons x ds ih =>
    obtain ⟨name, d⟩ := x
    have hblock : p.hush.block = p.block := rfl
    have hplace : b.hushed.placeOf t = b.placeOf t := rfl
    unfold resolveAll
    rw [hblock, hplace]
    cases d.resolve with
    | none => exact ih p
    | some resolve =>
      cases p.block.get? name with
      | none => exact ih p
      | some old =>
        dsimp only
        rw [tellAll_hushed]
        cases (resolve old ⟨name, d.aliases, b.placeOf t, p.block, positions⟩).result with
        | error f => rfl
        | ok v =>
          dsimp only
          cases v.bind notNull with
          | none => exact ih _
          | some v =>
            dsimp only
            rw [insert_hush]
            exact ih _

theorem complete_hushed (t : Token) (o : Progress × Except CallbackFault Unit) :
    b.hushed.complete t (o.map Progress.hush id) = (b.complete t o).map (List.filter Event.isKept) id := by
  obtain ⟨p, f | u⟩ := o
  · rfl
  · have htags : b.hushed.tags t = b.tags t := rfl
    have hregistry : b.hushed.registry = b.registry := rfl
    have hfiletype : b.hushed.filetype = b.filetype := rfl
    have hfill := autofillAll_hushed (b := b) t (b.registry.withAutofill b.filetype).entries p
    unfold complete
    dsimp only [Prod.map, id]
    rw [htags, hregistry, hfiletype, hfill]
    generalize (b.tags t).map (fun a => (⟨a.name, a.first, a.last⟩ : Position)) = positions
    rcases b.autofillAll t (b.registry.withAutofill b.filetype).entries p with ⟨q, f | u⟩
    · rfl
    · have hres := resolveAll_hushed (b := b) t positions (b.registry.withResolve b.filetype).entries q
      have hblock : q.hush.block = q.block := rfl
      dsimp only [Prod.map, id]
      rw [hblock, hres]
      cases q.block.isEmpty with
      | true => rfl
      | false =>
        rcases b.resolveAll t positions (b.registry.withResolve b.filetype).entries q with ⟨q', f | u⟩
        · rfl
        · rfl

/-! ## Blocks -/

theorem build_hushed (t : Token) : b.hushed.build t = (b.build t).map (List.filter Event.isKept) id := by
  have htags : b.hushed.tags t = b.tags t := rfl
  have hparse : b.hushed.parseAll t (b.tags t) {} = (b.parseAll t (b.tags t) {}).map Progress.hush id :=
    parseAll_hushed t (b.tags t) {}
  rw [build_eq, build_eq, htags, hparse, complete_hushed]

theorem buildAll_hushed (ts : List Token) :
    b.hushed.buildAll ts = (b.buildAll ts).map (List.filter Event.isKept) id := by
  induction ts with
  | nil => rfl
  | cons t ts ih =>
    rw [buildAll, buildAll, build_hushed, ih]
    rcases b.build t with ⟨es, f | block⟩
    · rfl
    · rcases b.buildAll ts with ⟨es', f | blocks⟩
      · simp [Prod.map]
      · simp [Prod.map]

end Builder

namespace Parser

/-- The parser with warnings or without. -/
def withWarnings (p : Parser) (wanted : Bool) : Parser := { p with config := { p.config with warnings := wanted } }

theorem ofConfig_withWarnings (r : Registry) (c : Config) (wanted : Bool) :
    ofConfig r { c with warnings := wanted } = (ofConfig r c).map (·.withWarnings wanted) := by
  unfold ofConfig
  dsimp only
  cases LanguageTable.resolve c.styles <;> rfl

theorem report_quiet (p : Parser) (e : Event) :
    (p.withWarnings false).report e = (p.report e).filter Event.isKept :=
  (Event.filter_isKept _ [e]).symm

theorem parseBlocks_quiet (p : Parser) (f : SourceFile) :
    (p.withWarnings false).parseBlocks f = (p.parseBlocks f).map (List.filter Event.isKept) id := by
  have htokens : (p.withWarnings false).tokens f = p.tokens f := rfl
  have hbuilder : (p.withWarnings false).builder f = (p.builder f).hushed := rfl
  unfold parseBlocks
  rw [htokens, hbuilder]
  rcases p.tokens f with fault | ⟨header, body⟩
  · rfl
  dsimp only
  rw [Builder.buildAll_hushed, Builder.buildAll_hushed, report_quiet]
  rcases (p.builder f).buildAll header with ⟨es, fault | headers⟩
  · rfl
  rcases (p.builder f).buildAll body with ⟨es', fault | blocks⟩
  · simp [Prod.map]
  · simp [Prod.map]

/-- **A file is read in the same way without warnings.** -/
theorem parseAll_quiet (p : Parser) (f : SourceFile) :
    (p.withWarnings false).parseAll f = (p.parseAll f).map (List.filter Event.isKept) id := by
  unfold parseAll
  split
  · exact parseBlocks_quiet p f
  · rw [report_quiet]
    rfl

/-- **Without warnings a text has the same documentation.** Whatever the callbacks do, the text has the same
documentation or the same error, and the events are those of the other run without the warnings, in the same order. A
configuration gives no parser in the one case exactly when it gives none in the other. -/
theorem parseSource_quiet (r : Registry) (c : Config) (path text : String) :
    (ofConfig r { c with warnings := false }).map (·.parseSource path text) =
      (ofConfig r { c with warnings := true }).map fun p =>
        ((p.parseSource path text).1.filter (·.level ≠ .warning), (p.parseSource path text).2) := by
  rw [ofConfig_withWarnings r c false, ofConfig_withWarnings r c true]
  cases ofConfig r c with
  | error f => rfl
  | ok p =>
    have hkept : (fun e : Event => decide (e.level ≠ .warning)) = Event.isKept :=
      funext fun e => (Event.isKept_eq e).symm
    have hfile : ((p.withWarnings true).withWarnings false).parseSource path text =
        ((p.withWarnings true).parseSource path text).map (List.filter Event.isKept) id :=
      parseAll_quiet (p.withWarnings true) (p.sourceFile path text)
    rw [hkept]
    exact congrArg Except.ok hfile

end Parser

end DocComments
