import DocComments.Parser
import DocComments.Proofs.Alias.Reading
import DocComments.Proofs.Block.Run
import DocComments.Proofs.Style.Resolve

/-!
# The path of a failure

A callback that fails may have been reached through a chain of additions: an annotation of the comment adds another one,
whose callback adds the next, and so on. When all of them pass the failure on, the fault of the block names the
annotation of the comment, and its source the additions on the way to the callback that failed.

* `Builder.Calls`, `Builder.Reaches`: the callbacks that are run for an annotation, and how far one gets.
* `Builder.FailsAlong`: an annotation fails through a chain of additions.
* `Builder.exec_failsAlong`: **each addition puts its own text before the failure**, by induction over the chain.
* `Builder.failure_path`: what a block, the blocks of a file and a file come to.
-/

namespace DocComments

/-- An annotation that a callback adds: the word that it is added by, the name that this stands for, and the text. -/
structure Link where
  word : String
  name : String
  text : String

namespace Builder

variable (b : Builder) (t : Token)

/-- How a callback of an annotation at some depth adds further ones. -/
def adderAt (depth : Nat) : Adder := b.addAt t (b.maxDepth - depth)

/-- The script of a callback that is run for an annotation, and where it starts. Where the file type has a definition of
its own, the one for all files is run first, and its own when that did not fail. -/
inductive Calls (depth : Nat) (a : Tag) (p : Progress) : Script Value → Progress → Prop
  | only {d : Definition} (hd : b.registry.get? b.filetype a.name = some d)
      (h : b.registry.getOwn? b.filetype a.name = none ∨ b.registry.getDefault? a.name = none) :
      Calls depth a p (d.parse { tag := a.prepare, place := b.placeOf t }) p
  | base {own base : Definition} (hown : b.registry.getOwn? b.filetype a.name = some own)
      (hbase : b.registry.getDefault? a.name = some base) :
      Calls depth a p (base.parse { tag := a.prepare, place := b.placeOf t }) p
  | own {own base : Definition} {q : Progress} {v : Value} (hown : b.registry.getOwn? b.filetype a.name = some own)
      (hbase : b.registry.getDefault? a.name = some base)
      (h : b.exec (b.adderAt t depth) (base.parse { tag := a.prepare, place := b.placeOf t }) p = (q, .ok v)) :
      Calls depth a p (own.parse { tag := a.prepare, place := b.placeOf t, default := some v }) q

/-- A script gets to some point: it has told of events and added annotations, of which none failed. -/
inductive Reaches (depth : Nat) : Script Value → Progress → Script Value → Progress → Prop
  | refl {s : Script Value} {p : Progress} : Reaches depth s p s p
  | emit {e : Event} {s s' : Script Value} {p q : Progress} (h : Reaches depth s (b.tell p e) s' q) :
      Reaches depth (.emit e s) p s' q
  | add {word text : String} {next : Except Failure (Option Value) → Script Value} {s' : Script Value}
      {p p₁ q : Progress} {v : Option Value} (hadd : b.adderAt t depth word text p = (p₁, .ok v))
      (h : Reaches depth (next (.ok v)) p₁ s' q) : Reaches depth (.add word text next) p s' q

/-- **An annotation fails through a chain of additions.** One of its callbacks fails by itself, or it adds the first
annotation of the chain by its name or an alias, which fails through the rest of the chain, and passes every failure
on. -/
inductive FailsAlong : Nat → Tag → Progress → List Link → Failure → Prop
  | here {depth : Nat} {a : Tag} {p p₁ q : Progress} {s : Script Value} {f : Failure}
      (hcall : b.Calls t depth a p s p₁) (h : b.Reaches t depth s p₁ (.fail f) q) : FailsAlong depth a p [] f
  | through {depth : Nat} {a : Tag} {p p₁ q : Progress} {s : Script Value} {f : Failure} {x : Link} {xs : List Link}
      {next : Except Failure (Option Value) → Script Value} (hcall : b.Calls t depth a p s p₁)
      (h : b.Reaches t depth s p₁ (.add x.word x.text next) q)
      (hpass : ∀ g q, (b.exec (b.adderAt t depth) (next (.error g)) q).2 = .error g)
      (hname : b.registry.canonical? b.filetype x.word = some x.name)
      (hfails : FailsAlong (depth + 1)
        (.ofText x.name (((b.registry.aliases b.filetype).get? x.name).getD []) x.text) q xs f) :
      FailsAlong depth a p (x :: xs) f

/-- The comment of a token has an annotation that fails through a chain of additions, and those before it do not
fail. -/
def BreaksAt (a : Tag) (xs : List Link) (f : Failure) : Prop :=
  ∃ before after p, b.tags t = before ++ a :: after ∧ b.parseAll t before {} = (p, .ok ⟨⟩) ∧ b.FailsAlong t 0 a p xs f

/-- The texts of the additions of a chain, the outermost first. -/
def pathTexts (xs : List Link) : Failure :=
  xs.map fun x => "@" ++ x.name ++ " parse failed in " ++ b.file.path

variable {b t} {a : Tag} {p p₁ q : Progress} {s s' : Script Value} {f : Failure} {xs : List Link} {depth : Nat}
  {es : List Event} {fault : CallbackFault}

/-! ## One annotation -/

theorem exec_of_reaches (h : b.Reaches t depth s p s' q) :
    b.exec (b.adderAt t depth) s p = b.exec (b.adderAt t depth) s' q := by
  induction h with
  | refl => rfl
  | emit h ih => exact ih
  | add hadd h ih =>
    rw [exec_add, hadd]
    exact ih

/-- An annotation with two callbacks. -/
theorem tagScript_of_own {own base : Definition} (hown : b.registry.getOwn? b.filetype a.name = some own)
    (hbase : b.registry.getDefault? a.name = some base) :
    b.tagScript t a = (base.parse { tag := a.prepare, place := b.placeOf t }).bind fun v =>
      own.parse { tag := a.prepare, place := b.placeOf t, default := some v } := by
  have hget : b.registry.get? b.filetype a.name = some own := by
    unfold Registry.get?
    rw [hown]
    rfl
  unfold tagScript
  rw [hget]
  dsimp only
  rw [hown, hbase]

/-- An annotation fails when one of its callbacks does. -/
theorem exec_tagScript_of_calls (hcall : b.Calls t depth a p s p₁)
    (h : b.exec (b.adderAt t depth) s p₁ = (q, .error f)) :
    b.exec (b.adderAt t depth) (b.tagScript t a) p = (q, .error f) := by
  cases hcall with
  | only hd hone =>
    rw [(runTag_single hd hone (b.adderAt t depth) p).1]
    exact h
  | base hown hbase =>
    rw [tagScript_of_own hown hbase]
    exact exec_bind_of_error h
  | own hown hbase hok =>
    rw [tagScript_of_own hown hbase, exec_bind_of_ok hok]
    exact h

theorem adderAt_of_lt (hdepth : depth < b.maxDepth) :
    b.adderAt t depth = b.addAt t ((b.maxDepth - (depth + 1)) + 1) := by
  have hlevels : b.maxDepth - depth = (b.maxDepth - (depth + 1)) + 1 := by omega
  rw [adderAt, hlevels]

theorem tagOf_of_canonical? {x : Link} (hname : b.registry.canonical? b.filetype x.word = some x.name) :
    b.tagOf x.word x.text = .ofText x.name (((b.registry.aliases b.filetype).get? x.name).getD []) x.text := by
  unfold tagOf
  rw [hname]
  rfl

theorem pathTexts_cons (x : Link) (xs : List Link) (f : Failure) :
    b.pathTexts (x :: xs) ++ f = (b.fault x.name .parse (b.pathTexts xs ++ f)).chain := by
  have hparse : " parse failed in " = " " ++ Hook.parse.name ++ " failed in " := by decide
  unfold CallbackFault.chain CallbackFault.message fault pathTexts
  rw [List.map_cons, List.cons_append, hparse]
  simp only [String.append_assoc]

/-- **Each addition puts its own text before the failure.** The induction is over the chain, from the callback that
failed outwards. -/
theorem exec_failsAlong (h : b.FailsAlong t depth a p xs f) (hdepth : depth + xs.length ≤ b.maxDepth) :
    ∃ q, b.exec (b.adderAt t depth) (b.tagScript t a) p = (q, .error (b.pathTexts xs ++ f)) := by
  induction h with
  | here hcall hreaches => exact ⟨_, exec_tagScript_of_calls hcall (exec_of_reaches hreaches)⟩
  | @through depth a p p₁ q s f x xs next hcall hreaches hpass hname hfails ih =>
    rw [List.length_cons] at hdepth
    obtain ⟨q₁, hq₁⟩ := ih (by omega)
    -- the addition itself fails, within the limit
    have hadd : (b.adderAt t depth x.word x.text q).2 = .error (b.fault x.name .parse (b.pathTexts xs ++ f)) := by
      rw [adderAt_of_lt (by omega), addAt_succ (tagOf_of_canonical? hname ▸ hq₁), tagOf_of_canonical? hname]
      rfl
    have hfailed : (b.exec (b.adderAt t depth) s p₁).2 = .error (b.pathTexts (x :: xs) ++ f) := by
      rw [exec_of_reaches hreaches, exec_add, hadd, pathTexts_cons]
      exact hpass _ _
    exact ⟨_, exec_tagScript_of_calls hcall (Prod.ext rfl hfailed)⟩

/-! ## One block -/

theorem parseAll_cons_of_ok {as : List Tag} {v : Option Value} {o : Progress × Except CallbackFault Unit}
    (hrun : b.runTag t (b.addAt t b.maxDepth) a p = (p₁, .ok v)) (h : b.parseAll t as (p₁.merge a.name v) = o) :
    b.parseAll t (a :: as) p = o := by
  unfold parseAll
  rw [hrun]
  exact h

theorem parseAll_append_of_ok {before : List Tag} (h : b.parseAll t before p = (q, .ok ⟨⟩)) (after : List Tag) :
    b.parseAll t (before ++ after) p = b.parseAll t after q := by
  induction before generalizing p with
  | nil =>
    obtain ⟨rfl, -⟩ := Prod.mk.inj h
    rfl
  | cons a before ih =>
    unfold parseAll at h
    rcases hrun : b.runTag t (b.addAt t b.maxDepth) a p with ⟨p₁, g | v⟩
    · rw [hrun] at h
      cases h
    · rw [hrun] at h
      exact parseAll_cons_of_ok hrun (ih h)

/-- The block of a comment whose annotation fails through a chain of additions. -/
theorem build_of_breaksAt (hdepth : xs.length ≤ b.maxDepth) (h : b.BreaksAt t a xs f) :
    (b.build t).2 = .error ⟨a.name, .parse, b.file.path, b.pathTexts xs ++ f⟩ := by
  obtain ⟨before, after, p, htags, hbefore, hfails⟩ := h
  obtain ⟨q, hq⟩ := exec_failsAlong hfails (by omega)
  have hrun : b.runTag t (b.addAt t b.maxDepth) a p =
      (q, .error ⟨a.name, .parse, b.file.path, b.pathTexts xs ++ f⟩) := by
    have hadder : b.adderAt t 0 = b.addAt t b.maxDepth := by rw [adderAt, Nat.sub_zero]
    rw [runTag_eq, ← hadder, hq]
    rfl
  have hparse : b.parseAll t (b.tags t) {} = (q, .error ⟨a.name, .parse, b.file.path, b.pathTexts xs ++ f⟩) := by
    rw [htags, parseAll_append_of_ok hbefore]
    unfold parseAll
    rw [hrun]
  rw [build_eq, hparse]
  rfl

/-! ## The blocks of a file -/

theorem buildAll_cons_of_ok {o : Option Block} {ts : List Token} (h : b.build t = (es, .ok o)) :
    b.buildAll (t :: ts) = (es ++ (b.buildAll ts).1, (b.buildAll ts).2.map (o.toList ++ ·)) := by
  rw [buildAll, h]
  rcases b.buildAll ts with ⟨es', g | bs⟩ <;> rfl

theorem buildAll_cons_of_error {ts : List Token} (h : b.build t = (es, .error fault)) :
    b.buildAll (t :: ts) = (es, .error fault) := by
  rw [buildAll, h]

theorem buildAll_append_of_ok {ts : List Token} {blocks : List Block} (h : b.buildAll ts = (es, .ok blocks))
    (us : List Token) :
    b.buildAll (ts ++ us) = (es ++ (b.buildAll us).1, (b.buildAll us).2.map (blocks ++ ·)) := by
  induction ts generalizing es blocks with
  | nil =>
    obtain ⟨rfl, hblocks⟩ := Prod.mk.inj h
    obtain rfl := Except.ok.inj hblocks
    rw [List.nil_append, List.nil_append]
    rcases b.buildAll us with ⟨es, g | bs⟩ <;> rfl
  | cons t ts ih =>
    rw [List.cons_append]
    rcases hbuild : b.build t with ⟨es₁, g | block⟩
    · rw [buildAll_cons_of_error hbuild] at h
      cases (Prod.mk.inj h).2
    rw [buildAll_cons_of_ok hbuild] at h ⊢
    rcases hts : b.buildAll ts with ⟨es₂, g | bs⟩
    · rw [hts] at h
      cases (Prod.mk.inj h).2
    rw [hts] at h
    obtain ⟨rfl, hblocks⟩ := Prod.mk.inj h
    obtain rfl := Except.ok.inj hblocks
    rw [ih hts]
    rcases b.buildAll us with ⟨es₃, g | bs'⟩
    · simp [Except.map]
    · simp [Except.map]

theorem buildAll_append_of_error {ts : List Token} (h : b.buildAll ts = (es, .error fault)) (us : List Token) :
    b.buildAll (ts ++ us) = (es, .error fault) := by
  induction ts generalizing es with
  | nil => cases h
  | cons t ts ih =>
    rw [List.cons_append]
    rcases hbuild : b.build t with ⟨es₁, g | block⟩
    · rw [buildAll_cons_of_error hbuild] at h ⊢
      exact h
    · rw [buildAll_cons_of_ok hbuild] at h ⊢
      rcases hts : b.buildAll ts with ⟨es₂, g | bs⟩
      · rw [hts] at h
        obtain rfl := Except.error.inj (Prod.mk.inj h).2
        rw [ih hts]
        exact h
      · rw [hts] at h
        cases (Prod.mk.inj h).2

theorem buildAll_of_ok {ts : List Token} (h : ∀ u ∈ ts, ∃ o, (b.build u).2 = .ok o) :
    ∃ blocks, b.buildAll ts = (ts.flatMap fun u => (b.build u).1, .ok blocks) := by
  induction ts with
  | nil => exact ⟨[], rfl⟩
  | cons t ts ih =>
    obtain ⟨o, ho⟩ := h t List.mem_cons_self
    obtain ⟨blocks, hblocks⟩ := ih fun u hu => h u (List.mem_cons_of_mem t hu)
    have hbuild : b.build t = ((b.build t).1, .ok o) := Prod.ext rfl ho
    refine ⟨o.toList ++ blocks, ?_⟩
    rw [buildAll_cons_of_ok hbuild, hblocks]
    rfl

/-- **The blocks of a file stop at the first token that fails.** -/
theorem buildAll_of_fault {before : List Token} (hbefore : ∀ u ∈ before, ∃ o, (b.build u).2 = .ok o)
    (h : (b.build t).2 = .error fault) (after : List Token) :
    b.buildAll (before ++ t :: after) =
      (before.flatMap (fun u => (b.build u).1) ++ (b.build t).1, .error fault) := by
  obtain ⟨blocks, hblocks⟩ := buildAll_of_ok hbefore
  have hbuild : b.build t = ((b.build t).1, .error fault) := Prod.ext rfl h
  rw [buildAll_append_of_ok hblocks, buildAll_cons_of_error hbuild]
  rfl

end Builder

/-- A file whose blocks fail has no documentation, and nothing is told of behind the fault. -/
theorem Parser.parseBlocks_of_fault {p : Parser} {file : SourceFile} {header body : List Token} {es : List Event}
    {fault : CallbackFault} (htokens : p.tokens file = .ok (header, body))
    (h : (p.builder file).buildAll (header ++ body) = (es, .error fault)) :
    p.parseBlocks file = (es, .error (.callback fault)) := by
  unfold parseBlocks
  rw [htokens]
  dsimp only
  rcases hheader : (p.builder file).buildAll header with ⟨es₁, g | headers⟩
  · rw [Builder.buildAll_append_of_error hheader] at h
    obtain ⟨rfl, hfault⟩ := Prod.mk.inj h
    obtain rfl := Except.error.inj hfault
    rfl
  · rw [Builder.buildAll_append_of_ok hheader] at h
    rcases hbody : (p.builder file).buildAll body with ⟨es₂, g | blocks⟩
    · rw [hbody] at h
      obtain ⟨rfl, hfault⟩ := Prod.mk.inj h
      obtain rfl := Except.error.inj hfault
      rfl
    · rw [hbody] at h
      cases h

namespace Builder

variable {b : Builder} {t : Token} {a : Tag} {xs : List Link} {f : Failure}

/-- **A failure carries the path of its additions.** An annotation of a comment adds another one by its name or an
alias, that one the next, and so on within the limit, and each passes a failure on; the last one fails, and no callback
before it does. Then the comment has no block but the fault of the first annotation in its `parse` callback, and in its
source stand the texts of the added annotations by their names, outermost first, and behind them the failure. The blocks
of a file stop at that token. A file with that token among those of its head and body is not read: it comes to that
fault, and what is told of are the events of the blocks up to there, so not that the file was read. -/
theorem failure_path (hdepth : xs.length ≤ b.maxDepth) (h : b.BreaksAt t a xs f) :
    (b.build t).2 = .error ⟨a.name, .parse, b.file.path,
      xs.map (fun x => "@" ++ x.name ++ " parse failed in " ++ b.file.path) ++ f⟩ ∧
    (∀ before after, (∀ u ∈ before, ∃ o, (b.build u).2 = .ok o) →
      b.buildAll (before ++ t :: after) = (before.flatMap (fun u => (b.build u).1) ++ (b.build t).1,
        .error ⟨a.name, .parse, b.file.path,
          xs.map (fun x => "@" ++ x.name ++ " parse failed in " ++ b.file.path) ++ f⟩)) ∧
    ∀ (p : Parser) (path text : String) (header body before after : List Token),
      p.builder (p.sourceFile path text) = b →
      (p.sourceFile path text).language.appearsIn (p.sourceFile path text).contents = true →
      p.tokens (p.sourceFile path text) = .ok (header, body) → header ++ body = before ++ t :: after →
      (∀ u ∈ before, ∃ o, (b.build u).2 = .ok o) →
      p.parseSource path text = (before.flatMap (fun u => (b.build u).1) ++ (b.build t).1,
        .error (.callback ⟨a.name, .parse, path,
          xs.map (fun x => "@" ++ x.name ++ " parse failed in " ++ path) ++ f⟩)) := by
  have hbuild := build_of_breaksAt hdepth h
  refine ⟨hbuild, fun before after hbefore => buildAll_of_fault hbefore hbuild after, ?_⟩
  rintro p path text header body before after rfl happears htokens hsplit hbefore
  have hall := buildAll_of_fault hbefore hbuild after
  rw [← hsplit] at hall
  have hparse : p.parseSource path text = p.parseBlocks (p.sourceFile path text) := by
    unfold Parser.parseSource Parser.parseAll
    rw [happears, if_pos rfl]
  rw [hparse]
  exact Parser.parseBlocks_of_fault htokens hall

/-- A callback that passes a failure on. -/
def passOn : Except Failure (Option Value) → Script Value
  | .ok _ => .done .null
  | .error f => .fail f

/-- An `outer` annotation adds an `inner` one by its alias. In scripts that one has a callback of its own, which adds a
`note` and then an annotation that fails. -/
def relaying : Registry :=
  ⟨.ofList
    [(defaultFiletype, .ofList
      [("boom", { parse := fun _ => .fail ["nope"] }), ("inner", { aliases := ["i"] }), ("note", {}),
       ("outer", { parse := fun _ => .add "i" "x" passOn })]),
     ("js", .ofList
      [("inner", { aliases := ["i"], parse := fun _ => .add "note" "n" fun _ => .add "boom" "" passOn })])]⟩

/-- A script with one comment, whose first annotation is fine. -/
def relayed : SourceFile := ⟨"a.js", "/// @note fine\n/// @outer\nf()", LanguageTable.slashes⟩

def relayToken : Token :=
  ⟨.body, ⟨["@note fine", "@outer"], some 0, some 1, 0⟩, ⟨["f()"], some 2, some 2, 0⟩⟩

theorem breaksAt_relay : BreaksAt { registry := relaying, file := relayed } relayToken
    ⟨"outer", [], "", ["@outer"], some 1, some 1⟩ [⟨"i", "inner", "x"⟩, ⟨"boom", "boom", ""⟩] ["nope"] := by
  have htags : ({ registry := relaying, file := relayed } : Builder).tags relayToken =
      [⟨"note", [], " fine", ["@note fine"], some 0, some 0⟩] ++
        ⟨"outer", [], "", ["@outer"], some 1, some 1⟩ :: [] := by
    decide +kernel
  refine ⟨_, _, _, htags, Prod.ext rfl rfl, ?_⟩
  refine .through (.only rfl (.inl rfl)) .refl (fun g q => rfl) (by decide +kernel) ?_
  refine .through (.own rfl rfl rfl) (.add (Prod.ext rfl rfl) .refl) (fun g q => rfl) (by decide +kernel) ?_
  exact .here (.only rfl (.inl rfl)) .refl

/-- Both additions are named, the first by what its alias stands for, and the file is not told of. -/
theorem failure_path_relay :
    ∃ p : Parser, LanguageTable.resolve ∅ = .ok p.languages ∧ p.registry = relaying ∧
      p.parseSource "a.js" relayed.contents = ([], .error (.callback ⟨"outer", .parse, "a.js",
        ["@inner parse failed in a.js", "@boom parse failed in a.js", "nope"]⟩)) := by
  obtain ⟨languages, ht, hl⟩ := LanguageTable.forFiletype_js
  refine ⟨⟨relaying, {}, languages⟩, ht, rfl, ?_⟩
  have hfile : (⟨relaying, {}, languages⟩ : Parser).sourceFile "a.js" relayed.contents = relayed := by
    have hjs : Path.filetype "a.js" = "js" := by decide +kernel
    have hfold : Text.foldBreaks relayed.contents = relayed.contents := by decide +kernel
    have haliases : "i" ∈ (relaying.aliasMap "js").keys ∧
        ∀ a ∈ (relaying.aliasMap "js").keys, Text.contains relayed.contents ("@" ++ a) = false := by decide +kernel
    unfold Parser.sourceFile
    dsimp only
    rw [hjs, hl, hfold, Renamer.rename_ofLanguage (by decide) haliases.1 (by decide)]
    · rfl
    · intro s hs
      obtain rfl : s = "@" := by simpa [LanguageTable.slashes] using hs
      exact haliases.2
  have htokens : (⟨relaying, {}, languages⟩ : Parser).tokens relayed = .ok ([], [relayToken]) := by
    show (⟨relaying, {}, ⟨LanguageTable.slashes, ∅⟩⟩ : Parser).tokens relayed = _
    decide +kernel
  have hquiet : (build { registry := relaying, file := relayed } relayToken).1 = [] := by decide +kernel
  obtain ⟨-, -, hparse⟩ := failure_path (by decide) breaksAt_relay
  have h := hparse ⟨relaying, {}, languages⟩ "a.js" relayed.contents [] [relayToken] [] [] (by rw [hfile]; rfl)
    (by rw [hfile]; decide +kernel) (by rw [hfile, htokens]) rfl (fun u hu => by cases hu)
  rw [h, hquiet]
  rfl

end Builder

end DocComments
