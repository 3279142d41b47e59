import Mathlib.Data.List.Forall2
import DocComments.Parser
import DocComments.Proofs.Alias.Reading
import DocComments.Proofs.Block.Phases
import DocComments.Proofs.Style.Resolve
import DocComments.Proofs.Token.Unclosed

/-!
# The blocks of the built-in annotations

The built-in annotations never fail, so every comment gets its block, and where it stands cannot be forged.

* `plain_builtin`: no built-in callback fails, and none adds annotations.
* `build_builtin`: the block of one token.
* `parseSource_builtin`: **every text is read to its end, and each comment has its block.**
-/

namespace DocComments

namespace Builtin

/-- A definition that only turns its annotation into a value is plain. -/
theorem plain_of_done {d : Definition} (hp : ∀ c, ∃ v, d.parse c = .done v) (ha : d.autofill = none)
    (hr : d.resolve = none) : d.Plain := by
  refine ⟨?_, ?_, ?_⟩
  · intro c
    obtain ⟨v, hv⟩ := hp c
    exact ⟨[], v, by rw [hv]; rfl⟩
  · intro f hf
    rw [ha] at hf
    cases hf
  · intro f hf
    rw [hr] at hf
    cases hf

theorem outcome?_braced (name : String) (c : ParseContext) : ∃ es v, (braced name c).outcome? = some (es, v) := by
  unfold braced
  dsimp only
  split
  · exact ⟨_, _, rfl⟩
  · exact ⟨_, _, rfl⟩

theorem plain_braced (name : String) : Definition.Plain { parse := braced name } := by
  refine ⟨outcome?_braced name, ?_, ?_⟩
  · intro f hf
    cases hf
  · intro f hf
    cases hf

theorem plain_access : access.Plain := by
  refine ⟨fun c => ⟨[], _, rfl⟩, ?_, ?_⟩
  · intro f hf c
    obtain rfl := Option.some.inj hf
    exact ⟨_, rfl⟩
  · intro f hf
    cases hf

theorem plain_blockinfo : blockinfo.Plain := by
  refine ⟨fun c => ⟨_, _, rfl⟩, ?_, ?_⟩
  · intro f hf c
    obtain rfl := Option.some.inj hf
    exact ⟨_, rfl⟩
  · intro f hf
    cases hf

theorem plain_markup : markup.Plain := by
  refine ⟨fun c => ⟨[], _, rfl⟩, ?_, ?_⟩
  · intro f hf
    cases hf
  · intro f hf v c
    obtain rfl := Option.some.inj hf
    exact ⟨_, rfl⟩

theorem plain_states : states.Plain := by
  refine ⟨fun c => ⟨[], _, rfl⟩, ?_, ?_⟩
  · intro f hf
    cases hf
  · intro f hf v c
    obtain rfl := Option.some.inj hf
    unfold linkStates
    split
    · exact ⟨_, rfl⟩
    · exact ⟨_, rfl⟩

/-- **No built-in callback fails**, and none adds annotations. -/
theorem plain_definitions : ∀ x ∈ definitions, x.2.Plain := by
  simp only [definitions, List.forall_mem_cons]
  refine ⟨plain_access, ?_, ?_, plain_blockinfo, ?_, ?_, ?_, plain_markup, ?_, ?_, ?_, ?_, ?_, ?_, ?_, plain_states,
    ?_, ?_, plain_braced _, plain_braced _, fun x hx => by cases hx⟩
  -- the others do no more than turn their annotation into a value
  all_goals exact plain_of_done (fun c => ⟨_, rfl⟩) rfl rfl

end Builtin

namespace Registry

open Builtin

variable {f n : String} {d : Definition}

/-- The built-in registry has one table, for all files, with the built-in annotations as they are. -/
theorem tables_builtin :
    builtin.tables.entries.map (fun e => (e.1, e.2.entries)) = [(defaultFiletype, definitions)] := by
  rfl

section

variable {r : Registry} {es : List (String × Definition)}

-- for any registry with one table, since the built-in one is expensive to look into

theorem lookup?_of_tables (h : r.tables.entries.map (fun e => (e.1, e.2.entries)) = [(defaultFiletype, es)]) :
    r.lookup? f n = some d ↔ f = defaultFiletype ∧ (n, d) ∈ es := by
  obtain ⟨⟨g, t⟩, ht, he⟩ := List.map_eq_singleton_iff.1 h
  obtain ⟨rfl, rfl⟩ := Prod.mk.inj he
  simp only [lookup?_eq_some_iff, ht, List.mem_singleton, Prod.mk.injEq]
  constructor
  · rintro ⟨_, ⟨hf, rfl⟩, hn⟩
    exact ⟨hf, hn⟩
  · rintro ⟨hf, hn⟩
    exact ⟨t, ⟨hf, rfl⟩, hn⟩

theorem get?_list_of_tables (h : r.tables.entries.map (fun e => (e.1, e.2.entries)) = [(defaultFiletype, es)])
    (f : String) : (r.list f).get? n = some d ↔ (n, d) ∈ es := by
  rw [get?_list]
  constructor
  · intro hget
    cases hf : r.lookup? f n with
    | none =>
      rw [hf] at hget
      have hdefault : r.lookup? defaultFiletype n = some d := hget
      exact ((lookup?_of_tables h).1 hdefault).2
    | some x =>
      rw [hf] at hget
      obtain rfl := Option.some.inj hget
      exact ((lookup?_of_tables h).1 hf).2
  · intro hmem
    have hdefault : r.lookup? defaultFiletype n = some d := (lookup?_of_tables h).2 ⟨rfl, hmem⟩
    cases hf : r.lookup? f n with
    | none => exact hdefault
    | some x =>
      obtain ⟨rfl, -⟩ := (lookup?_of_tables h).1 hf
      rw [← hf, hdefault]
      rfl

/-- A registry with one table, for all files, lists that table. -/
theorem entries_list_of_tables (h : r.tables.entries.map (fun e => (e.1, e.2.entries)) = [(defaultFiletype, es)])
    (f : String) : (r.list f).entries = es := by
  obtain ⟨⟨g, t⟩, -, he⟩ := List.map_eq_singleton_iff.1 h
  obtain ⟨-, rfl⟩ := Prod.mk.inj he
  refine Entries.Ordered.ext (Table.ordered _) t.ordered fun k => Option.ext fun d => ?_
  rw [t.ordered.unique.find?_eq_some_iff]
  exact get?_list_of_tables h f

end

/-- Every file type sees the built-in annotations. -/
theorem get?_list_builtin_iff (f : String) : (builtin.list f).get? n = some d ↔ (n, d) ∈ definitions :=
  get?_list_of_tables tables_builtin f

theorem mem_list_builtin_iff (f : String) {x : String × Definition} :
    x ∈ (builtin.list f).entries ↔ x ∈ definitions := by
  rw [← get?_list_builtin_iff f, Table.get?_eq_some_iff]

/-- Each name has one built-in annotation. -/
theorem eq_of_mem_definitions {e : Definition} (hd : (n, d) ∈ definitions) (he : (n, e) ∈ definitions) : d = e := by
  rw [← get?_list_builtin_iff defaultFiletype] at hd he
  exact Option.some.inj (hd.symm.trans he)

theorem plain_builtin : builtin.Plain := by
  intro f n d h
  exact plain_definitions _ ((lookup?_of_tables tables_builtin).1 h).2

theorem mem_blockinfo : ("blockinfo", blockinfo) ∈ definitions := by
  simp [definitions]

theorem mem_access : ("access", access) ∈ definitions := by
  simp [definitions]

theorem mem_markup : ("markup", markup) ∈ definitions := by
  simp [definitions]

theorem mem_states : ("states", states) ∈ definitions := by
  simp [definitions]

/-- Written out, `blockinfo` says nothing. -/
theorem silent_blockinfo (f : String) : builtin.Silent f "blockinfo" := by
  intro d hd c es v hv
  rw [get?_eq_get?_list, get?_list_builtin_iff] at hd
  obtain rfl := eq_of_mem_definitions hd mem_blockinfo
  obtain ⟨-, rfl⟩ := Prod.mk.inj (Option.some.inj hv)
  rfl

end Registry

/-- A line number as it is written: −1 when there is none. -/
def lineValue (n : Option Nat) : Value :=
  .int (n.elim (-1) Int.ofNat)

/-- Where the block of a token stands, in a file with some lines. -/
def Token.standing (t : Token) (path : String) (lines : List String) : Value :=
  .obj
    [("code", .obj [("end", lineValue t.code.last), ("start", lineValue t.code.first)]),
     ("comment", .obj [("end", lineValue t.comment.last), ("start", lineValue t.comment.first),
       ("type", .str t.kind.name)]),
     ("file", .obj [("end", .int (lines.length - 1 : Nat)), ("path", .str path), ("start", .int 0)])]

theorem SourceFile.last_eq (f : SourceFile) : f.last = f.lines.length - 1 := by
  unfold last lines
  rw [Text.length_splitOnChar]
  rfl

namespace Builder

variable {b : Builder}

theorem lineNumber_eq (n : Option Nat) : Builtin.lineNumber n = lineValue n := by
  cases n <;> rfl

theorem blockInfo_placeOf (t : Token) : Builtin.blockInfo (b.placeOf t) = t.standing b.file.path b.file.lines := by
  simp only [Builtin.blockInfo, Builtin.bounds, Token.standing, lineNumber_eq, placeOf, Value.object, Value.ofTable,
    Value.ofNat, Table.ofList, Table.insertAll, Table.insert, Table.empty, Entries.insert, SourceFile.last_eq,
    SourceFile.first, List.cons_append, List.nil_append, List.foldl_cons, List.foldl_nil, String.reduceLT,
    String.reduceEq, reduceIte]
  rfl

/-- **The block of one token.** It has an access, and says where it stands whatever the comment says. -/
theorem build_builtin (hb : b.registry = Registry.builtin) (t : Token) :
    ∃ es block, b.build t = (es, .ok (some block)) ∧ block.contains "access" = true ∧
      block.get? "blockinfo" = some (t.standing b.file.path b.file.lines) := by
  have hplain : b.registry.Plain := hb ▸ Registry.plain_builtin
  obtain ⟨p₁, p₂, p₃, positions, h₁, h₂, h₃, hbuild⟩ := build_phases hplain t
  have hunique : Entries.Unique (b.registry.withAutofill b.filetype).entries := (Table.ordered _).unique
  have hlist : ∀ {x}, x ∈ (b.registry.list b.filetype).entries ↔ x ∈ Builtin.definitions := by
    intro x
    rw [hb]
    exact Registry.mem_list_builtin_iff _
  have hauto : ∀ {n d}, (n, d) ∈ Builtin.definitions → d.autofill.isSome = true →
      (n, d) ∈ (b.registry.withAutofill b.filetype).entries := by
    intro n d hd ha
    exact List.mem_filter.2 ⟨hlist.2 hd, ha⟩
  -- nothing comes under `blockinfo` from the annotations, so it is filled in
  have hsilent : p₁.block.contains "blockinfo" = false := by
    obtain ⟨q, hq, hsame⟩ := parseAll_plain hplain t (b.tags t) {}
    obtain ⟨rfl, -⟩ := Prod.mk.inj (h₁.symm.trans hq)
    rw [Block.contains_eq, hsame "blockinfo" (hb ▸ Registry.silent_blockinfo _)]
    rfl
  have hinfo : p₂.block.get? "blockinfo" = some (t.standing b.file.path b.file.lines) := by
    obtain ⟨parsed, o, ho, hget⟩ := autofillAll_filled h₂ hunique (hauto Registry.mem_blockinfo rfl) rfl hsilent
    obtain rfl := Except.ok.inj ho
    rw [hget, ← blockInfo_placeOf]
    rfl
  have haccess : p₂.block.contains "access" = true := by
    cases hc : p₁.block.contains "access" with
    | true => rw [Block.contains_eq, autofillAll_present h₂ hc]; exact hc
    | false =>
      obtain ⟨parsed, o, ho, hget⟩ := autofillAll_filled h₂ hunique (hauto Registry.mem_access rfl) rfl hc
      obtain rfl := Except.ok.inj ho
      rw [Block.contains_eq, hget]
      rfl
  -- `blockinfo` is not reworked
  have hfixed : "blockinfo" ∉ (b.registry.withResolve b.filetype).entries.map (·.1) := by
    intro hmem
    obtain ⟨⟨n, d⟩, hx, rfl⟩ := List.mem_map.1 hmem
    obtain ⟨hd, hr⟩ := List.mem_filter.1 hx
    rw [Registry.eq_of_mem_definitions (hlist.1 hd) Registry.mem_blockinfo] at hr
    cases hr
  refine ⟨p₃.events, p₃.block, ?_, ?_, ?_⟩
  · rw [hbuild, Block.isEmpty_of_contains haccess]
    rfl
  · rw [resolveAll_contains h₃, haccess]
  · rw [resolveAll_other h₃ hfixed, hinfo]

/-- The built-in annotations, in a script. -/
def script : Builder where
  registry := Registry.builtin
  file := ⟨"a.js", "", LanguageTable.slashes⟩

theorem registry_script : script.registry = Registry.builtin := by
  dsimp only [script]

end Builder

namespace Parser

theorem ofConfig_eq_ok {r : Registry} {c : Config} {p : Parser} (h : ofConfig r c = .ok p) :
    p.registry = r ∧ p.config = c ∧ LanguageTable.resolve c.styles = .ok p.languages := by
  unfold ofConfig at h
  split at h
  · next t ht =>
    obtain rfl := Except.ok.inj h
    exact ⟨rfl, rfl, ht⟩
  · cases h

/-- **Every text is read to its end, and each comment has its block.** Where a marker appears, there is one block for
each token of the body, which starts behind the comment at the head. Each block has an access and says where its token
stands. -/
theorem parseSource_builtin {c : Config} {p : Parser} (hp : ofConfig Registry.builtin c = .ok p)
    (path text : String) :
    ∃ docs, (p.parseSource path text).2 = .ok docs ∧
      ((p.sourceFile path text).language.appearsIn (p.sourceFile path text).contents = true →
        ∃ header body,
          Scanner.ofGrammar (p.sourceFile path text).language.header c.blankLines .header = .ok header ∧
          Scanner.ofGrammar (p.sourceFile path text).language.body c.blankLines .body = .ok body ∧
          List.Forall₂
            (fun t block => t.kind = .body ∧ block.contains "access" = true ∧
              block.get? "blockinfo" = some (t.standing path (p.sourceFile path text).lines))
            (body.tokenize (p.sourceFile path text).lines
              (((header.tokenize (p.sourceFile path text).lines 0).head?.bind (·.comment.last)).elim 0 (· + 1)))
            docs.body) := by
  obtain ⟨hr, rfl, ht⟩ := ofConfig_eq_ok hp
  have hscan : (p.sourceFile path text).language.Scannable := LanguageTable.scannable_of_resolve ht _
  have hparse : (p.parseSource path text).2 = (p.parseAll (p.sourceFile path text)).2 := rfl
  rw [hparse]
  generalize hf : p.sourceFile path text = f at hscan ⊢
  have hpath : f.path = path := by rw [← hf]; rfl
  cases happ : f.language.appearsIn f.contents with
  | false =>
    refine ⟨{}, ?_, fun h => by cases h⟩
    unfold parseAll
    rw [happ]
    rfl
  | true =>
    have hbuild : ∀ (s : Scanner) n, ∀ t ∈ s.tokenize f.lines n, ∃ es block,
        (p.builder f).build t = (es, .ok (some block)) ∧ t.kind = s.kind ∧ block.contains "access" = true ∧
          block.get? "blockinfo" = some (t.standing path f.lines) := by
      intro s n t ht
      obtain ⟨es, block, hb, haccess, hinfo⟩ := Builder.build_builtin (b := p.builder f) hr t
      exact ⟨es, block, hb, Scanner.kind_of_mem_scan ht, haccess, hpath ▸ hinfo⟩
    have hstart : ∀ n : Option Nat, n.elim 0 (· + 1) = (n.map (· + 1)).getD 0 := by
      intro n
      cases n <;> rfl
    -- the comment at the head gets its block in the same way, and the body starts behind it
    obtain ⟨es, headers, hheaders, -⟩ := Builder.forall₂_buildAll
      (hbuild ⟨f.language.header, max p.config.blankLines 1, .header⟩ 0)
    obtain ⟨es', blocks, hblocks, hall⟩ := Builder.forall₂_buildAll
      (hbuild ⟨f.language.body, max p.config.blankLines 1, .body⟩ _)
    refine ⟨⟨headers.head?.getD {}, blocks⟩, ?_, fun _ => ⟨_, _, Scanner.ofGrammar_of_scannable hscan.header _ _,
      Scanner.ofGrammar_of_scannable hscan.body _ _, ?_⟩⟩
    · unfold parseAll parseBlocks
      rw [happ, if_pos rfl, tokens_of_scannable p hscan.header hscan.body]
      dsimp only
      rw [hheaders]
      dsimp only
      rw [hblocks]
    · rw [hstart]
      exact hall

/-- A comment that gives a `blockinfo` of its own is told where it stands all the same, here below the comment at the
head of its file. -/
theorem parseSource_builtin_forged :
    ∃ p docs, ofConfig Registry.builtin {} = .ok p ∧
      (p.parseSource "a.js" "////\n@name n\n////\n/// @blockinfo elsewhere\nf()").2 = .ok docs ∧
      docs.body.map (·.get? "blockinfo") = [some (.obj
        [("code", .obj [("end", .int 4), ("start", .int 4)]),
         ("comment", .obj [("end", .int 3), ("start", .int 3), ("type", .str "body")]),
         ("file", .obj [("end", .int 4), ("path", .str "a.js"), ("start", .int 0)])])] := by
  obtain ⟨languages, ht, hl⟩ := LanguageTable.forFiletype_js
  have hp : ofConfig Registry.builtin {} = .ok ⟨Registry.builtin, {}, languages⟩ := by
    have hstyles : LanguageTable.resolve ({} : Config).styles = .ok languages := ht
    unfold ofConfig
    rw [hstyles]
  obtain ⟨docs, hdocs, hall⟩ := parseSource_builtin hp "a.js"
    "////\n@name n\n////\n/// @blockinfo elsewhere\nf()"
  refine ⟨_, docs, hp, hdocs, ?_⟩
  have hfile : (⟨Registry.builtin, {}, languages⟩ : Parser).sourceFile "a.js"
      "////\n@name n\n////\n/// @blockinfo elsewhere\nf()" =
      ⟨"a.js", "////\n@name n\n////\n/// @blockinfo elsewhere\nf()", LanguageTable.slashes⟩ := by
    have hjs : Path.filetype "a.js" = "js" := by decide +kernel
    have hfold : Text.foldBreaks "////\n@name n\n////\n/// @blockinfo elsewhere\nf()" =
        "////\n@name n\n////\n/// @blockinfo elsewhere\nf()" := by decide +kernel
    have haliases : "desc" ∈ (Registry.builtin.aliasMap "js").keys ∧
        ∀ a ∈ (Registry.builtin.aliasMap "js").keys,
          Text.contains "////\n@name n\n////\n/// @blockinfo elsewhere\nf()" ("@" ++ a) = false := by decide +kernel
    unfold sourceFile
    dsimp only
    rw [hjs, hl, hfold, Renamer.rename_ofLanguage (by decide) haliases.1 (by decide)]
    intro s hs
    obtain rfl : s = "@" := by simpa [LanguageTable.slashes] using hs
    exact haliases.2
  rw [hfile] at hall
  obtain ⟨header, body, hh, hb, hall⟩ := hall (by decide +kernel)
  obtain rfl := Except.ok.inj hh
  obtain rfl := Except.ok.inj hb
  have hmap := List.forall₂_map_left_iff.2 (List.forall₂_map_right_iff.2 (hall.imp fun t block h => h.2.2.symm))
  rw [List.forall₂_eq_eq_eq] at hmap
  rw [← hmap]
  rfl

end Parser

end DocComments
