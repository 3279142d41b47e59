import DocComments.Proofs.Registry.Register

/-!
# Registrations that fail

A registration comes down to definitions of its name: a single one, or one for each file type that it lists. It is the
same as to register these one after the other, and each of them is taken as a whole or not at all.

* `Registration.parts`, `Registration.fault?`: what a registration comes down to, and what is wrong before that.
* `register_eq_registerAll`: **a registration is the registrations of its parts.**
* `exists_of_registerAll`: where a run of registrations stops.
* `register_failed`: what is left behind by a registration that fails.
-/

namespace DocComments

/-- The definition for one file type alone. -/
def Definition.only (d : Definition) (filetype : String) : Definition :=
  { d with filetypes := [filetype] }

namespace Registration

/-- The definitions that a registration comes down to. -/
def parts : Registration → List Definition
  | .parse callback => [{ parse := callback }]
  | .aliases names => [{ aliases := names }]
  | .definition d => [d]
  | .filetypes ds => ds.entries.map fun x => x.2.only x.1

/-- What is wrong with a registration, whatever its parts. -/
def fault? : Registration → Option DefinitionFault
  | .parse _ => none
  | .aliases _ => none
  | .definition _ => none
  | .filetypes ds =>
    if ds.isEmpty then some .noFiletypes else (ds.keys.find? Registry.reservedKeys.contains).map .reservedKey

theorem fault?_filetypes_eq_none_iff {ds : Table Definition} :
    (filetypes ds).fault? = none ↔ ds.isEmpty = false ∧ ∀ key ∈ ds.keys, key ∉ Registry.reservedKeys := by
  unfold fault?
  dsimp only
  cases ds.isEmpty with
  | true => simp
  | false => simp [List.find?_eq_none]

end Registration

namespace Registry

variable {r r' : Registry} {n : String} {d : Definition} {reg : Registration} {fault : RegistryFault}

theorem register_of_not_isWord (hn : isWord n = false) : r.register n reg = (r, some (.invalidName n)) := by
  unfold register
  rw [hn]
  rfl

theorem register_definition_of_ok (hn : isWord n = true) (h : r.define n d = .ok r') :
    r.register n (.definition d) = (r', none) := by
  unfold register
  rw [hn]
  dsimp only [Bool.not_true]
  rw [h]
  rfl

theorem register_definition_of_error (hn : isWord n = true) (h : r.define n d = .error fault) :
    r.register n (.definition d) = (r, some fault) := by
  unfold register
  rw [hn]
  dsimp only [Bool.not_true]
  rw [h]
  rfl

theorem register_of_fault? {x : DefinitionFault} (hn : isWord n = true) (h : reg.fault? = some x) :
    r.register n reg = (r, some (.invalidDefinition n x)) := by
  cases reg with
  | parse _ | aliases _ | definition _ => cases h
  | filetypes ds =>
    unfold Registration.fault? at h
    unfold register
    rw [hn]
    dsimp only at h ⊢
    cases hempty : ds.isEmpty with
    | true =>
      rw [hempty] at h
      obtain rfl := Option.some.inj h
      rfl
    | false =>
      rw [hempty] at h
      obtain ⟨key, hkey, rfl⟩ := Option.map_eq_some_iff.1 h
      rw [hkey]
      rfl

/-- A registration that is refused before its parts are looked at leaves nothing behind. -/
theorem eq_of_refused (hbad : isWord n = false ∨ reg.fault? ≠ none) (h : r.register n reg = (r', some fault)) :
    r' = r := by
  cases hn : isWord n with
  | false =>
    rw [register_of_not_isWord hn] at h
    exact (Prod.mk.inj h).1.symm
  | true =>
    have hfault : reg.fault? ≠ none := hbad.resolve_left (by simp [hn])
    obtain ⟨x, hx⟩ := Option.ne_none_iff_exists'.1 hfault
    rw [register_of_fault? hn hx] at h
    exact (Prod.mk.inj h).1.symm

/-! ## Runs of registrations -/

theorem registerAll_cons_of_none {regs : List (String × Registration)} (h : r.register n reg = (r', none)) :
    r.registerAll ((n, reg) :: regs) = r'.registerAll regs := by
  rw [registerAll, h]

theorem registerAll_cons_of_some {regs : List (String × Registration)} (h : r.register n reg = (r', some fault)) :
    r.registerAll ((n, reg) :: regs) = (r', some fault) := by
  rw [registerAll, h]

theorem registerAll_singleton (r : Registry) (n : String) (reg : Registration) :
    r.registerAll [(n, reg)] = r.register n reg := by
  cases h : r.register n reg with
  | mk r' o =>
    cases o with
    | none => exact registerAll_cons_of_none h
    | some x => exact registerAll_cons_of_some h

/-- Definitions for one file type each are registered like any others. -/
theorem defineEach_eq_registerAll (hn : isWord n = true) (r : Registry) (ds : List (String × Definition)) :
    r.defineEach n ds = r.registerAll (ds.map fun x => (n, .definition (x.2.only x.1))) := by
  induction ds generalizing r with
  | nil => rfl
  | cons x ds ih =>
    rw [defineEach, List.map_cons]
    cases h : r.define n (x.2.only x.1) with
    | ok r' =>
      rw [registerAll_cons_of_none (register_definition_of_ok hn h), ← ih]
      unfold Definition.only at h
      rw [h]
    | error x =>
      rw [registerAll_cons_of_some (register_definition_of_error hn h)]
      unfold Definition.only at h
      rw [h]

/-- **A registration is the registrations of its parts**, one after the other. -/
theorem register_eq_registerAll (hn : isWord n = true) (h : reg.fault? = none) (r : Registry) :
    r.register n reg = r.registerAll (reg.parts.map fun d => (n, .definition d)) := by
  cases reg with
  | parse callback => exact (registerAll_singleton r n (.definition { parse := callback })).symm
  | aliases names => exact (registerAll_singleton r n (.definition { aliases := names })).symm
  | definition d => exact (registerAll_singleton r n (.definition d)).symm
  | filetypes ds =>
    obtain ⟨hempty, hkeys⟩ := Registration.fault?_filetypes_eq_none_iff.1 h
    have hfind : ds.keys.find? reservedKeys.contains = none := by simpa [List.find?_eq_none] using hkeys
    have hregister : r.register n (.filetypes ds) = r.defineEach n ds.entries := by
      unfold register
      rw [hn]
      dsimp only
      rw [hempty, hfind]
      rfl
    rw [hregister, defineEach_eq_registerAll hn, Registration.parts, List.map_map]
    rfl

/-- A run of registrations stops at the first one that fails. -/
theorem exists_of_registerAll {regs : List (String × Registration)} (h : r.registerAll regs = (r', some fault)) :
    ∃ before x after r₁, regs = before ++ x :: after ∧ r.registerAll before = (r₁, none) ∧
      r₁.register x.1 x.2 = (r', some fault) := by
  induction regs generalizing r with
  | nil => cases h
  | cons x regs ih =>
    cases hx : r.register x.1 x.2 with
    | mk r₂ o =>
      cases o with
      | none =>
        rw [registerAll_cons_of_none hx] at h
        obtain ⟨before, y, after, r₁, rfl, hbefore, hy⟩ := ih h
        exact ⟨x :: before, y, after, r₁, rfl, by rw [registerAll_cons_of_none hx, hbefore], hy⟩
      | some z =>
        rw [registerAll_cons_of_some hx] at h
        exact ⟨[], x, regs, r, rfl, rfl, hx.trans h⟩

/-- A definition that is not registered leaves nothing behind, however many file types it is for. -/
theorem eq_of_register_definition (h : r.register n (.definition d) = (r', some fault)) : r' = r := by
  cases hn : isWord n with
  | false => exact eq_of_refused (.inl hn) h
  | true =>
    cases hd : r.define n d with
    | ok r₁ =>
      rw [register_definition_of_ok hn hd] at h
      cases h
    | error x =>
      rw [register_definition_of_error hn hd] at h
      exact (Prod.mk.inj h).1.symm

/-- A registration for several file types that fails at one of them leaves those before it. -/
theorem exists_of_register_filetypes {ds : Table Definition} (hn : isWord n = true)
    (hfault : (Registration.filetypes ds).fault? = none) (h : r.register n (.filetypes ds) = (r', some fault)) :
    ∃ before f d after, ds.entries = before ++ (f, d) :: after ∧
      r.registerAll (before.map fun x => (n, .definition (x.2.only x.1))) = (r', none) ∧
      r'.register n (.definition (d.only f)) = (r', some fault) := by
  rw [register_eq_registerAll hn hfault, Registration.parts, List.map_map] at h
  obtain ⟨before, x, after, r₁, hregs, hbefore, hx⟩ := exists_of_registerAll h
  obtain ⟨before, rest, hentries, rfl, hrest⟩ := List.map_eq_append_iff.1 hregs
  obtain ⟨⟨f, d⟩, after, rfl, rfl, -⟩ := List.map_eq_cons_iff.1 hrest
  obtain rfl : r' = r₁ := eq_of_register_definition hx
  exact ⟨before, f, d, after, hentries, hbefore, hx⟩

/-- **A registration that fails leaves no half-written definition.** The registry is as it was when the name is no word,
when a single definition was to be registered, and when the file types are missing or one of them is a reserved key.
Otherwise it is as if only the definitions before the first one that fails had been registered, in the order of their
file types. -/
theorem register_failed (h : r.register n reg = (r', some fault)) :
    (isWord n = false → r' = r) ∧
      ((∀ ds, reg ≠ .filetypes ds) → r' = r) ∧
      ∀ ds, reg = .filetypes ds →
        (ds.isEmpty = true ∨ (∃ key ∈ ds.keys, key ∈ reservedKeys) → r' = r) ∧
          (isWord n = true → ds.isEmpty = false → (∀ key ∈ ds.keys, key ∉ reservedKeys) →
            ∃ before f d after, ds.entries = before ++ (f, d) :: after ∧
              r.registerAll (before.map fun x => (n, .definition (x.2.only x.1))) = (r', none) ∧
              r'.register n (.definition (d.only f)) = (r', some fault)) := by
  refine ⟨fun hn => eq_of_refused (.inl hn) h, ?_, ?_⟩
  · intro hsingle
    cases reg with
    | parse callback => exact eq_of_register_definition (d := { parse := callback }) h
    | aliases names => exact eq_of_register_definition (d := { aliases := names }) h
    | definition d => exact eq_of_register_definition h
    | filetypes ds => exact absurd rfl (hsingle ds)
  · rintro ds rfl
    refine ⟨fun hbad => eq_of_refused (.inr fun hnone => ?_) h, fun hn hempty hkeys => ?_⟩
    · obtain ⟨hempty, hkeys⟩ := Registration.fault?_filetypes_eq_none_iff.1 hnone
      rcases hbad with hbad | ⟨key, hmem, hkey⟩
      · rw [hempty] at hbad
        cases hbad
      · exact hkeys key hmem hkey
    · exact exists_of_register_filetypes hn (Registration.fault?_filetypes_eq_none_iff.2 ⟨hempty, hkeys⟩) h

/-- The second of three file types fails, since its alias belongs to an annotation for all files. The first one stays,
and the third is not reached. -/
theorem register_failed_halfway :
    let r := (({} : Registry).register "arg" (.aliases ["param"])).1
    let ds : Table Definition := .ofList [("css", { aliases := ["n"] }), ("js", { aliases := ["param"] }), ("ts", {})]
    let fault := RegistryFault.aliasCollision "param" "note" (.isAliasOf "arg")
    ∃ r', r.register "note" (.filetypes ds) = (r', some fault) ∧
      r'.names "css" = ["arg", "note"] ∧ r'.names "js" = ["arg"] ∧ r'.names "ts" = ["arg"] ∧
      ∃ before f d after, ds.entries = before ++ (f, d) :: after ∧
        r.registerAll (before.map fun x => ("note", .definition (x.2.only x.1))) = (r', none) ∧
        r'.register "note" (.definition (d.only f)) = (r', some fault) := by
  intro r ds fault
  have h : r.register "note" (.filetypes ds) = ((r.register "note" (.filetypes ds)).1, some fault) :=
    Prod.ext rfl (by decide +kernel)
  obtain ⟨-, -, hfiletypes⟩ := register_failed h
  exact ⟨_, h, by decide +kernel, by decide +kernel, by decide +kernel,
    (hfiletypes ds rfl).2 (by decide +kernel) (by decide +kernel) (by decide +kernel)⟩

end Registry

end DocComments
