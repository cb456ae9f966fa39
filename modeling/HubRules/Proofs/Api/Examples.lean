import HubRules.Api
import HubRules.Proofs.FileTree.Views
import HubRules.Proofs.Template.Refinement

/-!
# Examples of the interface's document

Which files the document of the interface is rendered from is up to its template, which names them
in its examples. A helper that knows some files only (`exampleFileAmong`) tells: if it renders the
document, these are all files that the document is rendered from, and other trees in which they
are the same give the same document (`helpers_refine`).
-/

namespace HubRules.Api

open Outcome

variable {tree other : FileTree} {root : String} {names : List String}

def namedFile? (text : Text) : Option String := do
  let (_, object) ← Text.cut ':' text
  let fields ← (readExample object).toOption
  (← Members.get? fields fileField).string?

def exampleFileAmong (names : List String) (tree : FileTree) (root : String) : Helper := fun text =>
  match namedFile? text with
  | some file =>
    if names.contains file then exampleFile tree root text
    else .error (.exampleFile (FilePath.join root file) .notFound)
  | none => exampleFile tree root text

/-- The helpers of the document's template, for the files of some names only. -/
def helpersAmong (names : List String) (tree : FileTree) (root : String) : Helpers :=
  Helpers.empty.insert "example_file" (exampleFileAmong names tree root)

theorem exampleValue_refines {name : String}
    (h : other.shown? (FilePath.join root name) = tree.shown? (FilePath.join root name)) :
    Refines (exampleValue tree root name) (exampleValue other root name) :=
  .bind (.mapError fun _ hread => FileTree.readText_of_shown? h hread) fun _ => .refl _

theorem exampleFile_refines {text : Text}
    (h : ∀ file, namedFile? text = some file →
      other.shown? (FilePath.join root file) = tree.shown? (FilePath.join root file)) :
    Refines (exampleFile tree root text) (exampleFile other root text) := by
  unfold exampleFile
  unfold namedFile? at h
  cases hcut : Text.cut ':' text with
  | none => exact .refl _
  | some parts =>
    obtain ⟨name, object⟩ := parts
    dsimp only
    cases hfields : readExample object with
    | error cause => exact .refl _
    | ok fields =>
      simp only [mapError_ok, bind, Except.bind]
      split
      · next file hfile =>
        refine .bind (exampleValue_refines (h file ?_)) fun _ => .refl _
        simp [hcut, hfields, hfile, Except.toOption, Json.string?]
      · exact .refl _

theorem exampleFileAmong_refines
    (h : ∀ name ∈ names,
      other.shown? (FilePath.join root name) = tree.shown? (FilePath.join root name)) :
    Template.HelperRefines (exampleFileAmong names tree root) (exampleFile other root) := by
  intro text
  unfold exampleFileAmong
  cases hfile : namedFile? text with
  | none => exact exampleFile_refines fun file heq => nomatch hfile.symm.trans heq
  | some file =>
    dsimp only
    split
    · next hknown =>
      refine exampleFile_refines fun other heq => ?_
      obtain rfl : file = other := Option.some.inj (hfile.symm.trans heq)
      exact h file (by simpa using hknown)
    · exact .error _

/-- The document is rendered alike from trees in which the files of its examples are the same. -/
theorem helpers_refine
    (h : ∀ name ∈ names,
      other.shown? (FilePath.join root name) = tree.shown? (FilePath.join root name))
    (name : String) :
    Option.Rel Template.HelperRefines ((helpersAmong names tree root).get? name)
      ((helpers other root).get? name) := by
  unfold helpersAmong helpers Helpers.insert Helpers.insertEntry Helpers.get? Helpers.empty
  simp only [List.lookup_cons, List.lookup_nil]
  split
  · exact .some (exampleFileAmong_refines h)
  · exact .none

end HubRules.Api
