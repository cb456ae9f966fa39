import HubRules.Json.Basic
import HubRules.Text.Basic

/-!
# The syntax of templates

A template is text with tags between doubled braces. This module holds what tags
are made of (paths, literals and calls) and the tree that a template is once its
blocks are nested. Literals stand as they were written in the tags of a source,
and as values in a tree.
-/

namespace HubRules.Template

/-- A place in a source: line and column, both from one. -/
structure Position where
  line : Nat
  column : Nat
  deriving DecidableEq, Repr

namespace Position

def start : Position := ⟨1, 1⟩

def after (place : Position) (c : Char) : Position :=
  if c = '\n' then ⟨place.line + 1, 1⟩ else ⟨place.line, place.column + 1⟩

def afterText (place : Position) (text : Text) : Position := text.foldl after place

end Position

/-- Where a path begins. -/
inductive Base where
  /-- The frame so many levels out. -/
  | frame (levels : Nat)
  /-- The data of the whole template. -/
  | root
  /-- The variables of the frame so many levels out. -/
  | locals (levels : Nat)
  deriving DecidableEq, Repr

/-- A path to a value: the names to follow from where it begins. -/
structure Path where
  base : Base
  names : List String
  /-- The path as it was written. -/
  text : Text
  deriving DecidableEq, Repr

/-- What stands for a value. -/
inductive Expr (α : Type) where
  | literal (value : α)
  | path (path : Path)
  /-- A call in parentheses. -/
  | call (name : Text) (params : List (Expr α)) (hash : List (String × Expr α))

/-- The call of a helper. -/
structure Call (α : Type) where
  name : Text
  params : List (Expr α)
  hash : List (String × Expr α)

/-- What a tag without a block puts into the output. -/
inductive Subject (α : Type) where
  /-- The value of a path, or the helper of that name. -/
  | path (path : Path)
  | call (call : Call α)
  /-- The value of an expression, or the helper that the value names. -/
  | computed (expr : Expr α)

/-- The kinds of blocks. -/
inductive BlockKind where
  | section
  /-- A block whose body is text up to its end. -/
  | verbatim
  /-- A partial template with a body to fall back on. -/
  | fallback
  /-- A decorator with a body. -/
  | decorator
  deriving DecidableEq, Repr

/-- A tag, without its braces. -/
inductive Tag (α : Type) where
  | comment
  | output (subject : Subject α) (escaped : Bool)
  | opening (kind : BlockKind) (call : Call α) (names : List String)
  | otherwise
  | otherwiseCall (call : Call α) (names : List String)
  | closing (name : Text)
  | inclusion (call : Call α)
  | decorator (call : Call α)

/-- An element of a template. A block that an `else` of another block opens has no
place of its own. -/
inductive Element where
  | text (text : Text)
  | output (place : Position) (subject : Subject Json) (escaped : Bool)
  | block (place : Option Position) (call : Call Json) (names : List String)
      (body : List Element) (inverse : Option (List Element))
  | inclusion (place : Position) (call : Call Json)
  | fallback (place : Position) (call : Call Json) (body : List Element)
  | decorator (place : Position) (call : Call Json)

end HubRules.Template

namespace HubRules

/-- A template: its elements in order. -/
structure Template where
  elements : List Template.Element

end HubRules
