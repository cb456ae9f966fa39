import HubRules.Template.Source
import HubRules.Text.Unicode

/-!
# The layout of templates

Which blanks of a source reach the output. A tag that trims takes all blanks on its
side; a block tag or comment that stands alone on its line takes the line with it.
-/

namespace HubRules.Template

/-- A blank that does not end a line. -/
def isIndent (c : Char) : Bool := c == ' ' || c == '\t'

def isLineEnd (c : Char) : Bool := c == '\n' || c == '\r'

/-- Whether a tag takes its line with it where it stands alone. -/
def Tag.mayStandAlone {α : Type} : Tag α → Bool
  | .output _ _ => false
  | _ => true

/-- Whether a text ends at the beginning of a line, indentation apart. The first
text of a source begins a line. -/
def endsAtLineStart (first : Bool) (text : Text) : Bool :=
  match text.reverse.dropWhile isIndent with
  | [] => first
  | c :: _ => isLineEnd c

/-- Whether a text continues with the end of a line, or is the empty end of the
source. -/
def startsAtLineEnd (last : Bool) (text : Text) : Bool :=
  match text.dropWhile isIndent with
  | [] => last && text.isEmpty
  | c :: _ => isLineEnd c

/-- What a tag does to the text after it. -/
structure Trimming where
  /-- All leading blanks go. -/
  blanks : Bool
  /-- The rest of the line goes. -/
  line : Bool

/-- The text without the rest of its first line. -/
def dropLineRest (text : Text) : Text :=
  match text.dropWhile isIndent with
  | '\r' :: '\n' :: rest => rest
  | '\n' :: rest => rest
  | rest => rest

namespace Trimming

def none : Trimming := ⟨false, false⟩

def apply (trimming : Trimming) (text : Text) : Text :=
  if trimming.blanks then Text.trimStart text
  else if trimming.line then dropLineRest text
  else text

/-- What goes of a later text, if no tag changes it. A line is over once there was
text, unless that text went altogether. -/
def past (trimming : Trimming) (text : Text) : Trimming :=
  if text.isEmpty || (trimming.blanks && text.all isBlank) then trimming
  else { trimming with line := false }

/-- What a tag makes of what goes. -/
def afterTag {α : Type} (trimming : Trimming) (tag : Tag α) (trimsAfter alone : Bool) :
    Trimming where
  blanks := match tag with
    | .comment => trimming.blanks
    | _ => trimsAfter
  line := if tag.mayStandAlone then alone else trimming.line

end Trimming

/-- A piece of a template: text for the output, or a tag. -/
inductive Piece where
  | text (text : Text)
  | tag (tag : Tag Text) (place : Position)

/-- The pieces of a text and the tags after it. -/
def layoutFrom (trimming : Trimming) (first : Bool) (text : Text) :
    List (Mark × Text) → List Piece
  | [] => [.text (trimming.apply text)]
  | (mark, next) :: rest =>
    let alone := mark.tag.mayStandAlone && startsAtLineEnd rest.isEmpty next
      && endsAtLineStart first text
    let kept := trimming.apply text
    let kept := if mark.trimsBefore then Text.trimEnd kept else kept
    let kept := if alone then Text.dropEndWhile isIndent kept else kept
    let after := (trimming.past text).afterTag mark.tag mark.trimsAfter alone
    let next := match mark.tag with
      | .opening .verbatim _ _ => skipBlanks next
      | _ => next
    .text kept :: .tag mark.tag mark.place :: layoutFrom after false next rest

def Source.layout (source : Source) : List Piece :=
  layoutFrom .none true source.first source.marks

end HubRules.Template
