import HubRules.Template.Error

/-!
# Frames

Blocks put frames over the data of a template. A path is looked for from a frame;
the first name of a path without a start of its own is looked for further out as
well. A value knows how far below the root of the data it lies, unless it was
computed.
-/

namespace HubRules.Template

/-- A value, and how many steps below the root of the data it lies. A computed value
lies nowhere. -/
structure Found where
  value : Json
  depth : Option Nat

/-- What a block puts over the frames outside it. -/
structure Frame where
  /-- The value that the block is about. -/
  focus : Found
  /-- The variables that the block sets. -/
  locals : List (String × Json)
  /-- The names that the block gives to values. -/
  names : List (String × Found)

def Frame.about (focus : Found) : Frame := ⟨focus, [], []⟩

/-- The data of a template, and the frames over it from the innermost one on. -/
structure Scope where
  data : Json
  frames : List Frame

/-- The position in an array that a name stands for: decimal digits, below `2 ^ 64`. -/
def index? (name : String) : Option Nat :=
  let digits := match name.toList with
    | '+' :: rest => rest
    | all => all
  if digits.isEmpty || !digits.all Char.isDigit then none
  else
    let n := digits.foldl (fun n c => 10 * n + (c.toNat - '0'.toNat)) 0
    if n < Nat.pow 2 64 then some n else none

def stepInto (value : Json) (name : String) : Except RenderFault (Option Json) :=
  match value with
  | .array items =>
    match index? name with
    | some i => .ok items[i]?
    | none => .error (.invalidIndex name)
  | .object members => .ok (Members.get? members name)
  | _ => .ok none

/-- The value that steps from another one lead to. -/
def follow (value : Json) : List String → Except RenderFault (Option Json)
  | [] => .ok (some value)
  | name :: names => do
    match ← stepInto value name with
    | some inner => follow inner names
    | none => return none

/-- The value that steps from a found one lead to. -/
def Found.follow (found : Found) (names : List String) : Except RenderFault (Option Found) := do
  let value ← Template.follow found.value names
  return value.map fun value => ⟨value, found.depth.map (· + names.length)⟩

namespace Scope

/-- The data of a template without frames over it. -/
def ofData (data : Json) : Scope := ⟨data, []⟩

def push (scope : Scope) (frame : Frame) : Scope := { scope with frames := frame :: scope.frames }

def root (scope : Scope) : Found := ⟨scope.data, some 0⟩

def rootFrame (scope : Scope) : Frame := .about scope.root

/-- All frames, from the innermost one to the one about the data. -/
def allFrames (scope : Scope) : List Frame := scope.frames ++ [scope.rootFrame]

def inner (scope : Scope) : Frame := scope.frames.headD scope.rootFrame

/-- The value of a name that a block gave, of the innermost such block. -/
def named? (scope : Scope) (name : String) : Option Found :=
  scope.frames.findSome? (·.names.lookup name)

/-- The innermost value of the data that has a step of a name. -/
def owner? (scope : Scope) (name : String) : Option Found :=
  (scope.allFrames.map (·.focus)).find? fun focus =>
    focus.depth.isSome && (stepInto focus.value name).toOption.join.isSome

/-- The value of a path. The frames are searched outwards for its first name if they
are about values of the data; inside a computed value nothing further out is seen. -/
def evaluate (scope : Scope) (path : Path) : Except RenderFault (Option Found) :=
  match path.base, path.names with
  | .locals levels, names =>
    .ok do
      let frame ← scope.allFrames[levels]?
      let value ← (frame.locals.lookup (← names.head?))
      return ⟨value, none⟩
  | .root, names => scope.root.follow names
  | .frame 0, [] => .ok (some scope.inner.focus)
  | .frame levels, [] =>
    .ok (some (scope.allFrames.getD levels scope.inner).focus)
  | .frame levels, name :: names =>
    match scope.named? name with
    | some found => found.follow names
    | none =>
      let focus := scope.inner.focus
      match levels with
      | 0 =>
        if focus.depth.isNone then focus.follow (name :: names)
        else match scope.owner? name with
          | some owner => owner.follow (name :: names)
          | none => .ok none
      | levels =>
        (scope.allFrames.getD levels scope.inner).focus.follow (name :: names)

end Scope

end HubRules.Template
