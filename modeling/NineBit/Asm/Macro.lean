import NineBit.Asm.Token
import NineBit.Text.Quoted

/-!
# Macros and their scopes

A macro has a name, parameters and a body of tokens. A scope is a chain of frames, innermost first;
a name stands for the macro of the first frame that defines it.
-/

namespace NineBit.Asm

/-- A macro. An argument that is bound to a parameter is a macro without parameters and place. -/
structure Macro where
  name : String
  parameters : List String
  body : List Token
  span : Option Span
  deriving Repr, DecidableEq

/-- The name with the parameters in parentheses. -/
def Macro.signature (m : Macro) : String :=
  let parameters := ", ".intercalate m.parameters
  s!"{m.name}({parameters})"

/-- The macros of one level of a scope, each name once. -/
abbrev Frame := List Macro

/-- The frame with a macro, in place of an earlier one of that name. -/
def Frame.define (m : Macro) : Frame → Frame
  | [] => [m]
  | first :: rest => if first.name = m.name then m :: rest else first :: Frame.define m rest

/-- The macro of a name. -/
def Frame.find? (frame : Frame) (name : String) : Option Macro :=
  List.find? (fun m => m.name == name) frame

/-- A chain of frames, innermost first. -/
abbrev Scope := List Frame

namespace Scope

/-- The outermost scope, without macros. -/
def root : Scope := [[]]

/-- The scope with an empty frame inside. -/
def child (scope : Scope) : Scope := [] :: scope

/-- The scope with a macro in its innermost frame. -/
def define (m : Macro) : Scope → Scope
  | [] => [[m]]
  | frame :: outer => frame.define m :: outer

/-- The scope around the innermost frame; the outermost scope has none and stays. -/
def parent : Scope → Scope
  | _ :: frame :: outer => frame :: outer
  | scope => scope

/-- The macro that a name stands for, and the scope from the frame that defines it outwards. -/
def resolve? (name : String) : Scope → Option (Macro × Scope)
  | [] => none
  | frame :: outer =>
    match frame.find? name with
    | some m => some (m, frame :: outer)
    | none => resolve? name outer

/-- The number of frames around the innermost one. -/
def depth (scope : Scope) : Nat := scope.length - 1

/-- The names with a meaning, in ascending order. -/
def visible (scope : Scope) : List String :=
  ((scope.flatMap fun frame => frame.map (·.name)).mergeSort fun x y => decide (x ≤ y)).eraseDups

/-- The names of the innermost frame, in ascending order. -/
def localNames (scope : Scope) : List String :=
  ((scope.headD []).map (·.name)).mergeSort fun x y => decide (x ≤ y)

/-- The scope in brackets: its own names and its depth. -/
def text (scope : Scope) : String :=
  let names := ", ".intercalate (scope.localNames.map Text.quoted)
  s!"MacroScope([{names}], depth={scope.depth})"

end Scope

end NineBit.Asm
