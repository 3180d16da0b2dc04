import NineBit.Asm.Call
import NineBit.Asm.Macro
import NineBit.Report

/-!
# Macro expansion

Expansion replaces every call by the body of its macro, expanded in turn. The arguments of a call
are expanded where they stand, each becoming one list of tokens, and are bound to the parameters in
a new frame inside the scope that defines the macro; the body sees that scope and not the caller's.
A name that is already being expanded is not expanded again, so the depth of expansion is bounded
by the number of names. A call that cannot be expanded is dropped. A call is evaluated inside the
sequence that it stands in, and so are its arguments and its body.
-/

namespace NineBit.Asm

/-- A problem with the use of macros. -/
inductive ExpansionFault where
  | strayParenthesis (text : String)
  | nestedGroup
  | unclosedArguments (name : String)
  | unknownMacro (name : String) (visible : List String)
  | recursiveCall (name : String) (chain : List String)
  | argumentCount (name : String) (parameters : List String) (provided : Nat)
  | unknownRegister (name : String)
  | registerWithArguments (name : String)
  | recursiveRegister (name : String)
  | noRegister (text : String)
  deriving Repr, DecidableEq

namespace ExpansionFault

/-- The wording of a problem. -/
def message : ExpansionFault → String
  | strayParenthesis text => s!"unexpected '{text}' outside a macro argument list"
  | nestedGroup => "cannot start a group in a group"
  | unclosedArguments name => s!"unterminated argument list for macro '{name}'"
  | unknownMacro name _ | unknownRegister name => s!"cannot find macro named '{name}'"
  | recursiveCall name chain =>
    let calls := " -> ".intercalate chain
    s!"recursive expansion of macro '{name}' ({calls})"
  | argumentCount name parameters provided =>
    let names := ", ".intercalate parameters
    s!"macro {name} requires {parameters.length} arguments ({names}) but {provided} provided"
  | registerWithArguments name =>
    s!"macro {name} takes arguments and cannot be used as a register"
  | recursiveRegister name => s!"recursive expansion of macro '{name}'"
  | noRegister text => s!"register action '{text}' needs a register argument (a, b, c or d)"

/-- The hint on a misspelt name. -/
def hint : ExpansionFault → Option String
  | unknownMacro name visible => Text.suggestion (Text.similar name visible)
  | _ => none

/-- Reports the problem at a place. -/
def report (fault : ExpansionFault) (span : Span) : Report Unit :=
  .problem ⟨.expansion, fault.message, some span, fault.hint⟩

end ExpansionFault

namespace Expansion

/-- Where items are expanded: the scope, the names being expanded, outermost first, and what
    expands the body of a macro. -/
structure Context where
  scope : Scope
  stack : List String
  expandBody : Scope → List String → List Token → Report (List Token)

/-- The length up to which a note shows an expansion. -/
def previewLength : Nat := 50

/-- The texts of tokens, cut short. -/
def preview (tokens : List Token) : String :=
  let text := " ".intercalate (tokens.map (·.text))
  if previewLength < text.length then String.ofList (text.toList.take previewLength) ++ "..."
  else text

/-- The scope of a body: inside the scope that defines the macro, the parameters stand for the
    arguments. -/
def bindArguments (m : Macro) (arguments : List (List Token)) (home : Scope) : Scope :=
  (m.parameters.zip arguments).foldl
    (fun scope bound => scope.define ⟨bound.1, [], bound.2, none⟩) home.child

/-- Expands a call whose arguments are expanded. A call of the program itself, and not of a body,
    makes a note of its expansion. -/
def expandCall (ctx : Context) (ofProgram : Bool) (head : Token) (arguments : List (List Token)) :
    Report (List Token) := do
  let name := head.text
  match ctx.scope.resolve? name with
  | none =>
    (ExpansionFault.unknownMacro name ctx.scope.visible).report head.span
    return []
  | some (m, home) =>
    if name ∈ ctx.stack then
      (ExpansionFault.recursiveCall name (ctx.stack ++ [name])).report head.span
      return []
    else if arguments.length ≠ m.parameters.length then
      (ExpansionFault.argumentCount name m.parameters arguments.length).report head.span
      return []
    else
      unless arguments.isEmpty do
        Report.tell (.noteOnce head.span.start ⟨m.signature, some head.span⟩)
      let body ← ctx.expandBody (bindArguments m arguments home) (ctx.stack ++ [name]) m.body
      if ofProgram then
        Report.note s!"expands to {preview body}" (some head.span)
      return body

/-- The register action on the register that a macro expands to. -/
def expandRegister (ctx : Context) (token : Token) : Report (List Token) := do
  Report.ask (.character token.text 0)
  let operation := String.ofList (token.text.toList.take 1)
  let name := String.ofList (token.text.toList.drop 1)
  match ctx.scope.resolve? name with
  | none =>
    (ExpansionFault.unknownRegister name).report token.span
    return []
  | some (m, home) =>
    if !m.parameters.isEmpty then
      (ExpansionFault.registerWithArguments name).report token.span
      return []
    else if name ∈ ctx.stack then
      (ExpansionFault.recursiveRegister name).report token.span
      return []
    else
      let body ← ctx.expandBody home.child (ctx.stack ++ [name]) m.body
      match body with
      | [register] =>
        if register.kind = .location && (Isa.Register.ofName? register.text).isSome then
          return [⟨.registerAction, operation ++ register.text, token.span⟩]
        else
          (ExpansionFault.noRegister token.text).report token.span
          return []
      | _ =>
        (ExpansionFault.noRegister token.text).report token.span
        return []

mutual

/-- Expands an item. -/
def expandItem (ctx : Context) (ofProgram : Bool) : Item → Report (List Token)
  | .plain token => return [token]
  | .register token => Report.nested fun _ => expandRegister ctx token
  | .stray token => do
    (ExpansionFault.strayParenthesis token.text).report token.span
    return []
  | .nestedGroup token => do
    ExpansionFault.nestedGroup.report token.span
    return []
  | .call head arguments closed => Report.nested fun _ => do
    let expanded ← expandArguments ctx [] arguments
    unless closed do
      (ExpansionFault.unclosedArguments head.text).report head.span
    expandCall ctx ofProgram head expanded

/-- Expands items after the tokens so far, which come last first. -/
def expandItems (ctx : Context) (ofProgram : Bool) (tokens : List Token) :
    List Item → Report (List Token)
  | [] => return tokens.reverse
  | item :: rest => do
    let expanded ← expandItem ctx ofProgram item
    expandItems ctx ofProgram (expanded.reverse ++ tokens) rest

/-- Expands arguments after those so far, which come last first. -/
def expandArguments (ctx : Context) (arguments : List (List Token)) :
    List (List Item) → Report (List (List Token))
  | [] => return arguments.reverse
  | argument :: rest => do
    let expanded ← expandItems ctx false [] argument
    expandArguments ctx (expanded :: arguments) rest

end

/-- Expands tokens with bodies nested up to a depth. -/
def expandTokens : Nat → Bool → Scope → List String → List Token → Report (List Token)
  | 0, _, _, _, _ => return []
  | depth + 1, ofProgram, scope, stack, tokens =>
    expandItems ⟨scope, stack, expandTokens depth false⟩ ofProgram [] (Item.ofTokens tokens)

/-- The names that can be expanded: the macros and their parameters. -/
def names (macros : Frame) : List String := macros.flatMap fun m => m.name :: m.parameters

end Expansion

/-- Expands the macro calls of a program. The nesting is never deeper than the names allow. -/
def expand (macros : Frame) (tokens : List Token) : Report (List Token) :=
  Expansion.expandTokens ((Expansion.names macros).length + 1) true [macros] [] tokens

end NineBit.Asm
