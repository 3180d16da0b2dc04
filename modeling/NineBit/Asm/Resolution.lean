import NineBit.Asm.Parser
import NineBit.Report

/-!
# Resolution of references

A reference is looked up under the path of its own block, then under the paths of the blocks around
it, innermost first. This goes in rounds. A round looks up every reference that still waits, once:
one that is not found drops the innermost block of its path and waits for the next round, and one
that is not found in the outermost block has failed. So references that no block can settle are
reported in the order of the depth of their blocks, and within a round in the order of the text.
A round that changes nothing would be the last one, and whatever waits would be given up.
-/

namespace NineBit.Asm

/-- What has come of a reference. -/
inductive Resolution where
  | waiting
  /-- It means the statement with this index. -/
  | resolved (id : Nat)
  | failed
  deriving Repr, DecidableEq

/-- A reference on its way: the path that it is looked up under next, and what has come of it. -/
structure Search where
  reference : Reference
  path : BlockPath
  state : Resolution
  deriving Repr, DecidableEq

/-- The labels by their keys. -/
def LabelTable.keys (table : LabelTable) : List (String × Nat) :=
  table.map fun entry => (entry.1.key, entry.2)

namespace Search

/-- Before the first round. -/
def start (r : Reference) : Search := ⟨r, r.block, .waiting⟩

/-- The next round looks the reference up. -/
def waits (x : Search) : Bool := x.state = .waiting

/-- The reference means nothing. -/
def hasFailed (x : Search) : Bool := x.state = .failed

/-- The key of the label that is looked for. -/
def key (x : Search) : String := Label.key ⟨x.path, x.reference.name⟩

/-- One round for one reference. -/
def look (keys : List (String × Nat)) (x : Search) : Search :=
  match x.state with
  | .waiting =>
    match keys.lookup x.key with
    | some id => { x with state := .resolved id }
    | none =>
      if 1 < x.path.length then { x with path := x.path.dropLast }
      else { x with state := .failed }
  | _ => x

/-- Nothing will come of what waits. -/
def giveUp (x : Search) : Search := if x.waits then { x with state := .failed } else x

/-- How many rounds a reference can wait for, at most. -/
def roundsLeft (x : Search) : Nat := if x.waits then x.path.length + 1 else 0

theorem roundsLeft_look_lt (keys : List (String × Nat)) {x : Search} (waits : x.waits = true) :
    (x.look keys).roundsLeft < x.roundsLeft := by
  have state : x.state = .waiting := of_decide_eq_true waits
  simp only [look, state]
  split
  · simp [roundsLeft, Search.waits, state]
  · split
    · simp only [roundsLeft, Search.waits, state, decide_true, if_true, List.length_dropLast]
      omega
    · simp [roundsLeft, Search.waits, state]

theorem look_of_not_waits (keys : List (String × Nat)) {x : Search} (settled : x.waits = false) :
    x.look keys = x := by
  have state : x.state ≠ .waiting := of_decide_eq_false settled
  unfold look
  split
  · exact absurd ‹x.state = .waiting› state
  · rfl

/-- One round. -/
def round (keys : List (String × Nat)) (searches : List Search) : List Search :=
  searches.map (look keys)

/-- How many looks are left, at most. -/
def looksLeft : List Search → Nat
  | [] => 0
  | x :: rest => x.roundsLeft + looksLeft rest

theorem looksLeft_round_le (keys : List (String × Nat)) (searches : List Search) :
    looksLeft (round keys searches) ≤ looksLeft searches := by
  induction searches with
  | nil => exact Nat.le_refl _
  | cons x rest ih =>
    refine Nat.add_le_add ?_ ih
    cases waits : x.waits with
    | true => exact Nat.le_of_lt (roundsLeft_look_lt keys waits)
    | false => exact Nat.le_of_eq (by rw [look_of_not_waits keys waits])

/-- A round for something that waits leaves fewer looks. -/
theorem looksLeft_round_lt (keys : List (String × Nat)) {searches : List Search}
    (waits : searches.any Search.waits = true) :
    looksLeft (round keys searches) < looksLeft searches := by
  induction searches with
  | nil => cases waits
  | cons x rest ih =>
    rw [List.any_cons, Bool.or_eq_true] at waits
    cases first : x.waits with
    | true =>
      exact Nat.add_lt_add_of_lt_of_le (roundsLeft_look_lt keys first)
        (looksLeft_round_le keys rest)
    | false =>
      rw [first] at waits
      have later := ih (waits.resolve_left Bool.false_ne_true)
      simp only [round, List.map_cons, look_of_not_waits keys first, looksLeft] at later ⊢
      omega

end Search

namespace Program

/-- The problem with a reference that cannot be resolved. -/
def undefinedProblem (p : Program) (r : Reference) : Diagnostic :=
  .undefined r.name (some r.span) none (Text.similar r.name p.labels.names)

/-- The problem with a reference that is given up. -/
def unresolvableProblem (r : Reference) : Diagnostic :=
  ⟨.linking, s!"reference ':{r.name}' unresolvable", some r.span, none⟩

/-- Round after round, while something waits: what has come of the references, and the problems in
    the order in which they are found. -/
def rounds (p : Program) (keys : List (String × Nat)) (searches : List Search) :
    List Search × List Diagnostic :=
  if searches.any Search.waits then
    let next := Search.round keys searches
    if next = searches then
      (searches.map Search.giveUp,
        (searches.filter Search.waits).map fun x => unresolvableProblem x.reference)
    else
      let lost := searches.filter fun x => x.waits && (x.look keys).hasFailed
      let later := rounds p keys next
      (later.1, lost.map (fun x => p.undefinedProblem x.reference) ++ later.2)
  else (searches, [])
  termination_by Search.looksLeft searches
  decreasing_by exact Search.looksLeft_round_lt keys ‹_›

/-- What comes of the references, in the order of the text, and the problems. -/
def resolution (p : Program) : List Search × List Diagnostic :=
  p.rounds p.labels.keys (p.references.map Search.start)

end Program

/-- Reports problems in order. -/
def reportAll : List Diagnostic → Report Unit
  | [] => .done ()
  | d :: rest => .enter (.problem d) fun _ => reportAll rest

namespace Parser.State

/-- The demands that were made after so many faults. -/
def demandsAfter (s : State) (count : Nat) : List Entry :=
  (s.demands.reverse.filter fun made => made.1 == count).map fun made => .demand made.2

/-- The faults and the demands, in the order in which they came up. -/
def entries (s : State) : List Entry :=
  (s.faults.reverse.zipIdx.flatMap fun found => s.demandsAfter found.2 ++ [.problem found.1]) ++
    s.demandsAfter s.faults.length

end Parser.State

/-- Parses expanded tokens and resolves the references. -/
def parse (maxLiteralDepth : Int) (tokens : List Token) : Report Program := do
  let s := Parser.finalState maxLiteralDepth tokens
  s.entries.forM Report.tell
  reportAll s.program.resolution.2
  return s.program

end NineBit.Asm
