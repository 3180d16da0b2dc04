import NineBit.Proofs.Asm.Outcome

/-!
# The linker's work loop

The linker takes gaps from the front of a queue and fills them one after the other. On the way it
may put data down, whose gaps join the end of the queue, so that the queue can grow
(`Layout.Turn`). Constants may refer to themselves and to each other; still, each of them is put
down once, and the loop ends: with every turn less work is left (`Layout.Laid.exists_turns`). In the
end there has been one turn for each gap of the image, which is one for each operand that is no
number and one for each reference in the data that was put down (`layout_drained`).
-/

namespace NineBit.Asm

/-- The literal is a number. -/
def Literal.isNumber : Literal → Bool
  | .number _ _ => true
  | _ => false

namespace Layout

/-- The work loop between two turns: the gaps that wait, and what has been put down. -/
structure Loop where
  queue : List Gap
  draft : Draft

/-- One turn: the first gap of the queue is filled, after some pieces of data have been put down,
    whose gaps join the end of the queue. -/
inductive Turn (bits : Nat) (p : Program) : Loop → List Piece → Loop → Prop where
  | fill {gap : Gap} {queue : List Gap} {d next : Draft} {word : Nat}
      {milestone : Option Milestone} {put : List Piece}
      (resolved : resolve bits p { d with gaps := [] } gap.literal = .ok (word, next, milestone))
      (puts : Puts p { d with gaps := [] } gap put)
      (grows : Draft.Grows bits { d with gaps := [] } put next) :
      Turn bits p ⟨gap :: queue, d⟩ put ⟨queue ++ next.gaps.reverse, next.fill gap.address word⟩

/-- Some turns in a row, and all the pieces of data that they put down. -/
inductive Turns (bits : Nat) (p : Program) : Nat → Loop → List Piece → Loop → Prop where
  | none (l : Loop) : Turns bits p 0 l [] l
  | turn {turns : Nat} {l middle last : Loop} {put more : List Piece}
      (first : Turn bits p l put middle) (later : Turns bits p turns middle more last) :
      Turns bits p (turns + 1) l (put ++ more) last

/-- The work loop behind the code of a program. -/
def Loop.start (bits : Nat) (p : Program) : Loop :=
  ⟨(code bits p.executable).gaps.reverse, code bits p.executable⟩

section
variable {bits : Nat} {p : Program}

/-! ## Turns -/

theorem Turn.unique {l next other : Loop} {put more : List Piece} (turn : Turn bits p l put next)
    (twin : Turn bits p l more other) : next = other := by
  cases turn with
  | fill resolved =>
    cases twin with
    | fill again =>
      rw [resolved] at again
      cases again
      rfl

/-- No turns lead on from an empty queue, so that no turns are more than those that empty it. -/
theorem Turns.le {others : Nat} {l next : Loop} {more : List Piece}
    (another : Turns bits p others l more next) :
    ∀ {turns : Nat} {put : List Piece} {last : Draft}, Turns bits p turns l put ⟨[], last⟩ →
      others ≤ turns := by
  induction another with
  | none => exact fun _ => Nat.zero_le _
  | turn first later ih =>
    intro turns put last run
    cases run with
    | none => cases first
    | turn twin rest =>
      rw [first.unique twin] at ih
      exact Nat.succ_le_succ (ih rest)

/-- With a bound that allows all turns, the linker comes to where the loop ends. -/
theorem Turns.fillGaps {turns : Nat} {l last : Loop} {put : List Piece}
    (run : Turns bits p turns l put last) (empty : last.queue = []) :
    ∀ {bound : Nat}, turns ≤ bound →
      (fillGaps bits p bound l.queue l.draft).value = .ok last.draft := by
  induction run with
  | none l =>
    intro bound _
    rw [empty]
    cases bound <;> rfl
  | turn first later ih =>
    intro bound enough
    cases bound with
    | zero => exact absurd enough (Nat.not_succ_le_zero _)
    | succ bound =>
      have rest := ih empty (Nat.le_of_succ_le_succ enough)
      cases first with
      | @fill gap queue d next word milestone put resolved =>
        unfold Layout.fillGaps
        rw [resolved]
        cases milestone <;> exact rest

/-! ## The end of the loop -/

/-- The loop empties its queue with no more turns than there is work. -/
theorem Laid.exists_turns (sound : p.Sound) (resolved : p.Resolved) (bound : Nat) :
    ∀ {d : Draft} {pieces : List Piece} {filled queue : List Gap},
      Laid bits p d pieces filled queue → work p d queue ≤ bound →
        ∃ turns put last done, Turns bits p turns ⟨queue, d⟩ put ⟨[], last⟩ ∧ turns ≤ bound ∧
          Laid bits p last (pieces ++ put) done [] ∧ done.length = filled.length + turns := by
  induction bound with
  | zero =>
    intro d pieces filled queue laid enough
    cases queue with
    | nil =>
      refine ⟨0, [], d, filled, .none _, Nat.le_refl 0, ?_, rfl⟩
      rw [List.append_nil]
      exact laid
    | cons gap rest =>
      have pos := gapWork_pos gap
      rw [work_cons] at enough
      omega
  | succ bound ih =>
    intro d pieces filled queue laid enough
    cases queue with
    | nil =>
      refine ⟨0, [], d, filled, .none _, Nat.zero_le _, ?_, rfl⟩
      rw [List.append_nil]
      exact laid
    | cons gap rest =>
      obtain ⟨⟨word, next, milestone⟩, found⟩ := laid.cleared.resolve_ok sound resolved
      obtain ⟨put, puts, grows, later, less⟩ := laid.turn sound.id found
      obtain ⟨turns, more, last, done, run, le, all, length⟩ := ih later (by omega)
      rw [List.append_assoc] at all
      rw [List.length_append, List.length_singleton] at length
      exact ⟨turns + 1, put ++ more, last, done, .turn (.fill found puts grows) run,
        Nat.succ_le_succ le, all, by omega⟩

/-! ## The number of turns -/

/-- The slots of a statement that stand for a literal are those of its operands that are no
    numbers. -/
theorem literals_statement (s : Statement) : (s.slots bits).filterMap Slot.literal? =
    s.operands.filter fun literal => !literal.isNumber := by
  have operands (literals : List Literal) :
      (literals.map (Literal.operand bits)).filterMap Slot.literal? =
        literals.filter fun literal => !literal.isNumber := by
    induction literals with
    | nil => rfl
    | cons literal rest ih =>
      cases literal with
      | number => exact ih
      | text | array | reference => exact congrArg (_ :: ·) ih
  obtain ⟨id, span, label, body⟩ := s
  cases body with
  | movement destination source first second => exact operands _
  | condition | action | constant => rfl

/-- An image has a gap for each operand that is no number, and for each reference in its data. -/
theorem length_gaps_image (pieces : List Piece) :
    (gapsFrom 0 (p.image bits pieces)).length =
      (p.executable.flatMap Statement.operands).countP (fun literal => !literal.isNumber) +
        (pieces.map fun piece => piece.literal.mentions.length).sum := by
  rw [length_gapsFrom, Program.image, List.filterMap_append, List.length_append]
  congr 1
  · rw [List.countP_eq_length_filter, Program.code]
    congr 1
    induction p.executable with
    | nil => rfl
    | cons s rest ih =>
      rw [List.flatMap_cons, List.flatMap_cons, List.filterMap_append, List.filter_append, ih,
        literals_statement]
  · induction pieces with
    | nil => rfl
    | cons piece rest ih =>
      show ((piece.literal.slots bits ++ dataSlots bits rest).filterMap Slot.literal?).length = _
      rw [List.filterMap_append, List.length_append, ih, piece.literal.literals_slots bits,
        List.length_map, List.map_cons, List.sum_cons]

end

/-- What the work loop has done when its queue is empty. -/
structure Drained (bits : Nat) (p : Program) (turns : Nat) (put : List Piece) (last : Draft) :
    Prop where
  /-- The queue is empty after so many turns, which have put some pieces of data down. -/
  run : Turns bits p turns (.start bits p) put ⟨[], last⟩
  /-- There is no way to take more turns. -/
  longest : ∀ others more next, Turns bits p others (.start bits p) more next → others ≤ turns
  /-- One turn for each operand that is no number and for each reference in the data. -/
  count : turns =
    (p.executable.flatMap Statement.operands).countP (fun literal => !literal.isNumber) +
      (put.map fun piece => piece.literal.mentions.length).sum
  /-- Before the loop, each statement that is code has been put down once, in order. -/
  code : Draft.Codes bits ⟨#[], #[], []⟩ p.executable (Layout.code bits p.executable)
  /-- The loop has put down data, and with it only constants. -/
  placements : last.placements.toList =
    (Layout.code bits p.executable).placements.toList ++ put.filterMap placement?
  size : last.words.size = (Layout.code bits p.executable).words.size + (dataSlots bits put).length
  /-- No statement, be it code or a constant, has been put down twice. -/
  once : (last.placements.toList.map Placement.id).Nodup
  /-- No constant and no operand has its data twice. -/
  owner : (put.map Piece.owner).Nodup

/-- The work loop comes to its end. -/
theorem exists_drained {bits : Nat} (wide : 9 ≤ bits) {limit : Int} {p : Program}
    (parsed : p.Parsed limit) (resolved : p.Resolved) : ∃ turns put last,
      Drained bits p turns put last ∧
        turns ≤ workBound p (code bits p.executable).gaps.reverse := by
  have sound := parsed.program_sound
  have codes := codes_code wide parsed
  obtain ⟨turns, put, last, done, run, le, laid, length⟩ :=
    (laid_code wide parsed).exists_turns sound resolved _ (work_le_workBound _ _)
  rw [List.nil_append] at laid
  rw [List.length_nil, Nat.zero_add] at length
  refine ⟨turns, put, last, ⟨run, fun _ _ _ another => another.le run, ?_, codes, ?_, ?_,
    laid.placements_nodup sound.id, laid.owner⟩, le⟩
  · rw [← length_gaps_image, laid.gaps, List.append_nil, length]
  · rw [laid.placements, codes.placements]
    rfl
  · rw [laid.size, Program.image, List.length_append]
    congr 1
    rw [← Array.length_toList, codes.words, List.length_append, List.length_map]
    exact (Nat.zero_add _).symm

end Layout

/-- The linker ends, and puts everything down once. With words that hold an instruction, and for a
    program that was parsed without a problem, whatever its constants refer to, the work loop
    empties its queue after one turn for each operand that is no number and one for each reference
    in the data that it puts down, and the layout is what it has then. -/
theorem layout_drained {bits : Nat} (wide : 9 ≤ bits) (memorySize : Int) {limit : Int}
    {tokens : List Token} (known : ∀ token ∈ tokens, token.Known)
    (none : (parse limit tokens).problems = []) : ∃ turns put last,
      Layout.Drained bits (parse limit tokens).value turns put last ∧
        (layout bits memorySize (parse limit tokens).value).value =
          .ok ⟨last.words, last.placements, (parse limit tokens).value⟩ := by
  have parsed := parsed_of_problems known none
  have resolved : (parse limit tokens).value.Resolved := by
    refine parsed.program_sound.resolved (resolution_of_problems none) ?_
    rw [value_parse]
    exact fun _ => block_ne_nil
  obtain ⟨turns, put, last, drained, enough⟩ := Layout.exists_drained wide parsed resolved
  refine ⟨turns, put, last, drained, ?_⟩
  have done := drained.run.fillGaps rfl enough
  unfold layout
  simp only [Report.value_bind, Layout.Loop.start] at done ⊢
  simp only [done]
  split <;> rfl

/-- Two constants that refer to each other and to themselves, an array of an operand that refers to
    one of them, and code that a constant refers to. -/
theorem layout_drained_cycle :
    let tokens := Assembly.expanded
      ⟨"cycle", "a = :x b = [:y 1] x: [:y :x] y: [:x :s 2] s: !done"⟩
    (parse 32 tokens).problems = [] ∧ ∃ turns put last,
      Layout.Drained 9 (parse 32 tokens).value turns put last ∧
        last.words = #[502, 5, 503, 7, 66, 9, 5, 9, 1, 5, 4, 2] := by
  intro tokens
  have none : (parse 32 tokens).problems = [] := by decide +kernel
  have words : (layout 9 256 (parse 32 tokens).value).value.toOption.map (·.words) =
      some #[502, 5, 503, 7, 66, 9, 5, 9, 1, 5, 4, 2] := by
    decide +kernel
  obtain ⟨lexed, macros⟩ := known_lex
    ⟨"cycle", "a = :x b = [:y 1] x: [:y :x] y: [:x :s 2] s: !done"⟩
  have known : ∀ token ∈ tokens, token.Known := fun token member =>
    (known_expand macros lexed token member).1
  obtain ⟨turns, put, last, drained, laid⟩ := layout_drained (le_refl 9) 256 known none
  rw [laid] at words
  exact ⟨none, turns, put, last, drained, Option.some.inj words⟩

end NineBit.Asm
