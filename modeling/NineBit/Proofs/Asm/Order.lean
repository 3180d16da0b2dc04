import NineBit.Proofs.Asm.Linked

/-!
# The order of data

Data is put down in the order in which it is asked for. A gap asks for data if its operand is a
string or an array, or if its reference means a constant (`Program.claim?`). The owners of the
pieces of data are what the gaps of the code and then those of the data itself ask for, each where
it is asked for first (`Layout.Drawn`). Filling a gap keeps this order (`Layout.Drawn.step`), so
that it is the order of every image (`drawn_of_layout`).
-/

namespace NineBit.Asm

/-- What a gap asks for: data of its own, or that of a constant. -/
def Program.claim? (p : Program) (gap : Layout.Gap) : Option Owner :=
  match gap.literal with
  | .reference r =>
    (r.target? p.labels).bind fun id => (p.data? id).map fun _ => .constant id
  | _ => some (.operand gap.address)

namespace Layout

section
variable {bits : Nat} {p : Program} {d : Draft} {pieces put : List Piece}
  {filled queue : List Gap} {gap : Gap} {owner : Owner}

/-- The pieces stand in the order in which gaps have first asked for them. -/
def Drawn (p : Program) (pieces : List Piece) (gaps : List Gap) : Prop :=
  pieces.map Piece.owner = (gaps.filterMap p.claim?).eraseDups

theorem Drawn.mem_iff (drawn : Drawn p pieces filled) :
    owner ∈ pieces.map Piece.owner ↔ ∃ gap ∈ filled, p.claim? gap = some owner := by
  rw [drawn, List.mem_eraseDups, List.mem_filterMap]

/-- A gap that asks for something new gets it behind what is there. -/
theorem Drawn.new (drawn : Drawn p pieces filled) (claims : p.claim? gap = some owner)
    (fresh : owner ∉ pieces.map Piece.owner) (address : Nat) (literal : Literal) :
    Drawn p (pieces ++ [⟨owner, address, literal⟩]) (filled ++ [gap]) := by
  have first : owner ∉ filled.filterMap p.claim? := by
    rw [drawn, List.mem_eraseDups] at fresh
    exact fresh
  have kept : [owner].removeAll (filled.filterMap p.claim?) = [owner] := by
    unfold List.removeAll
    rw [List.filter_cons_of_pos (by simpa using first), List.filter_nil]
  unfold Drawn at drawn ⊢
  rw [List.map_append, List.filterMap_append, List.eraseDups_append, drawn,
    show [gap].filterMap p.claim? = [owner] by rw [List.filterMap_cons, claims]; rfl, kept]
  rfl

/-- A gap that asks for nothing, or for what is there, gets nothing. -/
theorem Drawn.old (drawn : Drawn p pieces filled)
    (claims : ∀ owner ∈ p.claim? gap, owner ∈ pieces.map Piece.owner) :
    Drawn p pieces (filled ++ [gap]) := by
  have none : ([gap].filterMap p.claim?).removeAll (filled.filterMap p.claim?) = [] := by
    unfold List.removeAll
    rw [List.filter_eq_nil_iff]
    intro owner member
    have claimed := claims owner (by simpa using member)
    rw [drawn, List.mem_eraseDups] at claimed
    simpa using claimed
  unfold Drawn at drawn ⊢
  rw [List.filterMap_append, List.eraseDups_append, none, drawn]
  exact (List.append_nil _).symm

/-- No other gap asks for the data of an operand. -/
theorem claim?_eq_operand {address : Nat} (claims : p.claim? gap = some (.operand address)) :
    gap.address = address := by
  unfold Program.claim? at claims
  split at claims
  · obtain ⟨id, -, constant⟩ := Option.bind_eq_some_iff.1 claims
    obtain ⟨data, -, other⟩ := Option.map_eq_some_iff.1 constant
    cases other
  · cases claims
    rfl

theorem claim?_inline (inline : gap.literal.isInline = true) :
    p.claim? gap = some (.operand gap.address) := by
  unfold Program.claim?
  split
  · rename_i r literal
    rw [literal] at inline
    cases inline
  · rfl

theorem claim?_reference {r : Reference} {id : Nat} (literal : gap.literal = .reference r)
    (target : r.target? p.labels = some id) :
    p.claim? gap = (p.data? id).map fun _ => .constant id := by
  unfold Program.claim?
  rw [literal]
  dsimp only
  rw [target]
  rfl

/-- Filling a gap keeps the order. -/
theorem Drawn.step (ids : ∀ (i : Nat) (h : i < p.statements.size), p.statements[i].id = i)
    (laid : Laid bits p d pieces filled (gap :: queue)) (puts : Puts p d gap put)
    (drawn : Drawn p pieces filled) : Drawn p (pieces ++ put) (filled ++ [gap]) := by
  cases puts with
  | operand inline =>
    refine drawn.new (claim?_inline inline) (fun member => ?_) _ _
    obtain ⟨other, before, claims⟩ := drawn.mem_iff.1 member
    exact absurd (claim?_eq_operand claims) (Nat.ne_of_lt (laid.filled_lt before))
  | @constant r id data literal target constant fresh =>
    refine drawn.new ?_ (fun member => ?_) _ _
    · rw [claim?_reference literal target, constant]
      rfl
    · obtain ⟨⟨_, address, old⟩, inside, rfl⟩ := List.mem_map.1 member
      obtain ⟨-, found⟩ := (laid.constant_iff ids).1 inside
      rw [fresh] at found
      cases found
  | @nothing r id address literal target found =>
    rw [List.append_nil]
    refine drawn.old fun owner claims => ?_
    rw [claim?_reference literal target] at claims
    obtain ⟨data, constant, rfl⟩ := Option.map_eq_some_iff.1 claims
    exact List.mem_map.2 ⟨_, (laid.constant_iff ids).2 ⟨constant, found⟩, rfl⟩

end

end Layout

/-- A layout is the linked image of its program, with its data in the order in which it is asked
    for. -/
theorem drawn_of_layout {bits : Nat} {memorySize : Int} {limit : Int} {p : Program} {o : Output}
    (wide : 9 ≤ bits) (parsed : p.Parsed limit)
    (laid : (layout bits memorySize p).value = .ok o) :
    ∃ pieces, Linked bits o pieces ∧
      Layout.Drawn o.program pieces (Layout.gapsFrom 0 (o.program.image bits pieces)) := by
  obtain ⟨d, filled, rfl⟩ := layout_eq_ok laid
  have start := Layout.laid_code wide parsed
  have ids := parsed.sound.1
  obtain ⟨pieces, gaps, laid, drawn⟩ := Layout.fillGaps_invariant (Layout.Drawn p) ids
    (fun laid puts drawn => drawn.step ids laid puts) _ start rfl
    (Layout.work_le_workBound _ _) filled
  refine ⟨pieces, laid.linked parsed, ?_⟩
  rw [laid.gaps, List.append_nil]
  exact drawn

end NineBit.Asm
