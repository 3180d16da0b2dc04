import NineBit.Proofs.Asm.Outcome

/-!
# Programs that are laid out alike

The layout of a program asks for little: the code in order, and what each reference means. Of two
programs one mirrors the other if the code is the same and the references mean the same, whatever
the indices of the statements and the names in the references are (`Program.Mirrors`). The linker
then takes the same turns with both (`Layout.fillGaps_mirrored`), so that the images have the same
words and the statements stand at the same addresses (`layout_mirrored`).
-/

namespace NineBit.Asm

/-! ## Other references -/

section
variable (g : Reference → Reference)

mutual

/-- The literal with other references. -/
def Literal.mapReferences : Literal → Literal
  | .number value span => .number value span
  | .text value span => .text value span
  | .array elements span => .array (Literal.mapAllReferences elements) span
  | .reference r => .reference (g r)

/-- Some literals with other references. -/
def Literal.mapAllReferences : List Literal → List Literal
  | [] => []
  | literal :: rest => literal.mapReferences :: Literal.mapAllReferences rest

end

/-- What a statement does, with other references. -/
def Statement.Body.mapReferences : Statement.Body → Statement.Body
  | .movement destination source destinationLiteral sourceLiteral =>
    .movement destination source (destinationLiteral.map (Literal.mapReferences g))
      (sourceLiteral.map (Literal.mapReferences g))
  | .condition c => .condition c
  | .action x => .action x
  | .constant literal => .constant (literal.mapReferences g)

theorem Literal.mapAllReferences_eq_map (literals : List Literal) :
    Literal.mapAllReferences g literals = literals.map (Literal.mapReferences g) := by
  induction literals with
  | nil => rfl
  | cons literal rest ih => exact congrArg (literal.mapReferences g :: ·) ih

/-- References that stay where they are leave a literal there. -/
theorem Literal.span_mapReferences {g : Reference → Reference}
    (stays : ∀ r, (g r).span = r.span) (literal : Literal) :
    (literal.mapReferences g).span = literal.span := by
  cases literal with
  | reference r => exact stays r
  | _ => rfl

end

section

mutual

theorem Literal.mapReferences_id : ∀ literal : Literal, literal.mapReferences id = literal
  | .number _ _ | .text _ _ | .reference _ => rfl
  | .array elements span => congrArg (Literal.array · span) (Literal.mapAllReferences_id elements)

theorem Literal.mapAllReferences_id : ∀ literals : List Literal,
    Literal.mapAllReferences id literals = literals
  | [] => rfl
  | literal :: rest => by
    rw [Literal.mapAllReferences, literal.mapReferences_id, Literal.mapAllReferences_id rest]

end

theorem Literal.map_mapReferences_id (literal : Option Literal) :
    literal.map (Literal.mapReferences id) = literal := by
  cases literal with
  | none => rfl
  | some literal => exact congrArg some literal.mapReferences_id

/-- With the references that it has, a statement does what it does. -/
theorem mapReferences_id_body (body : Statement.Body) : body.mapReferences id = body := by
  cases body with
  | movement destination source destinationLiteral sourceLiteral =>
    rw [Statement.Body.mapReferences, Literal.map_mapReferences_id, Literal.map_mapReferences_id]
  | constant literal => rw [Statement.Body.mapReferences, literal.mapReferences_id]
  | condition | action => rfl

end

/-! ## Mirrored programs -/

/-- The statement that a reference of a program means. -/
def Program.meant? (p : Program) (r : Reference) : Option Statement :=
  (r.target? p.labels).bind fun id => p.statements[id]?

/-- The statement does the same, with another index and other references. -/
structure Statement.Mirrors (g : Reference → Reference) (σ : Nat → Nat) (s t : Statement) :
    Prop where
  id : t.id = σ s.id
  body : t.body = s.body.mapReferences g

theorem Statement.Mirrors.isConstant {g : Reference → Reference} {σ : Nat → Nat} {s t : Statement}
    (mirrors : s.Mirrors g σ t) : t.isConstant = s.isConstant := by
  obtain ⟨-, body⟩ := mirrors
  unfold Statement.isConstant
  rw [body]
  cases s.body <;> rfl

/-- The code is the same, and the references mean the same. -/
structure Program.Mirrors (g : Reference → Reference) (σ : Nat → Nat) (p q : Program) : Prop where
  injective : Function.Injective σ
  code : List.Forall₂ (Statement.Mirrors g σ) p.executable q.executable
  meant : ∀ r ∈ p.references, ∀ s, p.meant? r = some s →
    ∃ t, q.meant? (g r) = some t ∧ s.Mirrors g σ t

/-! ## Mirrored drafts -/

/-- The placement with another index. -/
def Placement.reindex (σ : Nat → Nat) (placement : Placement) : Placement :=
  ⟨σ placement.id, placement.address⟩

namespace Layout

/-- The gap with other references. -/
def Gap.mirror (g : Reference → Reference) (gap : Gap) : Gap :=
  ⟨gap.address, gap.literal.mapReferences g⟩

/-- The draft with other indices and other references. -/
def Draft.mirror (g : Reference → Reference) (σ : Nat → Nat) (d : Draft) : Draft where
  words := d.words
  placements := d.placements.map (Placement.reindex σ)
  gaps := d.gaps.map (Gap.mirror g)

section
variable {g : Reference → Reference} {σ : Nat → Nat} {bits : Nat} {d : Draft}

theorem Draft.place_mirror (d : Draft) (id : Nat) :
    (d.mirror g σ).place (σ id) = (d.place id).mirror g σ := by
  unfold place mirror
  rw [Array.map_push]
  rfl

theorem Draft.operand_mirror (d : Draft) (literal : Literal) :
    (d.mirror g σ).operand bits (literal.mapReferences g) =
      (d.operand bits literal).mirror g σ := by
  cases literal <;> rfl

theorem Draft.operand?_mirror (d : Draft) (takesWord : Bool) (literal : Option Literal) :
    (d.mirror g σ).operand? bits takesWord (literal.map (Literal.mapReferences g)) =
      (d.operand? bits takesWord literal).mirror g σ := by
  cases takesWord with
  | false => cases literal <;> rfl
  | true =>
    cases literal with
    | none => rfl
    | some literal => exact operand_mirror d literal

theorem Draft.characters_mirror (text : List Char) : ∀ d : Draft,
    text.foldl (fun d c => d.emit bits c.toNat) (d.mirror g σ) =
      (text.foldl (fun d c => d.emit bits c.toNat) d).mirror g σ := by
  induction text with
  | nil => exact fun _ => rfl
  | cons c rest ih => exact fun d => ih (d.emit bits c.toNat)

mutual

theorem Draft.data_mirror : ∀ (literal : Literal) (d : Draft),
    (d.mirror g σ).data bits (literal.mapReferences g) = (d.data bits literal).mirror g σ
  | .number _ _, _ => rfl
  | .text value _, d => characters_mirror value.toList d
  | .array elements _, d => dataList_mirror elements d
  | .reference _, _ => rfl

theorem Draft.dataList_mirror : ∀ (literals : List Literal) (d : Draft),
    (d.mirror g σ).dataList bits (Literal.mapAllReferences g literals) =
      (d.dataList bits literals).mirror g σ
  | [], _ => rfl
  | literal :: rest, d => by
    rw [Literal.mapAllReferences, dataList, dataList, data_mirror literal d,
      dataList_mirror rest _]

end

theorem Draft.statement_mirror {s t : Statement} (mirrors : s.Mirrors g σ t) (d : Draft) :
    (d.mirror g σ).statement bits t = (d.statement bits s).mirror g σ := by
  obtain ⟨id, span, label, body⟩ := s
  obtain ⟨_, span', label', _⟩ := t
  obtain ⟨rfl, rfl⟩ := mirrors
  have opcode (word : Nat) : ((d.mirror g σ).place (σ id)).emit bits word =
      ((d.place id).emit bits word).mirror g σ := by
    rw [place_mirror]
    rfl
  cases body with
  | movement destination source destinationLiteral sourceLiteral =>
    show ((((d.mirror g σ).place (σ id)).emit bits _).operand? bits _ _).operand? bits _ _ = _
    rw [opcode, operand?_mirror, operand?_mirror]
    rfl
  | condition c => exact opcode _
  | action x => exact opcode _
  | constant literal => rfl

theorem code_mirror {statements others : List Statement}
    (mirrors : List.Forall₂ (Statement.Mirrors g σ) statements others) :
    code bits others = (code bits statements).mirror g σ := by
  have empty : (⟨#[], #[], []⟩ : Draft).mirror g σ = ⟨#[], #[], []⟩ := by
    unfold Draft.mirror
    rw [Array.map_empty]
    rfl
  have general : ∀ d : Draft, others.foldl (Draft.statement bits) (d.mirror g σ) =
      (statements.foldl (Draft.statement bits) d).mirror g σ := by
    induction mirrors with
    | nil => exact fun _ => rfl
    | cons first _ ih =>
      intro d
      rw [List.foldl_cons, List.foldl_cons, Draft.statement_mirror first, ih]
  have start := general ⟨#[], #[], []⟩
  rw [empty] at start
  exact start

theorem Draft.addressOf?_mirror (injective : Function.Injective σ) (d : Draft) (id : Nat) :
    (d.mirror g σ).addressOf? (σ id) = d.addressOf? id := by
  unfold addressOf? mirror
  dsimp only
  rw [← Array.find?_toList, ← Array.find?_toList, Array.toList_map, List.find?_map,
    Option.map_map]
  have same : (fun placement : Placement => placement.id == σ id) ∘ Placement.reindex σ =
      fun placement => placement.id == id := by
    funext placement
    exact Bool.eq_iff_iff.2 (by simp [Placement.reindex, injective.eq_iff])
  rw [same]
  rfl

/-! ## Filling gaps -/

/-- Whatever a gap mentions has been recorded. -/
theorem Laid.mentions_recorded {p : Program} {pieces : List Piece} {filled queue : List Gap}
    {gap : Gap} (sound : p.Sound) (laid : Laid bits p d pieces filled queue)
    (member : gap ∈ filled ++ queue) : ∀ r ∈ gap.literal.mentions, r ∈ p.references := by
  have slot := List.mem_of_getElem? (laid.gap_slot member)
  intro r mentioned
  cases literal : gap.literal with
  | number => rw [literal] at mentioned; exact absurd mentioned List.not_mem_nil
  | text => rw [literal] at mentioned; exact absurd mentioned List.not_mem_nil
  | reference other =>
    rw [literal] at mentioned slot
    rw [List.mem_singleton.1 mentioned]
    exact laid.reference_recorded sound slot
  | array elements span =>
    rw [literal] at mentioned slot
    obtain ⟨s, inside, given⟩ := inline_mem_literals rfl slot
    exact sound.mentions s inside _ given r mentioned

section
variable {p q : Program} {literal : Literal}

/-- A gap is filled with the same word in both programs. -/
theorem resolve_mirrored (mirrors : p.Mirrors g σ q)
    (recorded : ∀ r ∈ literal.mentions, r ∈ p.references) {word : Nat} {next : Draft}
    {milestone : Option Milestone}
    (resolved : resolve bits p d literal = .ok (word, next, milestone)) :
    ∃ other, resolve bits q (d.mirror g σ) (literal.mapReferences g) =
      .ok (word, next.mirror g σ, other) := by
  cases literal with
  | number => cases resolved
  | text value span =>
    cases resolved
    have same : (d.mirror g σ).data bits (.text value span) = _ :=
      Draft.data_mirror (.text value span) d
    exact ⟨none, congrArg (fun next => Except.ok (d.words.size, next, none)) same⟩
  | array elements span =>
    cases resolved
    have same : (d.mirror g σ).data bits (Literal.mapReferences g (.array elements span)) = _ :=
      Draft.data_mirror (.array elements span) d
    exact ⟨none, congrArg (fun next => Except.ok (d.words.size, next, none)) same⟩
  | reference r =>
    unfold resolve at resolved
    dsimp only at resolved
    split at resolved
    · cases resolved
    · rename_i target found
      obtain ⟨t, meant, ⟨id, body⟩⟩ :=
        mirrors.meant r (recorded r (List.mem_singleton.2 rfl)) target found
      unfold Program.meant? at meant
      have address := d.addressOf?_mirror (g := g) mirrors.injective target.id
      unfold Literal.mapReferences resolve
      dsimp only
      rw [meant]
      dsimp only
      rw [id, address, body]
      split at resolved
      · rename_i recorded
        cases resolved
        rw [recorded]
        exact ⟨none, rfl⟩
      · rename_i data recorded same
        cases resolved
        rw [recorded, same]
        refine ⟨some (.placed (t.label.map Label.key) d.words.size), ?_⟩
        dsimp only [Statement.Body.mapReferences]
        rw [Draft.place_mirror, Draft.data_mirror]
        rfl
      · cases resolved

/-- The linker takes the same turns with both programs. -/
theorem fillGaps_mirrored (mirrors : p.Mirrors g σ q) (sound : p.Sound) (resolved : p.Resolved)
    (bound : Nat) : ∀ {d : Draft} {pieces : List Piece} {filled queue : List Gap},
      Laid bits p d pieces filled queue →
        ∃ last, (fillGaps bits p bound queue d).value = .ok last ∧
          (fillGaps bits q bound (queue.map (Gap.mirror g)) (d.mirror g σ)).value =
            .ok (last.mirror g σ) := by
  induction bound with
  | zero => exact fun _ => ⟨_, rfl, rfl⟩
  | succ bound ih =>
    intro d pieces filled queue laid
    cases queue with
    | nil => exact ⟨_, rfl, rfl⟩
    | cons gap rest =>
      have recorded := laid.mentions_recorded sound (List.mem_append_right _ List.mem_cons_self)
      obtain ⟨⟨word, next, milestone⟩, found⟩ := laid.cleared.resolve_ok sound resolved
      obtain ⟨other, found'⟩ := resolve_mirrored mirrors recorded found
      obtain ⟨put, -, -, later, -⟩ := laid.turn sound.id found
      obtain ⟨last, done, done'⟩ := ih later
      rw [List.map_append, List.map_reverse] at done'
      refine ⟨last, ?_, ?_⟩
      · unfold fillGaps
        rw [found]
        cases milestone <;> exact done
      · rw [List.map_cons]
        unfold fillGaps
        rw [show { d.mirror g σ with gaps := [] } = ({ d with gaps := [] } : Draft).mirror g σ
          from rfl, show (gap.mirror g).literal = gap.literal.mapReferences g from rfl, found']
        cases other <;> exact done'

end

end

end Layout

/-! ## Layouts -/

section
variable {bits : Nat} {memorySize : Int} {limit : Int} {p q : Program} {o : Output}

/-- Filling gaps meets no problem of its own. -/
theorem Layout.problems_fillGaps (bound : Nat) : ∀ (queue : List Gap) (d : Draft),
    (fillGaps bits p bound queue d).problems = [] := by
  induction bound with
  | zero => exact fun _ _ => rfl
  | succ bound ih =>
    intro queue d
    cases queue with
    | nil => rfl
    | cons gap rest =>
      unfold fillGaps
      split
      · rfl
      · exact ih _ _
      · exact ih _ _

/-- The only problem of a layout is that of its size. -/
theorem problems_layout (laid : (layout bits memorySize p).value = .ok o) :
    (layout bits memorySize p).problems =
      if memorySize < o.words.size then [Layout.tooLarge o.words.size memorySize] else [] := by
  obtain ⟨d, filled, rfl⟩ := layout_eq_ok laid
  unfold layout
  simp only [Report.problems_bind, Layout.problems_fillGaps, filled, List.nil_append]
  split <;> rfl

/-- A program that mirrors another one is laid out in the same words, with its statements at the
    same addresses. -/
theorem layout_mirrored {g : Reference → Reference} {σ : Nat → Nat} (wide : 9 ≤ bits)
    (mirrors : p.Mirrors g σ q) (parsed : p.Parsed limit) (resolved : p.Resolved)
    (parsed' : q.Parsed limit) (laid : (layout bits memorySize p).value = .ok o) :
    (layout bits memorySize q).value = .ok ⟨o.words,
      o.placements.map (Placement.reindex σ), q⟩ := by
  obtain ⟨d, filled, rfl⟩ := layout_eq_ok laid
  have sound := parsed.program_sound
  have start := Layout.laid_code wide parsed
  have start' := Layout.laid_code wide parsed'
  have code : Layout.code bits q.executable = _ := Layout.code_mirror mirrors.code
  have gaps : (Layout.code bits q.executable).gaps.reverse =
      (Layout.code bits p.executable).gaps.reverse.map (Layout.Gap.mirror g) := by
    rw [code, List.map_reverse]
    rfl
  -- Both bounds cover the work, so their sum does.
  have more := start.fillGaps_more sound
    (Layout.workBound q (Layout.code bits q.executable).gaps.reverse) _
    (Layout.work_le_workBound _ _)
  have more' := start'.fillGaps_more parsed'.program_sound
    (Layout.workBound p (Layout.code bits p.executable).gaps.reverse) _
    (Layout.work_le_workBound _ _)
  obtain ⟨last, done, done'⟩ := Layout.fillGaps_mirrored mirrors sound resolved _ start
  rw [more, filled] at done
  cases done
  rw [← gaps, ← code, Nat.add_comm, more'] at done'
  unfold layout
  simp only [Report.value_bind, done']
  split <;> rfl

end

end NineBit.Asm
