import Mathlib.Data.List.Induction
import NineBit.Proofs.Machine.Faults

/-!
# The stack in memory

What instructions do to the stack and to the memory is a list of `Access`es, and the stack that a
program thinks of is made by folding over it (`Access.stack`). As long as nothing is read, changed
or popped that was not pushed and nothing else is written (`Access.Lawful`), the cells from the
stack pointer up to where it started are that stack, whatever was executed in between
(`Cpu.stack_refines`). A push moves the stack pointer before it writes and a pop leaves its word in
memory, so the cells below the stack pointer tell nothing. Each kind of access has its lemma in
`Architecture.Holds`, one instruction makes at most two accesses, and a run is taken apart at its
fetches.
-/

namespace NineBit.Machine

/-- What an instruction does to the stack, or to the memory otherwise. -/
inductive Access where
  /-- The word at an index is read; there is none if no memory cell has its address. -/
  | read (index : Nat) (word? : Option Nat)
  | push (word : Nat)
  | pop
  | update (index word : Nat)
  /-- A word is written to an address that is not counted from the stack pointer. -/
  | store (address word : Nat)
  deriving Repr, DecidableEq

namespace Access

/-- The access is a push. -/
def isPush : Access → Bool
  | push _ => true
  | _ => false

/-- The access is a pop. -/
def isPop : Access → Bool
  | pop => true
  | _ => false

/-- The access stays inside a stack that is so deep and has so much room. -/
def Allowed (room depth : Nat) : Access → Prop
  | read index _ => index < depth
  | push _ => depth < room
  | pop => 0 < depth
  | update index _ => index < depth
  | store _ _ => False

instance (room depth : Nat) : (access : Access) → Decidable (access.Allowed room depth)
  | read index _ => inferInstanceAs (Decidable (index < depth))
  | push _ => inferInstanceAs (Decidable (depth < room))
  | pop => inferInstanceAs (Decidable (0 < depth))
  | update index _ => inferInstanceAs (Decidable (index < depth))
  | store _ _ => inferInstanceAs (Decidable False)

/-- What an access makes of a stack, its top first. -/
def apply (stack : List Nat) : Access → List Nat
  | read _ _ => stack
  | push word => word :: stack
  | pop => stack.tail
  | update index word => stack.set index word
  | store _ _ => stack

/-- The pushes less the pops. -/
def depth (past : List Access) : Nat := past.countP isPush - past.countP isPop

/-- The stack that some accesses leave, its top first. -/
def stack (past : List Access) : List Nat := past.foldl apply []

/-- Every access is allowed at the depth that those before it have left. -/
def Lawful (room : Nat) (past : List Access) : Prop :=
  ∀ i (inside : i < past.length), past[i].Allowed room (depth (past.take i))

instance (room : Nat) (past : List Access) : Decidable (Lawful room past) :=
  inferInstanceAs (Decidable (∀ i, (inside : i < past.length) → past[i].Allowed room _))

variable {room : Nat} {past more : List Access} {access : Access}

/-- The past up to an access says the same in a longer past. -/
theorem getElem_append {i : Nat} (inside : i < past.length) (more : List Access)
    (inside' : i < (past ++ more).length) :
    (past ++ more)[i] = past[i] ∧ (past ++ more).take i = past.take i :=
  ⟨List.getElem_append_left inside, List.take_append_of_le_length (Nat.le_of_lt inside)⟩

theorem Lawful.left (lawful : Lawful room (past ++ more)) : Lawful room past := by
  intro i inside
  have longer : i < (past ++ more).length := by
    rw [List.length_append]
    omega
  obtain ⟨same, before⟩ := getElem_append inside more longer
  have allowed := lawful i longer
  rwa [same, before] at allowed

/-- The last access of a lawful past is allowed. -/
theorem Lawful.last (lawful : Lawful room (past ++ [access])) :
    access.Allowed room (depth past) := by
  have allowed := lawful past.length (by simp)
  rwa [List.getElem_concat_length rfl, List.take_left] at allowed

/-! ## Depth -/

theorem stack_concat (past : List Access) (access : Access) :
    stack (past ++ [access]) = access.apply (stack past) := by
  simp only [stack, List.foldl_append, List.foldl_cons, List.foldl_nil]

theorem depth_concat (past : List Access) (access : Access) :
    depth (past ++ [access]) =
      (past.countP isPush + if access.isPush then 1 else 0) -
        (past.countP isPop + if access.isPop then 1 else 0) := by
  simp only [depth, List.countP_append, List.countP_singleton]

/-- In a lawful past every pop has its push, and the depth is that of the stack. -/
theorem Lawful.length_stack (lawful : Lawful room past) :
    (stack past).length + past.countP isPop = past.countP isPush := by
  induction past using List.reverseRecOn with
  | nil => rfl
  | append_singleton past access ih =>
    have before := ih lawful.left
    have allowed := lawful.last
    rw [stack_concat, List.countP_append, List.countP_append, List.countP_singleton,
      List.countP_singleton]
    cases access with
    | read | push | update | store => simp [apply, isPush, isPop]; omega
    | pop =>
      have deep : 0 < past.countP isPush - past.countP isPop := allowed
      simp only [apply, isPush, isPop, List.length_tail, if_true, Bool.false_eq_true, if_false]
      omega

theorem Lawful.depth_push {word : Nat} (lawful : Lawful room past) :
    depth (past ++ [push word]) = depth past + 1 := by
  have balance := lawful.length_stack
  rw [depth_concat]
  simp only [depth, isPush, isPop, if_true, Bool.false_eq_true, if_false]
  omega

theorem depth_pop (past : List Access) : depth (past ++ [pop]) = depth past - 1 := by
  rw [depth_concat]
  simp only [depth, isPush, isPop, if_true, Bool.false_eq_true, if_false]
  omega

theorem depth_read (past : List Access) (index : Nat) (word? : Option Nat) :
    depth (past ++ [read index word?]) = depth past := depth_concat past _

theorem depth_update (past : List Access) (index word : Nat) :
    depth (past ++ [update index word]) = depth past := depth_concat past _

/-- The stack of a lawful past has room. -/
theorem Lawful.depth_le (lawful : Lawful room past) : depth past ≤ room := by
  induction past using List.reverseRecOn with
  | nil => exact Nat.zero_le room
  | append_singleton past access ih =>
    have before := ih lawful.left
    have allowed := lawful.last
    cases access with
    | push word =>
      rw [lawful.left.depth_push]
      exact allowed
    | pop =>
      rw [depth_pop]
      omega
    | read index word? => rwa [depth_read]
    | update index word => rwa [depth_update]
    | store => exact allowed.elim

end Access

open Access (Lawful)

namespace Memory

variable {m : Memory} {address : Nat}

theorem read_of_lt (inside : address < m.size) :
    ∃ word, m.read address = .ok word ∧ m.cells[address]? = some word := by
  have found : address < m.cells.size := inside
  refine ⟨m.cells[address], ?_, Array.getElem?_eq_getElem found⟩
  rw [read_natCast, if_pos inside, Array.getD_eq_getD_getElem?, Array.getElem?_eq_getElem found,
    Option.getD_some]

theorem write_of_lt (inside : address < m.size) (word : Nat) :
    m.write address word = .ok ⟨m.cells.setIfInBounds address word⟩ := by
  rw [write, cell_natCast, if_pos inside]

end Memory

namespace Architecture

/-! ## The cells of the stack -/

/-- After some accesses the machine holds the stack that they make, from its stack pointer up to
    where that was at first. -/
structure Holds (start : Architecture) (past : List Access) (x : Architecture) : Prop where
  bits : x.bits = start.bits
  size : x.memory.size = start.memory.size
  sp : x.sp = start.sp - Access.depth past
  cells : (x.memory.cells.extract x.sp start.sp).toList = Access.stack past
  /-- Every read has found the word that the stack has at its index. -/
  reads : ∀ i (inside : i < past.length) index word?, past[i] = .read index word? →
    ∃ word, word? = some word ∧ (Access.stack (past.take i))[index]? = some word
  /-- A cell that was at no time on the stack is as it was. -/
  others : ∀ address, (∀ i ≤ past.length,
      ¬(start.sp - Access.depth (past.take i) ≤ address ∧ address < start.sp)) →
    x.memory.cells[address]? = start.memory.cells[address]?

/-- Neither the stack pointer nor the memory has changed, and the machine still runs if it did. -/
structure SameStack (x y : Architecture) : Prop where
  bits : y.bits = x.bits
  sp : y.sp = x.sp
  memory : y.memory = x.memory
  stopped : y.stopped = x.stopped

theorem SameStack.refl (x : Architecture) : x.SameStack x := ⟨rfl, rfl, rfl, rfl⟩

theorem SameStack.trans {x y z : Architecture} (first : x.SameStack y) (second : y.SameStack z) :
    x.SameStack z where
  bits := second.bits.trans first.bits
  sp := second.sp.trans first.sp
  memory := second.memory.trans first.memory
  stopped := second.stopped.trans first.stopped

namespace Holds

variable {start x y : Architecture} {past : List Access}

/-- Before any access, the stack is empty. -/
theorem refl (start : Architecture) : start.Holds [] start where
  bits := rfl
  size := rfl
  sp := rfl
  cells := by simp [Access.stack]
  reads i inside := absurd inside (Nat.not_lt_zero i)
  others _ _ := rfl

theorem of_eq (holds : start.Holds past x) (bits : y.bits = x.bits) (sp : y.sp = x.sp)
    (memory : y.memory = x.memory) : start.Holds past y where
  bits := bits.trans holds.bits
  size := by rw [memory, holds.size]
  sp := sp.trans holds.sp
  cells := by rw [memory, sp, holds.cells]
  reads := holds.reads
  others := by rw [memory]; exact holds.others

theorem same (holds : start.Holds past x) (same : x.SameStack y) : start.Holds past y :=
  holds.of_eq same.bits same.sp same.memory

theorem fail (holds : start.Holds past x) (fault : Fault) : start.Holds past (x.fail fault) :=
  holds.of_eq rfl rfl rfl

/-- One more access: what is left to see is how it moves the stack pointer and what it makes of the
    cells. -/
theorem concat {access : Access} (holds : start.Holds past x) (bits : y.bits = x.bits)
    (size : y.memory.size = x.memory.size)
    (sp : y.sp = start.sp - Access.depth (past ++ [access]))
    (cells : (y.memory.cells.extract y.sp start.sp).toList = access.apply (Access.stack past))
    (read : ∀ index word?, access = .read index word? →
      ∃ word, word? = some word ∧ (Access.stack past)[index]? = some word)
    (others : ∀ address, ¬(y.sp ≤ address ∧ address < start.sp) →
      y.memory.cells[address]? = x.memory.cells[address]?) :
    start.Holds (past ++ [access]) y where
  bits := bits.trans holds.bits
  size := size.trans holds.size
  sp := sp
  cells := by rw [cells, Access.stack_concat]
  reads i inside index word? found := by
    by_cases earlier : i < past.length
    · obtain ⟨same, before⟩ := Access.getElem_append earlier [access] inside
      rw [before]
      exact holds.reads i earlier index word? (same.symm.trans found)
    · have last : i = past.length := by
        rw [List.length_append, List.length_singleton] at inside
        omega
      subst last
      rw [List.getElem_concat_length rfl] at found
      rw [List.take_left]
      exact read index word? found
  others address never := by
    have now := never (past ++ [access]).length (Nat.le_refl _)
    rw [List.take_length, ← sp] at now
    rw [others address now]
    refine holds.others address fun i le => ?_
    have before := never i (by rw [List.length_append]; omega)
    rwa [List.take_append_of_le_length le] at before

/-- The stack as a part of the list of all cells. -/
theorem stack_eq (holds : start.Holds past x) :
    Access.stack past = (x.memory.cells.toList.drop x.sp).take (start.sp - x.sp) := by
  rw [← holds.cells, Array.toList_extract, List.extract_eq_take_drop]

/-- The words of the stack are in the cells from the stack pointer on. -/
theorem getElem? (holds : start.Holds past x) {index : Nat} (inside : x.sp + index < start.sp) :
    (Access.stack past)[index]? = x.memory.cells[x.sp + index]? := by
  rw [holds.stack_eq, List.getElem?_take_of_lt (by omega), List.getElem?_drop,
    Array.getElem?_toList]

/-- The stack pointer is above the stack by its depth. -/
theorem sp_add (holds : start.Holds past x) (lawful : Lawful start.sp past) :
    x.sp + Access.depth past = start.sp := by
  have room := lawful.depth_le
  have here := holds.sp
  omega

theorem read (holds : start.Holds past x) {index : Nat} {word? : Option Nat}
    (inside : index < Access.depth past) (lawful : Lawful start.sp past)
    (found : ∃ word, word? = some word ∧ x.memory.cells[x.sp + index]? = some word) :
    start.Holds (past ++ [.read index word?]) x := by
  have here := holds.sp_add lawful
  refine holds.concat rfl rfl ?_ holds.cells ?_ (fun _ _ => rfl)
  · rw [Access.depth_read, holds.sp]
  · rintro _ _ ⟨⟩
    rwa [holds.getElem? (by omega)]

theorem pop (holds : start.Holds past x) (lawful : Lawful start.sp (past ++ [.pop]))
    (bits : y.bits = x.bits) (sp : y.sp = x.sp + 1) (memory : y.memory = x.memory) :
    start.Holds (past ++ [.pop]) y := by
  have deep : 0 < Access.depth past := lawful.last
  have here := holds.sp_add lawful.left
  refine holds.concat bits (by rw [memory]) ?_ ?_ (fun _ _ h => nomatch h)
    (fun _ _ => by rw [memory])
  · rw [Access.depth_pop]
    omega
  · rw [Access.apply, holds.stack_eq, Array.toList_extract, List.extract_eq_take_drop, memory, sp,
      ← List.drop_drop, ← List.drop_one, List.drop_take]
    congr 1

theorem push {word : Nat} (holds : start.Holds past x) (room : start.sp ≤ start.memory.size)
    (bits : y.bits = x.bits) (lawful : Lawful start.sp (past ++ [.push word]))
    (sp : y.sp = x.sp - 1)
    (memory : y.memory = ⟨x.memory.cells.setIfInBounds (x.sp - 1) word⟩) :
    start.Holds (past ++ [.push word]) y := by
  have free : Access.depth past < start.sp := lawful.last
  have here := holds.sp_add lawful.left
  have size : x.memory.cells.size = start.memory.size := holds.size
  have inside : x.sp - 1 < x.memory.cells.toList.length := by
    rw [Array.length_toList]
    omega
  refine holds.concat bits (by rw [memory]; exact Array.size_setIfInBounds) ?_ ?_
    (fun _ _ h => nomatch h) ?_
  · rw [lawful.left.depth_push, sp, holds.sp]
    omega
  · rw [Access.apply, holds.stack_eq, Array.toList_extract, List.extract_eq_take_drop, memory, sp,
      Array.toList_setIfInBounds, List.drop_set, if_neg (Nat.lt_irrefl _), Nat.sub_self,
      List.drop_eq_getElem_cons inside, List.set_cons_zero,
      show start.sp - (x.sp - 1) = start.sp - x.sp + 1 by omega, List.take_succ_cons,
      show x.sp - 1 + 1 = x.sp by omega]
  · intro address off
    rw [memory]
    exact Array.getElem?_setIfInBounds_ne (by omega)

theorem update {index word : Nat} (holds : start.Holds past x) (bits : y.bits = x.bits)
    (lawful : Lawful start.sp (past ++ [.update index word])) (sp : y.sp = x.sp)
    (memory : y.memory = ⟨x.memory.cells.setIfInBounds (x.sp + index) word⟩) :
    start.Holds (past ++ [.update index word]) y := by
  have inside : index < Access.depth past := lawful.last
  have here := holds.sp_add lawful.left
  refine holds.concat bits (by rw [memory]; exact Array.size_setIfInBounds) ?_ ?_
    (fun _ _ h => nomatch h) ?_
  · rw [Access.depth_update, sp, holds.sp]
  · rw [Access.apply, holds.stack_eq, Array.toList_extract, List.extract_eq_take_drop, memory, sp,
      Array.toList_setIfInBounds, List.drop_set, if_neg (by omega), List.take_set,
      Nat.add_sub_cancel_left]
  · intro address off
    rw [memory]
    exact Array.getElem?_setIfInBounds_ne (by omega)

end Holds

/-! ## The accesses of an instruction -/

/-- The access to a source, with the word that is found there. -/
def readAccesses (x : Architecture) (word? : Option Nat) : Isa.Source → List Access
  | .stackAt | .stack => [.read x.m word?]
  | _ => []

/-- The access to a destination with a word. -/
def writeAccesses (x : Architecture) (word : Nat) : Isa.Destination → List Access
  | .memAt | .mem => [.store x.n word]
  | .stackAt | .stack => [.update x.n word]
  | .push => [.push word]
  | _ => []

end Architecture

namespace Exec

/-- Reads an operand, if there is one. -/
def operand (takes : Bool) (read : Exec Unit) : Exec Unit :=
  if takes then do
    advance 1
    read
  else return

/-- Reads the operands of a movement. -/
def operands (source : Isa.Source) (destination : Isa.Destination) : Exec Unit := do
  operand source.takesWord operandM
  operand destination.takesWord operandN

end Exec

namespace Architecture

/-- The accesses of a movement; one that faults makes those before the fault. -/
def movementAccesses (x : Architecture) (source : Isa.Source) (destination : Isa.Destination) :
    List Access :=
  match (Exec.operands source destination).run x with
  | .error _ _ => []
  | .ok _ y =>
    match (Exec.value source).run y with
    | .error _ _ => y.readAccesses none source
    | .ok word z => y.readAccesses (some word) source ++ z.writeAccesses word destination

/-- The accesses of the instruction that the program counter shows. A skipped instruction makes
    none. -/
def accesses (x : Architecture) : List Access :=
  match x.memory.read x.pc with
  | .error _ => []
  | .ok word =>
    if x.skip then []
    else
      match Isa.Opcode.ofWord? word with
      | some (.movement source destination) => x.movementAccesses source destination
      | some (.action (.control .pop)) => [.pop]
      | _ => []

end Architecture

/-! ## Parts of an instruction -/

namespace Exec

open Architecture

variable {α β : Type}

theorem movement_eq (source : Isa.Source) (destination : Isa.Destination) :
    movement source destination = (do operands source destination; move source destination) := by
  unfold movement moveFromN operands operand
  split <;> split <;> simp only [bind_assoc, pure_bind]

/-- The part of an instruction leaves stack pointer and memory alone. -/
def OffStack (e : Exec α) : Prop :=
  ∀ x, match e.run x with
    | .ok _ y => x.SameStack y
    | .error _ y => x.SameStack y

namespace OffStack

theorem pure (a : α) : OffStack (Pure.pure a) := SameStack.refl

theorem get : OffStack (MonadState.get : Exec Architecture) := SameStack.refl

theorem modify {f : Architecture → Architecture} (same : ∀ x : Architecture, x.SameStack (f x)) :
    OffStack (modify f) := same

theorem bind {e : Exec α} {f : α → Exec β} (first : OffStack e) (rest : ∀ a, OffStack (f a)) :
    OffStack (e >>= f) := by
  intro x
  have before := first x
  rw [EStateM.run_bind]
  cases ran : e.run x with
  | ok a y =>
    rw [ran] at before
    have after := rest a y
    simp only
    split at after
    · exact before.trans after
    · exact before.trans after
  | error fault y =>
    rw [ran] at before
    exact before

theorem load (address : Nat) : OffStack (load address) := by
  intro x
  cases read : x.memory.read address with
  | ok word =>
    rw [run_load_ok read]
    exact .refl x
  | error fault =>
    rw [run_load_error read]
    exact .refl x

theorem advance (count : Nat) : OffStack (advance count) := fun _ => ⟨rfl, rfl, rfl, rfl⟩

theorem operandM : OffStack operandM :=
  .bind .get fun _ => .bind (.load _) fun _ => .modify fun _ => ⟨rfl, rfl, rfl, rfl⟩

theorem operandN : OffStack operandN :=
  .bind .get fun _ => .bind (.load _) fun _ => .modify fun _ => ⟨rfl, rfl, rfl, rfl⟩

theorem operand {read : Exec Unit} (off : OffStack read) (takes : Bool) :
    OffStack (operand takes read) := by
  unfold Exec.operand
  split
  · exact .bind (.advance 1) fun _ => off
  · exact .pure ()

theorem operands (source : Isa.Source) (destination : Isa.Destination) :
    OffStack (operands source destination) :=
  .bind (operandM.operand _) fun _ => operandN.operand _

section
variable {e : Exec α} {a : α} {fault : Fault} {x y : Architecture}

theorem run_ok (off : OffStack e) (ran : e.run x = .ok a y) : x.SameStack y := by
  have same := off x
  rwa [ran] at same

theorem run_error (off : OffStack e) (ran : e.run x = .error fault y) : x.SameStack y := by
  have same := off x
  rwa [ran] at same

/-- What a part of an instruction leaves when nothing comes after it. -/
theorem result (off : OffStack e) {start : Architecture} {past : List Access}
    (holds : start.Holds past x) : start.Holds past (e.result x) := by
  unfold Exec.result
  cases ran : e.run x with
  | ok a y => exact holds.same (off.run_ok ran)
  | error fault y => exact (holds.same (off.run_error ran)).fail fault

end

end OffStack

/-! ## Sources and destinations -/

section
variable {start x y : Architecture} {past : List Access} {word : Nat}

/-- An address that is counted from the stack pointer and stays below its start. -/
theorem run_stackAddress {index : Architecture → Nat} (lt : x.sp + index x < wordCount x.bits) :
    ∃ y, (stackAddress index).run x = .ok (x.sp + index x) y ∧ x.SameStack y := by
  have ran : ∃ y, (stackAddress index).run x = .ok (wrap x.bits (x.sp + index x)) y ∧
      x.SameStack y := ⟨_, rfl, rfl, rfl, rfl, rfl⟩
  rwa [← Int.natCast_add, wrap_of_lt lt] at ran

variable (holds : start.Holds past x) (room : start.sp ≤ start.memory.size)
  (word_lt : start.sp < wordCount start.bits)

include holds room word_lt

/-- The word at an index of the stack has an address. -/
theorem run_stackAddress_holds {index : Architecture → Nat} (lawful : Lawful start.sp past)
    (inside : index x < Access.depth past) :
    x.sp + index x < x.memory.size ∧
      ∃ y, (stackAddress index).run x = .ok (x.sp + index x) y ∧ x.SameStack y := by
  have here := holds.sp_add lawful
  have size := holds.size
  refine ⟨by omega, run_stackAddress ?_⟩
  rw [holds.bits]
  omega

theorem run_value_stack {source : Isa.Source}
    (values : value source = (do load (← stackAddress Architecture.m)))
    (lawful : Lawful start.sp past) (inside : x.m < Access.depth past) :
    ∃ word y, (value source).run x = .ok word y ∧
      start.Holds (past ++ [.read x.m (some word)]) y ∧ y.stopped = x.stopped := by
  obtain ⟨below, y, addressed, kept⟩ := run_stackAddress_holds holds room word_lt lawful inside
  obtain ⟨word, read, found⟩ := Memory.read_of_lt below
  refine ⟨word, y, ?_, ?_, kept.stopped⟩
  · rw [values, run_bind_ok addressed, run_load_ok (by rw [kept.memory]; exact read)]
  · exact (holds.read inside lawful ⟨word, rfl, found⟩).same kept

/-- The value of a source, with the access to it. Only a source off the stack may fault. -/
theorem run_value {source : Isa.Source} {word? : Option Nat}
    (lawful : Lawful start.sp (past ++ x.readAccesses word? source)) :
    (∃ word y, (value source).run x = .ok word y ∧
        start.Holds (past ++ x.readAccesses (some word) source) y ∧ y.stopped = x.stopped) ∨
      ∃ fault y, (value source).run x = .error fault y ∧ x.readAccesses none source = [] ∧
        start.Holds past y := by
  cases source
  case stackAt | stack =>
    exact .inl (run_value_stack holds room word_lt rfl (Lawful.left lawful) (Lawful.last lawful))
  all_goals
    show (∃ word y, _ ∧ start.Holds (past ++ []) y ∧ _) ∨ _
    rw [List.append_nil]
  case memAt | mem =>
    cases read : x.memory.read x.m with
    | ok word => exact .inl ⟨word, x, run_load_ok read, holds, rfl⟩
    | error fault => exact .inr ⟨fault, x, run_load_error read, rfl, holds⟩
  all_goals exact .inl ⟨_, _, rfl, holds.of_eq rfl rfl rfl, rfl⟩

/-- A word is delivered, with the access to its destination. -/
theorem run_deliver (destination : Isa.Destination)
    (lawful : Lawful start.sp (past ++ x.writeAccesses word destination)) :
    ∃ y, (deliver word destination).run x = .ok () y ∧
      start.Holds (past ++ x.writeAccesses word destination) y ∧ y.stopped = x.stopped := by
  cases destination
  case memAt | mem => exact (show False from Access.Lawful.last lawful).elim
  case stackAt | stack =>
    have inside : x.n < Access.depth past := Access.Lawful.last lawful
    obtain ⟨below, y, addressed, kept⟩ :=
      run_stackAddress_holds holds room word_lt (Access.Lawful.left lawful) inside
    rw [← kept.memory] at below
    refine ⟨_, run_bind_ok addressed _ |>.trans (run_store_ok (Memory.write_of_lt below word)), ?_,
      kept.stopped⟩
    refine holds.update kept.bits lawful kept.sp ?_
    rw [kept.memory]
  case push =>
    have free : Access.depth past < start.sp := Access.Lawful.last lawful
    have here := holds.sp_add lawful.left
    have bits := holds.bits
    have size := holds.size
    -- The address is counted from the stack pointer as the push has moved it.
    have moved : wrap x.bits (x.sp - 1) = x.sp - 1 := by
      have lt : x.sp - 1 < wordCount x.bits := by
        rw [bits]
        omega
      rw [show (x.sp : Int) - 1 = ((x.sp - 1 : Nat) : Int) by omega, wrap_of_lt lt]
    have start : wrap x.bits (x.sp - 1) + 0 < wordCount x.bits := wrap_lt x.bits _
    obtain ⟨y, addressed, kept⟩ := @run_stackAddress
      { x with sp := wrap x.bits (x.sp - 1), n := 0 } Architecture.n start
    have below : wrap x.bits (x.sp - 1) + 0 < y.memory.size := by
      rw [kept.memory, moved]
      show x.sp - 1 < x.memory.size
      omega
    refine ⟨_, (run_bind_ok addressed fun address => store address word).trans
      (run_store_ok (Memory.write_of_lt below word)), ?_, kept.stopped⟩
    refine holds.push room kept.bits lawful (kept.sp.trans moved) ?_
    rw [kept.memory, Nat.add_zero, moved]
  all_goals
    refine ⟨_, rfl, ?_, rfl⟩
    show start.Holds (past ++ []) _
    rw [List.append_nil]
    exact holds.of_eq rfl rfl rfl

/-- A whole movement, with its accesses. One that makes any does not fault. -/
theorem movement_holds (source : Isa.Source) (destination : Isa.Destination)
    (lawful : Lawful start.sp (past ++ x.movementAccesses source destination)) :
    start.Holds (past ++ x.movementAccesses source destination)
        ((movement source destination).result x) ∧
      (x.movementAccesses source destination ≠ [] →
        ((movement source destination).result x).stopped = x.stopped) := by
  have off := OffStack.operands source destination
  rw [movement_eq, result_bind]
  unfold movementAccesses at lawful ⊢
  cases read : (operands source destination).run x with
  | error fault y =>
    rw [List.append_nil]
    exact ⟨(holds.same (off.run_error read)).fail fault, fun some => absurd rfl some⟩
  | ok _ y =>
    have here := holds.same (off.run_ok read)
    have sourced : ∃ word?, Lawful start.sp (past ++ y.readAccesses word? source) := by
      cases valued : (value source).run y with
      | error fault z =>
        simp only [read, valued] at lawful
        exact ⟨none, lawful⟩
      | ok word z =>
        simp only [read, valued, ← List.append_assoc] at lawful
        exact ⟨some word, lawful.left⟩
    obtain ⟨word?, sourced⟩ := sourced
    rcases run_value here room word_lt sourced with
      ⟨word, z, valued, there, awake⟩ | ⟨fault, z, valued, none, there⟩
    · simp only [read, valued, ← List.append_assoc] at lawful ⊢
      obtain ⟨w, delivered, last, still⟩ := run_deliver there room word_lt destination lawful
      rw [move, result_bind_ok valued, put, result_bind_ok delivered]
      have running : w.stopped = x.stopped := still.trans (awake.trans (off.run_ok read).stopped)
      split
      · exact ⟨(OffStack.pure ()).result last, fun _ => running⟩
      · exact ⟨(OffStack.advance 1).result last, fun _ => running⟩
    · simp only [read, valued, none, List.append_nil] at lawful ⊢
      rw [move, result_bind, valued]
      exact ⟨there.fail fault, fun some => absurd rfl some⟩

end

section
variable {start x : Architecture} {past : List Access}

theorem OffStack.condition (c : Isa.Condition) : OffStack (condition c) :=
  .bind (.modify fun _ => ⟨rfl, rfl, rfl, rfl⟩) fun _ => .advance 1

theorem OffStack.register (op : Isa.Operation) (r : Isa.Register) :
    OffStack (action (.register op r)) := by
  refine .bind (.modify fun x => ?_) fun _ => .advance 1
  cases r <;> exact ⟨rfl, rfl, rfl, rfl⟩

theorem pop_holds (holds : start.Holds past x) (word_lt : start.sp < wordCount start.bits)
    (lawful : Lawful start.sp (past ++ [.pop])) :
    start.Holds (past ++ [.pop]) ((action (.control .pop)).result x) := by
  have deep : 0 < Access.depth past := lawful.last
  have here := holds.sp_add lawful.left
  have bits := holds.bits
  refine (OffStack.advance 1).result (holds.pop lawful rfl ?_ rfl)
  show wrap x.bits ((x.sp : Int) + 1) = x.sp + 1
  rw [show (x.sp : Int) + 1 = ((x.sp + 1 : Nat) : Int) by omega, wrap_of_lt (by rw [bits]; omega)]

end

/-- One instruction, with its accesses. One that makes any does not stop the machine. -/
theorem step_holds {start x : Architecture} {past : List Access} (holds : start.Holds past x)
    (room : start.sp ≤ start.memory.size) (word_lt : start.sp < wordCount start.bits)
    (lawful : Lawful start.sp (past ++ x.accesses)) :
    start.Holds (past ++ x.accesses) (step.result x) ∧
      (x.accesses ≠ [] → (step.result x).stopped = x.stopped) := by
  cases read : x.memory.read x.pc with
  | error fault =>
    simp only [accesses, read, List.append_nil, step_of_error read]
    exact ⟨holds.fail fault, fun some => absurd rfl some⟩
  | ok word =>
    cases skip : x.skip with
    | true =>
      simp only [accesses, read, skip, if_true, List.append_nil, step_of_skip read skip]
      exact ⟨(OffStack.advance _).result (holds.of_eq rfl rfl rfl), fun some => absurd rfl some⟩
    | false =>
      cases decoded : Isa.Opcode.ofWord? word with
      | none =>
        simp only [accesses, read, skip, decoded, Bool.false_eq_true, if_false, List.append_nil,
          step_of_none read skip decoded]
        exact ⟨holds.fail _, fun some => absurd rfl some⟩
      | some opcode =>
        rw [step_of_opcode read skip decoded]
        cases opcode with
        | movement source destination =>
          simp only [accesses, read, skip, decoded, Bool.false_eq_true, if_false] at lawful ⊢
          exact movement_holds holds room word_lt source destination lawful
        | condition c =>
          simp only [accesses, read, skip, decoded, Bool.false_eq_true, if_false, List.append_nil]
          exact ⟨(OffStack.condition c).result holds, fun some => absurd rfl some⟩
        | action done =>
          cases done with
          | register op r =>
            simp only [accesses, read, skip, decoded, Bool.false_eq_true, if_false, List.append_nil]
            exact ⟨(OffStack.register op r).result holds, fun some => absurd rfl some⟩
          | control c =>
            cases c with
            | pop =>
              simp only [accesses, read, skip, decoded, Bool.false_eq_true, if_false] at lawful ⊢
              exact ⟨pop_holds holds word_lt lawful, fun _ => rfl⟩
            | done | pause | halt =>
              simp only [accesses, read, skip, decoded, Bool.false_eq_true, if_false,
                List.append_nil]
              exact ⟨holds.of_eq rfl rfl rfl, fun some => absurd rfl some⟩

end Exec

namespace Cpu

/-- What there is to tell of a processor at each fetch of some ticks. -/
def atFetches {α : Type} (tell : Cpu → α) (cpu : Cpu) : Nat → List α
  | 0 => []
  | n + 1 =>
    (if cpu.running = true ∧ cpu.state = .fetch then [tell cpu] else []) ++
      cpu.tick.1.atFetches tell n

/-- The accesses of the instructions that are fetched in some ticks, for each instruction. -/
def accesses (cpu : Cpu) : Nat → List (List Access)
  | 0 => []
  | n + 1 =>
    (if cpu.running = true ∧ cpu.state = .fetch then [cpu.architecture.accesses] else []) ++
      cpu.tick.1.accesses n

theorem ticks_add (cpu : Cpu) (j k : Nat) : cpu.ticks (j + k) = (cpu.ticks j).ticks k := by
  induction j generalizing cpu with
  | zero => rw [Nat.zero_add, ticks]
  | succ j ih => rw [Nat.succ_add, ticks, ticks, ih]

section
variable {α : Type} {tell : Cpu → α} {cpu : Cpu} {n : Nat}

theorem atFetches_add (tell : Cpu → α) (cpu : Cpu) (j k : Nat) :
    cpu.atFetches tell (j + k) = cpu.atFetches tell j ++ (cpu.ticks j).atFetches tell k := by
  induction j generalizing cpu with
  | zero => rw [Nat.zero_add, ticks, atFetches, List.nil_append]
  | succ j ih => rw [Nat.succ_add, atFetches, atFetches, ticks, ih, List.append_assoc]

/-- No instruction is fetched between the fetches. -/
theorem atFetches_of_not_settled (unsettled : ∀ k < n, ¬(cpu.ticks k).Settled) :
    cpu.atFetches tell n = [] := by
  induction n generalizing cpu with
  | zero => rfl
  | succ n ih =>
    have here : ¬cpu.Settled := unsettled 0 (Nat.succ_pos n)
    rw [atFetches, if_neg fun fetching => here (.inl fetching.2), List.nil_append]
    exact ih fun k lt => unsettled (k + 1) (Nat.succ_lt_succ lt)

/-- The ticks of one instruction fetch it and no other. -/
theorem Completes.atFetches (completes : cpu.Completes n) (running : cpu.running = true)
    (state : cpu.state = .fetch) : cpu.atFetches tell n = [tell cpu] := by
  obtain ⟨m, rfl⟩ : ∃ m, n = m + 1 := ⟨n - 1, by have := completes.pos; omega⟩
  rw [Cpu.atFetches, if_pos ⟨running, state⟩, atFetches_of_not_settled, List.append_nil]
  exact fun k lt => completes.first (k + 1) (Nat.succ_pos k) (Nat.succ_lt_succ lt)

end

variable {start cpu : Cpu} {past : List (List Access)} {config : Config}

theorem accesses_eq_atFetches (cpu : Cpu) (n : Nat) :
    cpu.accesses n = cpu.atFetches (fun now => now.architecture.accesses) n := by
  induction n generalizing cpu with
  | zero => rfl
  | succ n ih => rw [accesses, atFetches, ih]

theorem accesses_add (cpu : Cpu) (j k : Nat) :
    cpu.accesses (j + k) = cpu.accesses j ++ (cpu.ticks j).accesses k := by
  simp only [accesses_eq_atFetches, atFetches_add]

theorem fits_ticks (fits : cpu.datapath.Fits config) (n : Nat) :
    (cpu.ticks n).datapath.Fits config := by
  induction n generalizing cpu with
  | zero => exact fits
  | succ n ih => exact ih (fits_tick fits)

/-- The ticks of one instruction. -/
theorem Completes.accesses {n : Nat} (completes : cpu.Completes n) (running : cpu.running = true)
    (state : cpu.state = .fetch) : cpu.accesses n = [cpu.architecture.accesses] := by
  rw [accesses_eq_atFetches, completes.atFetches running state]

/-- Nothing is executed any more. -/
theorem ticks_of_stopped (stopped : cpu.running = false) (n : Nat) :
    (cpu.ticks n).architecture = cpu.architecture ∧ (cpu.ticks n).running = false ∧
      cpu.accesses n = [] := by
  induction n generalizing cpu with
  | zero => exact ⟨rfl, stopped, rfl⟩
  | succ n ih =>
    have idle : cpu.tick.1 = cpu.clearMarks := by rw [tick_of_stopped stopped]
    rw [ticks, accesses, idle, if_neg (by rw [stopped]; simp), List.nil_append]
    exact @ih cpu.clearMarks stopped

/-- A processor holds the stack of the accesses of some instructions, and if the last of them made
    any, it still runs. -/
structure HoldsStack (start : Cpu) (past : List (List Access)) (cpu : Cpu) : Prop where
  holds : start.architecture.Holds past.flatten cpu.architecture
  running : ∀ accesses, past.getLast? = some accesses → accesses ≠ [] → cpu.running = true

theorem architecture_stopped : cpu.architecture.stopped = none ↔ cpu.running = true := by
  simp [architecture]

/-- One instruction. -/
theorem HoldsStack.step {n : Nat} (holds : start.HoldsStack past cpu)
    (room : start.sp ≤ start.datapath.memory.size)
    (word_lt : start.sp < wordCount start.datapath.bits) (running : cpu.running = true)
    (same : (cpu.ticks n).architecture = Exec.step.result cpu.architecture)
    (lawful : Lawful start.sp (past ++ [cpu.architecture.accesses]).flatten) :
    start.HoldsStack (past ++ [cpu.architecture.accesses]) (cpu.ticks n) := by
  rw [List.flatten_append, List.flatten_singleton] at lawful
  obtain ⟨next, awake⟩ := Exec.step_holds holds.holds room word_lt lawful
  constructor
  · rw [same, List.flatten_append, List.flatten_singleton]
    exact next
  · intro accesses last some
    rw [List.getLast?_concat, Option.some_inj] at last
    subst last
    rw [← architecture_stopped, same, awake some]
    exact architecture_stopped.2 running

/-- Any number of ticks that end between instructions. -/
theorem HoldsStack.ticks (room : start.sp ≤ start.datapath.memory.size)
    (word_lt : start.sp < wordCount start.datapath.bits) (n : Nat) :
    ∀ {cpu : Cpu} {past : List (List Access)}, start.HoldsStack past cpu →
      cpu.running = true → cpu.state = .fetch → cpu.datapath.Fits config →
      (cpu.ticks n).Settled → Lawful start.sp (past ++ cpu.accesses n).flatten →
      start.HoldsStack (past ++ cpu.accesses n) (cpu.ticks n) := by
  -- An instruction takes several ticks, so every smaller number of ticks is assumed.
  induction n using Nat.strongRecOn with
  | _ n ih =>
    intro cpu past holds running state fits settled lawful
    obtain ⟨k, -, completes, same⟩ := completes_step running state fits
    have pos := completes.pos
    rcases Nat.eq_zero_or_pos n with rfl | started
    · rwa [accesses, List.append_nil]
    · have whole : k ≤ n := by
        by_contra short
        exact completes.first n started (by omega) settled
      obtain ⟨rest, rfl⟩ := Nat.exists_eq_add_of_le whole
      rw [accesses_add, ticks_add, completes.accesses running state, ← List.append_assoc] at *
      have first := holds.step room word_lt running same (by
        rw [List.flatten_append] at lawful
        exact lawful.left)
      cases awake : (cpu.ticks k).running with
      | true =>
        have fetching : (cpu.ticks k).state = .fetch :=
          completes.settled.resolve_right (by rw [awake]; decide)
        exact ih rest (by omega) first awake fetching (fits_ticks fits k) settled lawful
      | false =>
        obtain ⟨unchanged, still, none⟩ := ticks_of_stopped awake rest
        rw [none, List.append_nil]
        constructor
        · rw [unchanged]
          exact first.holds
        · rw [still, ← awake]
          exact first.running

/-- The machine's stack is the stack that a program thinks of. From a fetch on, whatever is executed
    for however long, as long as the accesses are lawful: between instructions the cells from the
    stack pointer up to where it was are the stack of all pushes, pops and updates, every read has
    found its word there, no other cell has changed, and no instruction with such an access has
    stopped the machine. The words that are executed may lie anywhere, on the stack too. -/
theorem stack_refines (fits : cpu.datapath.Fits config) (running : cpu.running = true)
    (state : cpu.state = .fetch) (room : cpu.sp ≤ config.memorySize) (n : Nat)
    (settled : (cpu.ticks n).Settled) (lawful : Lawful cpu.sp (cpu.accesses n).flatten) :
    cpu.HoldsStack (cpu.accesses n) (cpu.ticks n) := by
  have empty : cpu.HoldsStack [] cpu := ⟨.refl _, fun _ h => nomatch h⟩
  rw [← List.nil_append (cpu.accesses n)]
  refine empty.ticks ?_ (fits.cell .stack) n running state fits settled ?_
  · rwa [fits.size]
  · rwa [List.nil_append]

/-- Two words pushed, the lower one put over the upper one, and one popped. -/
theorem stack_refines_pushes : ∃ cpu,
    (Cpu.initial .standard).load [501, 5, 501, 7, 387, 1, 0, 88, 66] = .ok cpu ∧
      cpu.reset.tick.1.sp = 255 ∧
      cpu.reset.tick.1.HoldsStack
        [[.push 5], [.push 7], [.read 1 (some 5), .update 0 5], [.pop], []]
        (cpu.reset.tick.1.ticks 31) := by
  have runs : ((Cpu.initial .standard).load [501, 5, 501, 7, 387, 1, 0, 88, 66]).toOption.map
      (fun cpu =>
        let start := cpu.reset.tick.1
        start.sp == 255 && start.running && start.state == .fetch &&
          decide (start.ticks 31).Settled &&
          start.accesses 31 ==
            [[.push 5], [.push 7], [.read 1 (some 5), .update 0 5], [.pop], []]) = some true := by
    decide +kernel
  cases loaded : (Cpu.initial .standard).load [501, 5, 501, 7, 387, 1, 0, 88, 66] with
  | error fault =>
    rw [loaded] at runs
    cases runs
  | ok cpu =>
    rw [loaded] at runs
    have all := Option.some.inj runs
    simp only [Bool.and_eq_true, beq_iff_eq, decide_eq_true_eq] at all
    obtain ⟨⟨⟨⟨sp, running⟩, state⟩, settled⟩, accesses⟩ := all
    have fits := (Reachable.tick (.reset (.load .initial loaded))).fits
    have holds := stack_refines fits running state (by rw [sp]; decide) 31 settled
      (by rw [sp, accesses]; decide)
    rw [accesses] at holds
    exact ⟨cpu, rfl, sp, holds⟩

end Cpu

end NineBit.Machine
