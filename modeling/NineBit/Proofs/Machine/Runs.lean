import NineBit.Machine.Session
import NineBit.Proofs.Machine.Consistency

/-!
# Runs of the machine

A run makes ticks of a running processor until one of its three exits: a breakpoint before the next
fetch, a spent budget, or a processor that has stopped (`Session.Exits`). So runs are transparent:
however they divide them, they make the ticks that single steps make, and the events say where and
why they ended (`Session.run_transparent`). The first tick of a run passes over a breakpoint. A run
that is split is therefore the same run, unless the first part ends where the next tick would fetch
at a breakpoint: the whole run ends there, and the second part goes on (`Session.run_split`).
-/

namespace NineBit.Machine

/-! ## Processors that were reset -/

namespace Cpu

/-- The processors of a configuration that operations lead to, with a reset among them or
    without. -/
inductive Reached (config : Config) : Bool → Cpu → Prop where
  | initial : Reached config false (.initial config)
  | load {wasReset : Bool} {cpu next : Cpu} {words : List Int} :
      Reached config wasReset cpu → cpu.load words = .ok next → Reached config wasReset next
  | reset {wasReset : Bool} {cpu : Cpu} :
      Reached config wasReset cpu → Reached config true cpu.reset
  | tick {wasReset : Bool} {cpu : Cpu} :
      Reached config wasReset cpu → Reached config wasReset cpu.tick.1
  | resume {wasReset : Bool} {cpu : Cpu} :
      Reached config wasReset cpu → Reached config wasReset cpu.resume
  | write {wasReset : Bool} {cpu : Cpu} {datapath : Datapath} {address value : Int} :
      Reached config wasReset cpu → cpu.datapath.writeMemory address value = .ok datapath →
        Reached config wasReset { cpu with datapath := datapath }

variable {config : Config} {wasReset : Bool} {cpu : Cpu}

theorem Reached.reachable (reached : cpu.Reached config wasReset) : cpu.Reachable config := by
  induction reached with
  | initial => exact .initial
  | load _ loaded ih => exact .load ih loaded
  | reset _ ih => exact .reset ih
  | tick _ ih => exact .tick ih
  | resume _ ih => exact .resume ih
  | write _ written ih => exact .write ih written

/-- Every reachable processor was reset or not. -/
theorem Reachable.reached (reachable : cpu.Reachable config) :
    ∃ wasReset, cpu.Reached config wasReset := by
  induction reachable with
  | initial => exact ⟨false, .initial⟩
  | load _ loaded ih => exact ih.imp fun _ before => .load before loaded
  | reset _ ih => exact ⟨true, .reset ih.choose_spec⟩
  | tick _ ih => exact ih.imp fun _ before => .tick before
  | resume _ ih => exact ih.imp fun _ before => .resume before
  | write _ written ih => exact ih.imp fun _ before => .write before written

/-- A processor that was reset stands still only in a micro-state that stops it; one that never was
    has not begun. -/
theorem Reached.rests (reached : cpu.Reached config wasReset) :
    wasReset = true ∧ (cpu.running = false → cpu.state.stops = true) ∨
      wasReset = false ∧ cpu.running = false ∧ cpu.state = .reset := by
  induction reached with
  | initial => exact .inr ⟨rfl, rfl, rfl⟩
  | load _ loaded ih =>
    obtain ⟨datapath, rfl⟩ := load_eq_ok loaded
    exact ih
  | reset _ _ => exact .inl ⟨rfl, nofun⟩
  | @tick _ cpu before ih =>
    cases running : cpu.running with
    | true =>
      rcases ih with ⟨was, -⟩ | ⟨-, stopped, -⟩
      · refine .inl ⟨was, fun stopped => ?_⟩
        rw [(before.reachable.consistent.tick_running running).2] at stopped
        simpa using stopped
      · rw [running] at stopped
        cases stopped
    | false =>
      rw [tick_of_stopped running]
      exact ih
  | @resume _ cpu _ ih =>
    unfold Cpu.resume
    split
    · rename_i resumable
      rcases ih with ⟨was, -⟩ | ⟨-, -, fresh⟩
      · exact .inl ⟨was, nofun⟩
      · unfold Cpu.resumable at resumable
        rw [fresh] at resumable
        simp at resumable
    · exact ih
  | write _ _ ih => exact ih

end Cpu

namespace Session

/-! ## Ticks -/

/-- The session after some ticks. -/
def steps (s : Session) : Nat → Session
  | 0 => s
  | k + 1 => s.step.1.steps k

/-- The next tick fetches an instruction at a breakpoint. -/
def AtBreakpoint (s : Session) : Prop :=
  s.cpu.state = .fetch ∧ (s.cpu.pc : Int) ∈ s.breakpoints.addresses

instance (s : Session) : Decidable s.AtBreakpoint := inferInstanceAs (Decidable (_ ∧ _))

/-- The session once the breakpoint at the program counter has been reported. -/
def reported (s : Session) : Session :=
  { s with breakpoints := (s.breakpoints.check s.cpu.pc).2 }

/-- A processor that runs makes so many ticks, and none of them fetches an instruction at a
    breakpoint, apart from the first where that is passed over. -/
def Passes (s : Session) (first : Bool) : Nat → Prop
  | 0 => True
  | k + 1 => s.cpu.running = true ∧ (s.AtBreakpoint → first = true) ∧ s.step.1.Passes false k

section
variable {s : Session} {first : Bool} {budget k : Nat}

@[simp] theorem breakpoints_steps (s : Session) (k : Nat) :
    (s.steps k).breakpoints = s.breakpoints := by
  induction k generalizing s with
  | zero => rfl
  | succ k ih => exact ih s.step.1

theorem steps_add (s : Session) (j k : Nat) : s.steps (j + k) = (s.steps j).steps k := by
  induction j generalizing s with
  | zero => rw [Nat.zero_add, steps]
  | succ j ih => rw [Nat.succ_add, steps, steps, ih]

/-- Breakpoints are none of a tick's business. -/
theorem steps_setBreakpoints (s : Session) (breakpoints : Breakpoints) (k : Nat) :
    { s with breakpoints := breakpoints }.steps k =
      { s.steps k with breakpoints := breakpoints } := by
  induction k generalizing s with
  | zero => rfl
  | succ k ih => exact ih s.step.1

/-- Ticks reset nothing. -/
theorem reached_steps {config : Config} {wasReset : Bool} (k : Nat)
    (reached : s.cpu.Reached config wasReset) : (s.steps k).cpu.Reached config wasReset := by
  induction k generalizing s with
  | zero => exact reached
  | succ k ih => exact ih reached.tick

theorem addresses_reported (s : Session) :
    s.reported.breakpoints.addresses = s.breakpoints.addresses := by
  unfold reported Breakpoints.check
  split <;> rfl

theorem Passes.running (passes : s.Passes first k) {j : Nat} (before : j < k) :
    (s.steps j).cpu.running = true := by
  induction k generalizing s first j with
  | zero => omega
  | succ k ih =>
    cases j with
    | zero => exact passes.1
    | succ j => exact ih passes.2.2 (by omega)

/-- Only the first tick may fetch at a breakpoint. -/
theorem Passes.eq_zero (passes : s.Passes first k) {j : Nat} (before : j < k)
    (here : (s.steps j).AtBreakpoint) : first = true ∧ j = 0 := by
  induction k generalizing s first j with
  | zero => omega
  | succ k ih =>
    cases j with
    | zero => exact ⟨passes.2.1 here, rfl⟩
    | succ j => cases (ih passes.2.2 (Nat.lt_of_succ_lt_succ before) here).1

/-! ## Advances -/

theorem breakEvent?_of_atBreakpoint (here : s.AtBreakpoint) :
    s.breakEvent? = (some (.atBreakpoint s.cpu.pc), s.reported) := by
  have has : s.breakpoints.has s.cpu.pc = true := List.contains_iff_mem.2 here.2
  simp [breakEvent?, reported, Breakpoints.check, here.1, has]

theorem breakEvent?_of_not_atBreakpoint (not : ¬ s.AtBreakpoint) : s.breakEvent? = (none, s) := by
  by_cases fetches : s.cpu.state = .fetch
  · have has : ¬ s.breakpoints.has s.cpu.pc = true := by
      intro has
      exact not ⟨fetches, List.contains_iff_mem.1 has⟩
    simp [breakEvent?, Breakpoints.check, fetches, has]
  · simp [breakEvent?, fetches]

theorem advance_of_stopped (stopped : s.cpu.running = false) :
    s.advance first budget = (s, none) := by
  cases budget with
  | zero => rfl
  | succ budget => simp [advance, stopped]

theorem advance_of_atBreakpoint (running : s.cpu.running = true) (here : s.AtBreakpoint) :
    s.advance false (budget + 1) = (s.reported, some (.atBreakpoint s.cpu.pc)) := by
  simp [advance, running, breakEvent?_of_atBreakpoint here]

/-- A tick that is not a fetch at a breakpoint, or the first of its run. -/
theorem advance_succ (running : s.cpu.running = true) (passes : s.AtBreakpoint → first = true) :
    s.advance first (budget + 1) = s.step.1.advance false budget := by
  cases first with
  | true => simp [advance, running]
  | false =>
    have away : ¬ s.AtBreakpoint := by
      intro here
      cases passes here
    simp [advance, running, breakEvent?_of_not_atBreakpoint away]

/-- What a run does behind the ticks that it has made. -/
theorem advance_of_passes (passes : s.Passes first k) (budget : Nat) :
    s.advance first (k + budget) = (s.steps k).advance (first && k == 0) budget := by
  induction k generalizing s first with
  | zero => rw [Nat.zero_add, steps, beq_self_eq_true, Bool.and_true]
  | succ k ih =>
    rw [Nat.succ_add, advance_succ passes.1 passes.2.1, ih passes.2.2, steps]
    simp

/-- The ends of an advance that has made some ticks: at a breakpoint, with its budget spent, or at a
    processor that has stopped. -/
inductive Ends (s : Session) (first : Bool) (budget k : Nat) :
    Session × Option BreakEvent → Prop where
  | breakpoint : k < budget → (s.steps k).cpu.running = true → (s.steps k).AtBreakpoint →
      (first = true → k ≠ 0) →
      Ends s first budget k ((s.steps k).reported, some (.atBreakpoint (s.steps k).cpu.pc))
  | spent : k = budget → (s.steps k).cpu.running = true →
      Ends s first budget k (s.steps k, none)
  | stopped : k ≤ budget → (s.steps k).cpu.running = false →
      Ends s first budget k (s.steps k, none)

/-- An advance makes some ticks and ends. -/
theorem advance_ends (s : Session) (first : Bool) (budget : Nat) :
    ∃ k, s.Passes first k ∧ s.Ends first budget k (s.advance first budget) := by
  induction budget generalizing s first with
  | zero =>
    cases running : s.cpu.running with
    | true => exact ⟨0, trivial, .spent rfl running⟩
    | false => exact ⟨0, trivial, .stopped (Nat.le_refl 0) running⟩
  | succ budget ih =>
    cases running : s.cpu.running with
    | false =>
      rw [advance_of_stopped running]
      exact ⟨0, trivial, .stopped (Nat.zero_le _) running⟩
    | true =>
      by_cases passes : s.AtBreakpoint → first = true
      · rw [advance_succ running passes]
        obtain ⟨k, later, ends⟩ := ih s.step.1 false
        refine ⟨k + 1, ⟨running, passes, later⟩, ?_⟩
        generalize s.step.1.advance false budget = result at ends
        cases ends with
        | breakpoint lt still here _ =>
          exact .breakpoint (Nat.succ_lt_succ lt) still here fun _ => Nat.succ_ne_zero k
        | spent all still => exact .spent (congrArg _ all) still
        | stopped le rest => exact .stopped (Nat.succ_le_succ le) rest
      · have here := Classical.not_imp.1 passes
        obtain rfl : first = false := Bool.eq_false_iff.2 here.2
        rw [advance_of_atBreakpoint running here.1]
        exact ⟨0, trivial, .breakpoint (Nat.succ_pos _) running here.1 nofun⟩

end

/-! ## Runs -/

/-- The reason of a run that ends with some processor tells whether that is still running, and
    otherwise why it stopped. -/
structure Tells (reason : BreakReason) (cpu : Cpu) : Prop where
  running : reason = .breakpoint ∨ reason = .budget ↔ cpu.running = true
  done : reason = .done ↔ cpu.running = false ∧ cpu.state = .done
  paused : reason = .paused ↔ cpu.running = false ∧ cpu.state = .pause
  fault : reason = .fault ↔
    cpu.running = false ∧ cpu.state = .halted ∧ cpu.failure.isSome = true
  halted : reason = .halted ↔ cpu.running = false ∧ cpu.state = .halted ∧ cpu.failure = none
  none : ∀ config wasReset, cpu.Reached config wasReset → (reason = .none ↔ wasReset = false)

theorem Tells.of_running {reason : BreakReason} {cpu : Cpu} (running : cpu.running = true)
    (ends : reason = .breakpoint ∨ reason = .budget) : Tells reason cpu := by
  have begun {config : Config} {wasReset : Bool} (reached : cpu.Reached config wasReset) :
      wasReset = true := by
    rcases reached.rests with ⟨was, -⟩ | ⟨-, stopped, -⟩
    · exact was
    · rw [running] at stopped
      cases stopped
  rcases ends with rfl | rfl
  all_goals
    constructor
    case none =>
      intro config wasReset reached
      simp [begun reached]
    all_goals simp [running]

theorem Tells.stopEvent {s : Session} (stopped : s.cpu.running = false) :
    Tells s.stopEvent.reason s.cpu := by
  have begun {config : Config} {wasReset : Bool} (reached : s.cpu.Reached config wasReset) :
      wasReset = s.cpu.state.stops := by
    rcases reached.rests with ⟨was, stops⟩ | ⟨was, -, fresh⟩
    · rw [was, stops stopped]
    · rw [was, fresh]
      rfl
  unfold Session.stopEvent
  cases state : s.cpu.state
  -- Only where it is halted does it matter whether there was a fault.
  case halted =>
    cases failed : s.cpu.failure
    all_goals
      constructor
      case none =>
        intro config wasReset reached
        simp [begun reached, state, MicroState.stops]
      all_goals simp [stopped, state, failed]
  all_goals
    constructor
    case none =>
      intro config wasReset reached
      simp [begun reached, state, MicroState.stops]
    all_goals simp [stopped, state]

/-- What one run with a budget does: the ticks that it makes, and the event that it ends with. -/
structure Ran (s : Session) (limit : Int) (ticks : Nat) (last : Session) (event : BreakEvent) :
    Prop where
  last_eq : last = { s.steps ticks with breakpoints := last.breakpoints }
  addresses : last.breakpoints.addresses = s.breakpoints.addresses
  reached : ∀ config wasReset, s.cpu.Reached config wasReset → last.cpu.Reached config wasReset
  le : ticks ≤ limit.toNat
  running : ∀ j < ticks, (s.steps j).cpu.running = true
  starts : 1 ≤ limit → s.cpu.running = true → 1 ≤ ticks
  /-- Behind the first tick, none fetches at a breakpoint. -/
  passes : ∀ j < ticks, (s.steps j).cpu.state = .fetch →
    ((s.steps j).cpu.pc : Int) ∈ s.breakpoints.addresses → j = 0
  breakpoint : event.reason = .breakpoint → ∃ address ∈ s.breakpoints.addresses,
    event.address = some address ∧ last.cpu.pc = address ∧ last.cpu.state = .fetch ∧
      ticks < limit.toNat
  budget : event.reason = .budget ↔ ticks = limit.toNat ∧ last.cpu.running = true
  tells : Tells event.reason last.cpu

/-- The exits of a run that has made some ticks. -/
inductive Exits (s : Session) (limit : Int) (k : Nat) : Session × BreakEvent → Prop where
  | breakpoint : k < limit.toNat → k ≠ 0 → (s.steps k).cpu.running = true →
      (s.steps k).AtBreakpoint →
      Exits s limit k ((s.steps k).reported, .atBreakpoint (s.steps k).cpu.pc)
  | spent : k = limit.toNat → (s.steps k).cpu.running = true →
      Exits s limit k (s.steps k, (s.steps k).budgetEvent limit)
  | stopped : k ≤ limit.toNat → (s.steps k).cpu.running = false →
      Exits s limit k (s.steps k, (s.steps k).stopEvent)

theorem run_exits (s : Session) (limit : Option Int) :
    ∃ k, s.Passes true k ∧ s.Exits (limit.getD s.config.maxTicks) k (s.run limit) := by
  unfold run
  generalize limit.getD s.config.maxTicks = limit
  obtain ⟨k, passes, ends⟩ := s.advance_ends true limit.toNat
  refine ⟨k, passes, ?_⟩
  dsimp only
  generalize s.advance true limit.toNat = result at ends
  cases ends with
  | breakpoint lt still here later => exact .breakpoint lt (later rfl) still here
  | spent all still =>
    dsimp only
    rw [if_pos still]
    exact .spent all still
  | stopped le stopped =>
    dsimp only
    rw [if_neg (Bool.eq_false_iff.1 stopped)]
    exact .stopped le stopped

theorem run_ran (s : Session) (limit : Option Int) :
    ∃ ticks, Ran s (limit.getD s.config.maxTicks) ticks (s.run limit).1 (s.run limit).2 := by
  obtain ⟨k, passes, exits⟩ := s.run_exits limit
  refine ⟨k, ?_⟩
  generalize limit.getD s.config.maxTicks = budget at exits
  generalize s.run limit = result at exits
  have breakpoints := s.breakpoints_steps k
  have reached config wasReset (before : s.cpu.Reached config wasReset) := reached_steps k before
  have running j (before : j < k) := passes.running before
  have first j (before : j < k) (fetches : (s.steps j).cpu.state = .fetch)
      (member : ((s.steps j).cpu.pc : Int) ∈ s.breakpoints.addresses) : j = 0 :=
    (passes.eq_zero before ⟨fetches, s.breakpoints_steps j ▸ member⟩).2
  cases exits with
  | breakpoint lt some still here =>
    exact {
      last_eq := rfl
      addresses := (addresses_reported _).trans (congrArg _ breakpoints)
      reached
      le := Nat.le_of_lt lt
      running
      starts := fun _ _ => Nat.pos_of_ne_zero some
      passes := first
      breakpoint := fun _ => ⟨_, breakpoints ▸ here.2, rfl, rfl, here.1, lt⟩
      budget := iff_of_false nofun fun all => Nat.ne_of_lt lt all.1
      tells := .of_running still (.inl rfl) }
  | spent all still =>
    exact {
      last_eq := rfl
      addresses := congrArg _ breakpoints
      reached
      le := Nat.le_of_eq all
      running
      starts := fun _ _ => by omega
      passes := first
      breakpoint := nofun
      budget := iff_of_true rfl ⟨all, still⟩
      tells := .of_running still (.inr rfl) }
  | stopped le stopped =>
    have rests := Bool.eq_false_iff.1 stopped
    have tells := Tells.stopEvent stopped
    exact {
      last_eq := rfl
      addresses := congrArg _ breakpoints
      reached
      le
      running
      starts := fun _ run => Nat.pos_of_ne_zero fun none => rests (none ▸ run)
      passes := first
      breakpoint := fun here => absurd (tells.running.1 (.inl here)) rests
      budget := iff_of_false (fun spent => rests (tells.running.1 (.inr spent))) fun all =>
        rests all.2
      tells }

/-- The session after some runs. -/
def runs (s : Session) : List (Option Int) → Session
  | [] => s
  | limit :: rest => (s.run limit).1.runs rest

/-- The ticks that some runs may make. -/
def allowance (s : Session) : List (Option Int) → Nat
  | [] => 0
  | limit :: rest => (limit.getD s.config.maxTicks).toNat + s.allowance rest

theorem allowance_congr {s other : Session} (same : other.config = s.config)
    (limits : List (Option Int)) : other.allowance limits = s.allowance limits := by
  induction limits with
  | nil => rfl
  | cons limit rest ih => rw [allowance, allowance, same, ih]

theorem config_steps (s : Session) (k : Nat) : (s.steps k).config = s.config := by
  induction k generalizing s with
  | zero => rfl
  | succ k ih => exact ih s.step.1

/-- However some runs divide them, they make the ticks of single steps. -/
theorem runs_eq_steps (s : Session) (limits : List (Option Int)) :
    ∃ k ≤ s.allowance limits, s.runs limits =
      { s.steps k with breakpoints := (s.runs limits).breakpoints } := by
  induction limits generalizing s with
  | nil => exact ⟨0, Nat.le_refl 0, rfl⟩
  | cons limit rest ih =>
    obtain ⟨j, ran⟩ := s.run_ran limit
    obtain ⟨k, le, last⟩ := ih (s.run limit).1
    have config : (s.run limit).1.config = s.config := by
      rw [ran.last_eq]
      exact s.config_steps j
    refine ⟨j + k, ?_, ?_⟩
    · rw [allowance_congr config] at le
      exact Nat.add_le_add ran.le le
    · rw [runs, last, ran.last_eq, steps_setBreakpoints, steps_add]

/-- Runs make nothing but ticks, and each ends where and why its event says. -/
theorem run_transparent (s : Session) :
    (∀ limits, ∃ k ≤ s.allowance limits, s.runs limits =
      { s.steps k with breakpoints := (s.runs limits).breakpoints }) ∧
    ∀ limit, ∃ ticks,
      Ran s (limit.getD s.config.maxTicks) ticks (s.run limit).1 (s.run limit).2 :=
  ⟨s.runs_eq_steps, s.run_ran⟩

/-! ## Runs that are split -/

/-- A run that ends with its budget spent has made all of its ticks. -/
theorem run_spent {s : Session} {budget : Nat}
    (spent : (s.run (some budget)).2.reason = .budget) :
    s.Passes true budget ∧ (s.steps budget).cpu.running = true ∧
      (s.run (some budget)).1 = s.steps budget := by
  obtain ⟨k, passes, exits⟩ := s.run_exits (some budget)
  rw [Option.getD_some] at exits
  generalize s.run (some budget) = result at exits spent
  cases exits with
  | breakpoint => cases spent
  | spent all still =>
    obtain rfl : k = budget := all
    exact ⟨passes, still, rfl⟩
  | stopped le stopped =>
    exact absurd ((Tells.stopEvent stopped).running.1 (.inr spent)) (Bool.eq_false_iff.1 stopped)

/-- Runs that advance alike end alike, but for the budget that their events name. -/
theorem run_alike {s t : Session} {limit other : Int}
    (same : s.advance true limit.toNat = t.advance true other.toNat) :
    (s.run (some limit)).1 = (t.run (some other)).1 ∧
      (s.run (some limit)).2.reason = (t.run (some other)).2.reason ∧
      (s.run (some limit)).2.address = (t.run (some other)).2.address := by
  unfold run
  dsimp only [Option.getD_some]
  rw [same]
  generalize t.advance true other.toNat = result
  obtain ⟨last, _ | event⟩ := result
  · dsimp only
    split <;> exact ⟨rfl, rfl, rfl⟩
  · exact ⟨rfl, rfl, rfl⟩

theorem run_of_advance {s last : Session} {limit : Int} {event : BreakEvent}
    (ends : s.advance true limit.toNat = (last, some event)) :
    s.run (some limit) = (last, event) := by
  simp [run, ends]

/-- A run may be split where its budget is spent, unless the processor has come to a breakpoint
    there: then the whole run ends, and the second part passes over the breakpoint. -/
theorem run_split {s : Session} {n m : Nat} (first : 1 ≤ n) (second : 1 ≤ m)
    (spent : (s.run (some n)).2.reason = .budget) :
    let middle := (s.run (some n)).1
    let rest := middle.run (some m)
    let whole := s.run (some (n + m))
    (¬ middle.AtBreakpoint → rest.1 = whole.1 ∧ rest.2.reason = whole.2.reason ∧
      rest.2.address = whole.2.address) ∧
    (middle.AtBreakpoint → whole = (middle.reported, .atBreakpoint middle.cpu.pc) ∧
      ∃ k, 1 ≤ k ∧ k ≤ m ∧
        rest.1 = { middle.steps k with breakpoints := rest.1.breakpoints }) := by
  intro middle rest whole
  obtain ⟨passes, running, ends⟩ := run_spent spent
  obtain ⟨m, rfl⟩ : ∃ m', m = m' + 1 := ⟨m - 1, by omega⟩
  have running : middle.cpu.running = true := by
    rw [← ends] at running
    exact running
  have whole_advance : s.advance true (n + (m + 1)) = middle.advance false (m + 1) := by
    rw [advance_of_passes passes, ← ends]
    rw [Bool.true_and, beq_eq_false_iff_ne.2 (by omega)]
  constructor
  · intro passed
    have rest_advance : middle.advance true (m + 1) = middle.advance false (m + 1) := by
      rw [advance_succ running fun _ => rfl, advance_succ running fun here => absurd here passed]
    exact run_alike (rest_advance.trans whole_advance.symm)
  · intro here
    refine ⟨run_of_advance (whole_advance.trans (advance_of_atBreakpoint running here)), ?_⟩
    obtain ⟨k, ran⟩ := middle.run_ran (some (m + 1 : Nat))
    exact ⟨k, ran.starts (Int.ofNat_le.2 second) running, ran.le, ran.last_eq⟩

/-- The middle of a run that goes on to a breakpoint. -/
theorem run_split_before_breakpoint :
    let s := ((Session.initial .standard).loadWords [502, 7, 66]).1.breakAt 2
    let middle := (s.run (some (3 : Nat))).1
    let whole := s.run (some ((3 : Nat) + (9 : Nat)))
    (s.run (some (3 : Nat))).2.reason = .budget ∧ whole.2.reason = .breakpoint ∧
      (middle.run (some (9 : Nat))).1 = whole.1 := by
  intro s middle whole
  have spent : (s.run (some (3 : Nat))).2.reason = .budget := by decide +kernel
  have passed : ¬ middle.AtBreakpoint := by decide +kernel
  have same := (run_split (m := 9) (by decide) (by decide) spent).1 passed
  exact ⟨spent, by decide +kernel, same.1⟩

/-- A first part that ends before the fetch at a breakpoint: the second passes over it. -/
theorem run_split_at_breakpoint :
    let s := ((Session.initial .standard).loadWords [66]).1.breakAt 0
    let middle := (s.run (some 1)).1
    let rest := middle.run (some 1)
    let whole := s.run (some (1 + 1))
    (s.run (some 1)).2.reason = .budget ∧
      ¬ (rest.2.reason = whole.2.reason ∧ rest.2.address = whole.2.address ∧
        rest.1.cpu = whole.1.cpu) := by
  decide +kernel

end Session

end NineBit.Machine
