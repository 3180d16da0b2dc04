import NineBit.Proofs.Machine.Calls

/-!
# Histories of a session

A session counts its ticks by an indirect sign: one counts if the processor still runs behind it or
if it has reported something. What has really happened since the last reset are the ticks that a
running processor has made (`Session.since`), and all that they have reported is a full log
(`fullLog`). The session tells the truth about them: its count is their number, its trace is the end
of the log, and its outputs are the words that the log says were put out (`Session.told_of_calls`).
What carries this is that no tick of a running processor stops it in silence, and that a tick puts
out what it says it puts out (`Cpu.Micro.Reports`).
-/

namespace NineBit.Machine

/-! ## Logs -/

namespace Recent

variable {α : Type}

@[simp] theorem limit_foldl_push (entries : List α) (log : Recent α) :
    (entries.foldl push log).limit = log.limit := by
  induction entries generalizing log with
  | nil => rfl
  | cons entry rest ih => rw [List.foldl_cons, ih, limit_push]

/-- Adding entries shows them behind the others, as far as the limit goes. -/
theorem toList_foldl_push (entries : List α) (log : Recent α) :
    (entries.foldl push log).toList = lastOf log.limit (log.toList ++ entries) := by
  induction entries generalizing log with
  | nil =>
    rw [List.append_nil]
    exact (lastOf_lastOf log.limit log.kept.toList).symm
  | cons entry rest ih =>
    rw [List.foldl_cons, ih, limit_push, toList_push, lastOf_lastOf_append, List.append_assoc,
      List.singleton_append]

theorem map_lastOf {β : Type} (f : α → β) (limit : Nat) (list : List α) :
    (lastOf limit list).map f = lastOf limit (list.map f) := by
  rw [lastOf, lastOf, List.map_drop, List.length_map]

end Recent

/-- A word that a message says was put out. -/
def Message.output? : Message → Option Nat
  | .output value => some value
  | _ => none

/-- A tick of a running processor: the micro-state that it started in and what it reported. -/
structure Tick where
  state : MicroState
  messages : List Message

/-- The trace entries of a tick with some number. -/
def Tick.entries (tick : Tick) (number : Nat) : List TraceEntry :=
  tick.messages.map fun message => ⟨number, tick.state, message⟩

/-- All that some ticks have reported; they are numbered from one on. -/
def fullLog (ticks : List Tick) : List TraceEntry :=
  (ticks.zipIdx 1).flatMap fun numbered => numbered.1.entries numbered.2

theorem fullLog_append (ticks : List Tick) (tick : Tick) :
    fullLog (ticks ++ [tick]) = fullLog ticks ++ tick.entries (ticks.length + 1) := by
  simp [fullLog, List.zipIdx_append, Nat.add_comm]

/-- The words that some trace entries say were put out. -/
def outputsOf (log : List TraceEntry) : List Nat := log.filterMap fun entry => entry.message.output?

theorem outputsOf_append (log later : List TraceEntry) :
    outputsOf (log ++ later) = outputsOf log ++ outputsOf later := List.filterMap_append

theorem outputsOf_entries (tick : Tick) (number : Nat) :
    outputsOf (tick.entries number) = tick.messages.filterMap Message.output? := by
  rw [outputsOf, Tick.entries, List.filterMap_map]
  rfl

/-! ## What a micro-step reports -/

namespace Cpu

namespace Micro

variable {α : Type} {before : Cpu}

/-- What was put out and whether the processor runs is as it was. -/
abbrev Stays (before cpu : Cpu) : Prop :=
  cpu.outputs = before.outputs ∧ cpu.running = before.running

/-- A part that puts out nothing and stops nothing. -/
abbrev Silent (before : Cpu) (m : Micro α) : Prop :=
  Ensures (Stays before) m (fun _ => Stays before) fun cpu => cpu.outputs = before.outputs

/-- A part that keeps the control is silent. -/
theorem silent_of_holds {m : Micro α} (holds : ∀ c, Holds c m) : Silent before m := by
  intro cpu stays
  have done := holds cpu.control cpu rfl
  cases ran : m.run cpu with
  | ok a next =>
    rw [ran] at done
    exact ⟨(congrArg Control.outputs done).trans stays.1,
      (congrArg Control.running done).trans stays.2⟩
  | error fault next =>
    rw [ran] at done
    exact Eq.trans done stays.1

theorem silent_readCell (cell : Cell) : Silent before (readCell cell) := fun _ stays => stays

theorem silent_writeCell (cell : Cell) (value : Nat) : Silent before (writeCell cell value) :=
  fun _ stays => stays

theorem silent_operate (cell : Cell) (op : Isa.Operation) : Silent before (operate cell op) :=
  fun _ stays => stays

theorem silent_readMemory (address : Nat) : Silent before (readMemory address) :=
  silent_of_holds fun _ => holds_readMemory address

theorem silent_get : Silent before MonadState.get :=
  .mono .get (fun _ stays => stays) (fun _ _ here => here.2) fun _ same => same

/-- What a micro-step reports: the words that it puts out, and something if it stops the
    processor. -/
structure Reports (before : Cpu) (result : MicroState × List Message) (cpu : Cpu) : Prop where
  outputs : cpu.outputs.toList = before.outputs.toList ++ result.2.filterMap Message.output?
  running : result.2 = [] → cpu.running = before.running

/-- A micro-step that reports what it does; a fault comes before anything is put out. -/
abbrev Honest (before : Cpu) (m : Step) : Prop :=
  Ensures (Stays before) m (Reports before) fun cpu => cpu.outputs = before.outputs

theorem honest_pure {result : MicroState × List Message}
    (plain : result.2.filterMap Message.output? = []) : Honest before (Pure.pure result) :=
  .pure fun cpu stays => ⟨by rw [plain, List.append_nil, stays.1], fun _ => stays.2⟩

theorem honest_throw (fault : Fault) : Honest before (MonadExcept.throw fault) :=
  .throw fun _ stays => stays.1

theorem honest_advance {next : MicroState} {messages : List Message}
    (plain : messages.filterMap Message.output? = []) : Honest before (advance next messages) :=
  .bind (silent_operate _ _) fun _ => honest_pure plain

theorem honest_resetStep : Honest before resetStep :=
  .bind (silent_writeCell _ _) fun _ => .bind silent_get fun _ =>
    .bind (silent_writeCell _ _) fun _ => honest_pure rfl

theorem honest_fetchStep : Honest before fetchStep := by
  refine .bind (silent_readCell _) fun address => .bind (silent_readMemory _) fun word =>
    .bind (silent_writeCell _ _) fun _ => .bind silent_get fun now => .ite ?_ ?_
  · exact .bind (.modify fun _ stays => stays) fun _ => honest_pure rfl
  · cases Isa.kind? word with
    | none => exact honest_throw _
    | some kind =>
      cases kind with
      | movement =>
        refine .ite ?_ (honest_pure rfl)
        exact .bind (.throw fun _ stays => stays.1) fun _ => .pure fun _ here => here
      | condition => exact honest_pure rfl
      | action => exact honest_pure rfl

theorem honest_conditionStep : Honest before conditionStep := by
  refine .bind (silent_readCell _) fun word =>
    .bind (silent_of_holds fun _ => holds_tests _) fun results => .ite ?_ ?_
  · exact honest_pure rfl
  · exact .bind (.modify fun _ stays => stays) fun _ => honest_pure rfl

/-- A stop is always reported. -/
theorem honest_stop (state : MicroState) (control : Isa.Control) :
    Honest before (stop state control) :=
  .bind (.modify (Q := fun _ cpu => cpu.outputs = before.outputs) fun _ stays => stays.1) fun _ =>
    .pure fun _ same => ⟨by rw [same]; exact (List.append_nil _).symm, nofun⟩

theorem honest_actionStep : Honest before actionStep := by
  refine .bind (silent_readCell _) fun word => ?_
  cases Isa.action? word with
  | none => exact .bind silent_get fun _ => honest_throw _
  | some action =>
    cases action with
    | register op r => exact .bind (silent_operate _ _) fun _ => honest_pure rfl
    | control control =>
      cases control with
      | pop => exact .bind (silent_operate _ _) fun _ => honest_pure rfl
      | done => exact honest_stop _ _
      | pause => exact honest_stop _ _
      | halt => exact honest_stop _ _

theorem honest_movementStep : Honest before movementStep :=
  .bind (silent_readCell _) fun _ => honest_pure rfl

theorem silent_readOperand : Silent before readOperand :=
  silent_of_holds fun _ => holds_readOperand

theorem honest_sourceOperandStep : Honest before sourceOperandStep :=
  .bind silent_readOperand fun _ => .bind (silent_writeCell _ _) fun _ =>
    .bind (silent_readCell _) fun _ => honest_pure rfl

theorem honest_destinationOperandStep : Honest before destinationOperandStep :=
  .bind silent_readOperand fun _ => .bind (silent_writeCell _ _) fun _ => honest_pure rfl

theorem honest_movementFetchStep : Honest before movementFetchStep := by
  have buffers (address : Nat) : Honest before (bufferFrom address) :=
    .bind (silent_readMemory _) fun _ => .bind (silent_writeCell _ _) fun _ => honest_pure rfl
  refine .bind (silent_readCell _) fun word => ?_
  cases Isa.source word
  case memAt | mem => exact .bind (silent_readCell _) fun _ => buffers _
  case stackAt | stack =>
    exact .bind (silent_of_holds fun _ => holds_evaluate _) fun _ => buffers _
  all_goals exact honest_pure rfl

/-- What is moved to `out` is put out and reported. -/
theorem honest_movementMoveStep : Honest before movementMoveStep := by
  refine .bind (silent_readCell _) fun word =>
    .bind (silent_of_holds fun _ => holds_readSource _) fun value => ?_
  have moves (cell : Cell) (source : Isa.Source) (destination : Isa.Destination)
      (next : MicroState) : Honest before (do
        writeCell cell value
        return (next, [.moved value source destination])) :=
    .bind (silent_writeCell _ _) fun _ => honest_pure rfl
  cases Isa.destination? word with
  | none => exact honest_pure rfl
  | some destination =>
    -- Only `out` does more than write cells.
    cases destination
    case nul => exact honest_pure rfl
    case push =>
      exact .bind (silent_writeCell _ _) fun _ => .bind (silent_operate _ _) fun _ =>
        .bind (silent_writeCell _ _) fun _ => honest_pure rfl
    case out =>
      refine .bind (.modify (Q := fun _ cpu =>
        cpu.outputs = before.outputs.push value ∧ cpu.running = before.running) ?_) fun _ =>
        .pure fun _ here => ⟨?_, nofun⟩
      · rintro cpu ⟨same, running⟩
        exact ⟨congrArg (·.push value) same, running⟩
      · rw [here.1, Array.toList_push]
        rfl
    all_goals exact moves _ _ _ _

theorem honest_movementFlushStep : Honest before movementFlushStep := by
  have flushes (address : Nat) (onStack : Bool) : Honest before (flushTo address onStack) :=
    .bind (silent_readCell _) fun _ =>
      .bind (silent_of_holds fun _ => holds_writeMemory _ _) fun _ => honest_pure rfl
  refine .bind (silent_readCell _) fun word => ?_
  split
  · exact .bind (silent_readCell _) fun _ => flushes _ _
  · exact .bind (silent_readCell _) fun _ => flushes _ _
  · exact .bind (silent_of_holds fun _ => holds_evaluate _) fun _ => flushes _ _

/-- Only the micro-step of a processor that is halted already may stop it in silence. -/
theorem honest_step {state : MicroState} (live : state ≠ .halted) : Honest before (step state) := by
  cases state with
  | reset => exact honest_resetStep
  | fetch => exact honest_fetchStep
  | skipTwo | skipOne | sourceOperand | destinationOperand | finish => exact honest_advance rfl
  | condition => exact honest_conditionStep
  | action => exact honest_actionStep
  | done | pause => exact honest_pure rfl
  | halted => exact absurd rfl live
  | movement => exact honest_movementStep
  | sourceOperandLoad => exact honest_sourceOperandStep
  | destinationOperandLoad => exact honest_destinationOperandStep
  | movementFetch => exact honest_movementFetchStep
  | movementMove => exact honest_movementMoveStep
  | movementFlush => exact honest_movementFlushStep

end Micro

/-- A tick of a running processor keeps it running or reports something, and puts out the words that
    it reports as put out. -/
theorem tick_reports {config : Config} {cpu : Cpu} (consistent : cpu.Consistent config)
    (running : cpu.running = true) :
    (cpu.tick.1.running || !cpu.tick.2.isEmpty) = true ∧
      cpu.tick.1.outputs.toList =
        cpu.outputs.toList ++ cpu.tick.2.filterMap Message.output? := by
  have live : cpu.state ≠ .halted := by
    intro halted
    rw [consistent.halted halted] at running
    cases running
  have honest : Micro.Honest cpu (Micro.step cpu.state) := Micro.honest_step live
  have reports := honest cpu.clearMarks ⟨rfl, rfl⟩
  unfold tick
  rw [running]
  cases ran : (Micro.step cpu.state).run cpu.clearMarks with
  | ok result next =>
    rw [ran] at reports
    obtain ⟨state, messages⟩ := result
    refine ⟨?_, reports.outputs⟩
    cases messages with
    | nil => exact congrArg (· || _) ((reports.running rfl).trans running)
    | cons message rest => exact Bool.or_true _
  | error fault next =>
    rw [ran] at reports
    have same : next.outputs = cpu.outputs := reports
    exact ⟨Bool.or_true _, by simp [Message.output?, same]⟩

end Cpu

namespace Session

/-! ## The ticks of a call -/

variable {config : Config} {s : Session} {ticks : List Tick}

/-- The next tick, if it is one of a running processor. -/
def made (s : Session) : List Tick :=
  if s.cpu.running then [⟨s.cpu.state, s.cpu.tick.2⟩] else []

/-- The ticks of a running processor among the next ones. -/
def madeIn (s : Session) : Nat → List Tick
  | 0 => []
  | k + 1 => s.made ++ s.step.1.madeIn k

/-- The number of ticks that an advance makes. -/
def advanceTicks (s : Session) (first : Bool) : Nat → Nat
  | 0 => 0
  | budget + 1 =>
    if s.cpu.running = true ∧ (s.AtBreakpoint → first = true) then
      s.step.1.advanceTicks false budget + 1
    else 0

/-- An advance makes its ticks and at most reports a breakpoint. -/
theorem advance_eq_steps (s : Session) (first : Bool) (budget : Nat) :
    ∃ breakpoints, (s.advance first budget).1 =
      { s.steps (s.advanceTicks first budget) with breakpoints := breakpoints } := by
  induction budget generalizing s first with
  | zero => exact ⟨_, rfl⟩
  | succ budget ih =>
    unfold advanceTicks
    cases running : s.cpu.running with
    | false =>
      rw [advance_of_stopped running, if_neg (by simp)]
      exact ⟨_, rfl⟩
    | true =>
      by_cases passes : s.AtBreakpoint → first = true
      · rw [advance_succ running passes, if_pos ⟨rfl, passes⟩]
        exact ih s.step.1 false
      · have here := Classical.not_imp.1 passes
        obtain rfl : first = false := Bool.eq_false_iff.2 here.2
        rw [advance_of_atBreakpoint running here.1, if_neg fun both => passes both.2]
        exact ⟨_, rfl⟩

/-- The number of ticks that a run makes. -/
def runTicks (s : Session) (limit : Option Int) : Nat :=
  s.advanceTicks true (limit.getD s.config.maxTicks).toNat

theorem run_eq_steps (s : Session) (limit : Option Int) :
    ∃ breakpoints, (s.run limit).1 =
      { s.steps (s.runTicks limit) with breakpoints := breakpoints } := by
  have advanced := s.advance_eq_steps true (limit.getD s.config.maxTicks).toNat
  unfold run
  dsimp only
  generalize s.advance true (limit.getD s.config.maxTicks).toNat = result at advanced
  obtain ⟨last, _ | event⟩ := result <;> exact advanced

/-- The ticks of a running processor that a call makes. -/
def ticksOf (s : Session) : Call → List Tick
  | .step => s.made
  | .run limit => s.madeIn (s.runTicks limit)
  | .resume limit =>
    let resumed := { s with cpu := s.cpu.resume }
    resumed.madeIn (resumed.runTicks limit)
  | _ => []

/-- A call that starts the processor anew unless it is refused. -/
def Call.restarts : Call → Bool
  | .loadSource _ | .loadWords _ | .loadOutput _ | .reset => true
  | _ => false

/-- The ticks of a running processor since the last reset, behind one more call. -/
def behind (s : Session) (ticks : List Tick) (call : Call) : List Tick :=
  if call.restarts && !(s.perform call).2.isRefusal then [] else ticks ++ s.ticksOf call

/-- The ticks of a running processor since the last reset, behind some more calls. -/
def since (s : Session) (ticks : List Tick) : List Call → List Tick
  | [] => ticks
  | call :: rest => (s.perform call).1.since (s.behind ticks call) rest

/-! ## Sessions that tell the truth -/

/-- What a session tells of its run. -/
def account (s : Session) : Nat × Recent TraceEntry × Array Nat := (s.ticks, s.trace, s.cpu.outputs)

theorem account_resume (s : Session) : { s with cpu := s.cpu.resume }.account = s.account := by
  dsimp only [account]
  unfold Cpu.resume
  split <;> rfl

/-- A session tells the truth about the ticks of a running processor since the last reset. -/
structure Told (config : Config) (ticks : List Tick) (s : Session) : Prop extends
    s.Keeps config where
  count : s.ticks = ticks.length
  limit : s.trace.limit = config.traceLimit
  trace : s.trace.toList = Recent.lastOf config.traceLimit (fullLog ticks)
  outputs : s.outputs = outputsOf (fullLog ticks)

namespace Told

theorem congr {other : Session} (told : s.Told config ticks) (keeps : other.Keeps config)
    (same : other.account = s.account) : other.Told config ticks := by
  obtain ⟨count, trace, outputs⟩ : other.ticks = s.ticks ∧ other.trace = s.trace ∧
      other.cpu.outputs = s.cpu.outputs := by simpa [account] using same
  exact {
    toKeeps := keeps
    count := count.trans told.count
    limit := (congrArg Recent.limit trace).trans told.limit
    trace := (congrArg Recent.toList trace).trans told.trace
    outputs := (congrArg Array.toList outputs).trans told.outputs }

/-- A session that has just been set back has nothing to tell. -/
theorem of_fresh (keeps : s.Keeps config)
    (same : s.account = (0, .empty s.config.traceLimit, #[])) : s.Told config [] := by
  obtain ⟨count, trace, outputs⟩ : s.ticks = 0 ∧ s.trace = .empty s.config.traceLimit ∧
      s.cpu.outputs = #[] := by simpa [account] using same
  rw [keeps.config_eq] at trace
  exact {
    toKeeps := keeps
    count := count
    limit := congrArg Recent.limit trace
    trace := by
      rw [trace, Recent.toList_empty]
      exact List.drop_nil.symm
    outputs := congrArg Array.toList outputs }

/-- A tick is told of if it is one of a running processor. -/
theorem step (told : s.Told config ticks) : s.step.1.Told config (ticks ++ s.made) := by
  have keeps : s.step.1.Keeps config := ⟨told.config_eq, .tick told.cpu⟩
  unfold made
  cases running : s.cpu.running with
  | false =>
    rw [if_neg Bool.false_ne_true, List.append_nil]
    refine told.congr keeps ?_
    simp [account, Session.step, Session.ticked, Cpu.tick_of_stopped running, Cpu.clearMarks,
      running]
  | true =>
    -- Either sign that the session goes by is enough, and a running processor gives one of them.
    obtain ⟨counts, outputs⟩ := Cpu.tick_reports told.cpu.consistent running
    rw [if_pos rfl]
    have counted : s.step.1.ticks = ticks.length + 1 := by
      simp only [Session.step, Session.ticked, counts, if_true, told.count]
    have traced : s.step.1.trace =
        ((⟨s.cpu.state, s.cpu.tick.2⟩ : Tick).entries (ticks.length + 1)).foldl Recent.push
          s.trace := by
      rw [Tick.entries, List.foldl_map, ← counted]
      rfl
    exact {
      toKeeps := keeps
      count := by rw [counted, List.length_append, List.length_singleton]
      limit := by rw [traced, Recent.limit_foldl_push, told.limit]
      trace := by
        rw [traced, Recent.toList_foldl_push, told.limit, told.trace,
          Recent.lastOf_lastOf_append, fullLog_append]
      outputs := by
        rw [fullLog_append, outputsOf_append, outputsOf_entries, ← told.outputs]
        exact outputs }

theorem steps (told : s.Told config ticks) (k : Nat) :
    (s.steps k).Told config (ticks ++ s.madeIn k) := by
  induction k generalizing s ticks with
  | zero =>
    rw [madeIn, List.append_nil]
    exact told
  | succ k ih =>
    rw [madeIn, ← List.append_assoc]
    exact ih told.step

theorem run (told : s.Told config ticks) (limit : Option Int) :
    (s.run limit).1.Told config (ticks ++ s.madeIn (s.runTicks limit)) := by
  obtain ⟨breakpoints, last⟩ := s.run_eq_steps limit
  rw [last]
  have later := told.steps (s.runTicks limit)
  exact later.congr ⟨later.config_eq, later.cpu⟩ rfl

theorem resumed (told : s.Told config ticks) :
    { s with cpu := s.cpu.resume }.Told config ticks :=
  told.congr ⟨told.config_eq, .resume told.cpu⟩ s.account_resume

end Told

/-! ## Calls of a session that tells the truth -/

section
variable {call : Call}

theorem behind_of_restarted (restarts : call.restarts = true)
    (accepted : (s.perform call).2.isRefusal = false) : s.behind ticks call = [] := by
  rw [behind, restarts, accepted]
  rfl

theorem behind_of_going_on
    (goes_on : (call.restarts && !(s.perform call).2.isRefusal) = false) :
    s.behind ticks call = ticks ++ s.ticksOf call := by
  rw [behind, goes_on, if_neg Bool.false_ne_true]

/-- A call that makes no tick and starts nothing anew, or would do so and is refused. -/
theorem Told.idle (told : s.Told config ticks) (none : s.ticksOf call = [])
    (goes_on : (call.restarts && !(s.perform call).2.isRefusal) = false)
    (same : (s.perform call).1.account = s.account) :
    (s.perform call).1.Told config (s.behind ticks call) := by
  rw [behind_of_going_on goes_on, none, List.append_nil]
  exact told.congr (told.toKeeps.perform call) same

/-- A call that starts anew. -/
theorem Told.restarted (told : s.Told config ticks) (restarts : call.restarts = true)
    (accepted : (s.perform call).2.isRefusal = false)
    (same : (s.perform call).1.account =
      (0, .empty (s.perform call).1.config.traceLimit, #[])) :
    (s.perform call).1.Told config (s.behind ticks call) := by
  rw [behind_of_restarted restarts accepted]
  exact .of_fresh (told.toKeeps.perform call) same

/-- Loads start anew unless the words do not fit. -/
theorem Told.load (told : s.Told config ticks) {program : Option Asm.Output} {words : List Int}
    (restarts : call.restarts = true) (none : s.ticksOf call = [])
    (performs : s.perform call = ((s.load program words).1, .ofLoad (s.load program words).2)) :
    (s.perform call).1.Told config (s.behind ticks call) := by
  cases loaded : s.cpu.load words with
  | ok cpu =>
    rw [load_of_ok loaded] at performs
    exact told.restarted restarts (by rw [performs]; rfl) (by rw [performs]; rfl)
  | error fault =>
    rw [load_of_error loaded] at performs
    exact told.idle none (by rw [performs, restarts]; rfl) (by rw [performs]; rfl)

/-- Whatever is asked of it, a session goes on telling the truth. -/
theorem Told.perform (told : s.Told config ticks) (call : Call) :
    (s.perform call).1.Told config (s.behind ticks call) := by
  cases call with
  | loadSource source =>
    cases assembled : (Asm.Assembly.ofSource s.config source).output with
    | none =>
      have performs := perform_loadSource_none assembled
      exact told.idle rfl (by rw [performs]; rfl) (by rw [performs])
    | some output =>
      obtain ⟨cpu, loaded⟩ := told.toKeeps.loads assembled
      have performs := perform_loadSource_some assembled loaded
      exact told.restarted rfl (by rw [performs]; rfl) (by rw [performs]; rfl)
  | loadWords words => exact told.load rfl rfl rfl
  | loadOutput output => exact told.load rfl rfl rfl
  | reset => exact told.restarted rfl rfl rfl
  | step =>
    rw [behind_of_going_on rfl]
    exact told.step
  | run limit =>
    rw [behind_of_going_on rfl]
    exact told.run limit
  | resume limit =>
    rw [behind_of_going_on rfl]
    exact told.resumed.run limit
  | resumeProcessor => exact told.idle rfl rfl s.account_resume
  | breakAtLabel label =>
    refine told.idle rfl rfl ?_
    cases found : s.addressOf? label with
    | some address => rw [perform_breakAtLabel_some found]; rfl
    | none => rw [perform_breakAtLabel_none found]
  | read address =>
    refine told.idle rfl rfl ?_
    cases found : s.cpu.datapath.memory.read address with
    | ok word => rw [perform_read_ok found]
    | error fault => rw [perform_read_error found]
  | write address value =>
    refine told.idle rfl rfl ?_
    cases written : s.cpu.datapath.writeMemory address value with
    | ok datapath => rw [perform_write_ok written]; rfl
    | error fault => rw [perform_write_error written]
  | breakAt | unbreak | clearBreakpoints => exact told.idle rfl rfl rfl

theorem Told.performAll (told : s.Told config ticks) (calls : List Call) :
    (s.performAll calls).1.Told config (s.since ticks calls) := by
  induction calls generalizing s ticks with
  | nil => exact told
  | cons call rest ih => exact ih (told.perform call)

end

/-- After whatever calls, the count of a session is the number of ticks that a running processor
    has made since the last reset, its trace is the end of the log of all that these ticks have
    reported, and its outputs are the words that this log says were put out. -/
theorem told_of_calls (config : Config) (calls : List Call) :
    let s := ((Session.initial config).performAll calls).1
    let ticks := (Session.initial config).since [] calls
    s.ticks = ticks.length ∧
      s.traceLines = Recent.lastOf config.traceLimit ((fullLog ticks).map TraceEntry.text) ∧
      s.outputs = outputsOf (fullLog ticks) := by
  intro s ticks
  have fresh : (Session.initial config).Told config [] := .of_fresh ⟨rfl, .initial⟩ rfl
  have told : s.Told config ticks := fresh.performAll calls
  refine ⟨told.count, ?_, told.outputs⟩
  rw [traceLines, told.trace, Recent.map_lastOf]

end Session

end NineBit.Machine
