import NineBit.Proofs.Asm.Success
import NineBit.Proofs.Machine.Runs

/-!
# Calls of a session

Everything that is asked of a session is a `Session.Call`, and `Session.perform` says what becomes
of the session and what is replied. A call is refused for one reason each: a text that does not
assemble, more words than the memory has cells, a label or an address that is not there
(`Session.Refuses`). Nothing of a session changes then, except that a load of words that do not fit
has already changed the program in which labels are looked up (`Session.refusal_keeps`). That shows
in no reply but those about labels (`Session.perform_setProgram`).
-/

namespace NineBit.Machine

/-- Something that is asked of a session. -/
inductive Session.Call where
  | loadSource (source : Source)
  | loadWords (words : List Int)
  | loadOutput (output : Asm.Output)
  | reset
  | step
  | run (limit : Option Int)
  | resume (limit : Option Int)
  | resumeProcessor
  | breakAt (address : Int)
  | breakAtLabel (label : String)
  | unbreak (address : Int)
  | clearBreakpoints
  | read (address : Int)
  | write (address value : Int)

/-- Why a call is refused. -/
inductive Session.Refusal where
  | problems (found : List Diagnostic)
  | range (fault : Fault)
  | unknown (label : UnknownLabel)

/-- What a session replies to a call. -/
inductive Session.Reply where
  | done
  | assembled (output : Asm.Output)
  | told (messages : List Message)
  | ended (event : BreakEvent)
  | address (address : Nat)
  | word (word : Nat)
  | refused (refusal : Session.Refusal)

/-- The reply to a load of words. -/
def Session.Reply.ofLoad : Option Fault → Session.Reply
  | none => done
  | some fault => refused (.range fault)

/-- The call has been refused. -/
def Session.Reply.isRefusal : Session.Reply → Bool
  | refused _ => true
  | _ => false

namespace Session

/-- What becomes of a session by a call, and what it replies. -/
def perform (s : Session) : Call → Session × Reply
  | .loadSource source =>
    let (next, assembly, fault) := s.loadSource source
    match assembly.output, fault with
    | none, _ => (next, .refused (.problems assembly.log.problems.toList))
    | some _, some fault => (next, .refused (.range fault))
    | some output, none => (next, .assembled output)
  | .loadWords words =>
    let (next, fault) := s.loadWords words
    (next, .ofLoad fault)
  | .loadOutput output =>
    let (next, fault) := s.loadOutput output
    (next, .ofLoad fault)
  | .reset => (s.reset, .done)
  | .step =>
    let (next, messages) := s.step
    (next, .told messages)
  | .run limit =>
    let (next, event) := s.run limit
    (next, .ended event)
  | .resume limit =>
    let (next, event) := s.resume limit
    (next, .ended event)
  | .resumeProcessor => ({ s with cpu := s.cpu.resume }, .done)
  | .breakAt address => (s.breakAt address, .done)
  | .breakAtLabel label =>
    match s.breakAtLabel label with
    | .ok (address, next) => (next, .address address)
    | .error label => (s, .refused (.unknown label))
  | .unbreak address => (s.unbreak address, .done)
  | .clearBreakpoints => (s.clearBreakpoints, .done)
  | .read address =>
    match s.read address with
    | .ok word => (s, .word word)
    | .error fault => (s, .refused (.range fault))
  | .write address value =>
    match s.write address value with
    | .ok next => (next, .done)
    | .error fault => (s, .refused (.range fault))

/-- The sessions of a configuration that calls lead to. -/
inductive Reachable (config : Config) : Session → Prop where
  | initial : Reachable config (.initial config)
  | perform {s : Session} (call : Call) : Reachable config s → Reachable config (s.perform call).1

/-- What a call cannot be made for. -/
def Refuses (s : Session) : Call → Prop
  | .loadSource source => (Asm.Assembly.ofSource s.config source).output = none
  | .loadWords words => s.config.memorySize < words.length
  | .loadOutput output => s.config.memorySize < output.words.size
  | .breakAtLabel label => s.addressOf? label = none
  | .read address | .write address _ => ¬(0 ≤ address ∧ address < s.config.memorySize)
  | _ => False

/-- What a call that is refused leaves: words that do not fit have taken the place of the program,
    and nothing else has changed. -/
def refused (s : Session) : Call → Session
  | .loadWords _ => { s with program := none }
  | .loadOutput output => { s with program := some output }
  | _ => s

/-- What becomes of a session by some calls, and its replies. -/
def performAll (s : Session) : List Call → Session × List Reply
  | [] => (s, [])
  | call :: rest =>
    let (next, reply) := s.perform call
    let (last, replies) := next.performAll rest
    (last, reply :: replies)

end Session

/-! ## Loads -/

namespace Memory

variable {m : Memory} {words : List Nat}

/-- Words go into a memory from its first cell on if there are as many cells. -/
theorem load_ok (le : words.length ≤ m.size) : ∃ next, m.load words 0 = .ok next := by
  cases words with
  | nil => exact ⟨_, rfl⟩
  | cons word rest =>
    have first : m.cell 0 = .ok 0 := by
      simp only [List.length_cons] at le
      unfold cell
      rw [if_pos (by omega)]
      rfl
    have last : m.cell (0 + (word :: rest).length - 1) = .ok rest.length := by
      simp only [List.length_cons] at le ⊢
      unfold cell
      rw [if_pos (by omega)]
      congr 1
      omega
    unfold load
    rw [first, last]
    exact ⟨_, rfl⟩

theorem load_error (lt : m.size < words.length) : ∃ fault, m.load words 0 = .error fault := by
  cases words with
  | nil => simp at lt
  | cons word rest =>
    have last : ∃ fault, m.cell (0 + (word :: rest).length - 1) = .error fault := by
      simp only [List.length_cons] at lt ⊢
      unfold cell
      rw [if_neg (by omega)]
      exact ⟨_, rfl⟩
    obtain ⟨fault, last⟩ := last
    unfold load
    rw [last]
    cases m.cell 0 <;> exact ⟨_, rfl⟩

end Memory

namespace Cpu

variable {cpu : Cpu} {words : List Int}

theorem load_ok (le : words.length ≤ cpu.datapath.memory.size) :
    ∃ next, cpu.load words = .ok next := by
  rw [← List.length_map (wrap cpu.datapath.bits)] at le
  obtain ⟨memory, loaded⟩ := Memory.load_ok le
  unfold load Datapath.loadMemory
  rw [loaded]
  exact ⟨_, rfl⟩

theorem load_error (lt : cpu.datapath.memory.size < words.length) :
    ∃ fault, cpu.load words = .error fault := by
  rw [← List.length_map (wrap cpu.datapath.bits)] at lt
  obtain ⟨fault, failed⟩ := Memory.load_error lt
  unfold load Datapath.loadMemory
  rw [failed]
  exact ⟨_, rfl⟩

end Cpu

namespace Session

variable {s : Session} {config : Config} {program : Option Asm.Output} {words : List Int}

theorem load_of_ok {cpu : Cpu} (loaded : s.cpu.load words = .ok cpu) :
    s.load program words = ({ s with program := program, cpu := cpu }.reset, none) := by
  unfold load
  rw [loaded]

theorem load_of_error {fault : Fault} (failed : s.cpu.load words = .error fault) :
    s.load program words = ({ s with program := program }, some fault) := by
  unfold load
  rw [failed]

/-! ## Calls that may be refused, one by one -/

section
variable {label : String} {address value : Int} {fault : Fault} {source : Source}

/-- A label is looked up, and the call is refused without one. -/
theorem perform_breakAtLabel (s : Session) (label : String) :
    s.perform (.breakAtLabel label) =
      match s.breakAtLabel label with
      | .ok (address, next) => (next, .address address)
      | .error label => (s, .refused (.unknown label)) := rfl

theorem perform_breakAtLabel_some {place : Nat} (found : s.addressOf? label = some place) :
    s.perform (.breakAtLabel label) = (s.breakAt place, .address place) := by
  have looked : s.breakAtLabel label = .ok (place, s.breakAt place) := by
    unfold breakAtLabel
    rw [found]
  rw [perform_breakAtLabel, looked]

theorem perform_breakAtLabel_none (missing : s.addressOf? label = none) :
    s.perform (.breakAtLabel label) = (s, .refused (.unknown ⟨label⟩)) := by
  have looked : s.breakAtLabel label = .error ⟨label⟩ := by
    unfold breakAtLabel
    rw [missing]
  rw [perform_breakAtLabel, looked]

/-- A word is read, and the call is refused without one. -/
theorem perform_read (s : Session) (address : Int) :
    s.perform (.read address) =
      match s.cpu.datapath.memory.read address with
      | .ok word => (s, .word word)
      | .error fault => (s, .refused (.range fault)) := rfl

theorem perform_read_ok {word : Nat} (found : s.cpu.datapath.memory.read address = .ok word) :
    s.perform (.read address) = (s, .word word) := by
  rw [perform_read, found]

theorem perform_read_error (failed : s.cpu.datapath.memory.read address = .error fault) :
    s.perform (.read address) = (s, .refused (.range fault)) := by
  rw [perform_read, failed]

/-- A word is written, and the call is refused if it cannot be. -/
theorem perform_write (s : Session) (address value : Int) :
    s.perform (.write address value) =
      match s.write address value with
      | .ok next => (next, .done)
      | .error fault => (s, .refused (.range fault)) := rfl

theorem perform_write_ok {datapath : Datapath}
    (written : s.cpu.datapath.writeMemory address value = .ok datapath) :
    s.perform (.write address value) =
      ({ s with cpu := { s.cpu with datapath := datapath } }, .done) := by
  rw [perform_write, Session.write, written]
  rfl

theorem perform_write_error (failed : s.cpu.datapath.writeMemory address value = .error fault) :
    s.perform (.write address value) = (s, .refused (.range fault)) := by
  rw [perform_write, Session.write, failed]
  rfl

/-- A source text is loaded, and the call is refused if it has problems or does not fit. -/
theorem perform_loadSource (s : Session) (source : Source) :
    s.perform (.loadSource source) =
      match (s.loadSource source).2.1.output, (s.loadSource source).2.2 with
      | none, _ => ((s.loadSource source).1,
          .refused (.problems (s.loadSource source).2.1.log.problems.toList))
      | some _, some fault => ((s.loadSource source).1, .refused (.range fault))
      | some output, none => ((s.loadSource source).1, .assembled output) := rfl

theorem perform_loadSource_none
    (unassembled : (Asm.Assembly.ofSource s.config source).output = none) :
    s.perform (.loadSource source) = (s, .refused (.problems
      (Asm.Assembly.ofSource s.config source).log.problems.toList)) := by
  have same : s.loadSource source = (s, Asm.Assembly.ofSource s.config source, none) := by
    unfold loadSource
    dsimp only
    rw [unassembled]
  rw [perform_loadSource, same, unassembled]

theorem perform_loadSource_some {output : Asm.Output} {cpu : Cpu}
    (assembled : (Asm.Assembly.ofSource s.config source).output = some output)
    (loaded : s.cpu.load output.integers = .ok cpu) :
    s.perform (.loadSource source) =
      ({ s with program := some output, cpu := cpu }.reset, .assembled output) := by
  have same : s.loadSource source = ({ s with program := some output, cpu := cpu }.reset,
      Asm.Assembly.ofSource s.config source, none) := by
    unfold loadSource loadOutput
    dsimp only
    rw [assembled]
    dsimp only
    rw [load_of_ok loaded]
  rw [perform_loadSource, same, assembled]

end

/-! ## Reachable sessions -/

/-- The configuration is that of the session, and calls lead its processor where operations lead
    one. -/
structure Keeps (config : Config) (s : Session) : Prop where
  config_eq : s.config = config
  cpu : s.cpu.Reachable config

theorem Keeps.size (keeps : s.Keeps config) :
    s.cpu.datapath.memory.size = s.config.memorySize := by
  rw [keeps.config_eq]
  exact keeps.cpu.fits.size

/-- An image that the session has assembled itself fits its memory. -/
theorem Keeps.loads (keeps : s.Keeps config) {source : Source} {output : Asm.Output}
    (assembled : (Asm.Assembly.ofSource s.config source).output = some output) :
    ∃ cpu, s.cpu.load output.integers = .ok cpu := by
  have holds := (Asm.assembled_of_output assembled).holds
  apply Cpu.load_ok
  rw [keeps.size]
  simpa [Asm.Output.integers] using holds

theorem Keeps.load (keeps : s.Keeps config) : (s.load program words).1.Keeps config := by
  cases loaded : s.cpu.load words with
  | ok cpu =>
    rw [load_of_ok loaded]
    exact ⟨keeps.config_eq, .reset (.load keeps.cpu loaded)⟩
  | error fault =>
    rw [load_of_error loaded]
    exact ⟨keeps.config_eq, keeps.cpu⟩

theorem Keeps.run (keeps : s.Keeps config) (limit : Option Int) :
    (s.run limit).1.Keeps config := by
  obtain ⟨k, ran⟩ := s.run_ran limit
  constructor
  · rw [ran.last_eq]
    exact (s.config_steps k).trans keeps.config_eq
  · obtain ⟨wasReset, reached⟩ := keeps.cpu.reached
    exact (ran.reached config wasReset reached).reachable

theorem Keeps.perform (keeps : s.Keeps config) (call : Call) :
    (s.perform call).1.Keeps config := by
  cases call with
  | loadSource source =>
    cases assembled : (Asm.Assembly.ofSource s.config source).output with
    | none =>
      rw [perform_loadSource_none assembled]
      exact keeps
    | some output =>
      obtain ⟨cpu, loaded⟩ := keeps.loads assembled
      rw [perform_loadSource_some assembled loaded]
      exact ⟨keeps.config_eq, .reset (.load keeps.cpu loaded)⟩
  | loadWords words => exact keeps.load
  | loadOutput output => exact keeps.load
  | reset => exact ⟨keeps.config_eq, .reset keeps.cpu⟩
  | step => exact ⟨keeps.config_eq, .tick keeps.cpu⟩
  | run limit => exact keeps.run limit
  | resume limit =>
    have resumed : { s with cpu := s.cpu.resume }.Keeps config :=
      ⟨keeps.config_eq, .resume keeps.cpu⟩
    exact resumed.run limit
  | resumeProcessor => exact ⟨keeps.config_eq, .resume keeps.cpu⟩
  | breakAtLabel label =>
    cases found : s.addressOf? label with
    | some address =>
      rw [perform_breakAtLabel_some found]
      exact ⟨keeps.config_eq, keeps.cpu⟩
    | none =>
      rw [perform_breakAtLabel_none found]
      exact keeps
  | read address =>
    cases found : s.cpu.datapath.memory.read address with
    | ok word =>
      rw [perform_read_ok found]
      exact keeps
    | error fault =>
      rw [perform_read_error found]
      exact keeps
  | write address value =>
    cases written : s.cpu.datapath.writeMemory address value with
    | ok datapath =>
      rw [perform_write_ok written]
      exact ⟨keeps.config_eq, .write keeps.cpu written⟩
    | error fault =>
      rw [perform_write_error written]
      exact keeps
  | breakAt | unbreak | clearBreakpoints => exact ⟨keeps.config_eq, keeps.cpu⟩

theorem Reachable.keeps (reachable : s.Reachable config) : s.Keeps config := by
  induction reachable with
  | initial => exact ⟨rfl, .initial⟩
  | perform call _ ih => exact ih.perform call

/-! ## Refusals -/

/-- A call leaves the session as a refusal does if it cannot be made, and else it is not refused. -/
structure Settles (s : Session) (call : Call) : Prop where
  refused_iff : (s.perform call).2.isRefusal = true ↔ s.Refuses call
  left : s.Refuses call → (s.perform call).1 = s.refused call

theorem Settles.of_refused {call : Call} (refuses : s.Refuses call)
    (reply : (s.perform call).2.isRefusal = true) (left : (s.perform call).1 = s.refused call) :
    s.Settles call :=
  ⟨iff_of_true reply refuses, fun _ => left⟩

theorem Settles.of_done {call : Call} (accepts : ¬s.Refuses call)
    (reply : (s.perform call).2.isRefusal = false) : s.Settles call :=
  ⟨iff_of_false (by simp [reply]) accepts, fun refuses => absurd refuses accepts⟩

theorem Keeps.settles_load (keeps : s.Keeps config) {call : Call}
    (performs : s.perform call = ((s.load program words).1, .ofLoad (s.load program words).2))
    (refuses : s.Refuses call ↔ s.config.memorySize < words.length)
    (left : s.refused call = { s with program := program }) : s.Settles call := by
  by_cases large : s.config.memorySize < words.length
  · obtain ⟨fault, failed⟩ := s.cpu.load_error (keeps.size ▸ large)
    rw [load_of_error failed] at performs
    exact .of_refused (refuses.2 large) (by rw [performs]; rfl) (by rw [performs, left])
  · have fits : words.length ≤ s.cpu.datapath.memory.size := by
      rw [keeps.size]
      omega
    obtain ⟨cpu, loaded⟩ := Cpu.load_ok fits
    rw [load_of_ok loaded] at performs
    exact .of_done (fun large' => large (refuses.1 large')) (by rw [performs]; rfl)

/-- Reads and writes are refused where there is no cell. -/
theorem Keeps.settles_access (keeps : s.Keeps config) {call : Call} (address : Int)
    (refuses : s.Refuses call ↔ ¬(0 ≤ address ∧ address < s.config.memorySize))
    (left : s.refused call = s)
    (ok : ∀ i, s.cpu.datapath.memory.cell address = .ok i → (s.perform call).2.isRefusal = false)
    (error : ∀ fault, s.cpu.datapath.memory.cell address = .error fault →
      s.perform call = (s, .refused (.range fault))) : s.Settles call := by
  by_cases inside : 0 ≤ address ∧ address < s.config.memorySize
  · refine .of_done (fun outside => refuses.1 outside inside) (ok address.toNat ?_)
    rw [← keeps.size] at inside
    exact if_pos inside
  · refine .of_refused (refuses.2 inside) ?_ ?_
    all_goals
      rw [← keeps.size] at inside
      rw [error _ (if_neg inside)]
    · rfl
    · exact left.symm

theorem Keeps.settles (keeps : s.Keeps config) (call : Call) : s.Settles call := by
  cases call with
  | loadSource source =>
    cases assembled : (Asm.Assembly.ofSource s.config source).output with
    | none =>
      exact .of_refused assembled (by rw [perform_loadSource_none assembled]; rfl)
        (by rw [perform_loadSource_none assembled]; rfl)
    | some output =>
      obtain ⟨cpu, loaded⟩ := keeps.loads assembled
      refine .of_done ?_ (by rw [perform_loadSource_some assembled loaded]; rfl)
      simp [Refuses, assembled]
  | loadWords words => exact keeps.settles_load rfl Iff.rfl rfl
  | loadOutput output =>
    refine keeps.settles_load rfl ?_ rfl
    simp [Refuses, Asm.Output.integers]
  | breakAtLabel label =>
    cases found : s.addressOf? label with
    | some address =>
      exact .of_done (by simp [Refuses, found]) (by rw [perform_breakAtLabel_some found]; rfl)
    | none =>
      exact .of_refused found (by rw [perform_breakAtLabel_none found]; rfl)
        (by rw [perform_breakAtLabel_none found]; rfl)
  | read address =>
    refine keeps.settles_access address Iff.rfl rfl (fun i here => ?_) fun fault none => ?_
    · rw [perform_read_ok (by rw [Memory.read, here]; rfl)]
      rfl
    · exact perform_read_error (by rw [Memory.read, none]; rfl)
  | write address value =>
    refine keeps.settles_access address Iff.rfl rfl (fun i here => ?_) fun fault none => ?_
    · rw [perform_write_ok (by rw [Datapath.writeMemory, Memory.write, here])]
      rfl
    · exact perform_write_error (by rw [Datapath.writeMemory, Memory.write, none])
  | reset | step | run | resume | resumeProcessor | breakAt | unbreak | clearBreakpoints =>
    exact .of_done id rfl

/-! ## The program of a session -/

/-- A call that looks up a label. -/
def Call.looksUp : Call → Bool
  | .breakAtLabel _ => true
  | _ => false

theorem breakEvent?_setProgram (s : Session) (program : Option Asm.Output) :
    { s with program := program }.breakEvent? =
      (s.breakEvent?.1, { s.breakEvent?.2 with program := program }) := by
  unfold breakEvent?
  dsimp only
  split <;> rfl

theorem advance_setProgram (s : Session) (program : Option Asm.Output) (first : Bool)
    (budget : Nat) :
    { s with program := program }.advance first budget =
      ({ (s.advance first budget).1 with program := program }, (s.advance first budget).2) := by
  induction budget generalizing s first with
  | zero => rfl
  | succ budget ih =>
    unfold advance
    rw [breakEvent?_setProgram]
    dsimp only
    split
    · rfl
    · split
      · exact ih s.step.1 false
      · generalize s.breakEvent? = found
        obtain ⟨_ | event, next⟩ := found
        · exact ih next.step.1 false
        · rfl

theorem run_setProgram (s : Session) (program : Option Asm.Output) (limit : Option Int) :
    { s with program := program }.run limit =
      ({ (s.run limit).1 with program := program }, (s.run limit).2) := by
  unfold run
  dsimp only
  rw [advance_setProgram]
  generalize s.advance true _ = result
  obtain ⟨last, _ | event⟩ := result <;> rfl

/-- What a call becomes of and replies does not depend on the program, unless it looks up a
    label. -/
theorem perform_setProgram (s : Session) (program : Option Asm.Output) {call : Call}
    (plain : call.looksUp = false) :
    ({ s with program := program }.perform call).2 = (s.perform call).2 ∧
      ∃ other, ({ s with program := program }.perform call).1 =
        { (s.perform call).1 with program := other } := by
  have runs (t : Session) (limit : Option Int) :
      ({ t with program := program }.run limit).2 = (t.run limit).2 ∧
        ({ t with program := program }.run limit).1 =
          { (t.run limit).1 with program := program } := by
    rw [run_setProgram]
    exact ⟨rfl, rfl⟩
  cases call with
  | loadSource source =>
    cases assembled : (Asm.Assembly.ofSource s.config source).output with
    | none =>
      rw [perform_loadSource_none assembled, perform_loadSource_none (by exact assembled)]
      exact ⟨rfl, program, rfl⟩
    | some output =>
      have same : { s with program := program }.perform (.loadSource source) =
          s.perform (.loadSource source) := by
        simp only [perform, loadSource, assembled]
        rfl
      rw [same]
      exact ⟨rfl, (s.perform (.loadSource source)).1.program, rfl⟩
  | loadWords words => exact ⟨rfl, (s.loadWords words).1.program, rfl⟩
  | loadOutput output => exact ⟨rfl, (s.loadOutput output).1.program, rfl⟩
  | run limit =>
    obtain ⟨event, last⟩ := runs s limit
    exact ⟨congrArg Reply.ended event, program, last⟩
  | resume limit =>
    obtain ⟨event, last⟩ := runs { s with cpu := s.cpu.resume } limit
    exact ⟨congrArg Reply.ended event, program, last⟩
  | breakAtLabel label => cases plain
  | read address =>
    cases found : s.cpu.datapath.memory.read address with
    | ok word =>
      rw [perform_read_ok found, perform_read_ok (by exact found)]
      exact ⟨rfl, program, rfl⟩
    | error fault =>
      rw [perform_read_error found, perform_read_error (by exact found)]
      exact ⟨rfl, program, rfl⟩
  | write address value =>
    cases written : s.cpu.datapath.writeMemory address value with
    | ok datapath =>
      rw [perform_write_ok written, perform_write_ok (by exact written)]
      exact ⟨rfl, program, rfl⟩
    | error fault =>
      rw [perform_write_error written, perform_write_error (by exact written)]
      exact ⟨rfl, program, rfl⟩
  | reset | step | resumeProcessor | breakAt | unbreak | clearBreakpoints =>
    exact ⟨rfl, program, rfl⟩

/-- Calls that look up no label are replied to whatever the program is. -/
theorem replies_setProgram (program : Option Asm.Output) {calls : List Call}
    (plain : ∀ call ∈ calls, call.looksUp = false) (s : Session) :
    ({ s with program := program }.performAll calls).2 = (s.performAll calls).2 := by
  induction calls generalizing s program with
  | nil => rfl
  | cons call rest ih =>
    obtain ⟨reply, other, next⟩ := s.perform_setProgram program (plain call List.mem_cons_self)
    have later := ih other (fun call member => plain call (List.mem_cons_of_mem _ member))
      (s.perform call).1
    simp only [performAll, reply, next, later]

/-- What is left by a refusal is the session, but for its program. -/
theorem refused_eq (s : Session) (call : Call) :
    ∃ program, s.refused call = { s with program := program } := by
  cases call with
  | loadWords words => exact ⟨none, rfl⟩
  | loadOutput output => exact ⟨some output, rfl⟩
  | _ => exact ⟨s.program, rfl⟩

/-- A call is refused exactly when it cannot be made, and then the session stays as it was but for
    its program, which words that do not fit have replaced. As long as no label is looked up, later
    calls are replied to as if the refused one had not been made. -/
theorem refusal_keeps (reachable : s.Reachable config) (call : Call) :
    ((s.perform call).2.isRefusal = true ↔ s.Refuses call) ∧
      (s.Refuses call → (s.perform call).1 = s.refused call ∧
        ∀ later : List Call, (∀ other ∈ later, other.looksUp = false) →
          ((s.perform call).1.performAll later).2 = (s.performAll later).2) := by
  have settles := reachable.keeps.settles call
  refine ⟨settles.refused_iff, fun refuses => ⟨settles.left refuses, fun later plain => ?_⟩⟩
  obtain ⟨program, same⟩ := s.refused_eq call
  rw [settles.left refuses, same]
  exact replies_setProgram program plain s

/-- A machine with two words. -/
def twoWords : Config :=
  { Config.standard with
    memorySize := 2
    memorySize_pos := by decide
    memorySize_le := by decide }

/-- Too many words for a memory that holds a program: its label is not found any more. -/
theorem refusal_keeps_forgotten :
    let s := ((Session.initial twoWords).perform (.loadSource ⟨"text", "x: !done"⟩)).1
    let after := (s.perform (.loadWords [66, 66, 66])).1
    after = { s with program := none } ∧
      (s.perform (.breakAtLabel "x")).2.isRefusal = false ∧
      (after.perform (.breakAtLabel "x")).2.isRefusal = true := by
  intro s after
  have small : s.config.memorySize = 2 :=
    congrArg Config.memorySize (Reachable.perform _ .initial).keeps.config_eq
  have refuses : s.Refuses (.loadWords [66, 66, 66]) := by
    show s.config.memorySize < 3
    omega
  have left := (refusal_keeps (.perform _ .initial) (.loadWords [66, 66, 66])).2 refuses
  refine ⟨left.1, ?_, ?_⟩
  · decide +kernel
  · decide +kernel

end Session

end NineBit.Machine
