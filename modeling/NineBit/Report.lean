import NineBit.Diagnostic
import NineBit.Host

/-!
# Computations that report

The stages of assembly go on after a problem, and stop only when as many problems have been found
as are wanted. `Report α` is such a computation before anyone counts: the entries it makes, one
after the other, and its value last. Running it under a limit (`Report.run`) collects the entries
in a `Log` and breaks off at the problem that fills the log; what would come after is never
computed. Among the entries are the demands that the computation makes of its host. Running it on a
host (`Report.runOn`) ends in a crash at the first demand that the host does not meet.
-/

namespace NineBit

/-- A remark that makes no assembly fail. -/
structure Note where
  message : String
  span : Option Span
  deriving Repr, DecidableEq

/-- A stage that an assembly has passed, with the sizes of what it produced. -/
inductive Milestone where
  | lexed (tokens definitions : Nat)
  | expanded (tokens : Nat)
  | parsed (statements labels references : Nat)
  | placed (label : Option String) (address : Nat)
  | generated (codeWords dataWords statements : Nat)
  deriving Repr, DecidableEq

/-- What a computation reports. -/
inductive Entry where
  | problem (d : Diagnostic)
  | note (n : Note)
  /-- A note that is kept once for each place. -/
  | noteOnce (place : Position) (n : Note)
  | milestone (m : Milestone)
  | demand (d : Demand)
  deriving Repr, DecidableEq

namespace Entry

/-- The problem that an entry is, if it is one. -/
def problem? : Entry → Option Diagnostic
  | .problem d => some d
  | _ => none

/-- The demand that an entry is, if it is one. -/
def demand? : Entry → Option Demand
  | .demand d => some d
  | _ => none

/-- The entry of a computation that is evaluated inside another one. -/
def inside : Entry → Entry
  | .demand (.nesting levels) => .demand (.nesting (levels + 1))
  | entry => entry

end Entry

/-- What has been reported. -/
structure Log where
  problems : Array Diagnostic
  notes : Array Note
  /-- The places with a note that is kept once. -/
  noted : List Position
  milestones : Array Milestone
  deriving Repr

namespace Log

/-- Nothing reported. -/
def empty : Log := ⟨#[], #[], [], #[]⟩

/-- The log with one more entry. -/
def add (log : Log) : Entry → Log
  | .problem d => { log with problems := log.problems.push d }
  | .note n => { log with notes := log.notes.push n }
  | .noteOnce place n =>
    if place ∈ log.noted then log
    else { log with notes := log.notes.push n, noted := place :: log.noted }
  | .milestone m => { log with milestones := log.milestones.push m }
  | .demand _ => log

/-- As many problems have been found as are wanted. -/
def isFull (log : Log) (limit : Int) : Bool := decide (limit ≤ log.problems.size)

/-- The entry is a problem after which the log is full. -/
def stopsAt (log : Log) (limit : Int) : Entry → Bool
  | .problem _ => log.isFull limit
  | _ => false

/-- Some problem has been found. -/
def hasProblems (log : Log) : Bool := !log.problems.isEmpty

/-- The report on the problems of the log. -/
def report (log : Log) : String := Diagnostic.report log.problems.toList

end Log

/-- A computation of an `α` that makes entries on its way. -/
inductive Report (α : Type) where
  | done (value : α)
  | enter (entry : Entry) (next : Unit → Report α)

namespace Report

variable {α β : Type}

/-- First one computation, then one that uses its value. -/
def bind (r : Report α) (f : α → Report β) : Report β :=
  match r with
  | done value => f value
  | enter entry next => enter entry fun _ => (next ()).bind f

/-- The same as `bind`; a computation that has its value at once costs no call. -/
@[inline] def andThen (r : Report α) (f : α → Report β) : Report β :=
  match r with
  | done value => f value
  | enter entry next => enter entry fun _ => (next ()).bind f

theorem andThen_eq_bind (r : Report α) (f : α → Report β) : r.andThen f = r.bind f := by
  cases r <;> rfl

@[always_inline] instance : Monad Report where
  pure := done
  bind := andThen

theorem bind_value (r : Report α) : r.bind done = r := by
  induction r with
  | done => rfl
  | enter entry next ih => exact congrArg (enter entry) (funext ih)

theorem bind_bind {γ : Type} (r : Report α) (f : α → Report β) (g : β → Report γ) :
    (r.bind f).bind g = r.bind fun x => (f x).bind g := by
  induction r with
  | done => rfl
  | enter entry next ih => exact congrArg (enter entry) (funext ih)

instance : LawfulMonad Report :=
  LawfulMonad.mk' _
    (fun r => (andThen_eq_bind r done).trans (bind_value r))
    (fun _ _ => rfl)
    (fun r f g => by
      show (r.andThen f).andThen g = r.andThen fun x => (f x).andThen g
      simp only [andThen_eq_bind, bind_bind])

/-- Makes one entry. -/
def tell (entry : Entry) : Report Unit := enter entry fun _ => done ()

/-- Reports a problem. -/
def problem (d : Diagnostic) : Report Unit := tell (.problem d)

/-- Makes a note. -/
def note (message : String) (span : Option Span) : Report Unit := tell (.note ⟨message, span⟩)

/-- Makes a demand. -/
def ask (d : Demand) : Report Unit := tell (.demand d)

/-- The entries made inside another evaluation. -/
def deepen : Report α → Report α
  | done value => done value
  | enter entry next => enter entry.inside fun _ => (next ()).deepen

/-- Evaluates a computation inside the one that goes on. -/
def nested (r : Unit → Report α) : Report α :=
  enter (.demand (.nesting 1)) fun _ => (r ()).deepen

/-- The value, whatever is reported. -/
def value : Report α → α
  | done value => value
  | enter _ next => (next ()).value

/-- The entries, in order. -/
def entries : Report α → List Entry
  | done _ => []
  | enter entry next => entry :: (next ()).entries

/-- The problems, in order. -/
def problems (r : Report α) : List Diagnostic := r.entries.filterMap Entry.problem?

/-- The demands, in order. -/
def demands (r : Report α) : List Demand := r.entries.filterMap Entry.demand?

/-- Runs a computation after a log, up to the problem that fills it: the value, unless the log
    filled up, and the log. -/
def run (limit : Int) : Report α → Log → Option α × Log
  | done value, log => (some value, log)
  | enter entry next, log =>
    let log := log.add entry
    if log.stopsAt limit entry then (none, log) else (next ()).run limit log

/-- Runs a computation on a host. A demand that the host does not meet ends the run with what has
    been reported before it. -/
def runOn (host : Host) (limit : Int) : Report α → Log → Except (Crash × Log) (Option α × Log)
  | done value, log => .ok (some value, log)
  | enter entry next, log =>
    match entry with
    | .demand d =>
      match host.refusal d with
      | some crash => .error (crash, log)
      | none => (next ()).runOn host limit log
    | entry =>
      let log := log.add entry
      if log.stopsAt limit entry then .ok (none, log) else (next ()).runOn host limit log

@[simp] theorem pure_eq (a : α) : (pure a : Report α) = done a := rfl

@[simp] theorem bind_done (a : α) (f : α → Report β) : (done a >>= f) = f a := rfl

@[simp] theorem bind_enter (entry : Entry) (next : Unit → Report α) (f : α → Report β) :
    (enter entry next >>= f) = enter entry fun _ => next () >>= f :=
  congrArg (enter entry) (funext fun _ => (andThen_eq_bind (next ()) f).symm)

@[simp] theorem value_bind (r : Report α) (f : α → Report β) :
    (r >>= f).value = (f r.value).value := by
  induction r with
  | done => rfl
  | enter entry next ih => rw [bind_enter]; exact ih ()

@[simp] theorem value_deepen (r : Report α) : r.deepen.value = r.value := by
  induction r with
  | done => rfl
  | enter entry next ih => exact ih ()

@[simp] theorem entries_deepen (r : Report α) : r.deepen.entries = r.entries.map Entry.inside := by
  induction r with
  | done => rfl
  | enter entry next ih => exact congrArg _ (ih ())

@[simp] theorem value_nested (r : Unit → Report α) : (nested r).value = (r ()).value :=
  value_deepen (r ())

@[simp] theorem entries_nested (r : Unit → Report α) :
    (nested r).entries = .demand (.nesting 1) :: (r ()).entries.map Entry.inside :=
  congrArg _ (entries_deepen (r ()))

@[simp] theorem entries_bind (r : Report α) (f : α → Report β) :
    (r >>= f).entries = r.entries ++ (f r.value).entries := by
  induction r with
  | done => rfl
  | enter entry next ih => rw [bind_enter]; exact congrArg _ (ih ())

end Report

end NineBit
