/-!
# Break events and breakpoints

A run of the machine ends with an event that tells why. Breakpoints are addresses at which a run
ends before the instruction there is fetched; the last event that a breakpoint caused is kept.
-/

namespace NineBit.Machine

/-- Why a run ended. -/
inductive BreakReason where
  | none | done | paused | halted | fault | breakpoint | budget
  deriving Repr, DecidableEq

/-- The end of a run. -/
structure BreakEvent where
  reason : BreakReason
  address : Option Int
  message : String
  deriving Repr, DecidableEq

namespace BreakEvent

/-- The run can go on from here. -/
def resumable (event : BreakEvent) : Bool :=
  match event.reason with
  | .done | .paused | .breakpoint | .budget => true
  | .none | .halted | .fault => false

/-- The message of the event, or else a description of its reason. -/
def text (event : BreakEvent) : String :=
  if !event.message.isEmpty then event.message
  else
    match event.reason, event.address with
    | .done, _ => "Done"
    | .paused, _ => "Paused"
    | .halted, _ => "Halted"
    | .fault, _ => "Fault"
    | .breakpoint, some address => s!"Breakpoint at {address}"
    | .breakpoint, none => "Breakpoint"
    | .budget, _ => "Maximum ticks reached"
    | .none, _ => "Not running"

/-- The event of a breakpoint. -/
def atBreakpoint (address : Int) : BreakEvent :=
  ⟨.breakpoint, some address, s!"Breakpoint at {address}"⟩

end BreakEvent

/-- The addresses with a breakpoint, in ascending order, and the last event they caused. -/
structure Breakpoints where
  addresses : List Int
  lastEvent : Option BreakEvent
  deriving Repr, DecidableEq

namespace Breakpoints

/-- No breakpoint. -/
def empty : Breakpoints := ⟨[], none⟩

/-- Puts an address into its place in an ascending list. -/
def place (address : Int) : List Int → List Int
  | [] => [address]
  | first :: rest =>
    if address < first then address :: first :: rest
    else if address = first then first :: rest
    else first :: place address rest

/-- There is a breakpoint at an address. -/
def has (b : Breakpoints) (address : Int) : Bool := b.addresses.contains address

/-- With a breakpoint at an address. -/
def insert (b : Breakpoints) (address : Int) : Breakpoints :=
  { b with addresses := place address b.addresses }

/-- Without a breakpoint at an address. -/
def erase (b : Breakpoints) (address : Int) : Breakpoints :=
  { b with addresses := b.addresses.filter (· != address) }

/-- The event of a breakpoint at an address, if there is one; it becomes the last event. -/
def check (b : Breakpoints) (address : Int) : Option BreakEvent × Breakpoints :=
  if b.has address then
    let event := BreakEvent.atBreakpoint address
    (some event, { b with lastEvent := some event })
  else (none, b)

end Breakpoints

end NineBit.Machine
