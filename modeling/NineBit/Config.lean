import NineBit.Host
import NineBit.Text.Numeral
import NineBit.WordCount

/-!
# Machine configuration

`Settings` are numbers as someone wrote them; `Settings.validate` makes a `Config` of them or says
which bound they miss. A `Config` carries its bounds, so that whoever has one need not check.
-/

namespace NineBit

/-- A configuration as it was asked for. -/
structure Settings where
  wordBits : Int := 9
  memorySize : Int := 256
  maxErrors : Int := 100
  maxLiteralDepth : Int := 32
  maxTicks : Int := 100000
  traceLimit : Int := 1000
  deriving Repr, DecidableEq

/-- Why settings make no configuration. -/
inductive ConfigError where
  | narrowWord (bits : Int)
  | noMemory (size : Int)
  | memoryBeyondWord (size bits : Int) (words : Nat)
  | notPositive (name : String) (value : Int)
  deriving Repr, DecidableEq

/-- The wording of a configuration error. -/
def ConfigError.message : ConfigError → String
  | .narrowWord bits => s!"word_bits must be at least 9 to hold an instruction, got {bits}"
  | .noMemory size => s!"memory_size must be positive, got {size}"
  | .memoryBeyondWord size bits words =>
    s!"memory_size {size} exceeds the {bits}-bit address space ({words} words)"
  | .notPositive name value => s!"{name} must be positive, got {value}"

/-- The numbers in the wording of a configuration error. -/
def ConfigError.numbers : ConfigError → List Int
  | .narrowWord bits => [bits]
  | .noMemory size => [size]
  | .memoryBeyondWord size bits words => [size, bits, words]
  | .notPositive _ value => [value]

/-- A configuration that a machine can have: words hold an instruction, and every address of the
    memory fits a word. -/
structure Config where
  wordBits : Nat
  memorySize : Nat
  maxErrors : Nat
  maxLiteralDepth : Nat
  maxTicks : Nat
  traceLimit : Nat
  nine_le_wordBits : 9 ≤ wordBits
  memorySize_pos : 0 < memorySize
  memorySize_le : memorySize ≤ wordCount wordBits
  maxErrors_pos : 0 < maxErrors
  maxLiteralDepth_pos : 0 < maxLiteralDepth
  maxTicks_pos : 0 < maxTicks
  traceLimit_pos : 0 < traceLimit

/-- The number of different words. -/
def Config.wordSize (c : Config) : Nat := wordCount c.wordBits

namespace Settings

/-- What the check of settings asks of a host: the number of words, which the size of the memory is
    compared with. -/
def demands (s : Settings) : List Demand :=
  if s.wordBits < 9 ∨ s.memorySize ≤ 0 then [] else [.power s.wordBits.toNat]

/-- The configuration of these settings. The first bound that is missed is reported. -/
def validate (s : Settings) : Except ConfigError Config :=
  if hb : s.wordBits < 9 then .error (.narrowWord s.wordBits)
  else if hm : s.memorySize ≤ 0 then .error (.noMemory s.memorySize)
  else if hw : wordCount s.wordBits.toNat < s.memorySize.toNat then
    .error (.memoryBeyondWord s.memorySize s.wordBits (wordCount s.wordBits.toNat))
  else if he : s.maxErrors ≤ 0 then .error (.notPositive "max_errors" s.maxErrors)
  else if hd : s.maxLiteralDepth ≤ 0 then
    .error (.notPositive "max_literal_depth" s.maxLiteralDepth)
  else if ht : s.maxTicks ≤ 0 then .error (.notPositive "max_ticks" s.maxTicks)
  else if hl : s.traceLimit ≤ 0 then .error (.notPositive "trace_limit" s.traceLimit)
  else
    .ok {
      wordBits := s.wordBits.toNat
      memorySize := s.memorySize.toNat
      maxErrors := s.maxErrors.toNat
      maxLiteralDepth := s.maxLiteralDepth.toNat
      maxTicks := s.maxTicks.toNat
      traceLimit := s.traceLimit.toNat
      nine_le_wordBits := by omega
      memorySize_pos := by omega
      memorySize_le := by omega
      maxErrors_pos := by omega
      maxLiteralDepth_pos := by omega
      maxTicks_pos := by omega
      traceLimit_pos := by omega }

/-- Checks settings on a host. The number of words is to be had there, and so is the wording of what
    is reported. -/
def validateOn (host : Host) (s : Settings) : Except Crash (Except ConfigError Config) := do
  host.meetAll s.demands
  match s.validate with
  | .ok config => return .ok config
  | .error error =>
    host.meetAll (error.numbers.map .decimal)
    return .error error

/-- The value of an environment variable as a number; an empty or unreadable one is no number. -/
def setting? (environment : String → Option String) (name : String) : Option Int :=
  (environment name).bind fun text => if text.isEmpty then none else Text.readInt? .marked text

/-- The environment as far as a host reads its numbers. -/
def legible (host : Host) (environment : String → Option String) (name : String) : Option String :=
  (environment name).filter fun text => Text.decimalDigits .marked text ≤ host.digits

/-- The default settings, overridden by the environment. -/
def ofEnvironment (environment : String → Option String) : Settings :=
  let standard : Settings := {}
  { standard with
    wordBits := (setting? environment "S9B_WORD_BITS").getD standard.wordBits
    memorySize := (setting? environment "S9B_MEMORY_SIZE").getD standard.memorySize
    maxTicks := (setting? environment "S9B_MAX_TICKS").getD standard.maxTicks
    maxErrors := (setting? environment "S9B_MAX_ERRORS").getD standard.maxErrors }

end Settings

/-- The machine with nine-bit words and 256 of them. -/
def Config.standard : Config where
  wordBits := 9
  memorySize := 256
  maxErrors := 100
  maxLiteralDepth := 32
  maxTicks := 100000
  traceLimit := 1000
  nine_le_wordBits := by decide
  memorySize_pos := by decide
  memorySize_le := by decide
  maxErrors_pos := by decide
  maxLiteralDepth_pos := by decide
  maxTicks_pos := by decide
  traceLimit_pos := by decide

end NineBit
