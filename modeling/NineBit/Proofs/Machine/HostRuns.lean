import NineBit.Machine.Session
import NineBit.Proofs.Machine.Attempts

/-!
# Runs on a host

A run on a host is the run anywhere, or it breaks off at a number that the host does not write
(`Session.Sound.runsOn`). It does so only where some word of the machine, or the number of ticks
that it may take, has too many digits.
-/

namespace NineBit.Machine.Session

variable {host : Host} {s : Session}

/-- The processor of a session is as its configuration demands. -/
def Sound (s : Session) : Prop := s.cpu.Consistent s.config

theorem sound_initial (config : Config) : (initial config).Sound := Cpu.Consistent.initial config

theorem Sound.step (sound : s.Sound) : s.step.1.Sound := Cpu.Consistent.tick sound

/-- Loading starts a sound processor anew, or leaves it as it is. -/
theorem Sound.load (sound : s.Sound) (program : Option Asm.Output) (words : List Int) :
    (s.load program words).1.Sound := by
  unfold Session.load
  dsimp only
  cases loaded : s.cpu.load words with
  | ok cpu => exact (Cpu.Consistent.load sound loaded).reset
  | error fault => exact sound

/-- Looking for a breakpoint touches neither the processor nor the configuration. -/
theorem breakEvent?_keeps (s : Session) :
    s.breakEvent?.2.cpu = s.cpu ∧ s.breakEvent?.2.config = s.config := by
  unfold breakEvent?
  split
  · exact ⟨rfl, rfl⟩
  · exact ⟨rfl, rfl⟩

theorem Sound.breakEvent? (sound : s.Sound) : s.breakEvent?.2.Sound := by
  obtain ⟨cpu, config⟩ := s.breakEvent?_keeps
  unfold Sound
  rw [cpu, config]
  exact sound

/-- Some word of the machine is not written. -/
def TooWide (host : Host) (s : Session) : Prop :=
  decimalCount host.digits ≤ wordCount s.config.wordBits

/-- A word is written, or it is too wide. -/
theorem Sound.meet_pc (sound : s.Sound) : host.meet (.decimal s.cpu.pc) = .ok () ∨
    host.meet (.decimal s.cpu.pc) = .error (.digits host.digits) ∧ s.TooWide host := by
  have lt : s.cpu.pc < wordCount s.config.wordBits := sound.fits.bits ▸ sound.fits.cell .pc
  rw [Host.meet_decimal]
  split
  · exact .inl rfl
  · rename_i unwritten
    exact .inr ⟨rfl, Nat.le_trans (Nat.not_lt.1 unwritten) (Nat.le_of_lt lt)⟩

theorem Sound.stepOn (sound : s.Sound) : s.stepOn host = .ok s.step.1 ∨
    s.stepOn host = .error (.digits host.digits) ∧ s.TooWide host := by
  have ticks : Cpu.TicksOn host s.config s.cpu (s.cpu.attempt host) := Cpu.Consistent.ticksOn sound
  unfold Session.stepOn
  generalize s.cpu.attempt host = result at ticks
  cases ticks with
  | ends => exact .inl rfl
  | breaks _ large => exact .inr ⟨rfl, large⟩

theorem Sound.advanceOn (sound : s.Sound) (first : Bool) (budget : Nat) :
    s.advanceOn host first budget = .ok (s.advance first budget) ∨
      s.advanceOn host first budget = .error (.digits host.digits) ∧ s.TooWide host := by
  induction budget generalizing s first with
  | zero => exact .inl rfl
  | succ budget ih =>
    have going {s : Session} (sound : s.Sound) :
        (s.stepOn host >>= fun s => s.advanceOn host false budget) =
            .ok (s.step.1.advance false budget) ∨
          (s.stepOn host >>= fun s => s.advanceOn host false budget) =
            .error (.digits host.digits) ∧ s.TooWide host := by
      rcases sound.stepOn with steps | ⟨breaks, wide⟩
      · rw [steps]
        exact ih sound.step false
      · rw [breaks]
        exact .inr ⟨rfl, wide⟩
    unfold Session.advanceOn Session.advance
    cases s.cpu.running with
    | false => exact .inl rfl
    | true =>
      cases first with
      | true => exact going sound
      | false =>
        have sound' := sound.breakEvent?
        have config := s.breakEvent?_keeps.2
        simp only [Bool.not_true, Bool.false_eq_true, if_false]
        unfold TooWide
        rw [← config]
        generalize s.breakEvent? = found at sound' ⊢
        obtain ⟨_ | event, s⟩ := found
        · exact going sound'
        · dsimp only at sound' ⊢
          rcases sound'.meet_pc with met | ⟨broken, wide⟩
          · rw [met]
            exact .inl rfl
          · rw [broken]
            exact .inr ⟨rfl, wide⟩

/-- How a run on a host ends: as it does anywhere, or at a number that is not written. -/
inductive RunsOn (host : Host) (s : Session) (limit : Option Int) :
    Except Crash (Session × BreakEvent) → Prop where
  | ends : RunsOn host s limit (.ok (s.run limit))
  | breaks
      (large : s.TooWide host ∨ decimalCount host.digits ≤ (limit.getD s.config.maxTicks).natAbs) :
      RunsOn host s limit (.error (.digits host.digits))

/-- A run that breaks off does so at a number. -/
theorem RunsOn.of_error {limit : Option Int} {crash : Crash}
    (runs : RunsOn host s limit (.error crash)) : crash = .digits host.digits ∧
      (s.TooWide host ∨ decimalCount host.digits ≤ (limit.getD s.config.maxTicks).natAbs) := by
  cases runs with
  | breaks large => exact ⟨rfl, large⟩

theorem Sound.runsOn (sound : s.Sound) (limit : Option Int) :
    RunsOn host s limit (s.runOn host limit) := by
  have whole : s.runOn host limit = .ok (s.run limit) ∨
      s.runOn host limit = .error (.digits host.digits) ∧
        (s.TooWide host ∨ decimalCount host.digits ≤ (limit.getD s.config.maxTicks).natAbs) := by
    unfold runOn run
    dsimp only
    rcases sound.advanceOn true (limit.getD s.config.maxTicks).toNat with goes | ⟨breaks, wide⟩
    · rw [goes]
      generalize s.advance true _ = reached
      obtain ⟨last, _ | event⟩ := reached
      · dsimp only
        cases last.cpu.running with
        | false => exact .inl rfl
        | true =>
          rw [if_pos rfl, if_pos rfl, Host.meet_decimal]
          split
          · exact .inl rfl
          · rename_i unwritten
            exact .inr ⟨rfl, .inr (Nat.not_lt.1 unwritten)⟩
      · exact .inl rfl
    · rw [breaks]
      exact .inr ⟨rfl, .inl wide⟩
  rcases whole with ends | ⟨breaks, large⟩
  · rw [ends]
    exact .ends
  · rw [breaks]
    exact .breaks large

end NineBit.Machine.Session
