import NineBit.Asm.Assembly

/-!
# Limits on problems

A limit on the number of problems breaks a report off and changes nothing else. Of two runs of one
report, the one that wants fewer problems ends as the other does, or it has found as many as it
wants and its log is a beginning of the other's (`Report.run_truncates`). So it is with assemblies:
under a smaller limit the image is the same or missing as before, and the problems are the first
ones (`Assembly.ofSource_limited`).
-/

namespace NineBit

/-- The configuration with another limit on problems. -/
def Config.limited (config : Config) (limit : Nat) (pos : 0 < limit) : Config :=
  { config with maxErrors := limit, maxErrors_pos := pos }

/-! ## Logs -/

namespace Log

/-- Everything in a log has been reported before anything else in another log was. -/
structure Begins (log whole : Log) : Prop where
  problems : log.problems.toList <+: whole.problems.toList
  notes : log.notes.toList <+: whole.notes.toList
  milestones : log.milestones.toList <+: whole.milestones.toList

namespace Begins

variable {log middle whole : Log}

theorem refl (log : Log) : log.Begins log where
  problems := List.prefix_rfl
  notes := List.prefix_rfl
  milestones := List.prefix_rfl

theorem trans (first : log.Begins middle) (second : middle.Begins whole) : log.Begins whole where
  problems := first.problems.trans second.problems
  notes := first.notes.trans second.notes
  milestones := first.milestones.trans second.milestones

/-- Entries are made behind those that are there. -/
theorem add (log : Log) (entry : Entry) : log.Begins (log.add entry) := by
  have pushed {α : Type} (xs : Array α) (x : α) : xs.toList <+: (xs.push x).toList := by
    rw [Array.toList_push]
    exact List.prefix_append _ _
  cases entry with
  | problem d => exact ⟨pushed _ d, List.prefix_rfl, List.prefix_rfl⟩
  | note n => exact ⟨List.prefix_rfl, pushed _ n, List.prefix_rfl⟩
  | noteOnce place n =>
    unfold Log.add
    dsimp only
    split
    · exact refl log
    · exact ⟨List.prefix_rfl, pushed _ n, List.prefix_rfl⟩
  | milestone m => exact ⟨List.prefix_rfl, List.prefix_rfl, pushed _ m⟩
  | demand d => exact refl log

/-- Problems that are there stay there. -/
theorem hasProblems (begins : log.Begins whole) (some : 0 < log.problems.size) :
    whole.hasProblems = true := by
  have le := begins.problems.length_le
  simp only [Array.length_toList] at le
  simp only [Log.hasProblems, Bool.not_eq_true', Array.isEmpty_eq_false_iff, ne_eq,
    ← Array.size_eq_zero_iff]
  omega

/-- The problems of a beginning are the first ones. -/
theorem problems_eq (begins : log.Begins whole) :
    log.problems.toList = whole.problems.toList.take log.problems.size := by
  have first := List.prefix_iff_eq_take.1 begins.problems
  rwa [Array.length_toList] at first

end Begins

/-- Only problems count. -/
theorem size_problems_add (log : Log) (entry : Entry) :
    (log.add entry).problems.size = log.problems.size ∨
      (log.add entry).problems.size = log.problems.size + 1 ∧ ∃ d, entry = .problem d := by
  cases entry with
  | problem d => exact .inr ⟨Array.size_push d, d, rfl⟩
  | note n => exact .inl rfl
  | noteOnce place n =>
    refine .inl ?_
    unfold add
    dsimp only
    split <;> rfl
  | milestone m => exact .inl rfl
  | demand d => exact .inl rfl

end Log

/-! ## Runs of a report -/

namespace Report

variable {α : Type} {limit larger : Nat}

theorem begins_run (limit : Int) (r : Report α) (log : Log) : log.Begins (r.run limit log).2 := by
  induction r generalizing log with
  | done value => exact .refl log
  | enter entry next ih =>
    unfold run
    dsimp only
    split
    · exact .add log entry
    · exact .trans (.add log entry) (ih () _)

/-- How a run under a limit compares with one that goes on for longer: they end alike below the
    limit, or the first has broken off at the problem that fills its log. -/
inductive Truncates (limit : Nat) : Option α × Log → Option α × Log → Prop where
  | same {value : α} {log : Log} : log.problems.size < limit →
      Truncates limit (some value, log) (some value, log)
  | cut {log : Log} {whole : Option α × Log} : log.problems.size = limit → log.Begins whole.2 →
      Truncates limit (none, log) whole

/-- Of two runs the one that wants fewer problems breaks off earlier, and does not differ before. -/
theorem run_truncates (le : limit ≤ larger) (r : Report α) (log : Log)
    (wanting : log.problems.size < limit) :
    Truncates limit (r.run limit log) (r.run larger log) := by
  induction r generalizing log with
  | done value => exact .same wanting
  | enter entry next ih =>
    have grows := log.size_problems_add entry
    by_cases full : (log.add entry).problems.size = limit
    · have stops : (log.add entry).stopsAt limit entry = true := by
        rcases grows with same | ⟨-, d, rfl⟩
        · omega
        · exact decide_eq_true (by omega)
      have ran : (enter entry next).run limit log = (none, log.add entry) := by
        rw [run, if_pos stops]
      rw [ran]
      refine .cut full ?_
      unfold run
      dsimp only
      split
      · exact .refl _
      · exact (next ()).begins_run larger _
    · have goes {wanted : Nat} (le : limit ≤ wanted) :
          ¬(log.add entry).stopsAt wanted entry = true := by
        cases entry with
        | problem d =>
          intro stops
          have filled : (wanted : Int) ≤ _ := of_decide_eq_true stops
          omega
        | _ => exact Bool.false_ne_true
      rw [run, run, if_neg (goes (Nat.le_refl limit)), if_neg (goes le)]
      exact ih () _ (by omega)

end Report

/-! ## Assemblies -/

namespace Asm.Assembly

/-- How an assembly under a limit compares with one of the same source that goes on for longer. -/
structure Truncates (limit : Nat) (a whole : Assembly) : Prop where
  output : a.output = whole.output
  problems : a.log.problems.toList = whole.log.problems.toList.take limit
  notes : a.log.notes.toList <+: whole.log.notes.toList
  milestones : a.log.milestones.toList <+: whole.log.milestones.toList
  le : a.log.problems.size ≤ limit

namespace Truncates

variable {limit : Nat} {a whole : Assembly}

theorem refl (le : a.log.problems.size ≤ limit) : a.Truncates limit a where
  output := rfl
  problems := (List.take_of_length_le (by rwa [Array.length_toList])).symm
  notes := List.prefix_rfl
  milestones := List.prefix_rfl
  le := le

/-- An assembly that has broken off. -/
theorem cut {log : Log} (full : log.problems.size = limit) (begins : log.Begins whole.log)
    (none : whole.output = none) :
    Truncates limit ⟨log, Option.none, true, Option.none⟩ whole where
  output := none.symm
  problems := by
    rw [← full]
    exact begins.problems_eq
  notes := begins.notes
  milestones := begins.milestones
  le := Nat.le_of_eq full

end Truncates

/-- A smaller limit on problems only truncates what is reported. -/
theorem ofSource_limited (config : Config) {limit : Nat} (pos : 0 < limit)
    (le : limit ≤ config.maxErrors) (source : Source) :
    (ofSource (config.limited limit pos) source).Truncates limit (ofSource config source) := by
  have parsed := Report.run_truncates le (program config.maxLiteralDepth source) .empty pos
  unfold ofSource ofParsed
  dsimp only [Config.limited]
  generalize (program config.maxLiteralDepth source).run limit .empty = few at parsed ⊢
  generalize (program config.maxLiteralDepth source).run config.maxErrors .empty = many at parsed ⊢
  cases parsed with
  | cut full begins =>
    obtain ⟨_ | p, log⟩ := many
    · exact .cut full begins rfl
    · have problems := begins.hasProblems (full ▸ pos)
      dsimp only at problems ⊢
      rw [if_pos problems]
      exact .cut full begins rfl
  | @same p log wanting =>
    dsimp only
    split
    · exact .refl (Nat.le_of_lt wanting)
    · have laid := Report.run_truncates le (layout config.wordBits config.memorySize p) log wanting
      generalize (layout config.wordBits config.memorySize p).run limit log = few at laid ⊢
      generalize (layout config.wordBits config.memorySize p).run config.maxErrors log = many
        at laid ⊢
      cases laid with
      | cut full begins =>
        have problems := begins.hasProblems (full ▸ pos)
        obtain ⟨_ | ⟨fault | output⟩, log⟩ := many
        · exact .cut full begins rfl
        · exact .cut full begins rfl
        · exact .cut full begins (if_pos problems)
      | @same result log wanting =>
        cases result with
        | error fault => exact .refl (Nat.le_of_lt wanting)
        | ok output => exact .refl (Nat.le_of_lt wanting)

/-- Two problems, of which one is wanted. -/
theorem ofSource_limited_first :
    let source : Source := ⟨"text", "@ @"⟩
    let few := ofSource (Config.standard.limited 1 (by decide)) source
    let many := ofSource .standard source
    few.Truncates 1 many ∧ few.log.problems.size = 1 ∧ many.log.problems.size = 2 :=
  ⟨ofSource_limited .standard (by decide) (by decide) _, by decide +kernel, by decide +kernel⟩

end Asm.Assembly

end NineBit
