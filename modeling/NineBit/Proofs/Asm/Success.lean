import NineBit.Asm.Assembly
import NineBit.Proofs.Asm.Copies

/-!
# What a successful assembly says

A report that runs to its end has made all of its entries, and its value is the run's
(`Report.run_eq_some`). An assembly with an output has therefore been through every stage without a
problem (`Output.Assembled`): the program is what parsing has made of some tokens, the output is
what the layout has made of that program, and the memory holds it. The other way round, stages that
report neither problems nor notes come to an output (`output_of_quiet`).
-/

namespace NineBit

/-- An entry that is neither a problem nor a note. -/
inductive Entry.Silent : Entry → Prop where
  | milestone (m : Milestone) : Silent (.milestone m)
  | demand (d : Demand) : Silent (.demand d)

namespace Report

variable {α β : Type}

@[simp] theorem problems_bind (r : Report α) (f : α → Report β) :
    (r >>= f).problems = r.problems ++ (f r.value).problems := by
  simp only [problems, entries_bind, List.filterMap_append]

theorem problems_enter (entry : Entry) (next : Unit → Report α) :
    (enter entry next).problems = (tell entry).problems ++ (next ()).problems := by
  unfold problems tell
  rw [← List.filterMap_append]
  rfl

theorem problem?_inside (entry : Entry) : entry.inside.problem? = entry.problem? := by
  unfold Entry.inside
  split <;> rfl

/-- The problems of a computation are the same inside another one. -/
@[simp] theorem problems_deepen (r : Report α) : r.deepen.problems = r.problems := by
  unfold problems
  rw [entries_deepen, List.filterMap_map]
  exact congrArg (List.filterMap · r.entries) (funext problem?_inside)

@[simp] theorem problems_nested (r : Unit → Report α) : (nested r).problems = (r ()).problems :=
  problems_deepen (r ())

/-- A demand is no problem. -/
@[simp] theorem problems_ask (d : Demand) (f : Unit → Report β) :
    (ask d >>= f).problems = (f ()).problems := problems_bind _ _

/-- An entry adds itself to the problems of a log, if it is one. -/
theorem add_problems (log : Log) (entry : Entry) :
    (log.add entry).problems.toList =
      log.problems.toList ++ (tell entry).problems := by
  cases entry with
  | problem d => exact Array.toList_push
  | note n => exact (List.append_nil _).symm
  | noteOnce place n =>
    have same : (log.add (.noteOnce place n)).problems = log.problems := by
      unfold Log.add
      dsimp only
      split <;> rfl
    rw [same]
    exact (List.append_nil _).symm
  | milestone m => exact (List.append_nil _).symm
  | demand d => exact (List.append_nil _).symm

/-- A run with a value has that of the report, and logs all of its problems. -/
theorem run_eq_some {limit : Int} {r : Report α} {value : α} : ∀ {log last : Log},
    r.run limit log = (some value, last) →
      r.value = value ∧ last.problems.toList = log.problems.toList ++ r.problems := by
  induction r with
  | done a =>
    intro log last h
    cases h
    exact ⟨rfl, (List.append_nil _).symm⟩
  | enter entry next ih =>
    intro log last h
    unfold run at h
    dsimp only at h
    split at h
    · cases h
    · obtain ⟨same, problems⟩ := ih () h
      refine ⟨same, ?_⟩
      rw [problems, add_problems, List.append_assoc, problems_enter]

/-- A computation that reports neither problems nor notes. -/
def Quiet (r : Report α) : Prop := ∀ entry ∈ r.entries, entry.Silent

theorem Quiet.done (value : α) : (Report.done value).Quiet :=
  fun _ member => absurd member List.not_mem_nil

theorem Quiet.tell {entry : Entry} (silent : entry.Silent) : (Report.tell entry).Quiet :=
  List.forall_mem_singleton.2 silent

theorem Quiet.bind {β : Type} {r : Report α} {f : α → Report β} (first : r.Quiet)
    (rest : (f r.value).Quiet) : (r >>= f).Quiet := by
  unfold Quiet
  rw [entries_bind]
  exact List.forall_mem_append.2 ⟨first, rest⟩

/-- Such a computation runs to its end, whatever the limit, and adds neither problems nor notes. -/
theorem Quiet.run {r : Report α} (limit : Int) : r.Quiet → ∀ log : Log,
    ∃ last, r.run limit log = (some r.value, last) ∧
      last.problems = log.problems ∧ last.notes = log.notes := by
  induction r with
  | done a => exact fun _ log => ⟨log, rfl, rfl, rfl⟩
  | enter entry next ih =>
    intro quiet log
    have silent := quiet entry List.mem_cons_self
    obtain ⟨last, ran, kept⟩ := ih () (fun other member =>
      quiet other (List.mem_cons_of_mem _ member)) (log.add entry)
    cases silent <;> exact ⟨last, ran, kept⟩

end Report

namespace Asm

/-- Reporting problems reports all of them. -/
theorem problems_reportAll (problems : List Diagnostic) :
    (reportAll problems).problems = problems := by
  induction problems with
  | nil => rfl
  | cons d rest ih => exact congrArg (d :: ·) ih

/-- Making entries makes all of them. -/
theorem entries_forM_tell (entries : List Entry) :
    (entries.forM Report.tell).entries = entries := by
  induction entries with
  | nil => rfl
  | cons entry rest ih => exact congrArg (entry :: ·) ih

/-- Among what the parser has recorded, its demands are no problems. -/
theorem Parser.State.problems_entries (s : Parser.State) :
    s.entries.filterMap Entry.problem? = s.faults.reverse := by
  have demands (count : Nat) : (s.demandsAfter count).filterMap Entry.problem? = [] := by
    rw [List.filterMap_eq_nil_iff]
    intro entry member
    obtain ⟨made, -, rfl⟩ := List.mem_map.1 member
    rfl
  have faults : ∀ (found : List Diagnostic) (count : Nat),
      ((found.zipIdx count).flatMap fun d => s.demandsAfter d.2 ++ [.problem d.1]).filterMap
        Entry.problem? = found := by
    intro found
    induction found with
    | nil => exact fun _ => rfl
    | cons d rest ih =>
      intro count
      rw [List.zipIdx_cons, List.flatMap_cons, List.filterMap_append, List.filterMap_append,
        demands, ih]
      rfl
  rw [entries, List.filterMap_append, faults, demands, List.append_nil]

theorem problems_parse {limit : Int} {tokens : List Token} : (parse limit tokens).problems =
    (parseStatements limit tokens).2 ++ (parseStatements limit tokens).1.resolution.2 := by
  unfold parse
  dsimp only
  rw [Report.problems_bind, Report.problems_bind, problems_reportAll]
  unfold Report.problems
  rw [entries_forM_tell, Parser.State.problems_entries]
  exact congrArg _ (List.append_nil _)

/-- Parsing comes to the program that is read, whatever problems there are. -/
theorem value_parse (limit : Int) (tokens : List Token) :
    (parse limit tokens).value = (parseStatements limit tokens).1 := by
  unfold parse
  simp only [Report.value_bind]
  rfl

/-- The program was parsed from known tokens, arrays being nested up to a limit, without a
    problem. -/
def Program.Parsed (limit : Int) (p : Program) : Prop :=
  ∃ tokens, (∀ token ∈ tokens, token.Known) ∧ parseStatements limit tokens = (p, [])

/-- An assembly of a source text has come to an output. -/
structure Output.Assembled (config : Config) (source : Source) (o : Output) : Prop where
  parsed : o.program.Parsed config.maxLiteralDepth
  laid : (layout config.wordBits config.memorySize o.program).value = .ok o
  holds : o.words.size ≤ config.memorySize

theorem parsed_of_problems {limit : Int} {tokens : List Token}
    (known : ∀ token ∈ tokens, token.Known) (none : (parse limit tokens).problems = []) :
    (parse limit tokens).value.Parsed limit := by
  rw [problems_parse, List.append_eq_nil_iff] at none
  rw [value_parse]
  exact ⟨tokens, known, Prod.ext rfl none.1⟩

/-- A layout is what filling the gaps of the code has made. -/
theorem layout_eq_ok {bits : Nat} {memorySize : Int} {p : Program} {o : Output}
    (laid : (layout bits memorySize p).value = .ok o) :
    ∃ d, (Layout.fillGaps bits p
        (Layout.workBound p (Layout.code bits p.executable).gaps.reverse)
        (Layout.code bits p.executable).gaps.reverse (Layout.code bits p.executable)).value =
      .ok d ∧ o = ⟨d.words, d.placements, p⟩ := by
  unfold layout at laid
  simp only [Report.value_bind] at laid
  split at laid
  · cases laid
  · rename_i d filled
    refine ⟨d, filled, ?_⟩
    simp only [Report.value_bind] at laid
    split at laid
    all_goals
      cases laid
      rfl

theorem program_of_layout {bits : Nat} {memorySize : Int} {p : Program} {o : Output}
    (laid : (layout bits memorySize p).value = .ok o) : o.program = p := by
  obtain ⟨d, -, rfl⟩ := layout_eq_ok laid
  rfl

/-- A layout without a problem fits the memory. -/
theorem size_le_of_layout {bits memorySize : Nat} {p : Program} {o : Output}
    (laid : (layout bits memorySize p).value = .ok o)
    (none : (layout bits memorySize p).problems = []) : o.words.size ≤ memorySize := by
  unfold layout at laid none
  simp only [Report.problems_bind, Report.value_bind, List.append_eq_nil_iff] at laid none
  split at laid
  · cases laid
  · rename_i d filled
    simp only [filled, Report.problems_bind, Report.value_bind, List.append_eq_nil_iff] at laid none
    split at laid
    · rename_i large
      rw [if_pos large] at none
      exact absurd none.2.2 (by rw [Report.problems_bind]; exact List.cons_ne_nil _ _)
    · cases laid
      exact Int.ofNat_le.1 (Int.not_lt.1 ‹_›)

/-- The stages up to the parsed program end with parsing some tokens. -/
theorem parsed_of_program {limit : Int} {source : Source}
    (none : (Assembly.program limit source).problems = []) :
    (Assembly.program limit source).value.Parsed limit := by
  unfold Assembly.program at none ⊢
  simp only [Report.problems_bind, Report.value_bind, List.append_eq_nil_iff] at none ⊢
  obtain ⟨tokens, macros⟩ := known_lex source
  have known := known_expand macros tokens
  exact parsed_of_problems (fun token member => (known token member).1) none.2.2.2.2.1

theorem problems_of_not {log : Log} (clean : ¬log.hasProblems = true) :
    log.problems.toList = [] := by
  unfold Log.hasProblems at clean
  rw [Bool.not_eq_true, Bool.not_eq_false', Array.isEmpty_iff] at clean
  rw [clean]

/-- What an assembly with an output has been through. -/
theorem assembled_of_output {config : Config} {source : Source} {o : Output}
    (h : (Assembly.ofSource config source).output = some o) : o.Assembled config source := by
  unfold Assembly.ofSource Assembly.ofParsed at h
  split at h
  · cases h
  · rename_i p log ran
    obtain ⟨value, problems⟩ := Report.run_eq_some ran
    split at h
    · cases h
    · rename_i clean
      rw [problems_of_not clean] at problems
      have parsed := parsed_of_program (List.append_eq_nil_iff.1 problems.symm).2
      rw [value] at parsed
      split at h
      · cases h
      · cases h
      · rename_i output last laid
        obtain ⟨same, more⟩ := Report.run_eq_some laid
        split at h
        · cases h
        · rename_i finished
          cases h
          rw [problems_of_not finished] at more
          have none := (List.append_eq_nil_iff.1 more.symm).2
          have program := program_of_layout same
          rw [← program] at parsed same none
          exact ⟨parsed, same, size_le_of_layout same none⟩

/-- An assembly whose stages report neither problems nor notes has an output, and an empty log but
    for the stages. -/
theorem output_of_quiet {config : Config} {source : Source} {o : Output}
    (parsed : (Assembly.program config.maxLiteralDepth source).Quiet)
    (laid : (layout config.wordBits config.memorySize
      (Assembly.program config.maxLiteralDepth source).value).Quiet)
    (same : (layout config.wordBits config.memorySize
      (Assembly.program config.maxLiteralDepth source).value).value = .ok o) :
    (Assembly.ofSource config source).output = some o ∧
      (Assembly.ofSource config source).log.problems = #[] ∧
      (Assembly.ofSource config source).log.notes = #[] := by
  obtain ⟨log, ran, problems, notes⟩ := parsed.run config.maxErrors .empty
  obtain ⟨last, done, moreProblems, moreNotes⟩ := laid.run config.maxErrors log
  have clean : log.hasProblems = false := by
    unfold Log.hasProblems
    rw [problems]
    rfl
  have finished : last.hasProblems = false := by
    unfold Log.hasProblems at clean ⊢
    rw [moreProblems, clean]
  rw [same] at done
  unfold Assembly.ofSource Assembly.ofParsed
  rw [ran]
  dsimp only
  rw [if_neg (by rw [clean]; decide), done]
  dsimp only
  rw [if_neg (by rw [finished]; decide)]
  exact ⟨rfl, moreProblems.trans problems, moreNotes.trans notes⟩

end Asm

end NineBit
