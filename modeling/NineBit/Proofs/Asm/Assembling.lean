import NineBit.Proofs.Asm.Isolation
import NineBit.Proofs.Asm.Mirrors

/-!
# Assembling tokens

What a source text comes to depends on its tokens alone once they are read and their calls are
expanded: it comes to an image exactly if those two stages meet no problem and the tokens are
assembled (`Assembles`, `Assembly.output_eq_some_iff`). A program that has been parsed without a
problem of form has none with its references if each of them means a statement
(`Program.resolution_eq_nil_iff_target`).
-/

namespace NineBit

namespace Asm

/-- What comes of a reference is what the layout takes it for. -/
theorem Search.state_settle_target {table : LabelTable} {r : Reference} (inside : r.block ≠ []) :
    ((start r).settle table.keys).state =
      match r.target? table with
      | some id => .resolved id
      | none => .failed := by
  rw [state_settle_start inside]
  unfold Reference.target?
  cases r.resolve? table <;> rfl

/-- A program has no unknown reference if each of them means a statement. -/
theorem Program.resolution_eq_nil_iff_target {p : Program}
    (inside : ∀ r ∈ p.references, r.block ≠ []) :
    p.resolution.2 = [] ↔ ∀ r ∈ p.references, (r.target? p.labels).isSome = true := by
  have settled (r : Reference) (member : r ∈ p.references) :
      ((Search.start r).settle p.labels.keys).hasFailed = false ↔
        (r.target? p.labels).isSome = true := by
    unfold Search.hasFailed
    rw [Search.state_settle_target (inside r member)]
    cases r.target? p.labels with
    | none => exact ⟨fun kept => absurd kept (by decide), fun some => nomatch some⟩
    | some id => exact ⟨fun _ => rfl, fun _ => rfl⟩
  rw [resolution_eq_nil_iff, resolution_fst, List.forall_mem_map]
  exact forall₂_congr settled

/-- Parsing meets no problem if there is none of form and each reference means a statement. -/
theorem problems_parse_eq_nil_iff {limit : Int} {tokens : List Token} :
    (parse limit tokens).problems = [] ↔ (parseStatements limit tokens).2 = [] ∧
      ∀ r ∈ (parseStatements limit tokens).1.references,
        (r.target? (parseStatements limit tokens).1.labels).isSome = true := by
  rw [problems_parse, List.append_eq_nil_iff,
    Program.resolution_eq_nil_iff_target fun _ => block_ne_nil]

/-- Some tokens in which all calls are expanded are assembled to an image without a problem. -/
structure Assembles (config : Config) (tokens : List Token) (o : Output) : Prop where
  parsed : (parse config.maxLiteralDepth tokens).problems = []
  laid : (layout config.wordBits config.memorySize
    (parse config.maxLiteralDepth tokens).value).value = .ok o
  fits : (layout config.wordBits config.memorySize
    (parse config.maxLiteralDepth tokens).value).problems = []

section
variable {config : Config} {limit : Int} {tokens others : List Token} {o : Output}

theorem Assembles.program (assembles : Assembles config tokens o) :
    o.program = (parseStatements config.maxLiteralDepth tokens).1 :=
  (program_of_layout assembles.laid).trans (value_parse _ _)

/-- Tokens are assembled if nothing is wrong with them, and to the words that are laid out. -/
theorem exists_assembles (config : Config) {words : Array Nat}
    (clean : (parse config.maxLiteralDepth tokens).problems = [])
    (laid : (layout config.wordBits config.memorySize
      (parse config.maxLiteralDepth tokens).value).value.toOption.map (·.words) = some words)
    (fits : words.size ≤ config.memorySize) :
    ∃ o, Assembles config tokens o ∧ o.words = words := by
  cases value : (layout config.wordBits config.memorySize
      (parse config.maxLiteralDepth tokens).value).value with
  | error fault =>
    rw [value] at laid
    cases laid
  | ok o =>
    rw [value] at laid
    cases laid
    refine ⟨o, ⟨clean, value, (problems_layout value).trans (if_neg ?_)⟩, rfl⟩
    exact Int.not_lt.2 (Int.ofNat_le.2 fits)

theorem Assembles.unique {other : Output} (assembles : Assembles config tokens o)
    (again : Assembles config tokens other) : o = other :=
  Except.ok.inj (assembles.laid.symm.trans again.laid)

theorem resolved_of_problems (known : ∀ token ∈ tokens, token.Known)
    (clean : (parse limit tokens).problems = []) : (parse limit tokens).value.Resolved := by
  refine (parsed_of_problems known clean).program_sound.resolved (resolution_of_problems clean) ?_
  rw [value_parse]
  exact fun _ => block_ne_nil

/-- Tokens whose program mirrors that of others are assembled exactly if these are, and to the same
    words. -/
theorem assembles_mirrored_iff {g : Reference → Reference} {σ : Nat → Nat}
    (known : ∀ token ∈ tokens, token.Known) (known' : ∀ token ∈ others, token.Known)
    (clean : (parse config.maxLiteralDepth tokens).problems = [])
    (clean' : (parse config.maxLiteralDepth others).problems = [])
    (mirrors : (parseStatements config.maxLiteralDepth tokens).1.Mirrors g σ
      (parseStatements config.maxLiteralDepth others).1) (other : Output) :
    Assembles config others other ↔ ∃ o, Assembles config tokens o ∧
      other = ⟨o.words, o.placements.map (Placement.reindex σ),
        (parseStatements config.maxLiteralDepth others).1⟩ := by
  have parsed := parsed_of_problems known clean
  have parsed' := parsed_of_problems known' clean'
  have resolved := resolved_of_problems known clean
  obtain ⟨o, laid, -⟩ := layout_ok config.nine_le_wordBits config.memorySize parsed resolved
  rw [← value_parse, ← value_parse] at mirrors
  have laid' := layout_mirrored config.nine_le_wordBits mirrors parsed resolved parsed' laid
  rw [← value_parse]
  constructor
  · intro assembles
    have same := assembles.laid
    have fits := assembles.fits
    rw [laid'] at same
    cases same
    rw [problems_layout laid'] at fits
    exact ⟨o, ⟨clean, laid, (problems_layout laid).trans fits⟩, rfl⟩
  · rintro ⟨p, assembles, rfl⟩
    have same := assembles.laid
    have fits := assembles.fits
    rw [laid] at same
    cases same
    rw [problems_layout laid] at fits
    exact ⟨clean', laid', (problems_layout laid').trans fits⟩

end

end Asm

/-- A report without a problem runs to its end, whatever the limit. -/
theorem Report.run_of_clean {α : Type} {r : Report α} (limit : Int) : r.problems = [] →
    ∀ log : Log, ∃ last, r.run limit log = (some r.value, last) ∧
      last.problems = log.problems := by
  induction r with
  | done value => exact fun _ log => ⟨log, rfl, rfl⟩
  | enter entry next ih =>
    intro clean log
    rw [problems_enter, List.append_eq_nil_iff] at clean
    obtain ⟨last, ran, kept⟩ := ih () clean.2 (log.add entry)
    have same : (log.add entry).problems = log.problems := by
      apply Array.toList_inj.1
      rw [add_problems, clean.1, List.append_nil]
    refine ⟨last, ?_, kept.trans same⟩
    unfold run
    cases entry with
    | problem d => exact absurd clean.1 (List.cons_ne_nil _ _)
    | _ => exact ran

namespace Asm

/-- An assembly comes to an image if none of its stages meets a problem. -/
theorem Assembly.output_eq_some_iff_clean {config : Config} {source : Source} {o : Output} :
    (ofSource config source).output = some o ↔
      (program config.maxLiteralDepth source).problems = [] ∧
        (layout config.wordBits config.memorySize
          (program config.maxLiteralDepth source).value).value = .ok o ∧
        (layout config.wordBits config.memorySize
          (program config.maxLiteralDepth source).value).problems = [] := by
  constructor
  · intro h
    unfold ofSource ofParsed at h
    split at h
    · cases h
    · rename_i p log ran
      obtain ⟨rfl, problems⟩ := Report.run_eq_some ran
      split at h
      · cases h
      · rename_i clean
        rw [problems_of_not clean] at problems
        split at h
        · cases h
        · cases h
        · rename_i output last laid
          obtain ⟨same, more⟩ := Report.run_eq_some laid
          split at h
          · cases h
          · rename_i finished
            cases h
            rw [problems_of_not finished] at more
            exact ⟨(List.append_eq_nil_iff.1 problems.symm).2, same,
              (List.append_eq_nil_iff.1 more.symm).2⟩
  · rintro ⟨clean, same, fits⟩
    obtain ⟨log, ran, none⟩ := Report.run_of_clean config.maxErrors clean .empty
    obtain ⟨last, done, none'⟩ := Report.run_of_clean config.maxErrors fits log
    have empty : log.hasProblems = false := by
      unfold Log.hasProblems
      rw [none]
      rfl
    have empty' : last.hasProblems = false := by
      unfold Log.hasProblems
      rw [none', none]
      rfl
    rw [same] at done
    unfold ofSource ofParsed
    rw [ran]
    dsimp only
    rw [if_neg (Bool.eq_false_iff.1 empty), done]
    dsimp only
    rw [if_neg (Bool.eq_false_iff.1 empty')]

/-- A source text comes to an image if reading it and expanding its calls meets no problem, and the
    tokens are assembled. -/
theorem Assembly.output_eq_some_iff {config : Config} {source : Source} {o : Output} :
    (ofSource config source).output = some o ↔
      ((lex source).problems = [] ∧
        (expand (lex source).value.macros (lex source).value.tokens).problems = []) ∧
      Assembles config (expanded source) o := by
  have problems : (program config.maxLiteralDepth source).problems = [] ↔
      ((lex source).problems = [] ∧
        (expand (lex source).value.macros (lex source).value.tokens).problems = []) ∧
      (parse config.maxLiteralDepth (expanded source)).problems = [] := by
    unfold program expanded
    simp only [Report.problems_bind, List.append_eq_nil_iff, and_assoc]
    exact ⟨fun ⟨lexed, _, expanded, _, parsed, _⟩ => ⟨lexed, expanded, parsed⟩,
      fun ⟨lexed, expanded, parsed⟩ => ⟨lexed, rfl, expanded, rfl, parsed, rfl, rfl⟩⟩
  have value : (program config.maxLiteralDepth source).value =
      (parse config.maxLiteralDepth (expanded source)).value := by
    unfold program
    simp only [Report.value_bind]
    rfl
  rw [output_eq_some_iff_clean, problems, value, and_assoc]
  exact and_congr_right' ⟨fun ⟨parsed, laid, fits⟩ => ⟨parsed, laid, fits⟩,
    fun ⟨parsed, laid, fits⟩ => ⟨parsed, laid, fits⟩⟩

end Asm

end NineBit
