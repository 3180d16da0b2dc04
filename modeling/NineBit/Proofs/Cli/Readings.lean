import NineBit.Cli.Reader
import NineBit.Proofs.Cli.Paths

/-!
# What requests name

Whoever reads the arguments, the files that a request names can be read (`Files.Names.read`). The
standard reader checks what is asked of a reader (`Reader.lawful_standard`): a word that is to name
a file must do so, and a number must keep the bound of its option.
-/

namespace NineBit.Cli

variable {files : Files}

theorem Files.Names.read {path : Path} (names : files.Names path) :
    ∃ bytes, files.read path.text = .ok bytes := by
  obtain ⟨text, there, rfl⟩ := names
  exact read_ofString there

/-- A reading that asks for something made of a request asks for the request. -/
theorem Reading.map_eq_asks {ρ σ : Type} {f : ρ → σ} {reading : Reading ρ} {verbose : Bool}
    {made : σ} : reading.map f = .asks verbose made ↔
      ∃ request, reading = .asks verbose request ∧ f request = made := by
  cases reading with
  | misuse => exact iff_of_false nofun fun asks => nomatch asks.choose_spec.1
  | replies line => exact iff_of_false nofun fun asks => nomatch asks.choose_spec.1
  | asks other request =>
    constructor
    · intro same
      cases same
      exact ⟨request, rfl, rfl⟩
    · rintro ⟨_, same, rfl⟩
      cases same
      rfl

/-! ## Options -/

namespace Arguments

variable {a : Arguments} {path : Path} {name : String}

theorem names_of_existing? {text : String} (found : existing? files text = some path) :
    files.Names path := by
  unfold existing? at found
  split at found
  · rename_i there
    cases found
    exact ⟨text, there, rfl⟩
  · cases found

theorem names_of_input? (found : a.input? files = some path) : files.Names path := by
  unfold input? at found
  split at found
  · exact names_of_existing? found
  · cases found

theorem exists_of_checked? {α : Type} {check : String → Option α} {value : α}
    (found : a.checked? name check = some (some value)) : ∃ text, check text = some value := by
  unfold checked? at found
  split at found
  · cases found
  · rename_i text given
    obtain ⟨other, fine, same⟩ := Option.map_eq_some_iff.1 found
    cases same
    exact ⟨text, fine⟩

/-- An integer option keeps its bound, and so does what stands for one that is not given. -/
theorem le_of_integer? {least standard : Int} {value : Option Int} (le : least ≤ standard)
    (found : a.integer? name least = some value) : least ≤ value.getD standard := by
  cases value with
  | none => exact le
  | some value =>
    obtain ⟨text, integer⟩ := exists_of_checked? found
    split at integer
    · exact of_decide_eq_true (Option.filter_eq_some_iff.1 integer).2
    · cases integer

end Arguments

/-! ## Requests -/

theorem Tool.exists_of_read {ρ : Type} {tool : Tool} {request? : Arguments → Option ρ}
    {arguments : List String} {verbose : Bool} {request : ρ}
    (asks : tool.read request? arguments = .asks verbose request) :
    ∃ a, request? a = some request := by
  unfold read at asks
  split at asks
  · cases asks
  · rename_i a _
    split at asks
    · cases asks
    · split at asks
      · cases asks
      · rename_i other made
        cases asks
        exact ⟨a, made⟩

theorem Reader.lawful_standard : Reader.standard.Lawful where
  assembler asks := by
    obtain ⟨a, made⟩ := Tool.exists_of_read asks
    unfold Assemble.Request.ofArguments at made
    simp only [Option.bind_eq_bind, Option.bind_eq_some_iff] at made
    obtain ⟨input, found, _, -, _, -, _, -, _, -, _, -, _, -, same⟩ := made
    cases same
    exact Arguments.names_of_input? found
  runner asks := by
    obtain ⟨a, made⟩ := Tool.exists_of_read asks
    unfold Run.Request.ofArguments at made
    simp only [Option.bind_eq_bind, Option.bind_eq_some_iff] at made
    obtain ⟨input, found, _, -, _, -, _, -, same⟩ := made
    cases same
    exact Arguments.names_of_input? found
  disassembler asks := by
    obtain ⟨a, made⟩ := Tool.exists_of_read asks
    unfold Disassemble.Request.ofArguments at made
    simp only [Option.bind_eq_bind, Option.bind_eq_some_iff] at made
    obtain ⟨input, found, _, -, _, -, start, first, _, -, symbols, named, bits, wide, same⟩ := made
    cases same
    refine ⟨Arguments.names_of_input? found, ?_, Arguments.le_of_integer? (by decide) first,
      Arguments.le_of_integer? (by decide) wide⟩
    rintro path rfl
    obtain ⟨text, existing⟩ := Arguments.exists_of_checked? named
    exact Arguments.names_of_existing? existing

end NineBit.Cli
