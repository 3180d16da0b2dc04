import NineBit.Proofs.Cli.Readings
import NineBit.Proofs.Cli.Slips

/-!
# Exit statuses

A tool puts what goes wrong down to the material (status 1), to the command line (status 2) or to
itself (status 3). The last happens for a slip and for nothing else (`Tool.status_of_execute`),
whoever reads the arguments and whatever the host. Two kinds of text are slips where they should not
be. A breakpoint target of digits, or with the mark of a hexadecimal number, that is no numeral is
not looked up as a label; and the address of a symbol may consist of digits that stand for no
number, which no check of its line finds.
-/

namespace NineBit.Cli

open NineBit.Cli.Action

/-- What a tool acts in at first. -/
def Surroundings.initial (files : Files) (verbose : Bool) : Surroundings :=
  ⟨files, verbose, #[], #[]⟩

namespace Tool

/-- What a tool puts down to itself, when it acts for its arguments. -/
inductive Slip (reader : Reader) (host : Host) (environment : String → Option String)
    (files : Files) (arguments : List String) : Tool → Prop
  | assembler {verbose : Bool} {r : Assemble.Request}
      (asks : reader.assembler files arguments = .asks verbose r)
      (slip : Assemble.Slip host environment (.initial files verbose) r) :
      Slip reader host environment files arguments .assembler
  | runner {verbose : Bool} {r : Run.Request}
      (asks : reader.runner files arguments = .asks verbose r)
      (slip : Run.Slip host environment (.initial files verbose) r) :
      Slip reader host environment files arguments .runner
  | disassembler {verbose : Bool} {r : Disassemble.Request}
      (asks : reader.disassembler files arguments = .asks verbose r)
      (slip : Disassemble.Slip host (.initial files verbose) r) :
      Slip reader host environment files arguments .disassembler

/-- A tool ends with a status and a last line. -/
def Ends (reader : Reader) (host : Host) (tool : Tool) (environment : String → Option String)
    (files : Files) (arguments : List String) (status : Nat) (line : String) : Prop :=
  (tool.executeWith reader host environment files arguments).status = status ∧
    ∃ said, (tool.executeWith reader host environment files arguments).err =
      said ++ Text.plain line ++ "\n"

variable {reader : Reader} {host : Host} {tool : Tool} {environment : String → Option String}
  {files : Files} {arguments : List String} {verbose : Bool} {action : Action Unit}

theorem executeWith_of_asks
    (asks : tool.task reader host environment files arguments = .asks verbose action) :
    tool.executeWith reader host environment files arguments =
      .ofAction tool.activity files verbose action := by
  unfold executeWith
  rw [asks]
  rfl

theorem ends_of_error {failure : Failure} {s : Surroundings}
    (asks : tool.task reader host environment files arguments = .asks verbose action)
    (failed : action.run (.initial files verbose) = .error failure s) :
    Ends reader host tool environment files arguments failure.blame.status
      (failure.line tool.activity) := by
  have same : tool.executeWith reader host environment files arguments =
      ⟨failure.blame.status, Outcome.lines s.out,
        Outcome.lines (s.err.push (Text.plain (failure.line tool.activity))), s.files, false,
        verbose && failure.blame == .tool⟩ := by
    unfold Surroundings.initial at failed
    rw [executeWith_of_asks asks, Outcome.ofAction, failed]
  unfold Ends
  rw [same]
  refine ⟨rfl, Outcome.lines s.err, ?_⟩
  dsimp only
  unfold Outcome.lines
  rw [Array.toList_push, List.map_append, List.map_singleton, String.join_append,
    String.join_cons, String.join_nil, String.append_empty, String.append_assoc]

theorem task_runner {r : Run.Request} (asks : reader.runner files arguments = .asks verbose r) :
    runner.task reader host environment files arguments =
      .asks verbose (Run.action host environment r) :=
  congrArg (Reading.map _) asks

theorem task_disassembler {r : Disassemble.Request}
    (asks : reader.disassembler files arguments = .asks verbose r) :
    disassembler.task reader host environment files arguments =
      .asks verbose (Disassemble.action host r) :=
  congrArg (Reading.map _) asks

/-- The slips are all that an action puts down to its tool. -/
theorem slip_iff (lawful : reader.Lawful) :
    Slip reader host environment files arguments tool ↔ ∃ verbose action,
      tool.task reader host environment files arguments = .asks verbose action ∧
        Blunders (.initial files verbose) action := by
  have assembles {verbose : Bool} {r : Assemble.Request}
      (asks : reader.assembler files arguments = .asks verbose r) :
      Blunders (.initial files verbose) (Assemble.action host environment r) ↔
        Assemble.Slip host environment (.initial files verbose) r :=
    Assemble.blunders_action rfl (lawful.assembler asks).read
  have runs {verbose : Bool} {r : Run.Request}
      (asks : reader.runner files arguments = .asks verbose r) :
      Blunders (.initial files verbose) (Run.action host environment r) ↔
        Run.Slip host environment (.initial files verbose) r :=
    Run.blunders_action rfl (lawful.runner asks).read
  have disassembles {verbose : Bool} {r : Disassemble.Request}
      (asks : reader.disassembler files arguments = .asks verbose r) :
      Blunders (.initial files verbose) (Disassemble.action host r) ↔
        Disassemble.Slip host (.initial files verbose) r := by
    obtain ⟨-, symbols, start, -⟩ := lawful.disassembler asks
    exact Disassemble.blunders_action rfl (fun path named => (symbols path named).read) start
  constructor
  · intro slip
    cases slip with
    | assembler asks slip => exact ⟨_, _, congrArg (Reading.map _) asks, (assembles asks).2 slip⟩
    | runner asks slip => exact ⟨_, _, task_runner asks, (runs asks).2 slip⟩
    | disassembler asks slip => exact ⟨_, _, task_disassembler asks, (disassembles asks).2 slip⟩
  · rintro ⟨verbose, action, asked, blunders⟩
    cases tool with
    | assembler =>
      obtain ⟨r, asks, rfl⟩ := Reading.map_eq_asks.1 asked
      exact .assembler asks ((assembles asks).1 blunders)
    | runner =>
      obtain ⟨r, asks, rfl⟩ := Reading.map_eq_asks.1 asked
      exact .runner asks ((runs asks).1 blunders)
    | disassembler =>
      obtain ⟨r, asks, rfl⟩ := Reading.map_eq_asks.1 asked
      exact .disassembler asks ((disassembles asks).1 blunders)

/-- An action has the status 3 if it fails by its own fault, and else a lower one. -/
theorem status_of_asks
    (asks : tool.task reader host environment files arguments = .asks verbose action) :
    (tool.executeWith reader host environment files arguments).status ≤ 3 ∧
      ((tool.executeWith reader host environment files arguments).status = 3 ↔
        Blunders (.initial files verbose) action) := by
  unfold Blunders
  cases result : action.run (.initial files verbose) with
  | ok _ s =>
    unfold Surroundings.initial at result
    rw [executeWith_of_asks asks, Outcome.ofAction, result]
    exact ⟨Nat.zero_le 3, iff_of_false nofun nofun⟩
  | error failure s =>
    rw [(ends_of_error asks result).1]
    have status : failure.blame.status ≤ 3 ∧
        (failure.blame.status = 3 ↔ failure.blame = .tool) := by
      cases failure.blame <;> decide
    refine ⟨status.1, status.2.trans ⟨fun blame => ⟨failure, s, rfl, blame⟩, ?_⟩⟩
    rintro ⟨other, t, same, blame⟩
    cases same
    exact blame

theorem status_of_execute (lawful : reader.Lawful) (host : Host) (tool : Tool)
    (environment : String → Option String) (files : Files) (arguments : List String) :
    (tool.executeWith reader host environment files arguments).status ≤ 3 ∧
      ((tool.executeWith reader host environment files arguments).status = 3 ↔
        Slip reader host environment files arguments tool) := by
  rw [slip_iff lawful]
  cases asked : tool.task reader host environment files arguments with
  | asks verbose action =>
    obtain ⟨bound, exactly⟩ := status_of_asks asked
    refine ⟨bound, exactly.trans ⟨fun blunders => ⟨verbose, action, rfl, blunders⟩, ?_⟩⟩
    rintro ⟨_, _, same, blunders⟩
    cases same
    exact blunders
  | misuse =>
    unfold executeWith
    rw [asked]
    refine ⟨Nat.le_succ 2, iff_of_false (Nat.succ_ne_self 2).symm ?_⟩
    rintro ⟨_, _, same, -⟩
    cases same
  | replies line =>
    unfold executeWith
    rw [asked]
    refine ⟨Nat.zero_le 3, iff_of_false (Nat.succ_ne_zero 2).symm ?_⟩
    rintro ⟨_, _, same, -⟩
    cases same

end Tool

theorem Run.ComesTo.ends {reader : Reader} {host : Host} {environment : String → Option String}
    {files : Files} {arguments : List String} {verbose : Bool} {r : Request}
    {session : Machine.Session} {target : String} {failure : Failure}
    (asks : reader.runner files arguments = .asks verbose r)
    (comes : ComesTo host environment (.initial files verbose) r session target)
    (failed : ∀ s, (breakAt host session target).run s = .error failure s) :
    Tool.Ends reader host .runner environment files arguments failure.blame.status
      (failure.line "Run") := by
  obtain ⟨loaded, order, set⟩ := comes
  rename_i before after start s t
  refine Tool.ends_of_error (s := t) (Tool.task_runner asks) ?_
  unfold action
  rw [EStateM.run_bind, loaded]
  dsimp only
  rw [EStateM.run_bind, order, List.foldlM_append, EStateM.run_bind, set]
  dsimp only
  rw [List.foldlM_cons, EStateM.run_bind, failed]

theorem Disassemble.ComesTo.ends {reader : Reader} {host : Host}
    {environment : String → Option String} {files : Files} {arguments : List String}
    {verbose : Bool} {r : Request} {path : Path} {text : String} {error : SymbolFile.Error}
    (asks : reader.disassembler files arguments = .asks verbose r)
    (comes : ComesTo (.initial files verbose) r path text)
    (met : host.meetAll (SymbolFile.demands text) = .ok ())
    (failed : SymbolFile.read text = .error error) :
    Tool.Ends reader host .disassembler environment files arguments
      (Failure.symbols path.text error).blame.status
      ((Failure.symbols path.text error).line "Disassembly") := by
  obtain ⟨read, asked, has⟩ := comes
  rename_i words s
  have kept : s.files = files := slips_prepare.keeps rfl read
  refine Tool.ends_of_error (s := s) (Tool.task_disassembler asks) ?_
  have here : s.files.HasText path text := kept ▸ has
  unfold action readSymbols
  rw [EStateM.run_bind, read]
  dsimp only
  rw [asked]
  dsimp only
  rw [EStateM.run_bind, EStateM.run_bind, run_readText here]
  dsimp only
  unfold ask
  rw [met, failed]
  rfl

/-- A tool ends with the status 3 for the slips above, and else with a lower one. A breakpoint
    target that has the look of an address and is no numeral, or one with more digits than the host
    reads, is a slip; every other target that names nothing is the fault of the command line. The
    first line of a symbol file that is not as it should be is the fault of the file if it is
    malformed, and a slip if only its digits stand for no number, as long as the host reads the
    addresses. -/
theorem Tool.exit_status {reader : Reader} (lawful : reader.Lawful) (host : Host)
    (environment : String → Option String) (files : Files) (arguments : List String) :
    (∀ tool : Tool, (tool.executeWith reader host environment files arguments).status ≤ 3 ∧
      ((tool.executeWith reader host environment files arguments).status = 3 ↔
        Slip reader host environment files arguments tool)) ∧
    (∀ (verbose : Bool) (r : Run.Request) (session : Machine.Session) (target : String),
      reader.runner files arguments = .asks verbose r →
      Run.ComesTo host environment (.initial files verbose) r session target →
        (Run.isAddress target = false → session.addressOf? target = none →
          Ends reader host .runner environment files arguments 2
            s!"Error: unknown label '{target}'") ∧
        (Run.isAddress target = true → host.digits < Text.decimalDigits .marked target →
          Ends reader host .runner environment files arguments 3 ("Internal error: " ++
            (Crash.numeral host.digits (Text.decimalDigits .marked target)).message)) ∧
        (Run.isAddress target = true → Text.decimalDigits .marked target ≤ host.digits →
          Text.readInt? .marked target = none →
          Ends reader host .runner environment files arguments 3
            s!"Internal error: {Text.invalidNumeral .marked target}")) ∧
    ∀ (verbose : Bool) (r : Disassemble.Request) (path : Path) (text line : String)
      (before after : List String),
      reader.disassembler files arguments = .asks verbose r →
      Disassemble.ComesTo (.initial files verbose) r path text →
      host.meetAll (SymbolFile.demands text) = .ok () →
      Text.lines text = before ++ line :: after → (∀ l ∈ before, SymbolFile.Reads l) →
        (SymbolFile.Malformed line →
          Ends reader host .disassembler environment files arguments 1
            ("Disassembly error: " ++ (SymbolFile.Error.malformed (before.length + 1)
              (SymbolFile.content line)).message path.text)) ∧
        ∀ address, SymbolFile.NoNumber line address →
          Ends reader host .disassembler environment files arguments 3
            s!"Internal error: {Text.invalidNumeral .decimal address}" := by
  refine ⟨fun tool => status_of_execute lawful host tool environment files arguments, ?_, ?_⟩
  · intro verbose r session target asks comes
    refine ⟨?_, ?_, ?_⟩
    · intro shape unknown
      have failed (s : Surroundings) :
          (Run.breakAt host session target).run s = .error (.label ⟨target⟩) s := by
        unfold Run.breakAt
        rw [if_neg (Bool.eq_false_iff.1 shape)]
        unfold Machine.Session.breakAtLabel
        rw [unknown]
        rfl
      exact comes.ends asks failed
    · intro shape long
      have failed (s : Surroundings) : (Run.breakAt host session target).run s =
          .error (.crash (.numeral host.digits (Text.decimalDigits .marked target))) s := by
        unfold Run.breakAt ask
        rw [if_pos shape, host.meetAll_numeral, if_neg (Nat.not_le.2 long)]
        rfl
      exact comes.ends asks failed
    · intro shape short noNumeral
      have failed (s : Surroundings) :
          (Run.breakAt host session target).run s = .error (.address target) s := by
        unfold Run.breakAt ask
        rw [if_pos shape, host.meetAll_numeral, if_pos short, noNumeral]
        rfl
      exact comes.ends asks failed
  · intro verbose r path text line before after asks comes met cut fine
    have read {error : SymbolFile.Error}
        (failed : SymbolFile.readLine (1 + before.length) line = .error error) :
        SymbolFile.read text = .error error := by
      unfold SymbolFile.read
      rw [cut]
      exact SymbolFile.readLines_before fine failed
    rw [Nat.add_comm] at read
    constructor
    · intro malformed
      exact comes.ends asks met (read (SymbolFile.readLine_malformed malformed))
    · intro address noNumber
      exact comes.ends asks met (read (SymbolFile.readLine_noNumber noNumber))

/-- A program of one word. -/
def oneWord : Files := ⟨[(["p.s9b"], .file "!done".toUTF8.toList)]⟩

/-- An image of one word and a symbol file. -/
def withSymbols (text : String) : Files :=
  ⟨[(["i.hex"], .file "042\n".toUTF8.toList), (["t.sym"], .file text.toUTF8.toList)]⟩

theorem Disassemble.comesTo_withSymbols (text : String) :
    ComesTo (.initial (withSymbols text) false)
      ⟨.ofString "i.hex", none, none, 0, none, some (.ofString "t.sym"), 9⟩ (.ofString "t.sym")
      (String.ofList (Text.unifyNewlines text.toList)) := by
  have read : (prepare ⟨.ofString "i.hex", none, none, 0, none, some (.ofString "t.sym"), 9⟩).run
      (.initial (withSymbols text) false) = .ok [66] (.initial (withSymbols text) false) := by
    have form : ImageFormat.ofPath? (.ofString "i.hex") = some .hex := by decide +kernel
    have found : (withSymbols text).read (Path.ofString "i.hex").text =
        .ok "042\n".toUTF8.toList := rfl
    have inferred : ImageFormat.infer (.ofString "i.hex") (Path.ofString "i.hex").text =
        .ok .hex := by
      unfold ImageFormat.infer
      rw [form]
    simp only [prepare, readImage, inferred, EStateM.run_bind, EStateM.run_get, orFail,
      EStateM.run_pure, Surroundings.initial, found, textOf, Text.decodeUtf8_toUTF8]
    rfl
  exact .intro read rfl ⟨text, rfl, rfl⟩

/-- Words of more bits than an integer can have; a breakpoint at a label that the program does not
    have, and one at a text that only begins like a hexadecimal number; a symbol whose address is a
    letter, and one whose address is a raised digit. -/
theorem Tool.exit_status_misread :
    (Tool.assembler.executeWith .standard .usual (fun _ => none) oneWord
      ["p.s9b", "--word-bits", "99999999999999999999"]).status = 3 ∧
    Ends .standard .usual .runner (fun _ => none) oneWord ["p.s9b", "-b", "loop"] 2
      "Error: unknown label 'loop'" ∧
    Ends .standard .usual .runner (fun _ => none) oneWord ["p.s9b", "-b", "0xZZ"] 3
      "Internal error: invalid literal for int() with base 0: '0xZZ'" ∧
    Ends .standard .usual .disassembler (fun _ => none) (withSymbols "a 1\nloop x\n")
      ["i.hex", "-s", "t.sym"] 1
      "Disassembly error: t.sym:2: expected 'name address', got 'loop x'" ∧
    Ends .standard .usual .disassembler (fun _ => none) (withSymbols "loop ²\n")
      ["i.hex", "-s", "t.sym"] 3
      "Internal error: invalid literal for int() with base 10: '²'" := by
  refine ⟨?_, ?_, ?_, ?_, ?_⟩
  · have asks : Reader.standard.assembler oneWord
        ["p.s9b", "--word-bits", "99999999999999999999"] = .asks false
          ⟨.ofString "p.s9b", none, none, none, none, some 99999999999999999999, none⟩ := by
      decide +kernel
    have broken : (Settings.mk 99999999999999999999 256 100 32 100000 1000).validateOn .usual =
        .error .integer := rfl
    exact ((exit_status Reader.lawful_standard .usual _ _ _).1 .assembler).2.2
      (.assembler asks (.settings rfl broken))
  · obtain ⟨start, s, loaded, unknown⟩ := exists_ok (fun session : Machine.Session =>
        (session.addressOf? "loop").isNone)
      (x := Run.prepare .usual (fun _ => none)
        ⟨.ofString "p.s9b", none, none, none, ["loop"], false⟩)
      (s := .initial oneWord false) (by decide +kernel)
    exact ((exit_status Reader.lawful_standard .usual _ _ _).2.1 _ _ _ _ (by decide +kernel)
      (.intro loaded (List.nil_append _).symm rfl)).1 (by decide +kernel)
      (Option.isNone_iff_eq_none.1 unknown)
  · obtain ⟨start, s, loaded, -⟩ := exists_ok (fun _ : Machine.Session => true)
      (x := Run.prepare .usual (fun _ => none)
        ⟨.ofString "p.s9b", none, none, none, ["0xZZ"], false⟩)
      (s := .initial oneWord false) (by decide +kernel)
    exact ((exit_status Reader.lawful_standard .usual _ _ _).2.1 _ _ _ _ (by decide +kernel)
      (.intro loaded (List.nil_append _).symm rfl)).2.2 (by decide +kernel) (by decide +kernel)
      (by decide +kernel)
  · have reads : ∀ line ∈ ["a 1"], SymbolFile.Reads line := by
      rintro line member
      cases List.mem_singleton.1 member
      exact .inr ⟨"1", by decide +kernel, by decide +kernel⟩
    exact ((exit_status Reader.lawful_standard .usual _ _ _).2.2 _ _ _ _ "loop x" ["a 1"] []
      (by decide +kernel) (Disassemble.comesTo_withSymbols _) (by decide +kernel)
      (by decide +kernel) reads).1
      (by decide +kernel)
  · exact ((exit_status Reader.lawful_standard .usual _ _ _).2.2 _ _ _ _ "loop ²" [] []
      (by decide +kernel) (Disassemble.comesTo_withSymbols _) (by decide +kernel)
      (by decide +kernel) nofun).2 "²" (by decide +kernel)

end NineBit.Cli
