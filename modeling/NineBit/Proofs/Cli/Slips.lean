import NineBit.Cli.Tool
import NineBit.Proofs.Cli.Actions
import NineBit.Proofs.Machine.HostRuns
import NineBit.Proofs.SymbolFile

/-!
# What a tool puts down to itself

A request names files that are there, so that reading them can only fail for what is in them. For
each tool, `Slip` tells what the tool puts down to itself, once it comes to it: bytes that are no
text, a path where no file can be written, a text that is taken for a number without being one, and
what the host does not do. That is all, and it always is (`blunders_action`): what else goes wrong
is put down to the material or to the command line.
-/

namespace NineBit.Cli

open NineBit.Cli.Action

/-! ## The assembler -/

namespace Assemble

variable {host : Host} {environment : String → Option String} {files : Files} {s : Surroundings}
  {r : Request} {config : Config} {image : Asm.Output} {path : Path} {format : ImageFormat}

/-- The listing of an image, if it is asked for, and where it goes. -/
def Request.listing? (r : Request) (config : Config) (image : Asm.Output) : List Writing :=
  (r.listing.map fun path => ⟨image.listingDemands config.wordBits, path,
    (image.listing config.wordBits ++ "\n").toUTF8.toList⟩).toList

/-- The symbol file of an image, if it is asked for, and where it goes. -/
def Request.symbols? (r : Request) (image : Asm.Output) : List Writing :=
  (r.symbols.map fun path => ⟨[], path, image.symbolFile.toUTF8.toList⟩).toList

/-- The assembler knows where the image goes and has a configuration. -/
structure Starts (host : Host) (environment : String → Option String) (r : Request) (path : Path)
    (format : ImageFormat) (config : Config) : Prop where
  target : r.target = .ok (path, format)
  valid : (r.settings host environment).validateOn host = .ok (.ok config)

/-- The assembler has built an image and has its bytes. -/
inductive Encodes (host : Host) (environment : String → Option String) (s : Surroundings)
    (r : Request) (path : Path) (config : Config) (image : Asm.Output) (bytes : List UInt8) :
    Prop where
  | intro {format : ImageFormat} {t : Surroundings}
      (starts : Starts host environment r path format config)
      (built : (build host config r).run s = .ok image t)
      (met : host.meetAll (Image.demands format image.integers config.wordBits) = .ok ())
      (encoded : Image.encode format image.integers config.wordBits = .ok bytes)

/-- What the assembler puts down to itself: settings, a source text or words for which the host does
    not do what has to be done, a source that is no text, and a file that it cannot write although
    there is a way to it. -/
inductive Slip (host : Host) (environment : String → Option String) (s : Surroundings)
    (r : Request) : Prop where
  | settings {place : Path × ImageFormat} {crash : Crash} (target : r.target = .ok place)
      (broken : (r.settings host environment).validateOn host = .error crash)
  | source {path : Path} {format : ImageFormat} {config : Config}
      (starts : Starts host environment r path format config) (noText : s.files.NoText r.input)
  | assembly {path : Path} {format : ImageFormat} {config : Config}
      (starts : Starts host environment r path format config)
      (breaks : s.files.Breaks host config r.input)
  | image {path : Path} {format : ImageFormat} {config : Config} {image : Asm.Output}
      {t : Surroundings} {crash : Crash} (starts : Starts host environment r path format config)
      (built : (build host config r).run s = .ok image t)
      (broken : host.meetAll (Image.demands format image.integers config.wordBits) = .error crash)
  | listing {path : Path} {config : Config} {image : Asm.Output} {bytes : List UInt8}
      {crash : Crash} (encodes : Encodes host environment s r path config image bytes)
      (broken : s.files.writeAll host
        (⟨[], path, bytes⟩ :: (r.listing? config image ++ r.symbols? image)) =
          .error (.crash crash))
  | output {path : Path} {config : Config} {image : Asm.Output} {bytes : List UInt8}
      {place : String} {fault : FileFault}
      (encodes : Encodes host environment s r path config image bytes)
      (stuck : s.files.writeAll host
        (⟨[], path, bytes⟩ :: (r.listing? config image ++ r.symbols? image)) =
          .error (.file place fault)) (present : fault ≠ .missing)

theorem writes_writeMore (what : String) (path : Path) (text : String) (files : Files) :
    Writes host files (writeMore what path text) [⟨[], path, text.toUTF8.toList⟩] :=
  (writes_writeText path text files).bind_calm (calm_whenVerbose (calm_say _))

theorem blunders_save (here : s.files = files) :
    Blunders s (save host config r path format image) ↔
      (∃ crash, host.meetAll (Image.demands format image.integers config.wordBits) =
        .error crash) ∨
      host.meetAll (Image.demands format image.integers config.wordBits) = .ok () ∧
        ∃ bytes, Image.encode format image.integers config.wordBits = .ok bytes ∧
          let written := files.writeAll host
            (⟨[], path, bytes⟩ :: (r.listing? config image ++ r.symbols? image))
          (∃ crash, written = .error (.crash crash)) ∨
            ∃ place fault, written = .error (.file place fault) ∧ fault ≠ .missing := by
  unfold save
  rw [blunders_ask]
  refine or_congr_right (and_congr_right fun _ => ?_)
  rw [blunders_orFail blame_image]
  refine exists_congr fun bytes => and_congr_right fun _ => Writes.blunders ?_ here
  refine (writes_writeBytes path bytes files).bind fun now => ?_
  refine .after (calm_debug _ _) (.after (calm_whenVerbose (calm_say _)) ?_)
  extract_lets withSymbols withListing
  have last (now : Files) : Writes host now (withSymbols ()) [] :=
    .after (calm_whenVerbose (calm_say _)) (writes_calm (calm_whenVerbose (calm_say _)) now)
  have symbols (now : Files) : Writes host now (withListing ()) (r.symbols? image) := by
    unfold withListing Request.symbols?
    cases r.symbols with
    | none => exact last now
    | some symbols => exact (writes_writeMore _ symbols _ now).bind last
  unfold Request.listing?
  cases r.listing with
  | none => exact symbols now
  | some listing => exact .ask ((writes_writeMore _ listing _ now).bind symbols)

theorem slips_build (there : ∃ bytes, files.read r.input.text = .ok bytes) :
    Slips files (build host config r)
      (files.NoText r.input ∨ files.Breaks host config r.input) := by
  refine .after (calm_whenVerbose (calm_say _)) (.after (calm_debug _ _) ?_)
  refine slips_source there fun assembly ends => (slips_assembled ends _).bind fun image => ?_
  exact .after (calm_whenVerbose (calm_forM_array (fun note => calm_say _) _)) .pure

theorem blunders_action (here : s.files = files)
    (there : ∃ bytes, files.read r.input.text = .ok bytes) :
    Blunders s (action host environment r) ↔ Slip host environment s r := by
  subst here
  unfold action
  rw [blunders_orFail blame_image]
  constructor
  · rintro ⟨⟨path, format⟩, target, blunders⟩
    rcases blunders_configure.1 blunders with ⟨crash, broken⟩ | ⟨config, valid, blunders⟩
    · exact .settings target broken
    have starts : Starts host environment r path format config := ⟨target, valid⟩
    rcases blunders_bind.1 blunders with source | ⟨image, t, built, saved⟩
    · rcases ((slips_build there).blunders rfl).1 source with noText | breaks
      · exact .source starts noText
      · exact .assembly starts breaks
    rcases (blunders_save ((slips_build there).keeps rfl built)).1 saved with
      ⟨crash, broken⟩ | ⟨met, bytes, encoded, ⟨crash, broken⟩ | ⟨place, fault, stuck, present⟩⟩
    · exact .image starts built broken
    · exact .listing (.intro starts built met encoded) broken
    · exact .output (.intro starts built met encoded) stuck present
  · have started {path : Path} {format : ImageFormat} {config : Config}
        (starts : Starts host environment r path format config)
        (blunders : Blunders s (build host config r >>= save host config r path format)) :
        ∃ place : Path × ImageFormat, r.target = .ok place ∧
          Blunders s (configure host (r.settings host environment) >>= fun config =>
            build host config r >>= save host config r place.1 place.2) :=
      ⟨(path, format), starts.target, blunders_configure.2 (.inr ⟨config, starts.valid, blunders⟩)⟩
    rintro (⟨target, broken⟩ | ⟨starts, noText⟩ | ⟨starts, breaks⟩ | ⟨starts, built, broken⟩ |
      ⟨⟨starts, built, met, encoded⟩, broken⟩ | ⟨⟨starts, built, met, encoded⟩, stuck, present⟩)
    · exact ⟨_, target, blunders_configure.2 (.inl ⟨_, broken⟩)⟩
    · refine started starts (blunders_bind.2 (.inl ?_))
      exact ((slips_build there).blunders rfl).2 (.inl noText)
    · refine started starts (blunders_bind.2 (.inl ?_))
      exact ((slips_build there).blunders rfl).2 (.inr breaks)
    · refine started starts (blunders_bind.2 (.inr ⟨_, _, built, ?_⟩))
      exact (blunders_save ((slips_build there).keeps rfl built)).2 (.inl ⟨_, broken⟩)
    · refine started starts (blunders_bind.2 (.inr ⟨_, _, built, ?_⟩))
      exact (blunders_save ((slips_build there).keeps rfl built)).2
        (.inr ⟨met, _, encoded, .inl ⟨_, broken⟩⟩)
    · refine started starts (blunders_bind.2 (.inr ⟨_, _, built, ?_⟩))
      exact (blunders_save ((slips_build there).keeps rfl built)).2
        (.inr ⟨met, _, encoded, .inr ⟨_, _, stuck, present⟩⟩)

end Assemble

/-! ## The machine -/

namespace Run

variable {host : Host} {environment : String → Option String} {files : Files} {s : Surroundings}
  {r : Request}

/-- The machine has loaded its program, has set the breakpoints asked for before a target, and comes
    to that one. -/
inductive ComesTo (host : Host) (environment : String → Option String) (s : Surroundings)
    (r : Request) (session : Machine.Session) (target : String) : Prop where
  | intro {before after : List String} {start : Machine.Session} {t u : Surroundings}
      (loaded : (prepare host environment r).run s = .ok start t)
      (order : r.breaks = before ++ target :: after)
      (set : (before.foldlM (breakAt host) start).run t = .ok session u)

/-- What the machine puts down to itself: settings, a size of the memory or a source text for which
    the host does not do what has to be done, a program that is to be a text and is none, a target
    that has the look of an address and is no numeral or one with more digits than the host reads,
    and a run in which a number comes up that the host does not write. -/
inductive Slip (host : Host) (environment : String → Option String) (s : Surroundings)
    (r : Request) : Prop where
  | settings {crash : Crash} (broken : (r.settings host environment).validateOn host = .error crash)
  | memory {config : Config} {crash : Crash}
      (valid : (r.settings host environment).validateOn host = .ok (.ok config))
      (broken : host.meetAll [.sequence config.memorySize] = .error crash)
  | source {config : Config}
      (valid : (r.settings host environment).validateOn host = .ok (.ok config))
      (met : host.meetAll [.sequence config.memorySize] = .ok ())
      (form : ImageFormat.ofPath? r.input ≠ some .bin) (noText : s.files.NoText r.input)
  | assembly {config : Config}
      (valid : (r.settings host environment).validateOn host = .ok (.ok config))
      (met : host.meetAll [.sequence config.memorySize] = .ok ())
      (form : ImageFormat.ofPath? r.input = none) (breaks : s.files.Breaks host config r.input)
  | numeral {session : Machine.Session} {target : String}
      (comes : ComesTo host environment s r session target) (shaped : isAddress target = true)
      (long : host.digits < Text.decimalDigits .marked target)
  | address {session : Machine.Session} {target : String}
      (comes : ComesTo host environment s r session target) (shaped : isAddress target = true)
      (short : Text.decimalDigits .marked target ≤ host.digits)
      (noNumeral : Text.readInt? .marked target = none)
  | run {start session : Machine.Session} {t u : Surroundings}
      (loaded : (prepare host environment r).run s = .ok start t)
      (set : (r.breaks.foldlM (breakAt host) start).run t = .ok session u)
      (broken : session.runOn host none = .error (.digits host.digits))
      (large : session.TooWide host ∨ decimalCount host.digits ≤ session.config.maxTicks)

theorem slips_loaded (words : Nat) (result : Machine.Session × Option Machine.Fault) :
    Slips files (loaded words result) False := by
  obtain ⟨session, _ | fault⟩ := result
  · exact .after (calm_debug _ _) (.after (calm_debug _ _) .pure)
  · exact .never (.throw nofun)

theorem slips_load (session : Machine.Session)
    (there : ∃ bytes, files.read r.input.text = .ok bytes) :
    Slips files (load host session r.input)
      (ImageFormat.ofPath? r.input ≠ some .bin ∧ files.NoText r.input ∨
        ImageFormat.ofPath? r.input = none ∧ files.Breaks host session.config r.input) := by
  unfold load
  cases form : ImageFormat.ofPath? r.input with
  | none =>
    refine Slips.congr ?_ (or_congr (and_iff_right nofun).symm (and_iff_right rfl).symm)
    refine slips_source there fun assembly ends => (slips_assembled ends _).bind fun image => ?_
    exact (slips_loaded _ _).bind fun session => .pure
  | some format =>
    refine ((slips_readImage none).congr ?_).bind fun words =>
      (slips_loaded _ _).bind fun session => .pure
    rw [Option.none_or, form]
    cases format <;> simp

theorem blunders_prepare (here : s.files = files)
    (there : ∃ bytes, files.read r.input.text = .ok bytes) :
    Blunders s (prepare host environment r) ↔
      (∃ crash, (r.settings host environment).validateOn host = .error crash) ∨
      ∃ config, (r.settings host environment).validateOn host = .ok (.ok config) ∧
        ((∃ crash, host.meetAll [.sequence config.memorySize] = .error crash) ∨
          host.meetAll [.sequence config.memorySize] = .ok () ∧
            (ImageFormat.ofPath? r.input ≠ some .bin ∧ files.NoText r.input ∨
              ImageFormat.ofPath? r.input = none ∧ files.Breaks host config r.input)) := by
  unfold prepare
  rw [blunders_configure]
  refine or_congr_right (exists_congr fun config => and_congr_right fun _ => ?_)
  rw [blunders_ask]
  refine or_congr_right (and_congr_right fun _ => Slips.blunders ?_ here)
  refine (slips_load (.initial config) there).bind ?_
  rintro ⟨session, words⟩
  exact .after (calm_whenVerbose (calm_tell _)) .pure

theorem slips_breakAt (session : Machine.Session) (target : String) :
    Slips files (breakAt host session target)
      (isAddress target = true ∧ (host.digits < Text.decimalDigits .marked target ∨
        Text.decimalDigits .marked target ≤ host.digits ∧
          Text.readInt? .marked target = none)) := by
  unfold breakAt
  cases shape : isAddress target with
  | false =>
    refine Slips.congr ?_ (iff_of_false id fun slip => Bool.false_ne_true slip.1)
    exact (Slips.bind_orFail blame_label fun _ _ => .pure).congr (by simp)
  | true =>
    refine (Slips.ask (p := Text.readInt? .marked target = none) ?_).congr ?_
    · cases Text.readInt? .marked target with
      | some address => exact Slips.pure.congr (by simp)
      | none => exact .throw (by simp [Failure.blame])
    · rw [host.meetAll_numeral, and_iff_right rfl]
      by_cases short : Text.decimalDigits .marked target ≤ host.digits
      · simp [short]
      · simp [short, Nat.lt_of_not_le short]

theorem calm_remark (session : Machine.Session) (event : Machine.BreakEvent) :
    Calm (remark session event) := by
  unfold remark
  split
  · exact calm_warn _ _
  · exact calm_debug _ _
  · exact calm_pure

/-! ### Loaded machines -/

theorem sound_loaded {words : Nat} {result : Machine.Session × Option Machine.Fault}
    (sound : result.1.Sound) :
    Meets files (loaded words result) (fun session _ => session.Sound) fun _ => True := by
  obtain ⟨session, _ | fault⟩ := result
  · exact (calm_debug _ _).then ((calm_debug _ _).then (.pure sound))
  · exact .throw trivial

theorem sound_load {session : Machine.Session} (sound : session.Sound) (path : Path) :
    Meets files (load host session path) (fun result _ => result.1.Sound) fun _ => True := by
  unfold load
  split
  · refine Meets.any.bind fun words _ _ => ?_
    exact (sound_loaded (sound.load _ _)).bind fun session _ sound => .pure sound
  · refine Meets.any.bind fun text _ _ => Meets.any.bind fun assembly _ _ =>
      Meets.any.bind fun image _ _ => ?_
    exact (sound_loaded (sound.load _ _)).bind fun session _ sound => .pure sound

theorem sound_prepare : Meets files (prepare host environment r)
    (fun session _ => session.Sound) fun _ => True := by
  refine Meets.any.bind fun config _ _ => Meets.any.bind fun _ _ _ => ?_
  refine (sound_load (Machine.Session.sound_initial config) r.input).bind ?_
  rintro ⟨session, words⟩ now sound
  exact (calm_whenVerbose (calm_tell _)).then (.pure sound)

theorem sound_breakAt {session : Machine.Session} (sound : session.Sound) (target : String) :
    Meets files (breakAt host session target) (fun next _ => next.Sound) fun _ => True := by
  unfold breakAt
  split
  · refine Meets.any.bind fun _ _ _ => ?_
    split
    · exact .pure sound
    · exact .throw trivial
  · refine .bind_orFail ?_ fun _ _ => trivial
    rintro ⟨address, next⟩ found
    unfold Machine.Session.breakAtLabel at found
    split at found
    · cases found
      exact .pure sound
    · cases found

/-- A machine is sound when its program has been loaded and its breakpoints have been set. -/
theorem sound_ready {start session : Machine.Session} {t u : Surroundings}
    (loaded : (prepare host environment r).run s = .ok start t)
    (set : (r.breaks.foldlM (breakAt host) start).run t = .ok session u) : session.Sound := by
  have preparing : Meets s.files (prepare host environment r) (fun session _ => session.Sound)
    fun _ => True := sound_prepare
  have prepared := preparing.run s rfl
  rw [loaded] at prepared
  have setting : Meets t.files (r.breaks.foldlM (breakAt host) start)
      (fun session _ => session.Sound) fun _ => True :=
    .foldlM (fun _ target _ sound => sound_breakAt sound target) prepared
  have ready := setting.run t rfl
  rw [set] at ready
  exact ready

theorem blunders_finish {session : Machine.Session} (sound : session.Sound) :
    Blunders s (finish host r session) ↔
      session.runOn host none = .error (.digits host.digits) ∧
        (session.TooWide host ∨ decimalCount host.digits ≤ session.config.maxTicks) := by
  unfold finish
  rw [blunders_onHost]
  constructor
  · rintro (⟨crash, broken⟩ | ⟨⟨session, event⟩, -, blunders⟩)
    · have runs : Machine.Session.RunsOn host session none _ :=
        Machine.Session.Sound.runsOn sound none
      rw [broken] at runs
      obtain ⟨rfl, large⟩ := runs.of_error
      exact ⟨broken, large⟩
    · refine ((Slips.blunders ?_ rfl).1 blunders : False).elim
      refine .after (calm_remark _ _) (.after (calm_forM (fun word => calm_say _) _) ?_)
      extract_lets ending
      have ended : Slips s.files (ending ()) False := by
        refine .after (calm_whenVerbose (calm_tell _)) ?_
        split
        · exact .never (.throw nofun)
        · exact .pure
      split
      · exact .after (calm_forM calm_tell _) ended
      · exact ended
  · exact fun breaks => .inl ⟨_, breaks.1⟩

theorem blunders_action (here : s.files = files)
    (there : ∃ bytes, files.read r.input.text = .ok bytes) :
    Blunders s (action host environment r) ↔ Slip host environment s r := by
  subst here
  unfold action
  rw [blunders_bind, blunders_prepare rfl there]
  constructor
  · rintro ((⟨crash, broken⟩ | ⟨config, valid, ⟨crash, broken⟩ | ⟨met, source⟩⟩) |
      ⟨start, t, loaded, blunders⟩)
    · exact .settings broken
    · exact .memory valid broken
    · rcases source with ⟨form, noText⟩ | ⟨form, breaks⟩
      · exact .source valid met form noText
      · exact .assembly valid met form breaks
    · rcases blunders_bind.1 blunders with breaks | ⟨session, u, set, finished⟩
      · obtain ⟨before, target, after, session, u, order, set, blunders⟩ :=
          blunders_foldlM.1 breaks
        obtain ⟨shaped, long | ⟨short, noNumeral⟩⟩ :=
          ((slips_breakAt session target).blunders rfl).1 blunders
        · exact .numeral (.intro loaded order set) shaped long
        · exact .address (.intro loaded order set) shaped short noNumeral
      · obtain ⟨broken, large⟩ := (blunders_finish (sound_ready loaded set)).1 finished
        exact .run loaded set broken large
  · have stops {session : Machine.Session} {target : String}
        (comes : ComesTo host environment s r session target)
        (misread : isAddress target = true ∧ (host.digits < Text.decimalDigits .marked target ∨
          Text.decimalDigits .marked target ≤ host.digits ∧
            Text.readInt? .marked target = none)) :
        ∃ start t, (prepare host environment r).run s = .ok start t ∧
          Blunders t (r.breaks.foldlM (breakAt host) start >>= finish host r) := by
      obtain ⟨loaded, order, set⟩ := comes
      refine ⟨_, _, loaded, blunders_bind.2 (.inl (blunders_foldlM.2 ?_))⟩
      exact ⟨_, _, _, _, _, order, set, ((slips_breakAt _ _).blunders rfl).2 misread⟩
    rintro (broken | ⟨valid, broken⟩ | ⟨valid, met, form, noText⟩ | ⟨valid, met, form, breaks⟩ |
      ⟨comes, shaped, long⟩ | ⟨comes, shaped, short, noNumeral⟩ | ⟨loaded, set, broken, large⟩)
    · exact .inl (.inl ⟨_, broken⟩)
    · exact .inl (.inr ⟨_, valid, .inl ⟨_, broken⟩⟩)
    · exact .inl (.inr ⟨_, valid, .inr ⟨met, .inl ⟨form, noText⟩⟩⟩)
    · exact .inl (.inr ⟨_, valid, .inr ⟨met, .inr ⟨form, breaks⟩⟩⟩)
    · exact .inr (stops comes ⟨shaped, .inl long⟩)
    · exact .inr (stops comes ⟨shaped, .inr ⟨short, noNumeral⟩⟩)
    · exact .inr ⟨_, _, loaded, blunders_bind.2
        (.inr ⟨_, _, set, (blunders_finish (sound_ready loaded set)).2 ⟨broken, large⟩⟩)⟩

end Run

/-! ## The disassembler -/

namespace Disassemble

variable {host : Host} {files : Files} {s : Surroundings} {r : Request}

/-- The symbols that are asked for. -/
def table (host : Host) (r : Request) : Action SymbolTable :=
  match r.symbols with
  | some path => readSymbols host path
  | none => pure []

theorem action_eq (host : Host) (r : Request) :
    action host r = prepare r >>= fun words => table host r >>= finish host r words := by
  unfold action table
  cases r.symbols <;> rfl

/-- The disassembler has read its image, and comes to a text for a symbol file. -/
inductive ComesTo (s : Surroundings) (r : Request) (path : Path) (text : String) : Prop where
  | intro {words : List Int} {t : Surroundings} (read : (prepare r).run s = .ok words t)
      (asked : r.symbols = some path) (has : s.files.HasText path text)

/-- The disassembler has its lines. -/
inductive Shows (host : Host) (s : Surroundings) (r : Request) (lines : List Disassembly.Line) :
    Prop where
  | intro {words : List Int} {symbols : SymbolTable} {t u : Surroundings}
      (read : (prepare r).run s = .ok words t) (named : (table host r).run t = .ok symbols u)
      (shown : Disassembly.lines symbols words r.start r.count = .ok lines)

/-- What the disassembler puts down to itself: an image or a symbol file that is to be a text and is
    none, an address with more digits than the host reads, an address of digits that is no number,
    words that the host does not show, and a file that it cannot write although there is a way to
    it. -/
inductive Slip (host : Host) (s : Surroundings) (r : Request) : Prop where
  | image (form : r.format.or (ImageFormat.ofPath? r.input) = some .hex)
      (noText : s.files.NoText r.input)
  | symbols {words : List Int} {t : Surroundings} {path : Path}
      (read : (prepare r).run s = .ok words t) (asked : r.symbols = some path)
      (noText : s.files.NoText path)
  | numeral {path : Path} {text : String} {crash : Crash} (comes : ComesTo s r path text)
      (broken : host.meetAll (SymbolFile.demands text) = .error crash)
  | address {path : Path} {text line address : String} {before after : List String}
      (comes : ComesTo s r path text) (met : host.meetAll (SymbolFile.demands text) = .ok ())
      (order : Text.lines text = before ++ line :: after)
      (fine : ∀ l ∈ before, SymbolFile.Reads l) (noNumber : SymbolFile.NoNumber line address)
  | shown {lines : List Disassembly.Line} {crash : Crash} (shows : Shows host s r lines)
      (broken : host.meetAll (Disassembly.demands r.wordBits lines) = .error crash)
  | output {lines : List Disassembly.Line} {path : Path} {fault : FileFault}
      (shows : Shows host s r lines)
      (met : host.meetAll (Disassembly.demands r.wordBits lines) = .ok ())
      (asked : r.output = some path)
      (stuck : s.files.write path.text
        (Disassembly.render r.wordBits lines ++ "\n").toUTF8.toList = .error fault)
      (present : fault ≠ .missing)

theorem slips_prepare : Slips files (prepare r)
    (r.format.or (ImageFormat.ofPath? r.input) = some .hex ∧ files.NoText r.input) :=
  (slips_readImage r.format).bind fun _ => .after (calm_whenVerbose (calm_tell _)) .pure

/-- The addresses of a symbol file are not all read: the host does not read the digits of one, or
    digits stand for no number. -/
def Misread (host : Host) (text : String) : Prop :=
  (∃ crash, host.meetAll (SymbolFile.demands text) = .error crash) ∨
    host.meetAll (SymbolFile.demands text) = .ok () ∧
      ∃ address, SymbolFile.read text = .error (.noNumber address)

theorem slips_readSymbols {path : Path} (there : ∃ bytes, files.read path.text = .ok bytes) :
    Slips files (readSymbols host path)
      (files.NoText path ∨ ∃ text, files.HasText path text ∧ Misread host text) := by
  refine Meets.bind_same ((meets_readText there).failing fun _ failed =>
    iff_of_true failed.1 (.inl failed.2)) fun text has => ?_
  have slip : (files.NoText path ∨ ∃ text, files.HasText path text ∧ Misread host text) ↔
      Misread host text := by
    constructor
    · rintro (noText | ⟨other, too, misread⟩)
      · exact absurd noText has.not_noText
      · exact has.unique too ▸ misread
    · exact fun misread => .inr ⟨text, has, misread⟩
  rw [slip]
  refine Slips.ask (Meets.orFail (fun table read => ⟨rfl, ?_⟩) fun error failed => ?_)
  · rintro ⟨address, failed⟩
    rw [read] at failed
    cases failed
  · rw [failed]
    cases error with
    | malformed line content => exact iff_of_false nofun nofun
    | noNumber address => exact iff_of_true rfl ⟨address, rfl⟩

theorem slips_table
    (there : ∀ path, r.symbols = some path → ∃ bytes, files.read path.text = .ok bytes) :
    Slips files (table host r) (∃ path, r.symbols = some path ∧
      (files.NoText path ∨ ∃ text, files.HasText path text ∧ Misread host text)) := by
  unfold table
  cases asked : r.symbols with
  | none => exact Slips.pure.congr (by simp)
  | some path => exact (slips_readSymbols (there path asked)).congr (by simp)

theorem lines_ok {words : List Int} {symbols : SymbolTable} (start : 0 ≤ r.start) :
    ∃ lines, Disassembly.lines symbols words r.start r.count = .ok lines := by
  unfold Disassembly.lines Disassembly.linesAt
  rw [dif_neg (not_lt.2 start)]
  exact ⟨_, rfl⟩

theorem blunders_finish {words : List Int} {symbols : SymbolTable} {lines : List Disassembly.Line}
    (shown : Disassembly.lines symbols words r.start r.count = .ok lines) (here : s.files = files) :
    Blunders s (finish host r words symbols) ↔
      (∃ crash, host.meetAll (Disassembly.demands r.wordBits lines) = .error crash) ∨
      host.meetAll (Disassembly.demands r.wordBits lines) = .ok () ∧
        ∃ path fault, r.output = some path ∧
          files.write path.text (Disassembly.render r.wordBits lines ++ "\n").toUTF8.toList =
            .error fault ∧ fault ≠ .missing := by
  unfold finish
  rw [shown]
  refine blunders_ask.trans (or_congr_right (and_congr_right fun _ => ?_))
  cases asked : r.output with
  | none =>
    refine iff_of_false ?_ (by simp)
    exact ((Slips.calm (calm_say _)).blunders rfl).1
  | some path =>
    have writes : Writes host files _ _ :=
      (writes_writeText path (Disassembly.render r.wordBits lines ++ "\n") files).bind_calm
        (calm_whenVerbose (calm_tell s!"Wrote disassembly to {path.text}"))
    refine (writes.blunders_file here).trans ?_
    constructor
    · rintro ⟨fault, stuck, present⟩
      exact ⟨path, fault, rfl, stuck, present⟩
    · rintro ⟨_, fault, same, stuck, present⟩
      cases same
      exact ⟨fault, stuck, present⟩

theorem blunders_action (here : s.files = files)
    (there : ∀ path, r.symbols = some path → ∃ bytes, files.read path.text = .ok bytes)
    (start : 0 ≤ r.start) : Blunders s (action host r) ↔ Slip host s r := by
  subst here
  rw [action_eq, blunders_bind]
  have tabled {words : List Int} {t : Surroundings} (read : (prepare r).run s = .ok words t) :
      Blunders t (table host r) ↔ ∃ path, r.symbols = some path ∧
        (s.files.NoText path ∨ ∃ text, s.files.HasText path text ∧ Misread host text) :=
    (slips_table there).blunders (slips_prepare.keeps rfl read)
  have kept {words : List Int} {symbols : SymbolTable} {t u : Surroundings}
      (read : (prepare r).run s = .ok words t) (named : (table host r).run t = .ok symbols u) :
      u.files = s.files := (slips_table there).keeps (slips_prepare.keeps rfl read) named
  constructor
  · rintro (image | ⟨words, t, read, blunders⟩)
    · obtain ⟨form, noText⟩ := (slips_prepare.blunders rfl).1 image
      exact .image form noText
    rcases blunders_bind.1 blunders with named | ⟨symbols, u, named, finished⟩
    · obtain ⟨path, asked, noText | ⟨text, has, ⟨crash, broken⟩ | ⟨met, address, failed⟩⟩⟩ :=
        (tabled read).1 named
      · exact .symbols read asked noText
      · exact .numeral (.intro read asked has) broken
      · obtain ⟨before, line, after, order, fine, noNumber⟩ :=
          SymbolFile.readLines_eq_noNumber_iff.1 failed
        exact .address (.intro read asked has) met order fine noNumber
    · obtain ⟨lines, shown⟩ := lines_ok start
      have shows : Shows host s r lines := .intro read named shown
      rcases (blunders_finish shown (kept read named)).1 finished with
        ⟨crash, broken⟩ | ⟨met, path, fault, asked, stuck, present⟩
      · exact .shown shows broken
      · exact .output shows met asked stuck present
  · rintro (⟨form, noText⟩ | ⟨read, asked, noText⟩ | ⟨⟨read, asked, has⟩, broken⟩ |
      ⟨⟨read, asked, has⟩, met, order, fine, noNumber⟩ | ⟨⟨read, named, shown⟩, broken⟩ |
      ⟨⟨read, named, shown⟩, met, asked, stuck, present⟩)
    · exact .inl ((slips_prepare.blunders rfl).2 ⟨form, noText⟩)
    · refine .inr ⟨_, _, read, blunders_bind.2 (.inl ((tabled read).2 ?_))⟩
      exact ⟨_, asked, .inl noText⟩
    · refine .inr ⟨_, _, read, blunders_bind.2 (.inl ((tabled read).2 ?_))⟩
      exact ⟨_, asked, .inr ⟨_, has, .inl ⟨_, broken⟩⟩⟩
    · have failed : SymbolFile.read _ = .error (.noNumber _) :=
        SymbolFile.readLines_eq_noNumber_iff.2 ⟨_, _, _, order, fine, noNumber⟩
      refine .inr ⟨_, _, read, blunders_bind.2 (.inl ((tabled read).2 ?_))⟩
      exact ⟨_, asked, .inr ⟨_, has, .inr ⟨met, _, failed⟩⟩⟩
    · refine .inr ⟨_, _, read, blunders_bind.2 (.inr ⟨_, _, named, ?_⟩)⟩
      exact (blunders_finish shown (kept read named)).2 (.inl ⟨_, broken⟩)
    · refine .inr ⟨_, _, read, blunders_bind.2 (.inr ⟨_, _, named, ?_⟩)⟩
      exact (blunders_finish shown (kept read named)).2 (.inr ⟨met, _, _, asked, stuck, present⟩)

end Disassemble

end NineBit.Cli
