import NineBit.Cli.Action
import NineBit.Proofs.Asm.Outcome
import NineBit.Proofs.Cli.Paths
import NineBit.Proofs.Text.Utf8

/-!
# How the parts of a tool can fail

What a tool does is told by what it leaves among the files and by the failures it may end with
(`Action.Meets`). Remarks do neither (`Action.Calm`). A part that reads leaves the files as they
are, and `Action.Slips` tells exactly when it fails by its own fault: a text that is there must be
one (`slips_readText`), as must an image that is to be a text (`slips_readImage`), and the assembly
of a text fails so only where the host breaks it (`slips_source`), as it ends with an image or with
problems else. A part that writes stops at the first file that the host does not write or that
cannot be written (`Action.Writes`). For a whole tool, `Action.Blunders` is followed from one part
to the next.
-/

namespace NineBit.Cli

/-! ## Files -/

namespace Files

variable {files : Files} {path : Path} {text : String}

/-- There is a file whose bytes are those of no text. -/
def NoText (files : Files) (path : Path) : Prop :=
  ∃ bytes, files.read path.text = .ok bytes ∧ ∀ text : String, text.toUTF8.toList ≠ bytes

/-- There is a file with the bytes of a text, which is this one but for its line ends. -/
def HasText (files : Files) (path : Path) (text : String) : Prop :=
  ∃ whole : String, files.read path.text = .ok whole.toUTF8.toList ∧
    text = String.ofList (Text.unifyNewlines whole.toList)

theorem HasText.not_noText (has : files.HasText path text) : ¬files.NoText path := by
  obtain ⟨whole, read, -⟩ := has
  rintro ⟨bytes, same, none⟩
  rw [read] at same
  cases same
  exact none whole rfl

theorem HasText.unique {other : String} (has : files.HasText path text)
    (too : files.HasText path other) : text = other := by
  obtain ⟨whole, read, rfl⟩ := has
  obtain ⟨second, same, rfl⟩ := too
  have decoded : Text.decodeUtf8 second.toUTF8.toList = .ok whole := by
    rw [read] at same
    rw [← Except.ok.inj same, Text.decodeUtf8_toUTF8]
  rw [Text.decodeUtf8_toUTF8] at decoded
  cases decoded
  rfl

/-- There is a source text whose assembly the host breaks. -/
def Breaks (host : Host) (config : Config) (files : Files) (path : Path) : Prop :=
  ∃ text crash log, files.HasText path text ∧
    Asm.Assembly.onHost host config ⟨path.text, text⟩ = .error (crash, log)

end Files

/-- A file that is to be written, and what that asks of the host. -/
structure Writing where
  demands : List Demand
  path : Path
  bytes : List UInt8

namespace Files

variable {host : Host} {files : Files}

/-- Writes files one after the other, up to the first that the host does not write or that cannot be
    written. -/
def writeAll (host : Host) (files : Files) : List Writing → Except Failure Files
  | [] => .ok files
  | w :: rest =>
    match host.meetAll w.demands with
    | .error crash => .error (.crash crash)
    | .ok () =>
      match files.write w.path.text w.bytes with
      | .ok next => next.writeAll host rest
      | .error fault => .error (.file w.path.text fault)

theorem writeAll_file {path : Path} {bytes : List UInt8} :
    files.writeAll host [⟨[], path, bytes⟩] =
      match files.write path.text bytes with
      | .ok next => .ok next
      | .error fault => .error (.file path.text fault) := rfl

theorem writeAll_append (before after : List Writing) (files : Files) :
    files.writeAll host (before ++ after) =
      match files.writeAll host before with
      | .ok next => next.writeAll host after
      | .error failure => .error failure := by
  induction before generalizing files with
  | nil => rfl
  | cons w before ih =>
    rw [List.cons_append, writeAll, writeAll]
    cases host.meetAll w.demands with
    | error crash => rfl
    | ok _ =>
      cases files.write w.path.text w.bytes with
      | ok next => exact ih next
      | error fault => rfl

/-- Writing fails for the host or for a file. -/
theorem writeAll_error {entries : List Writing} {failure : Failure}
    (failed : files.writeAll host entries = .error failure) :
    (∃ crash, failure = .crash crash) ∨ ∃ path fault, failure = .file path fault := by
  induction entries generalizing files with
  | nil => cases failed
  | cons w rest ih =>
    unfold writeAll at failed
    split at failed
    · cases failed
      exact .inl ⟨_, rfl⟩
    · split at failed
      · exact ih failed
      · cases failed
        exact .inr ⟨_, _, rfl⟩

end Files

namespace Action

/-! ## Rules -/

section
variable {α β ε : Type} {files : Files} {x : Action α} {f : α → Action β}
  {mid fine : α → Files → Prop} {done : β → Files → Prop} {fails : Failure → Prop}

/-- Where it finds these files, an action ends with a value and files that belong together, or with
    one of some failures. -/
structure Meets (files : Files) (x : Action α) (fine : α → Files → Prop)
    (fails : Failure → Prop) : Prop where
  run : ∀ s : Surroundings, s.files = files →
    match x.run s with
    | .ok value t => fine value t.files
    | .error failure _ => fails failure

namespace Meets

theorem pure {value : α} (here : fine value files) : Meets files (pure value) fine fails := by
  constructor
  rintro s rfl
  exact here

theorem throw {failure : Failure} (here : fails failure) :
    Meets files (throw failure : Action α) fine fails := ⟨fun _ _ => here⟩

theorem bind (first : Meets files x mid fails)
    (next : ∀ value now, mid value now → Meets now (f value) done fails) :
    Meets files (x >>= f) done fails := by
  constructor
  intro s here
  have ran := first.run s here
  rw [EStateM.run_bind]
  cases result : x.run s with
  | error failure t =>
    rw [result] at ran
    exact ran
  | ok value t =>
    rw [result] at ran
    exact (next value t.files ran).run t rfl

theorem mono {other : α → Files → Prop} {others : Failure → Prop}
    (meets : Meets files x fine fails)
    (values : ∀ value now, fine value now → other value now)
    (failures : ∀ failure, fails failure → others failure) : Meets files x other others := by
  constructor
  intro s here
  have ran := meets.run s here
  cases result : x.run s with
  | error failure t =>
    rw [result] at ran
    exact failures failure ran
  | ok value t =>
    rw [result] at ran
    exact values value t.files ran

/-- Nothing is known of how an action ends. -/
theorem any : Meets files x (fun _ _ => True) fun _ => True := by
  constructor
  intro s _
  cases x.run s <;> exact trivial

/-- A sequence of steps keeps what each of them keeps. -/
theorem foldlM {γ : Type} {step : α → γ → Action α} {keeps : α → Prop}
    (each : ∀ value item now, keeps value →
      Meets now (step value item) (fun next _ => keeps next) fails) :
    ∀ {items : List γ} {start : α} {files : Files}, keeps start →
      Meets files (items.foldlM step start) (fun next _ => keeps next) fails
  | [], _, _, here => pure here
  | item :: rest, start, files, here => by
    rw [List.foldlM_cons]
    exact (each start item files here).bind fun value now kept => foldlM each kept

/-- Other failures than before are possible. -/
theorem failing {others : Failure → Prop} (meets : Meets files x fine fails)
    (failures : ∀ failure, fails failure → others failure) : Meets files x fine others :=
  meets.mono (fun _ _ same => same) failures

theorem orFail {cause : ε → Failure} {result : Except ε α}
    (values : ∀ value, result = .ok value → fine value files)
    (errors : ∀ error, result = .error error → fails (cause error)) :
    Meets files (orFail cause result) fine fails := by
  cases result with
  | ok value => exact pure (values value rfl)
  | error error => exact throw (errors error rfl)

/-- A result that is no failure leaves the files. -/
theorem bind_orFail {cause : ε → Failure} {result : Except ε α}
    (values : ∀ value, result = .ok value → Meets files (f value) done fails)
    (errors : ∀ error, result = .error error → fails (cause error)) :
    Meets files (Action.orFail cause result >>= f) done fails := by
  cases result with
  | ok value => exact values value rfl
  | error error => exact throw (errors error rfl)

/-- An action that leaves the files comes before another one. -/
theorem bind_same {fine : α → Prop}
    (first : Meets files x (fun value now => now = files ∧ fine value) fails)
    (next : ∀ value, fine value → Meets files (f value) done fails) :
    Meets files (x >>= f) done fails := by
  refine first.bind ?_
  rintro value now ⟨rfl, here⟩
  exact next value here

theorem bind_kept (first : Meets files x (fun _ now => now = files) fails)
    (next : ∀ value, Meets files (f value) done fails) : Meets files (x >>= f) done fails :=
  first.bind fun value _ same => same ▸ next value

/-- Looking at the surroundings shows the files. -/
theorem get {next : Surroundings → Action β}
    (later : ∀ s : Surroundings, s.files = files → Meets files (next s) done fails) :
    Meets files (get >>= next) done fails := ⟨fun s here => (later s here).run s here⟩

/-- Changing the surroundings. -/
theorem modify {change : Surroundings → Surroundings} {fine : Unit → Files → Prop}
    (later : ∀ s : Surroundings, s.files = files → fine () (change s).files) :
    Meets files (modify change) fine fails := ⟨later⟩

end Meets

/-- The action neither fails nor touches the files. -/
def Calm (x : Action Unit) : Prop :=
  ∀ (files : Files) (fails : Failure → Prop), Meets files x (fun _ now => now = files) fails

theorem Calm.then {x : Action Unit} {next : Unit → Action β} (calm : Calm x)
    (later : Meets files (next ()) done fails) : Meets files (x >>= next) done fails :=
  (calm files fails).bind_kept fun _ => later

theorem Calm.bind {x y : Action Unit} (calm : Calm x) (next : Calm y) :
    Calm (x >>= fun _ => y) := fun _ _ => calm.then (next _ _)

end

/-- An action that ends well, with a value that passes a check. -/
theorem exists_ok {α : Type} {x : Action α} {s : Surroundings} (check : α → Bool)
    (passed : (match x.run s with | .ok value _ => check value | .error .. => false) = true) :
    ∃ value t, x.run s = .ok value t ∧ check value = true := by
  cases result : x.run s with
  | ok value t =>
    rw [result] at passed
    exact ⟨value, t, rfl, passed⟩
  | error failure t =>
    rw [result] at passed
    cases passed

/-! ## Remarks -/

theorem calm_pure : Calm (pure ()) := fun _ _ => .pure rfl

theorem calm_say (line : String) : Calm (say line) := fun _ _ => .modify fun _ same => same

theorem calm_log (line : String) : Calm (log line) := fun _ _ => .modify fun _ same => same

theorem calm_tell (line : String) : Calm (tell line) := calm_log _

theorem calm_whenVerbose {x : Action Unit} (calm : Calm x) : Calm (whenVerbose x) := by
  intro files fails
  refine .get fun s _ => ?_
  split
  · exact calm files fails
  · exact calm_pure files fails

theorem calm_debug (channel : Channel) (text : String) : Calm (debug channel text) :=
  calm_whenVerbose (calm_log _)

theorem calm_warn (channel : Channel) (text : String) : Calm (warn channel text) := by
  intro files fails
  refine .get fun s _ => ?_
  split
  · exact calm_log _ files fails
  · exact calm_log _ files fails

theorem calm_remark (milestone : Milestone) : Calm (remark milestone) := by
  cases milestone <;> exact calm_debug _ _

theorem calm_forM {γ : Type} {act : γ → Action Unit} (calm : ∀ item, Calm (act item)) :
    ∀ items : List γ, Calm (items.forM act)
  | [] => calm_pure
  | item :: rest => (calm item).bind (calm_forM calm rest)

theorem calm_forM_array {γ : Type} {act : γ → Action Unit} (calm : ∀ item, Calm (act item))
    (items : Array γ) : Calm (items.forM act) := by
  have listed : items.forM act = items.toList.forM act := List.forM_toArray items.toList act
  rw [listed]
  exact calm_forM calm items.toList

/-! ## Faults of its own -/

section
variable {α β ε : Type} {files : Files} {x : Action α} {f : α → Action β} {slip : Prop}

/-- The action leaves the files, and it fails by its own fault if this is so, and only then. -/
def Slips (files : Files) (x : Action α) (slip : Prop) : Prop :=
  Meets files x (fun _ now => now = files ∧ ¬slip) fun failure => failure.blame = .tool ↔ slip

theorem blame_image (error : ImageError) : (Failure.image error).blame ≠ .tool := nofun

theorem blame_label (unknown : Machine.UnknownLabel) : (Failure.label unknown).blame ≠ .tool :=
  nofun

theorem blame_config (error : ConfigError) : (Failure.config error).blame ≠ .tool := nofun

theorem blame_file {path : String} {fault : FileFault} :
    (Failure.file path fault).blame = .tool ↔ fault ≠ .missing := by
  cases fault with
  | missing => exact iff_of_false nofun (not_not_intro rfl)
  | notDirectory | isDirectory => exact iff_of_true rfl nofun

namespace Slips

/-- An action that never fails by its own fault. -/
theorem never (meets : Meets files x (fun _ now => now = files)
    fun failure => failure.blame ≠ .tool) : Slips files x False :=
  meets.mono (fun _ _ same => ⟨same, id⟩) fun _ other => iff_false_intro other

theorem pure {value : α} : Slips files (pure value) False := never (.pure rfl)

theorem orFail {cause : ε → Failure} {result : Except ε α}
    (errors : ∀ error, (cause error).blame ≠ .tool) : Slips files (orFail cause result) False :=
  never (.orFail (fun _ _ => rfl) fun error _ => errors error)

theorem calm {x : Action Unit} (calm : Calm x) : Slips files x False := never (calm files _)

/-- After the part that may slip. -/
theorem bind (first : Slips files x slip) (next : ∀ value, Slips files (f value) False) :
    Slips files (x >>= f) slip := by
  refine Meets.bind first ?_
  rintro value now ⟨rfl, clean⟩
  exact (next value).mono (fun _ _ kept => ⟨kept.1, clean⟩) fun failure other => by
    rw [other, iff_false_intro clean]

/-- Before the part that may slip. -/
theorem after {x : Action Unit} {f : Unit → Action β} (calm : Calm x)
    (next : Slips files (f ()) slip) : Slips files (x >>= f) slip := calm.then next

theorem bind_orFail {cause : ε → Failure} {result : Except ε α} {p : α → Prop}
    (errors : ∀ error, (cause error).blame ≠ .tool)
    (next : ∀ value, result = .ok value → Slips files (f value) (p value)) :
    Slips files (Action.orFail cause result >>= f) (∃ value, result = .ok value ∧ p value) := by
  refine Meets.bind_orFail ?_ ?_
  · rintro value rfl
    refine (next value rfl).mono (fun _ _ kept => ⟨kept.1, ?_⟩) fun failure same => same.trans ?_
    · rintro ⟨other, same, slipped⟩
      cases same
      exact kept.2 slipped
    · refine ⟨fun slipped => ⟨value, rfl, slipped⟩, ?_⟩
      rintro ⟨other, same, slipped⟩
      cases same
      exact slipped
  · rintro error rfl
    refine iff_of_false (errors error) ?_
    rintro ⟨value, same, -⟩
    cases same

theorem congr {other : Prop} (slips : Slips files x slip) (same : slip ↔ other) :
    Slips files x other := propext same ▸ slips

/-- Demands that come before the part that may slip. -/
theorem ask {host : Host} {demands : List Demand} {f : Unit → Action β} {p : Prop}
    (next : Slips files (f ()) p) : Slips files (Action.ask host demands >>= f)
      ((∃ crash, host.meetAll demands = .error crash) ∨ host.meetAll demands = .ok () ∧ p) := by
  cases met : host.meetAll demands with
  | ok _ =>
    unfold Action.ask
    rw [met]
    exact next.congr (by simp)
  | error crash =>
    unfold Action.ask
    rw [met]
    exact Meets.throw (iff_of_true rfl (.inl ⟨crash, rfl⟩))

end Slips

end

/-! ## Reading -/

section
variable {files : Files} {path : Path}

/-- Bytes are read as the text that they are of. -/
theorem meets_textOf {bytes : List UInt8} (read : files.read path.text = .ok bytes) :
    Meets files (textOf bytes) (fun text now => now = files ∧ files.HasText path text)
      fun failure => failure.blame = .tool ∧ files.NoText path := by
  refine .bind_orFail (fun whole decoded => .pure ⟨rfl, whole, ?_, rfl⟩) fun error failed =>
    ⟨rfl, bytes, read, ?_⟩
  · rw [read, Text.decodeUtf8_eq_ok_iff.1 decoded]
  · rintro text rfl
    rw [Text.decodeUtf8_toUTF8] at failed
    cases failed

theorem meets_readText (there : ∃ bytes, files.read path.text = .ok bytes) :
    Meets files (readText path) (fun text now => now = files ∧ files.HasText path text)
      fun failure => failure.blame = .tool ∧ files.NoText path := by
  obtain ⟨bytes, read⟩ := there
  have here : Meets files (readBytes path) (fun value now => now = files ∧ value = bytes)
      fun failure => failure.blame = .tool ∧ files.NoText path := by
    refine .get fun s same => ?_
    rw [same, read]
    exact .pure ⟨rfl, rfl⟩
  refine here.bind_same ?_
  rintro value rfl
  exact meets_textOf read

theorem slips_textOf {bytes : List UInt8} (read : files.read path.text = .ok bytes) :
    Slips files (textOf bytes) (files.NoText path) :=
  (meets_textOf read).mono (fun _ _ kept => ⟨kept.1, kept.2.not_noText⟩)
    fun _ failed => iff_of_true failed.1 failed.2

/-- A file that is there is read, unless it is no text. -/
theorem slips_readText (there : ∃ bytes, files.read path.text = .ok bytes) :
    Slips files (readText path) (files.NoText path) :=
  (meets_readText there).mono (fun _ _ kept => ⟨kept.1, kept.2.not_noText⟩)
    fun _ failed => iff_of_true failed.1 failed.2

/-- A text is read as it is. -/
theorem run_readText {text : String} {s : Surroundings} (has : s.files.HasText path text) :
    (readText path).run s = .ok text s := by
  obtain ⟨whole, read, rfl⟩ := has
  have bytesRead : (readBytes path).run s = .ok whole.toUTF8.toList s := by
    unfold readBytes
    rw [EStateM.run_bind, EStateM.run_get]
    dsimp only
    rw [read]
    rfl
  unfold readText textOf
  rw [EStateM.run_bind, bytesRead]
  dsimp only
  rw [Text.decodeUtf8_toUTF8]
  rfl

/-- An image that is to be a text must be one. Else reading fails for want of an image only. -/
theorem slips_readImage (format : Option ImageFormat) :
    Slips files (readImage path format)
      (format.or (ImageFormat.ofPath? path) = some .hex ∧ files.NoText path) := by
  unfold readImage
  extract_lets unreadable readForm
  have forms (form : ImageFormat) :
      Slips files (readForm form) (form = .hex ∧ files.NoText path) := by
    refine .get fun s here => ?_
    rw [here]
    refine (Slips.bind_orFail (p := fun _ => form = .hex ∧ files.NoText path)
      (fun _ => blame_image _) fun bytes read => ?_).congr ?_
    · cases form with
      | bin => exact (Slips.orFail blame_image).congr (by simp)
      | hex => exact ((slips_textOf read).bind fun _ => .orFail blame_image).congr (by simp)
    · refine ⟨fun ⟨_, _, slip⟩ => slip, fun slip => ?_⟩
      obtain ⟨bytes, read, -⟩ := slip.2
      exact ⟨bytes, read, slip⟩
  cases format with
  | some form => exact (forms form).congr (by rw [Option.some_or, Option.some_inj])
  | none =>
    refine (Slips.bind_orFail blame_image fun form _ => forms form).congr ?_
    rw [Option.none_or]
    unfold ImageFormat.infer
    cases ImageFormat.ofPath? path with
    | none => simp
    | some form => simp

end

/-! ## Assembling -/

section
variable {files : Files} {path : Path} {host : Host} {config : Config}

/-- An assembly that has come to its end fails with a report. -/
theorem slips_assembled {a : Asm.Assembly} (ends : a.Ends) (name : String) :
    Slips files (assembled a name) False := by
  obtain ⟨fault, -⟩ := ends
  unfold assembled
  refine .after (calm_forM_array calm_remark _) ?_
  extract_lets finish
  have finished : Slips files (finish ()) False := by
    unfold finish
    rw [fault]
    split
    · exact .after (calm_debug _ _) .pure
    · contradiction
    · exact .never (.throw nofun)
  split
  · exact .after (calm_debug _ _) finished
  · exact finished

/-- An assembly on a host comes to its end, or the host breaks it. -/
theorem meets_assemble (source : Source) :
    Meets files (assemble host config source)
      (fun a now => now = files ∧ a.Ends ∧ Asm.Assembly.onHost host config source = .ok a)
      fun failure => failure.blame = .tool ∧
        ∃ crash log, Asm.Assembly.onHost host config source = .error (crash, log) := by
  have ends := Asm.Assembly.endsOn host config source
  unfold assemble
  cases outcome : Asm.Assembly.onHost host config source with
  | ok a =>
    rw [outcome] at ends
    cases ends
    exact .pure ⟨rfl, Asm.Assembly.ends config source, rfl⟩
  | error broken =>
    obtain ⟨crash, log⟩ := broken
    exact (calm_forM_array calm_remark _).then (.throw ⟨rfl, crash, log, rfl⟩)

/-- A source text is read and assembled, unless it is no text or the host breaks its assembly. -/
theorem slips_source {β : Type} {f : Asm.Assembly → Action β}
    (there : ∃ bytes, files.read path.text = .ok bytes)
    (next : ∀ a : Asm.Assembly, a.Ends → Slips files (f a) False) :
    Slips files (readText path >>= fun text => assemble host config ⟨path.text, text⟩ >>= f)
      (files.NoText path ∨ files.Breaks host config path) := by
  refine Meets.bind_same ((meets_readText there).failing fun _ failed =>
    iff_of_true failed.1 (.inl failed.2)) fun text has => ?_
  have slip : (files.NoText path ∨ files.Breaks host config path) ↔
      ∃ crash log, Asm.Assembly.onHost host config ⟨path.text, text⟩ = .error (crash, log) := by
    constructor
    · rintro (noText | ⟨other, crash, log, too, broken⟩)
      · exact absurd noText has.not_noText
      · exact ⟨crash, log, has.unique too ▸ broken⟩
    · rintro ⟨crash, log, broken⟩
      exact .inr ⟨text, crash, log, has, broken⟩
  rw [slip]
  refine (Meets.bind_same ((meets_assemble ⟨path.text, text⟩).failing fun _ failed =>
    iff_of_true failed.1 failed.2) ?_)
  rintro a ⟨ends, assembled⟩
  have whole : ¬∃ crash log,
      Asm.Assembly.onHost host config ⟨path.text, text⟩ = .error (crash, log) := by
    rintro ⟨crash, log, broken⟩
    rw [assembled] at broken
    cases broken
  exact (next a ends).congr (iff_of_false id whole)

end

/-! ## Writing -/

section
variable {host : Host} {files : Files} {x : Action Unit} {entries rest : List Writing}

/-- The action writes some files, and fails where one of them is not written. -/
def Writes (host : Host) (files : Files) (x : Action Unit) (entries : List Writing) : Prop :=
  Meets files x (fun _ now => files.writeAll host entries = .ok now) fun failure =>
    files.writeAll host entries = .error failure

theorem writes_calm {x : Action Unit} (calm : Calm x) (files : Files) : Writes host files x [] :=
  (calm files fun _ => False).mono (fun _ _ same => same ▸ rfl) fun _ none => none.elim

theorem Writes.bind {f : Unit → Action Unit} (first : Writes host files x entries)
    (next : ∀ now, Writes host now (f ()) rest) :
    Writes host files (x >>= f) (entries ++ rest) := by
  unfold Writes
  rw [Files.writeAll_append]
  refine Meets.bind (first.failing ?_) ?_
  · intro failure stuck
    rw [stuck]
  · intro _ now wrote
    rw [wrote]
    exact next now

theorem Writes.after {x : Action Unit} {f : Unit → Action Unit} (calm : Calm x)
    (next : Writes host files (f ()) entries) : Writes host files (x >>= f) entries :=
  calm.then next

theorem Writes.bind_calm {y : Action Unit} (first : Writes host files x entries) (calm : Calm y) :
    Writes host files (x >>= fun _ => y) entries :=
  entries.append_nil ▸ first.bind fun now => writes_calm calm now

theorem writes_writeBytes (path : Path) (bytes : List UInt8) (files : Files) :
    Writes host files (writeBytes path bytes) [⟨[], path, bytes⟩] := by
  unfold Writes
  rw [Files.writeAll_file]
  refine .get fun s here => ?_
  rw [here]
  refine .bind_orFail (fun next wrote => .modify fun _ _ => ?_) fun fault failed => ?_
  · rw [wrote]
  · rw [failed]

theorem writes_writeText (path : Path) (text : String) (files : Files) :
    Writes host files (writeText path text) [⟨[], path, text.toUTF8.toList⟩] :=
  writes_writeBytes path _ files

/-- Demands that come before a file is written. -/
theorem Writes.ask {f : Unit → Action Unit} {demands : List Demand} {path : Path}
    {bytes : List UInt8} (next : Writes host files (f ()) (⟨[], path, bytes⟩ :: rest)) :
    Writes host files (ask host demands >>= f) (⟨demands, path, bytes⟩ :: rest) := by
  have written : files.writeAll host (⟨demands, path, bytes⟩ :: rest) =
      match host.meetAll demands with
      | .error crash => .error (.crash crash)
      | .ok () => files.writeAll host (⟨[], path, bytes⟩ :: rest) := rfl
  unfold Writes
  rw [written]
  refine .bind_orFail (fun _ met => ?_) fun crash broken => ?_
  · rw [met]
    exact next
  · rw [broken]

end

/-! ## Blunders -/

section
variable {α β ε : Type} {s : Surroundings} {x : Action α} {f : α → Action β}

/-- The action fails by its own fault. -/
def Blunders (s : Surroundings) (x : Action α) : Prop :=
  ∃ failure t, x.run s = .error failure t ∧ failure.blame = .tool

theorem blunders_bind : Blunders s (x >>= f) ↔
    Blunders s x ∨ ∃ value t, x.run s = .ok value t ∧ Blunders t (f value) := by
  unfold Blunders
  rw [EStateM.run_bind]
  cases x.run s with
  | ok value t => simp
  | error failure t => simp

theorem blunders_orFail {cause : ε → Failure} {result : Except ε α}
    (errors : ∀ error, (cause error).blame ≠ .tool) :
    Blunders s (orFail cause result >>= f) ↔
      ∃ value, result = .ok value ∧ Blunders s (f value) := by
  cases result with
  | ok value =>
    refine ⟨fun blunders => ⟨value, rfl, blunders⟩, ?_⟩
    rintro ⟨other, same, blunders⟩
    cases same
    exact blunders
  | error error =>
    constructor
    · rintro ⟨failure, t, failed, blame⟩
      cases failed
      exact absurd blame (errors error)
    · rintro ⟨value, same, -⟩
      cases same

/-- What the host does not do is a fault of the action. -/
theorem blunders_onHost {result : Except Crash α} :
    Blunders s (orFail .crash result >>= f) ↔
      (∃ crash, result = .error crash) ∨ ∃ value, result = .ok value ∧ Blunders s (f value) := by
  cases result with
  | ok value =>
    constructor
    · exact fun blunders => .inr ⟨value, rfl, blunders⟩
    · rintro (⟨crash, same⟩ | ⟨other, same, blunders⟩)
      · cases same
      · cases same
        exact blunders
  | error crash => exact iff_of_true ⟨.crash crash, s, rfl, rfl⟩ (.inl ⟨crash, rfl⟩)

theorem blunders_ask {host : Host} {demands : List Demand} {f : Unit → Action β} :
    Blunders s (ask host demands >>= f) ↔ (∃ crash, host.meetAll demands = .error crash) ∨
      host.meetAll demands = .ok () ∧ Blunders s (f ()) := by
  refine blunders_onHost.trans (or_congr_right ?_)
  constructor
  · rintro ⟨⟨⟩, met, blunders⟩
    exact ⟨met, blunders⟩
  · rintro ⟨met, blunders⟩
    exact ⟨(), met, blunders⟩

theorem blunders_configure {host : Host} {settings : Settings} {f : Config → Action β} :
    Blunders s (configure host settings >>= f) ↔
      (∃ crash, settings.validateOn host = .error crash) ∨
        ∃ config, settings.validateOn host = .ok (.ok config) ∧ Blunders s (f config) := by
  unfold configure
  rw [bind_assoc, blunders_onHost]
  refine or_congr_right ?_
  constructor
  · rintro ⟨result, checked, blunders⟩
    obtain ⟨config, rfl, blunders⟩ := (blunders_orFail blame_config).1 blunders
    exact ⟨config, checked, blunders⟩
  · rintro ⟨config, checked, blunders⟩
    exact ⟨_, checked, (blunders_orFail blame_config).2 ⟨config, rfl, blunders⟩⟩

/-- A sequence of steps fails by its own fault if a step does that it comes to. -/
theorem blunders_foldlM {γ : Type} {step : α → γ → Action α} {items : List γ} {start : α} :
    Blunders s (items.foldlM step start) ↔
      ∃ before item after value t, items = before ++ item :: after ∧
        (before.foldlM step start).run s = .ok value t ∧ Blunders t (step value item) := by
  induction items generalizing start s with
  | nil =>
    constructor
    · rintro ⟨failure, t, failed, -⟩
      cases failed
    · rintro ⟨before, item, after, value, t, none, -⟩
      simp at none
  | cons first rest ih =>
    rw [List.foldlM_cons, blunders_bind]
    constructor
    · rintro (now | ⟨value, t, ran, later⟩)
      · exact ⟨[], first, rest, start, s, rfl, rfl, now⟩
      · obtain ⟨before, item, after, next, u, rfl, steps, blunders⟩ := ih.1 later
        refine ⟨first :: before, item, after, next, u, rfl, ?_, blunders⟩
        rw [List.foldlM_cons, EStateM.run_bind, ran]
        exact steps
    · rintro ⟨before, item, after, next, u, order, steps, blunders⟩
      cases before with
      | nil =>
        cases order
        cases steps
        exact .inl blunders
      | cons other before =>
        cases order
        rw [List.foldlM_cons, EStateM.run_bind] at steps
        cases ran : (step start first).run s with
        | error failure t =>
          rw [ran] at steps
          cases steps
        | ok value t =>
          rw [ran] at steps
          exact .inr ⟨value, t, rfl, ih.2 ⟨before, item, after, next, u, rfl, steps, blunders⟩⟩

theorem Slips.blunders {files : Files} {slip : Prop} (slips : Slips files x slip)
    (here : s.files = files) : Blunders s x ↔ slip := by
  have ran := slips.run s here
  unfold Blunders
  cases result : x.run s with
  | ok value t =>
    rw [result] at ran
    refine iff_of_false ?_ ran.2
    rintro ⟨failure, u, same, -⟩
    cases same
  | error failure t =>
    rw [result] at ran
    refine Iff.trans ⟨?_, fun blame => ⟨failure, t, rfl, blame⟩⟩ ran
    rintro ⟨other, u, same, blame⟩
    cases same
    exact blame

theorem Slips.keeps {files : Files} {slip : Prop} (slips : Slips files x slip)
    (here : s.files = files) {value : α} {t : Surroundings} (ran : x.run s = .ok value t) :
    t.files = files := by
  have kept := slips.run s here
  rw [ran] at kept
  exact kept.1

theorem Writes.blunders {host : Host} {files : Files} {x : Action Unit} {entries : List Writing}
    (writes : Writes host files x entries) (here : s.files = files) : Blunders s x ↔
      (∃ crash, files.writeAll host entries = .error (.crash crash)) ∨
        ∃ path fault, files.writeAll host entries = .error (.file path fault) ∧
          fault ≠ .missing := by
  have ran := writes.run s here
  unfold Blunders
  cases result : x.run s with
  | ok value t =>
    rw [result] at ran
    rw [ran]
    exact iff_of_false nofun (by simp)
  | error failure t =>
    rw [result] at ran
    rw [ran]
    constructor
    · rintro ⟨other, u, same, blame⟩
      cases same
      rcases Files.writeAll_error ran with ⟨crash, rfl⟩ | ⟨path, fault, rfl⟩
      · exact .inl ⟨crash, rfl⟩
      · exact .inr ⟨path, fault, rfl, blame_file.1 blame⟩
    · rintro (⟨crash, same⟩ | ⟨path, fault, same, present⟩)
      · cases same
        exact ⟨_, t, rfl, rfl⟩
      · cases same
        exact ⟨_, t, rfl, blame_file.2 present⟩

/-- An action that writes one file, and asks the host for nothing. -/
theorem Writes.blunders_file {host : Host} {files : Files} {x : Action Unit} {path : Path}
    {bytes : List UInt8} (writes : Writes host files x [⟨[], path, bytes⟩])
    (here : s.files = files) : Blunders s x ↔
      ∃ fault, files.write path.text bytes = .error fault ∧ fault ≠ .missing := by
  rw [writes.blunders here, Files.writeAll_file]
  cases files.write path.text bytes with
  | ok next => simp
  | error fault => simp

end

end Action

end NineBit.Cli
