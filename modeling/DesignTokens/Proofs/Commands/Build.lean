import DesignTokens.Commands
import DesignTokens.Host.Memory
import DesignTokens.Proofs.Host.FileStore
import DesignTokens.Proofs.Tokens.Faults

set_option autoImplicit false

/-! # Builds

A build generates and writes the files of its platforms one after the other, so when a later
platform runs there are files already. That it cannot fail there has two reasons: a platform
generates the same from the same tokens, and what has been written once can be written again
and changes nothing (`WriteEnds.again`, `leaves_runPlatforms`).

`BuildEnds` lists the ways in which a build ends, with the files it leaves, and
`leaves_build` says that there are no others. `build_changes_only_its_output` reads off what
users rely on.

All of this is about a `FileStore`, which holds directories and regular files. What a disk does
with links, devices and other special files is outside of it.
-/

namespace DesignTokens

/-! ## Commands in memory -/

/-- On some files, whatever the log holds, a command in memory ends with a result and leaves
some files. -/
def Leaves {ε α : Type} (command : ExceptT ε (StateM MemoryState) α) (files : FileStore)
    (result : Except ε α) (files' : FileStore) : Prop :=
  ∀ events, ∃ events', command.run.run ⟨files, events⟩ = (result, ⟨files', events'⟩)

section

variable {ε ε' α β : Type} {files files' files'' : FileStore} {stdin : Except String String}
  {x : ExceptT ε (StateM MemoryState) α} {f : α → ExceptT ε (StateM MemoryState) β}

theorem Leaves.bind {a : α} {result : Except ε β} (hx : Leaves x files (.ok a) files')
    (hf : Leaves (f a) files' result files'') : Leaves (x >>= f) files result files'' := by
  intro events
  obtain ⟨events', hx⟩ := hx events
  obtain ⟨events'', hf⟩ := hf events'
  refine ⟨events'', ?_⟩
  rw [ExceptT.run_bind, StateT.run_bind, hx]
  exact hf

theorem Leaves.bind_error {error : ε} (hx : Leaves x files (.error error) files') :
    Leaves (x >>= f) files (.error error) files' := by
  intro events
  obtain ⟨events', hx⟩ := hx events
  refine ⟨events', ?_⟩
  rw [ExceptT.run_bind, StateT.run_bind, hx]
  rfl

theorem leaves_pure (a : α) (files : FileStore) :
    Leaves (pure a : ExceptT ε (StateM MemoryState) α) files (.ok a) files :=
  fun events => ⟨events, rfl⟩

theorem leaves_ofExcept (result : Except ε α) (files : FileStore) :
    Leaves (MonadExcept.ofExcept result) files result files := by
  intro events
  cases result <;> exact ⟨events, rfl⟩

theorem leaves_log (event : Event) (files : FileStore) :
    Leaves (liftM ((Host.memory stdin).log event) : ExceptT ε (StateM MemoryState) Unit)
      files (.ok ()) files :=
  fun events => ⟨events ++ [event], rfl⟩

/-- Going on with a result touches no file. -/
theorem leaves_perform (stdin : Except String String) (wrap : ε → ε') (traced : Traced ε α)
    (files : FileStore) :
    Leaves ((Host.memory stdin).perform wrap traced) files (traced.result.mapError wrap) files := by
  obtain ⟨events, result⟩ := traced
  unfold Host.perform
  induction events with
  | nil => exact leaves_ofExcept _ files
  | cons event events ih =>
      simp only [List.forIn_cons, bind_assoc, pure_bind] at ih ⊢
      exact (leaves_log event files).bind ih

/-- An operation that fails ends the command with an error on its path. -/
theorem leaves_onFile {path : String} {effect : StateM MemoryState (Except String α)}
    {result : Except String α}
    (h : ∀ events, ∃ events', effect.run ⟨files, events⟩ = (result, ⟨files', events'⟩)) :
    Leaves (onFile path effect) files (result.mapError (.file path)) files' := by
  have heffect : Leaves (liftM effect : ExceptT CommandError (StateM MemoryState) _) files
      (.ok result) files' := by
    intro events
    obtain ⟨events', heffect⟩ := h events
    refine ⟨events', ?_⟩
    show ((Except.ok (effect.run ⟨files, events⟩).1, (effect.run ⟨files, events⟩).2) :
      Except CommandError (Except String α) × MemoryState) = _
    rw [heffect]
  exact heffect.bind (leaves_ofExcept _ files')

end

/-! ## Writing a generated file -/

/-- How writing a file into a directory ends; the directory is created where it is missing. -/
inductive WriteEnds (directory : String) (output : OutputFile) (files : FileStore) :
    Except CommandError (List String) → FileStore → Prop
  | noDirectory {files' : FileStore} {error : FileError}
      (hcreate : files.createDirectories directory = (files', .error error)) :
      WriteEnds directory output files (.error (.file directory error.message)) files'
  | notWritten {files' : FileStore} {error : FileError}
      (hcreate : files.createDirectories directory = (files', .ok ()))
      (hwrite : files'.write (pathInDirectory directory output.name) output.content =
        .error error) :
      WriteEnds directory output files
        (.error (.file (pathInDirectory directory output.name) error.message)) files'
  | written {files' files'' : FileStore}
      (hcreate : files.createDirectories directory = (files', .ok ()))
      (hwrite : files'.write (pathInDirectory directory output.name) output.content = .ok files'') :
      WriteEnds directory output files (.ok [pathInDirectory directory output.name]) files''

section

variable {stdin : Except String String} {directory : String} {output : OutputFile}
  {files files' files'' : FileStore}

theorem leaves_createDirectories {result : Except FileError Unit}
    (h : files.createDirectories directory = (files', result)) :
    Leaves (onFile directory ((Host.memory stdin).createDirectories directory)) files
      ((result.mapError FileError.message).mapError (.file directory)) files' := by
  refine leaves_onFile fun events => ⟨events, ?_⟩
  simp only [Host.memory, StateT.run_modifyGet, h]
  rfl

theorem leaves_writeFile {path content : String}
    (h : files.write path content = .ok files') :
    Leaves (onFile path ((Host.memory stdin).writeFile path content)) files (.ok ()) files' := by
  show Leaves _ _ ((Except.ok () : Except String Unit).mapError (CommandError.file path)) _
  refine leaves_onFile fun events => ⟨events, ?_⟩
  simp only [Host.memory, StateT.run_modifyGet, h]
  rfl

theorem leaves_writeFile_error {path content : String} {error : FileError}
    (h : files.write path content = .error error) :
    Leaves (onFile path ((Host.memory stdin).writeFile path content)) files
      (.error (.file path error.message)) files := by
  show Leaves _ _
    ((Except.error error.message : Except String Unit).mapError (CommandError.file path)) _
  refine leaves_onFile fun events => ⟨events, ?_⟩
  simp only [Host.memory, StateT.run_modifyGet, h]
  rfl

/-- Writing a file ends in one of these ways. -/
theorem exists_writeEnds (directory : String) (output : OutputFile) (files : FileStore) :
    ∃ result files', WriteEnds directory output files result files' := by
  obtain ⟨files', created, hcreate⟩ : ∃ files' created,
      files.createDirectories directory = (files', created) := ⟨_, _, rfl⟩
  cases created with
  | error error => exact ⟨_, _, .noDirectory hcreate⟩
  | ok =>
      cases hwrite : files'.write (pathInDirectory directory output.name) output.content with
      | error error => exact ⟨_, _, .notWritten hcreate hwrite⟩
      | ok files'' => exact ⟨_, _, .written hcreate hwrite⟩

theorem leaves_writeOutputs {result : Except CommandError (List String)}
    (h : WriteEnds directory output files result files') :
    Leaves (writeOutputs (Host.memory stdin) directory [output]) files result files' := by
  unfold writeOutputs
  rw [List.mapM_cons, List.mapM_nil]
  cases h with
  | noDirectory hcreate => exact (leaves_createDirectories hcreate).bind_error
  | notWritten hcreate hwrite =>
      refine (leaves_createDirectories hcreate).bind ?_
      exact Leaves.bind_error (leaves_writeFile_error hwrite).bind_error
  | written hcreate hwrite =>
      refine (leaves_createDirectories hcreate).bind ?_
      apply Leaves.bind
      · exact (leaves_writeFile hwrite).bind ((leaves_log _ _).bind (leaves_pure _ _))
      · exact (leaves_pure [] _).bind (leaves_pure _ _)

/-- What has been written can be written again, which changes nothing. -/
theorem WriteEnds.again {paths : List String}
    (h : WriteEnds directory output files (.ok paths) files') :
    WriteEnds directory output files' (.ok paths) files' := by
  cases h with
  | written hcreate hwrite =>
      have hkeeps := FileStore.keepsDirectories_of_write hwrite
      exact .written (FileStore.createDirectories_again hcreate hkeeps)
        (FileStore.write_again hwrite)

theorem WriteEnds.exists_file {error : CommandError}
    (h : WriteEnds directory output files (.error error) files') :
    ∃ path explanation, error = .file path explanation := by
  cases h with
  | noDirectory => exact ⟨_, _, rfl⟩
  | notWritten => exact ⟨_, _, rfl⟩

/-- Writing succeeds where the directory can be created and the file written. -/
theorem WriteEnds.exists_ok_iff {result : Except CommandError (List String)}
    (h : WriteEnds directory output files result files') :
    (∃ paths, result = .ok paths) ↔ ∃ created written,
      files.createDirectories directory = (created, .ok ()) ∧
        created.write (pathInDirectory directory output.name) output.content = .ok written := by
  cases h with
  | noDirectory hcreate => simp [hcreate]
  | notWritten hcreate hwrite => simp [hcreate, hwrite]
  | written hcreate hwrite => simp [hcreate, hwrite]

theorem WriteEnds.read {paths : List String}
    (h : WriteEnds directory output files (.ok paths) files') :
    files'.read (pathInDirectory directory output.name) = .ok output.content := by
  cases h with
  | written hcreate hwrite => exact FileStore.read_of_write hwrite

/-- Apart from the written file, only directories are new. -/
theorem WriteEnds.exists_sameApartFrom {paths : List String}
    (h : WriteEnds directory output files (.ok paths) files') :
    ∃ place, files'.filePlace (pathInDirectory directory output.name) = .ok place ∧
      FileStore.SameApartFrom [place] files files' := by
  cases h with
  | written hcreate hwrite =>
      obtain ⟨place, hplace, hsame⟩ := FileStore.exists_sameApartFrom_of_write hwrite
      have hcreated := FileStore.createDirectories_sameApartFrom files directory
      rw [hcreate] at hcreated
      exact ⟨place, hplace, hcreated.trans hsame⟩

end

/-! ## Running the platforms -/

/-- Runs a platform and writes its files. -/
def runPlatform (stdin : Except String String) (directory : String) (tokens : TokenSet)
    (platform : Platform) : ExceptT CommandError (StateM MemoryState) (List String) := do
  (Host.memory stdin).log (.runningPlatform platform.name)
  let outputs ← (Host.memory stdin).perform .evaluation (platform.run tokens)
  writeOutputs (Host.memory stdin) directory outputs

section

variable {stdin : Except String String} {directory : String} {output : OutputFile}
  {files files' : FileStore} {tokens : TokenSet} {platform : Platform}
  {platforms : List Platform}

theorem leaves_runPlatform_error {error : EvalError}
    (h : (platform.run tokens).result = .error error) (files : FileStore) :
    Leaves (runPlatform stdin directory tokens platform) files (.error (.evaluation error))
      files := by
  have hrun := leaves_perform stdin CommandError.evaluation (platform.run tokens) files
  rw [h] at hrun
  exact (leaves_log _ _).bind hrun.bind_error

theorem leaves_runPlatform {result : Except CommandError (List String)}
    (h : (platform.run tokens).result = .ok [output])
    (hwrite : WriteEnds directory output files result files') :
    Leaves (runPlatform stdin directory tokens platform) files result files' := by
  have hrun := leaves_perform stdin CommandError.evaluation (platform.run tokens) files
  rw [h] at hrun
  exact (leaves_log _ _).bind (hrun.bind (leaves_writeOutputs hwrite))

/-- Where the output of all platforms has been written, they succeed and change nothing. -/
theorem leaves_runPlatforms_again {paths : List String}
    (h : ∀ platform ∈ platforms, (platform.run tokens).result = .ok [output])
    (hwritten : WriteEnds directory output files (.ok paths) files) :
    Leaves (platforms.mapM (runPlatform stdin directory tokens)) files
      (.ok (platforms.map fun _ => paths)) files := by
  -- each platform leaves the files it found, which is what the next one needs
  induction platforms with
  | nil => exact leaves_pure [] files
  | cons platform platforms ih =>
      obtain ⟨hplatform, hrest⟩ := List.forall_mem_cons.mp h
      rw [List.mapM_cons, List.map_cons]
      exact (leaves_runPlatform hplatform hwritten).bind ((ih hrest).bind (leaves_pure _ _))

/-- Platforms with the same output succeed if the first does. -/
theorem leaves_runPlatforms {paths : List String} (stdin : Except String String)
    (hne : platforms ≠ [])
    (h : ∀ platform ∈ platforms, (platform.run tokens).result = .ok [output])
    (hwrite : WriteEnds directory output files (.ok paths) files') :
    Leaves (platforms.mapM (runPlatform stdin directory tokens)) files
      (.ok (platforms.map fun _ => paths)) files' := by
  cases platforms with
  | nil => exact absurd rfl hne
  | cons platform platforms =>
      obtain ⟨hplatform, hrest⟩ := List.forall_mem_cons.mp h
      rw [List.mapM_cons, List.map_cons]
      exact (leaves_runPlatform hplatform hwrite).bind
        ((leaves_runPlatforms_again hrest hwrite.again).bind (leaves_pure _ _))

/-- Platforms fail if the first does. -/
theorem leaves_runPlatforms_error {error : CommandError} (rest : List Platform)
    (h : Leaves (runPlatform stdin directory tokens platform) files (.error error) files') :
    Leaves ((platform :: rest).mapM (runPlatform stdin directory tokens)) files (.error error)
      files' := by
  rw [List.mapM_cons]
  exact h.bind_error

end

/-! ## Building -/

/-- The path of the file that a build writes. -/
def BuildOptions.outputPath (options : BuildOptions) : String :=
  pathInDirectory options.outputDirectory options.stylesheet.fileName

/-- The first requested platform that does not exist. -/
def BuildOptions.firstUnknown? (options : BuildOptions) : Option String :=
  options.platforms.find? fun name => name ≠ "css"

/-- How a build ends, from the files there are to the files it leaves. -/
inductive BuildEnds (options : BuildOptions) (files : FileStore) :
    Except CommandError (List String) → FileStore → Prop
  | unknownPlatform {name : String}
      (hname : options.firstUnknown? = some name) :
      BuildEnds options files (.error (.unknownPlatform name)) files
  | unloaded {error : TokenError} (hknown : options.firstUnknown? = none)
      (hload : (TokenSet.loadText options.input .standard).result = .error error) :
      BuildEnds options files (.error (.tokens error)) files
  | nothing {tokens : TokenSet} (hplatforms : options.platforms = [])
      (hload : (TokenSet.loadText options.input .standard).result = .ok tokens) :
      BuildEnds options files (.ok []) files
  | unresolved {tokens : TokenSet} {error : EvalError}
      (hknown : options.firstUnknown? = none) (hplatforms : options.platforms ≠ [])
      (hload : (TokenSet.loadText options.input .standard).result = .ok tokens)
      (hrun : ((Platform.css options.stylesheet).run tokens).result = .error error) :
      BuildEnds options files (.error (.evaluation error)) files
  | notWritten {tokens : TokenSet} {content : String} {error : CommandError} {files' : FileStore}
      (hknown : options.firstUnknown? = none) (hplatforms : options.platforms ≠ [])
      (hload : (TokenSet.loadText options.input .standard).result = .ok tokens)
      (hrun : ((Platform.css options.stylesheet).run tokens).result =
        .ok [⟨options.stylesheet.fileName, content⟩])
      (hwrite : WriteEnds options.outputDirectory ⟨options.stylesheet.fileName, content⟩ files
        (.error error) files') :
      BuildEnds options files (.error error) files'
  | written {tokens : TokenSet} {content : String} {paths : List String} {files' : FileStore}
      (hknown : options.firstUnknown? = none) (hplatforms : options.platforms ≠ [])
      (hload : (TokenSet.loadText options.input .standard).result = .ok tokens)
      (hrun : ((Platform.css options.stylesheet).run tokens).result =
        .ok [⟨options.stylesheet.fileName, content⟩])
      (hwrite : WriteEnds options.outputDirectory ⟨options.stylesheet.fileName, content⟩ files
        (.ok paths) files') :
      BuildEnds options files (.ok (options.platforms.map fun _ => options.outputPath)) files'

theorem selectPlatforms_eq_ok {options : BuildOptions} (h : options.firstUnknown? = none) :
    selectPlatforms options.stylesheet options.platforms =
      .ok (options.platforms.map fun _ => Platform.css options.stylesheet) := by
  have hknown : ∀ name ∈ options.platforms, name = "css" := by
    simpa [BuildOptions.firstUnknown?] using h
  refine except_mapM_eq_ok_iff.mpr (List.forall₂_map_right_iff.mpr (List.forall₂_same.mpr ?_))
  intro name hname
  rw [hknown name hname]
  rfl

theorem selectPlatforms_eq_error {options : BuildOptions} {name : String}
    (h : options.firstUnknown? = some name) :
    selectPlatforms options.stylesheet options.platforms = .error (.unknownPlatform name) := by
  obtain ⟨hname, before, after, hplatforms, hbefore⟩ := List.find?_eq_some_iff_append.mp h
  refine except_mapM_eq_error_iff.mpr ⟨before, name, after, hplatforms, fun known hknown => ?_, ?_⟩
  · have hcss : known = "css" := by simpa using hbefore known hknown
    exact ⟨Platform.css options.stylesheet, by rw [hcss]; rfl⟩
  · have hother : name ≠ "css" := by simpa using hname
    simp [Platform.named?, hother]

/-- A platform for style sheets generates one file, if it does not fail. -/
theorem Platform.exists_output_of_run_css {options : StylesheetOptions} {tokens : TokenSet}
    {outputs : List OutputFile} (h : ((css options).run tokens).result = .ok outputs) :
    ∃ content, outputs = [⟨options.fileName, content⟩] := by
  obtain ⟨sheet, -, hsheet⟩ := Traced.result_bind_eq_ok.mp h
  exact ⟨sheet.text, (Except.ok.inj hsheet).symm⟩

section

variable {stdin : Except String String} {options : BuildOptions} {files files' : FileStore}
  {result : Except CommandError (List String)}

/-- A build ends in one of these ways. -/
theorem exists_buildEnds (options : BuildOptions) (files : FileStore) :
    ∃ result files', BuildEnds options files result files' := by
  cases hknown : options.firstUnknown? with
  | some name => exact ⟨_, _, .unknownPlatform hknown⟩
  | none =>
      cases hload : (TokenSet.loadText options.input .standard).result with
      | error error => exact ⟨_, _, .unloaded hknown hload⟩
      | ok tokens =>
          by_cases hplatforms : options.platforms = []
          · exact ⟨_, _, .nothing hplatforms hload⟩
          · cases hrun : ((Platform.css options.stylesheet).run tokens).result with
            | error error => exact ⟨_, _, .unresolved hknown hplatforms hload hrun⟩
            | ok outputs =>
                obtain ⟨content, rfl⟩ := Platform.exists_output_of_run_css hrun
                obtain ⟨result, files', hwrite⟩ := exists_writeEnds options.outputDirectory
                  ⟨options.stylesheet.fileName, content⟩ files
                cases result with
                | error error => exact ⟨_, _, .notWritten hknown hplatforms hload hrun hwrite⟩
                | ok paths => exact ⟨_, _, .written hknown hplatforms hload hrun hwrite⟩

/-- After the platforms are known and the document is loaded, running them decides. -/
theorem leaves_build_of_load {tokens : TokenSet}
    (written : Except CommandError (List (List String)))
    (hknown : options.firstUnknown? = none)
    (hload : (TokenSet.loadText options.input .standard).result = .ok tokens)
    (hrun : Leaves ((options.platforms.map fun _ => Platform.css options.stylesheet).mapM
      (runPlatform stdin options.outputDirectory tokens)) files written files') :
    Leaves (build (Host.memory stdin) options) files (written.map List.flatten) files' := by
  have hperform := leaves_perform stdin CommandError.tokens
    (TokenSet.loadText options.input .standard) files
  rw [hload] at hperform
  unfold build
  rw [selectPlatforms_eq_ok hknown]
  refine (leaves_ofExcept _ files).bind (hperform.bind ?_)
  cases written with
  | error error => exact hrun.bind_error
  | ok paths => exact hrun.bind (leaves_pure _ _)

/-- A build ends in the ways that are listed, with the files they say. -/
theorem leaves_build (stdin : Except String String)
    (h : BuildEnds options files result files') :
    Leaves (build (Host.memory stdin) options) files result files' := by
  cases h with
  | unknownPlatform hname =>
      unfold build
      rw [selectPlatforms_eq_error hname]
      exact (leaves_ofExcept _ files).bind_error
  | unloaded hknown hload =>
      have hperform := leaves_perform stdin CommandError.tokens
        (TokenSet.loadText options.input .standard) files
      rw [hload] at hperform
      unfold build
      rw [selectPlatforms_eq_ok hknown]
      exact (leaves_ofExcept _ files).bind hperform.bind_error
  | nothing hplatforms hload =>
      have hknown : options.firstUnknown? = none := by simp [BuildOptions.firstUnknown?, hplatforms]
      refine leaves_build_of_load (.ok []) hknown hload ?_
      rw [hplatforms]
      exact leaves_pure [] files
  | @unresolved tokens error hknown hplatforms hload hrun =>
      refine leaves_build_of_load (.error (.evaluation error)) hknown hload ?_
      obtain ⟨name, names, hnames⟩ := List.exists_cons_of_ne_nil hplatforms
      rw [hnames]
      exact leaves_runPlatforms_error _ (leaves_runPlatform_error hrun files)
  | @notWritten tokens content error files' hknown hplatforms hload hrun hwrite =>
      refine leaves_build_of_load (.error error) hknown hload ?_
      obtain ⟨name, names, hnames⟩ := List.exists_cons_of_ne_nil hplatforms
      rw [hnames]
      exact leaves_runPlatforms_error _ (leaves_runPlatform hrun hwrite)
  | @written tokens content paths files' hknown hplatforms hload hrun hwrite =>
      have hall : ∀ platform ∈ options.platforms.map fun _ => Platform.css options.stylesheet,
          (platform.run tokens).result = .ok [⟨options.stylesheet.fileName, content⟩] := by
        intro platform hplatform
        obtain ⟨name, -, rfl⟩ := List.mem_map.mp hplatform
        exact hrun
      have hne : (options.platforms.map fun _ => Platform.css options.stylesheet) ≠ [] := by
        simpa using hplatforms
      have hbuild := leaves_build_of_load _ hknown hload
        (leaves_runPlatforms stdin hne hall hwrite)
      cases hwrite with
      | written hcreate hwrite =>
          have hpaths : (List.map (fun _ => [options.outputPath])
              (options.platforms.map fun _ => Platform.css options.stylesheet)).flatten =
              options.platforms.map fun _ => options.outputPath := by
            rw [List.map_map, ← List.flatMap_def]
            exact List.map_eq_flatMap.symm
          rw [← hpaths]
          exact hbuild

end

/-! ## What users rely on -/

namespace BuildEnds

variable {options : BuildOptions} {files files' : FileStore}
  {result : Except CommandError (List String)}

/-- A build that does not fail at a file leaves all files as they are. -/
theorem files_eq {error : CommandError} (h : BuildEnds options files (.error error) files')
    (hfile : ∀ path explanation, error ≠ .file path explanation) : files' = files := by
  cases h with
  | unknownPlatform => rfl
  | unloaded => rfl
  | unresolved => rfl
  | notWritten hknown hplatforms hload hrun hwrite =>
      obtain ⟨path, explanation, rfl⟩ := hwrite.exists_file
      exact absurd rfl (hfile path explanation)

theorem eq_unknownPlatform_iff (h : BuildEnds options files result files') {name : String} :
    result = .error (.unknownPlatform name) ↔ options.firstUnknown? = some name := by
  cases h with
  | unknownPlatform hname => simp [hname]
  | nothing hplatforms => simp [BuildOptions.firstUnknown?, hplatforms]
  | unloaded hknown | unresolved hknown | written hknown => simp [hknown]
  | notWritten hknown hplatforms hload hrun hwrite =>
      obtain ⟨path, explanation, rfl⟩ := hwrite.exists_file
      simp [hknown]

theorem exists_ok_iff (h : BuildEnds options files result files') :
    (∃ paths, result = .ok paths) ↔ options.firstUnknown? = none ∧
      ∃ tokens, (TokenSet.loadText options.input .standard).result = .ok tokens ∧
        (options.platforms ≠ [] → ∃ content created written,
          ((Platform.css options.stylesheet).run tokens).result =
            .ok [⟨options.stylesheet.fileName, content⟩] ∧
          files.createDirectories options.outputDirectory = (created, .ok ()) ∧
          created.write options.outputPath content = .ok written) := by
  cases h with
  | unknownPlatform hname => simp [hname]
  | unloaded hknown hload => simp [hload]
  | nothing hplatforms hload => simp [hplatforms, hload, BuildOptions.firstUnknown?]
  | unresolved hknown hplatforms hload hrun => simp [hload, hplatforms, hrun]
  | notWritten hknown hplatforms hload hrun hwrite =>
      -- the content is determined by the input, so writing it cannot have succeeded as well
      refine iff_of_false (by simp) ?_
      rintro ⟨-, tokens', hload', hwritten⟩
      obtain ⟨content', created, written, hrun', hcreate, hwrite'⟩ := hwritten hplatforms
      obtain rfl := Except.ok.inj (hload.symm.trans hload')
      rw [hrun, Except.ok.injEq, List.cons.injEq, OutputFile.mk.injEq] at hrun'
      obtain ⟨⟨-, rfl⟩, -⟩ := hrun'
      obtain ⟨paths, hpaths⟩ := hwrite.exists_ok_iff.mpr ⟨created, written, hcreate, hwrite'⟩
      cases hpaths
  | written hknown hplatforms hload hrun hwrite =>
      obtain ⟨created, written, hcreate, hwrite⟩ := hwrite.exists_ok_iff.mp ⟨_, rfl⟩
      exact iff_of_true ⟨_, rfl⟩ ⟨hknown, _, hload, fun _ => ⟨_, _, _, hrun, hcreate, hwrite⟩⟩

/-- A build that succeeds returns its path for each platform, and has written the file. -/
theorem output {paths : List String} (h : BuildEnds options files (.ok paths) files') :
    paths = options.platforms.map (fun _ => options.outputPath) ∧
      ∃ tokens, (TokenSet.loadText options.input .standard).result = .ok tokens ∧
        (options.platforms = [] → files' = files) ∧
        (options.platforms ≠ [] → ∃ content place,
          ((Platform.css options.stylesheet).run tokens).result =
            .ok [⟨options.stylesheet.fileName, content⟩] ∧
          files'.read options.outputPath = .ok content ∧
          files'.filePlace options.outputPath = .ok place ∧
          FileStore.SameApartFrom [place] files files') := by
  cases h with
  | nothing hplatforms hload =>
      refine ⟨by rw [hplatforms, List.map_nil], _, hload, fun _ => rfl, fun hne => ?_⟩
      exact absurd hplatforms hne
  | written hknown hplatforms hload hrun hwrite =>
      obtain ⟨place, hplace, hsame⟩ := hwrite.exists_sameApartFrom
      exact ⟨rfl, _, hload, fun hnone => absurd hnone hplatforms,
        fun _ => ⟨_, place, hrun, hwrite.read, hplace, hsame⟩⟩

end BuildEnds

/-- **A build touches nothing but its output.** Take a build in memory, of any platforms, with
any input and on any files. If it fails, but not at a file or directory, all files are as
before. It fails at the first unknown platform, if there is one, whatever the input is. It
succeeds exactly if all platforms are known, the input loads and, unless no platform was
requested, the style sheet can be generated, the output directory created, and the file written.
Then it returns the path of the file once for each platform. If there is one, the file holds
the style sheet of the loaded input; else all files are as before. What stands at other
places stands there still, and what is new there are directories. -/
theorem build_changes_only_its_output {stdin : Except String String} {options : BuildOptions}
    {state state' : MemoryState} {result : Except CommandError (List String)}
    (hbuild : (build (Host.memory stdin) options).run.run state = (result, state')) :
    (∀ error, result = .error error → (∀ path explanation, error ≠ .file path explanation) →
      state'.files = state.files) ∧
    (∀ name, result = .error (.unknownPlatform name) ↔ options.firstUnknown? = some name) ∧
    ((∃ paths, result = .ok paths) ↔ options.firstUnknown? = none ∧
      ∃ tokens, (TokenSet.loadText options.input .standard).result = .ok tokens ∧
        (options.platforms ≠ [] → ∃ content created written,
          ((Platform.css options.stylesheet).run tokens).result =
            .ok [⟨options.stylesheet.fileName, content⟩] ∧
          state.files.createDirectories options.outputDirectory = (created, .ok ()) ∧
          created.write options.outputPath content = .ok written)) ∧
    (∀ paths, result = .ok paths →
      paths = options.platforms.map (fun _ => options.outputPath) ∧
      ∃ tokens, (TokenSet.loadText options.input .standard).result = .ok tokens ∧
        (options.platforms = [] → state'.files = state.files) ∧
        (options.platforms ≠ [] → ∃ content place,
          ((Platform.css options.stylesheet).run tokens).result =
            .ok [⟨options.stylesheet.fileName, content⟩] ∧
          state'.files.read options.outputPath = .ok content ∧
          state'.files.filePlace options.outputPath = .ok place ∧
          FileStore.SameApartFrom [place] state.files state'.files)) := by
  -- the build has one outcome, so it is the one of the ways to end that applies here
  obtain ⟨result', files', hends⟩ := exists_buildEnds options state.files
  obtain ⟨events', hleaves⟩ := leaves_build stdin hends state.events
  have hsame := hbuild.symm.trans hleaves
  rw [Prod.mk.injEq] at hsame
  obtain ⟨rfl, rfl⟩ := hsame
  refine ⟨?_, fun name => hends.eq_unknownPlatform_iff, hends.exists_ok_iff, ?_⟩
  · rintro error rfl hfile
    exact hends.files_eq hfile
  · rintro paths rfl
    exact hends.output

/-- Two platforms, and a directory to create. -/
def spacingBuild : BuildOptions where
  input := "\x7b\"spacing\":\x7b\"type\":\"dimension\",\"value\":\"2 * 4px\"\x7d\x7d"
  platforms := ["css", "css"]
  outputDirectory := "out/css"

/-- The files before the build. -/
def spacingFiles : FileStore where
  nodes := [(["site"], .directory), (["site", "out"], .directory),
    (["site", "tokens.json"], .file "old")]
  workingDirectory := ["site"]

/-- The tree of the input. -/
def spacingBuildTree : TokenTree := .token "spacing" ⟨.scalar "2 * 4px", "dimension"⟩ .nil

/-- The tokens of the input; there are no references. -/
def spacingBuildTokens : TokenSet where
  tree := spacingBuildTree
  expressions := (spacingBuildTree.values "").map PlacedValue.expression
  table := .empty
  formatters := .standard

theorem loadText_spacingBuild :
    (TokenSet.loadText spacingBuild.input .standard).result = .ok spacingBuildTokens := by
  have htree : (TokenTree.ofText spacingBuild.input).result = .ok spacingBuildTree := by
    decide +kernel
  refine Traced.result_bind_eq_ok.mpr ⟨_, Traced.result_mapError_eq_ok.mpr htree, ?_⟩
  exact TokenSet.result_load_of_references_eq_nil (by decide +kernel) (by decide +kernel) .standard

theorem build_changes_only_its_output_spacing :
    ∃ result state', (build (Host.memory (.ok "")) spacingBuild).run.run ⟨spacingFiles, []⟩ =
        (result, state') ∧
      result = .ok ["out/css/design-tokens.css", "out/css/design-tokens.css"] ∧
      state'.files.read "out/css/design-tokens.css" =
        .ok ":root \x7b\n    --spacing: 8px;\n\x7d\n" ∧
      ∃ place, state'.files.filePlace "out/css/design-tokens.css" = .ok place ∧
        FileStore.SameApartFrom [place] spacingFiles state'.files := by
  obtain ⟨⟨result, state'⟩, hbuild⟩ : ∃ outcome,
      (build (Host.memory (.ok "")) spacingBuild).run.run ⟨spacingFiles, []⟩ = outcome :=
    ⟨_, rfl⟩
  have hrun : ((Platform.css spacingBuild.stylesheet).run spacingBuildTokens).result =
      .ok [⟨"design-tokens.css", ":root \x7b\n    --spacing: 8px;\n\x7d\n"⟩] := by
    decide +kernel
  obtain ⟨-, -, hsuccess, houtput⟩ := build_changes_only_its_output hbuild
  obtain ⟨paths, rfl⟩ := hsuccess.mpr ⟨by decide, spacingBuildTokens, loadText_spacingBuild,
    fun _ => ⟨_, _, _, hrun, by rfl, by rfl⟩⟩
  obtain ⟨rfl, tokens, hload, -, hwritten⟩ := houtput _ rfl
  obtain ⟨content, place, hcontent, hread, hplace, hsame⟩ := hwritten (by decide)
  obtain rfl := Except.ok.inj (loadText_spacingBuild.symm.trans hload)
  rw [hcontent, Except.ok.injEq, List.cons.injEq, OutputFile.mk.injEq] at hrun
  obtain ⟨⟨-, rfl⟩, -⟩ := hrun
  exact ⟨_, state', hbuild, rfl, hread, place, hplace, hsame⟩

end DesignTokens
