import Checkup.Proofs.Precedence
import Checkup.Proofs.Rendering
import Checkup.Proofs.Traversal
import Checkup.Proofs.Writing

/-!
# Repairing a workspace

By force, the configuration file of a workspace is written anew, whatever it holds. What is in the
way is logging, which is prepared by that file first:

* `CommandLine.Repaired` — the file holds the sources that are discovered.
* `CommandLine.repaired_by_force` — what answering the request comes to.
* `FileTree.at?_openFile` — opening a log file leaves the others as they are.
* `CommandLine.forced_setup` — what the program comes to, by what the file says of logging.
-/

namespace Checkup

namespace FileTree

variable {files : FileTree} {place : List String} {content : ByteArray}

/-- Opening a log file leaves the files that are there, even if it is refused. -/
theorem at?_openFile (path : String) (hfile : files.at? place = some (.file content)) :
    (Logging.openFile path files).2.at? place = some (.file content) := by
  rw [Logging.openFile]
  split
  · exact hfile
  · rename_i made hmade
    have hmade : made.at? place = some (.file content) := by
      cases hparent : Path.parent? path with
      | none =>
        rw [hparent] at hmade
        obtain rfl : files = made := Option.some.inj hmade
        exact hfile
      | some parent =>
        rw [hparent] at hmade
        exact at?_makeDirectories? hfile hmade
    split
    · exact hmade
    · rename_i opened hopened
      exact at?_touch? hmade hopened

theorem at?_singleton (entries : List (String × FileTree)) (name : String) :
    (directory entries).at? [name] = OrderedMap.lookup? name entries := by
  rw [at?_cons]
  cases OrderedMap.lookup? name entries <;> rfl

/-- The tree around a file at the top is a directory. -/
theorem exists_entries {name : String} (h : files.at? [name] = some (.file content)) :
    ∃ entries, files = .directory entries ∧
      OrderedMap.lookup? name entries = some (.file content) := by
  cases files with
  | directory entries => exact ⟨entries, rfl, (at?_singleton entries name).symm.trans h⟩
  | file _ | link _ => simp [at?, child?, FileTree.entries, OrderedMap.lookup?] at h

end FileTree

namespace Config

/-- A document without contexts can be laid over the built-in one, and its logging settings
count. -/
theorem exists_ofWorkspace {origin text : String} {c : Config} (htext : ofText origin text = .ok c)
    (hcontexts : c.contexts.entries = []) :
    ∃ merged, ofWorkspace origin text = .ok merged ∧ merged.logging = c.logging := by
  obtain ⟨builtIn, hbuiltIn, -⟩ := exists_defaults
  rw [ofWorkspace, htext, hbuiltIn]
  cases hover : c.general.overrideDefaults with
  | true => exact ⟨c, if_pos hover, rfl⟩
  | false =>
    have hmerge : builtIn.merge c = _ := if_neg (by simp [hover])
    rw [hcontexts] at hmerge
    exact ⟨_, hmerge, rfl⟩

end Config

namespace Logging

variable {environment : Environment} {settings : LoggingSettings}

/-- Whether the environment says nothing of logging. -/
def Unset (environment : Environment) : Prop :=
  ∀ name ∈ [filterVariable, formatVariable, destinationVariable], environment.get? name = none

instance (environment : Environment) : Decidable (Unset environment) :=
  inferInstanceAs (Decidable (∀ name ∈ _, _))

theorem exists_formatNamed_iff {name : String} :
    (∃ format, formatNamed name = .ok format) ↔ name ∈ ["text", "json"] := by
  unfold formatNamed
  split <;> simp_all

theorem exists_destinationNamed_iff {name : String} :
    (∃ destination, destinationNamed name = .ok destination) ↔
      name ∈ ["stdout", "stderr", "file"] := by
  unfold destinationNamed
  split <;> simp_all

/-- If the environment says nothing, the settings count. -/
theorem resolve_of_unset (hunset : Unset environment) :
    resolve environment settings = do
      let filter ← settingsFilter settings
      let format ← formatNamed settings.format
      let destination ← destinationNamed settings.output
      return ⟨filter, format, destination⟩ := by
  obtain ⟨hfilter, hformat, hdestination, -⟩ :
      environment.get? filterVariable = none ∧ environment.get? formatVariable = none ∧
        environment.get? destinationVariable = none ∧ True := by
    simpa [Unset] using hunset
  rw [resolve, chosenFilter, chosenFormat, chosenDestination, hfilter, hformat, hdestination]
  rfl

/-- Settings make sense if the level and the modules make a filter, and format and destination
are known. -/
theorem exists_resolve_iff (hunset : Unset environment) :
    (∃ logging, resolve environment settings = .ok logging) ↔
      (∃ filter, settingsFilter settings = .ok filter) ∧
        settings.format ∈ ["text", "json"] ∧ settings.output ∈ ["stdout", "stderr", "file"] := by
  rw [resolve_of_unset hunset, ← exists_formatNamed_iff, ← exists_destinationNamed_iff]
  constructor
  · rintro ⟨logging, h⟩
    obtain ⟨filter, hfilter, h⟩ := bind_eq_ok h
    obtain ⟨format, hformat, h⟩ := bind_eq_ok h
    obtain ⟨destination, hdestination, -⟩ := bind_eq_ok h
    exact ⟨⟨filter, hfilter⟩, ⟨format, hformat⟩, destination, hdestination⟩
  · rintro ⟨⟨filter, hfilter⟩, ⟨format, hformat⟩, destination, hdestination⟩
    refine ⟨⟨filter, format, destination⟩, ?_⟩
    rw [hfilter, hformat, hdestination]
    rfl

end Logging

namespace CommandLine

variable {environment : Environment} {now : Int} {entries : List (String × FileTree)}
  {content : ByteArray} {ending : Ending}

/-! ## The request -/

/-- Whether all went well and the configuration file of the current directory is the document of
the sources that are discovered in a tree. -/
structure Repaired (discovered : FileTree) (ending : Ending) : Prop where
  /-- the exit status says so -/
  success : ending.exitCode = 0
  /-- the file holds the sources, and nothing else -/
  written : ∃ sources, Discovery.sources discovered "." = some sources ∧
    ending.files.read? (Setup.configPath ".") = some sources.render.toUTF8

/-- A configuration file at the top is read by its path. -/
theorem read?_configPath (hfile : OrderedMap.lookup? "statue.toml" entries = some (.file content)) :
    FileTree.read? (.directory entries) (Setup.configPath ".") = some content := by
  have hlink : (OrderedMap.lookup? "statue.toml" entries).bind FileTree.target? = none := by
    rw [hfile]
    rfl
  rw [FileTree.read?, Setup.configPath,
    FileTree.get?_join (FileTree.list?_dot entries) (by decide) isName_configFile hlink, hfile]

/-- The configuration file is written, whatever it holds. -/
theorem exists_write (hfile : OrderedMap.lookup? "statue.toml" entries = some (.file content)) :
    ∃ sources written, Discovery.sources (.directory entries) "." = some sources ∧
      Setup.write (.directory entries) "." true =
        .ok (⟨Setup.configPath ".", sources, true⟩, written) ∧
      written.read? (Setup.configPath ".") = some sources.render.toUTF8 := by
  have htop := FileTree.list?_dot entries
  obtain ⟨sources, hsources⟩ : ∃ sources,
      Discovery.sources (.directory entries) "." = some sources := by
    rw [Discovery.sources, FileTree.get?_of_list? htop]
    exact ⟨_, rfl⟩
  obtain ⟨written, hwrite, -⟩ := FileTree.write?_join sources.render.toUTF8 htop (by decide)
    isName_configFile (by simp [hfile, FileTree.isFile])
  rw [← Setup.configPath] at hwrite
  refine ⟨sources, written, hsources, ?_, FileTree.read?_of_write? hwrite⟩
  rw [Setup.write, FileTree.hasPath_of_read? (read?_configPath hfile), hsources]
  simp only [hwrite]
  rfl

/-- Whatever a configuration file holds, it is replaced by force. -/
theorem repaired_by_force (now : Int)
    (hfile : OrderedMap.lookup? "statue.toml" entries = some (.file content)) :
    Repaired (.directory entries)
      (finish (respond {} (.configInit true) now (.directory entries))) := by
  obtain ⟨sources, written, hsources, hwrite, hread⟩ := exists_write hfile
  have hdirectory : Program.checkWorkspace (workspaceOf {} (.directory entries)) = .ok () := by
    rw [Program.checkWorkspace, if_pos]
    simp [workspaceOf, Globals.workspacePath, FileTree.hasDirectory,
      FileTree.get?_of_list? (FileTree.list?_dot entries), FileTree.isDirectory]
  have hsetup : Program.setUp (workspaceOf {} (.directory entries)) true =
      .ok (Report.setup ⟨Setup.configPath ".", sources, true⟩, written) := by
    rw [Program.setUp]
    simp only [workspaceOf, Globals.workspacePath, Option.getD_none,
      FileTree.hasPath_of_read? (read?_configPath hfile), hwrite]
    rfl
  have hrespond : respond {} (.configInit true) now (.directory entries) =
      { outcome := .ok ⟨Report.setup ⟨Setup.configPath ".", sources, true⟩, true⟩
        files := written } := by
    rw [respond, Program.respond, hdirectory]
    simp only [Program.answer, hsetup]
    rfl
  rw [hrespond]
  exact ⟨rfl, sources, hsources, hread⟩

/-! ## Logging first -/

/-- The command line of the request. -/
def forcedInit : List String := ["config", "init", "--force"]

theorem ofArguments_forcedInit :
    Invocation.ofArguments forcedInit = .ok ⟨{}, .configInit true⟩ := by
  decide +kernel

/-- A configuration that is not loaded leaves the default settings. -/
theorem loadedSettings_of_error {w : Workspace} {e : Error} (h : Program.loadConfig w = .error e) :
    loadedSettings w = {} := by
  rw [loadedSettings, h]

/-- The default settings make sense, and there is no log file. -/
theorem resolve_default (hunset : Logging.Unset environment) :
    Logging.resolve environment (loggingSettings {} {}) =
      .ok ⟨[{ level := .warn }], .text, .stderr⟩ := by
  rw [Logging.resolve_of_unset hunset]
  decide +kernel

/-- **By force the configuration is written anew**, if logging can be prepared, whatever the
configuration file holds, where the environment says nothing of logging.

* A file that is not loaded is replaced, and so is one that logs nothing.
* Otherwise its logging settings have to make sense. If they do not, the program ends without
  having done anything; they do if the level and the modules make a filter, and format and
  destination are known.
* If they ask for a log file, that file is made first, and the configuration file stays where this
  is refused. The records are no part of the files, so they may not go to the configuration file
  itself. -/
theorem forced_setup {environment : Environment} (now : Int)
    {entries : List (String × FileTree)} {content : ByteArray}
    (hfile : OrderedMap.lookup? "statue.toml" entries = some (.file content))
    (hunset : Logging.Unset environment) :
    let files := FileTree.directory entries
    let settings := loggingSettings {} (loadedSettings (workspaceOf {} files))
    let ending := run forcedInit environment now files
    (∀ e, Program.loadConfig (workspaceOf {} files) = .error e → Repaired files ending) ∧
    (settings.enabled = false → Repaired files ending) ∧
    (settings.enabled = true →
      (∀ e, Logging.resolve environment settings = .error e → ending = notStarted e files) ∧
      ((∃ logging, Logging.resolve environment settings = .ok logging) ↔
        (∃ filter, Logging.settingsFilter settings = .ok filter) ∧
          settings.format ∈ ["text", "json"] ∧ settings.output ∈ ["stdout", "stderr", "file"]) ∧
      ∀ logging, Logging.resolve environment settings = .ok logging →
        (logging.destination ≠ .file → Repaired files ending) ∧
        (logging.destination = .file → ∀ opened,
          (∀ e, Logging.openFile settings.file files = (.error e, opened) →
            ending = notStarted e opened ∧
              opened.read? (Setup.configPath ".") = some content) ∧
          (Logging.openFile settings.file files = (.ok (), opened) →
            (∀ node, opened.locate settings.file ≠ some (.present ["statue.toml"] node)) →
            Repaired opened ending))) := by
  intro files settings ending
  have hrun : ending =
      afterPreparing {} (.configInit true) now (Logging.prepare environment settings files) :=
    run_eq ofArguments_forcedInit
  have hrepaired : ∀ logging, settings.enabled = true →
      Logging.resolve environment settings = .ok logging → logging.destination ≠ .file →
      Repaired files ending := by
    intro logging henabled hresolve hstream
    rw [hrun, Logging.prepare_of_stream henabled hresolve hstream]
    exact repaired_by_force now hfile
  refine ⟨fun e hload => ?_, fun hdisabled => ?_, fun henabled =>
    ⟨fun e hresolve => ?_, Logging.exists_resolve_iff hunset, fun logging hresolve =>
      ⟨hrepaired logging henabled hresolve, fun hdestination opened => ?_⟩⟩⟩
  · have hsettings : settings = loggingSettings {} {} :=
      congrArg (loggingSettings {}) (loadedSettings_of_error hload)
    have hresolve := resolve_default hunset
    rw [← hsettings] at hresolve
    exact hrepaired _ (hsettings ▸ rfl) hresolve (by decide)
  · rw [hrun, Logging.prepare_of_disabled hdisabled]
    exact repaired_by_force now hfile
  · rw [hrun, Logging.prepare_of_error henabled hresolve, afterPreparing_error]
  · -- the configuration file is still there when the log file has been opened
    have hplace : files.at? ["statue.toml"] = some (.file content) :=
      (FileTree.at?_singleton entries "statue.toml").trans hfile
    have hstays := FileTree.at?_openFile settings.file hplace
    obtain ⟨entries', hentries', hfile'⟩ := FileTree.exists_entries hstays
    rw [Logging.prepare_of_file henabled hresolve hdestination] at hrun
    refine ⟨fun e hopen => ?_, fun hopen _ => ?_⟩
    · rw [hopen] at hrun hentries'
      obtain rfl : opened = .directory entries' := hentries'
      exact ⟨hrun, read?_configPath hfile'⟩
    · rw [hopen] at hrun hentries'
      obtain rfl : opened = .directory entries' := hentries'
      rw [hrun]
      exact repaired_by_force now hfile'

/-- A workspace whose configuration file is no text. -/
def notText : List (String × FileTree) :=
  [("a.py", .file .empty), ("statue.toml", .file ⟨#[0xff]⟩)]

theorem forced_setup_not_text :
    OrderedMap.lookup? "statue.toml" notText = some (.file ⟨#[0xff]⟩) ∧ Logging.Unset ∅ ∧
    Program.loadConfig (workspaceOf {} (.directory notText)) = .error .fileSystem ∧
    Repaired (.directory notText) (run forcedInit ∅ 0 (.directory notText)) := by
  have hfile : OrderedMap.lookup? "statue.toml" notText = some (.file ⟨#[0xff]⟩) := rfl
  have hunset : Logging.Unset ∅ := by decide
  have hload : Program.loadConfig (workspaceOf {} (.directory notText)) = .error .fileSystem := by
    have hread := read?_configPath hfile
    have htext : FileTree.readText? (.directory notText) (Setup.configPath ".") = none := by
      rw [FileTree.readText?, hread]
      decide +kernel
    have hpath := FileTree.hasPath_of_read? hread
    simp [Program.loadConfig, Config.load, Config.ofFile, workspaceOf, Globals.workspacePath, hpath,
      htext]
  exact ⟨hfile, hunset, hload, (forced_setup 0 hfile hunset).1 _ hload⟩

/-- The lines of a document with a format that there is not. -/
def wrongFormatLines : List Toml.Written :=
  [.header ["logging"], .pair "format" (.text "yaml"), .blank]

/-- That document. -/
def wrongFormat : String := "[logging]\nformat = \"yaml\"\n"

/-- A workspace whose configuration file is that document. -/
def wrongFormatFiles : List (String × FileTree) := [("statue.toml", .file wrongFormat.toUTF8)]

theorem read_wrongFormat :
    Toml.read wrongFormat = some [("logging", .table [("format", .string "yaml")])] := by
  have htext : wrongFormat.toList = Toml.Written.text wrongFormatLines := by
    decide +kernel
  have hsections : Toml.addSections [] (wrongFormatLines.filterMap Toml.Written.line?) =
      some [("logging", .table .opened [("format", .value (.string "yaml"))])] := rfl
  rw [Toml.read_text htext (by decide), ← wrongFormatLines, hsections]
  rfl

theorem loadedSettings_wrongFormat :
    loadedSettings (workspaceOf {} (.directory wrongFormatFiles)) = { format := "yaml" } := by
  have htext : Config.ofText (Setup.configPath ".") wrongFormat =
      .ok { logging := { format := "yaml" } } := by
    have htables : Config.ofTables [("logging", .table [("format", .string "yaml")])] =
        some { logging := { format := "yaml" } } := by
      decide +kernel
    have hsettings : Config.settingsOfDocument
        [("logging", .table [("format", .string "yaml")])] = some ({}, { format := "yaml" }) := by
      decide +kernel
    rw [Config.ofText, read_wrongFormat]
    simp only [htables, hsettings]
    rfl
  obtain ⟨merged, hmerged, hlogging⟩ := Config.exists_ofWorkspace htext rfl
  have hload : Program.loadConfig (workspaceOf {} (.directory wrongFormatFiles)) = .ok merged := by
    have hread : FileTree.read? (.directory wrongFormatFiles) (Setup.configPath ".") =
        some wrongFormat.toUTF8 := read?_configPath rfl
    have hfile := Config.ofFile_of_read? hread hmerged
    have hpath := FileTree.hasPath_of_read? hread
    simp [Program.loadConfig, Config.load, workspaceOf, Globals.workspacePath, hpath, hfile]
  rw [loadedSettings, hload]
  exact hlogging

/-- It is not replaced by force: the program ends before. -/
theorem wrong_format_is_not_repaired :
    OrderedMap.lookup? "statue.toml" wrongFormatFiles = some (.file wrongFormat.toUTF8) ∧
    Logging.Unset ∅ ∧
    run forcedInit ∅ 0 (.directory wrongFormatFiles) =
      notStarted (.logFormat "yaml") (.directory wrongFormatFiles) ∧
    ¬ Repaired (.directory wrongFormatFiles)
      (run forcedInit ∅ 0 (.directory wrongFormatFiles)) := by
  have hresolve : Logging.resolve ∅ (loggingSettings {} { format := "yaml" }) =
      .error (.logFormat "yaml") := by
    decide +kernel
  have hrun : run forcedInit ∅ 0 (.directory wrongFormatFiles) =
      notStarted (.logFormat "yaml") (.directory wrongFormatFiles) := by
    rw [run_eq ofArguments_forcedInit, loadedSettings_wrongFormat,
      Logging.prepare_of_error rfl hresolve, afterPreparing_error]
  refine ⟨rfl, by decide, hrun, fun hrepaired => ?_⟩
  rw [hrun] at hrepaired
  cases hrepaired.success

end CommandLine

end Checkup
