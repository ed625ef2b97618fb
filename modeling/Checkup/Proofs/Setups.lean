import Checkup.Proofs.Cycles
import Checkup.Proofs.Discovered
import Checkup.Proofs.Precedence
import Checkup.Proofs.Rendering
import Checkup.Proofs.SourcePlans
import Checkup.Proofs.Writing

/-!
# Setting up a workspace

A workspace that is set up can be used at once:

* `FileTree.hasPath_entry`, `FileTree.write?_entry` — the entries of a directory by its path,
  which may end in a slash.
* `Config.problems_of_known` — a valid configuration stays valid with other sources, if their
  contexts are known.
* `Discovery.sourceNames_store` — the configuration file is no source.
* `Setup.Usable` — what a workspace comes to that is set up.
* `Setup.write_is_usable` — a setup that is not refused leaves the workspace so.
-/

namespace Checkup

/-! ## Directories by any path -/

namespace Path

/-- A path of the same directory that does not end in a slash. -/
def unslashed (dir : String) : String :=
  if dir.toList.getLast? = some '/' then dir ++ "." else dir

theorem getLast?_unslashed (dir : String) : (unslashed dir).toList.getLast? ≠ some '/' := by
  rw [unslashed]
  split
  · simp
  · assumption

theorem ne_empty_of_slash {dir : String} (h : dir.toList.getLast? = some '/') : dir ≠ "" := by
  rintro rfl
  cases h

/-- The names along a path that ends in a slash, with and without one more. -/
theorem exists_names_slash {dir : String} (h : dir.toList.getLast? = some '/') :
    ∃ front, names dir = front ++ ["."] ∧ names (dir ++ ".") = front ++ ["."] ∧
      ∀ name, IsName name → names (join dir name) = front ++ [name] := by
  obtain ⟨before, hbefore⟩ := List.getLast?_eq_some_iff.mp h
  refine ⟨((Text.pieces '/' before).filter (· ≠ [])).map String.ofList, ?_, ?_, ?_⟩
  · simp [names, hbefore, Text.pieces_append_cons, Text.pieces]
  · have hdot : (dir ++ ".").toList = before ++ '/' :: ['.'] := by simp [hbefore]
    simp [names, hdot, Text.pieces_append_cons, Text.pieces]
  · intro name hname
    have hjoin : (join dir name).toList = before ++ '/' :: name.toList := by
      simp [join, hname.isAbsolute_eq, ne_empty_of_slash h, hbefore]
    have hempty : name.toList ≠ [] := fun he => hname.ne_empty (String.toList_eq_nil_iff.mp he)
    simp [names, hjoin, Text.pieces_append_cons, Text.pieces_of_notMem hname.no_slash, hempty]

end Path

namespace FileTree

variable {root : FileTree} {dir name : String} {entries : List (String × FileTree)}

theorem locate_unslashed (root : FileTree) (dir : String) :
    root.locate (Path.unslashed dir) = root.locate dir := by
  rw [Path.unslashed]
  split
  · rename_i h
    obtain ⟨front, hnames, hnames', -⟩ := Path.exists_names_slash h
    have hne := Path.ne_empty_of_slash h
    obtain ⟨c, cs, hcs⟩ := List.exists_cons_of_ne_nil fun h => hne (String.toList_eq_nil_iff.mp h)
    have habsolute : Path.isAbsolute (dir ++ ".") = Path.isAbsolute dir := by
      simp [Path.isAbsolute, hcs]
    simp [locate, hne, habsolute, hnames, hnames']
  · rfl

theorem list?_unslashed (root : FileTree) (dir : String) :
    root.list? (Path.unslashed dir) = root.list? dir := by
  rw [list?, list?, get?, get?, locate_unslashed]

/-- A path into a directory leads to the same place whether or not that of the directory ends in
a slash. -/
theorem locate_join_unslashed (hlist : root.list? dir = some entries) (hname : Path.IsName name) :
    root.locate (Path.join (Path.unslashed dir) name) = root.locate (Path.join dir name) := by
  by_cases hlast : dir.toList.getLast? = some '/'
  · obtain ⟨front, hnames, hnames', hjoin⟩ := Path.exists_names_slash hlast
    obtain ⟨hne, hrel, left, place, hwalk, hat⟩ := list?_eq_some_iff.mp hlist
    obtain ⟨hne', hrel', -⟩ := list?_eq_some_iff.mp ((list?_unslashed root dir).trans hlist)
    have hpath := join_relative hne hrel hname
    have hpath' := join_relative hne' hrel' hname
    have hdotted := Path.names_join hne' (Path.getLast?_unslashed dir) hname
    rw [Path.unslashed, if_pos hlast, hnames'] at hdotted
    -- the names before the dot lead to a directory, where the dot stays
    have hfollow := hwalk.follow_append []
    rw [List.append_nil, hnames, follow, hat] at hfollow
    obtain ⟨left', there, hfront, hdot⟩ := exists_walk hfollow (.inl (List.cons_ne_nil _ _))
    obtain ⟨es, hthere⟩ := exists_at?_of_follow (List.cons_ne_nil _ _) hdot
    rw [Path.unslashed, if_pos hlast] at hpath' ⊢
    rw [locate_eq hpath'.1 hpath'.2, locate_eq hpath.1 hpath.2, hdotted, hjoin name hname,
      List.append_assoc, hfront.follow_append, hfront.follow_append, List.singleton_append, follow,
      hthere]
    rfl
  · rw [Path.unslashed, if_neg hlast]

/-- Whether there is an entry of a name in a directory, by its path. -/
theorem hasPath_entry (hlist : root.list? dir = some entries) (hname : Path.IsName name)
    (hlink : (OrderedMap.lookup? name entries).bind target? = none) :
    root.hasPath (Path.join dir name) = (OrderedMap.lookup? name entries).isSome := by
  rw [hasPath, get?, ← locate_join_unslashed hlist hname, ← get?, ← hasPath]
  exact hasPath_join ((list?_unslashed root dir).trans hlist) (Path.getLast?_unslashed dir) hname
    hlink

/-- A free name and a file of a directory can be written to, by its path. -/
theorem write?_entry (content : ByteArray) (hlist : root.list? dir = some entries)
    (hname : Path.IsName name)
    (hfile : ∀ node, OrderedMap.lookup? name entries = some node → node.isFile = true) :
    ∃ root', root.write? (Path.join dir name) content = some root' ∧
      root'.list? dir = some (OrderedMap.store name (.file content) entries) := by
  obtain ⟨root', hwrite, hlist'⟩ := write?_join content ((list?_unslashed root dir).trans hlist)
    (Path.getLast?_unslashed dir) hname hfile
  refine ⟨root', ?_, (list?_unslashed root' dir).symm.trans hlist'⟩
  rw [← hwrite, write?, write?, locate_join_unslashed hlist hname]

end FileTree

/-! ## Other sources -/

namespace Config

/-- A configuration stays without problems if it is given sources whose contexts are known. -/
theorem problems_of_known {c c' : Config} (hcontexts : c'.contexts = c.contexts)
    (hcommands : c'.commands = c.commands) (hnone : c.problems = [])
    (hknown : ∀ e ∈ c'.sources.entries, ∀ identifier ∈ e.2.contexts, c.Knows identifier) :
    c'.problems = [] := by
  obtain ⟨general, contexts, commands, sources, logging⟩ := c
  obtain ⟨general', contexts', commands', sources', logging'⟩ := c'
  obtain rfl : contexts' = contexts := hcontexts
  obtain rfl : commands' = commands := hcommands
  obtain ⟨haliases, hparents, hcommands, -⟩ := problems_eq_nil_iff.mp hnone
  refine problems_eq_nil_iff.mpr ⟨haliases, ?_, hcommands, ?_⟩
  · -- problems with parents are those of the registry, which is the same
    rw [parentProblems_eq_nil_iff_ancestors] at hparents ⊢
    exact hparents
  · refine List.flatMap_eq_nil_iff.mpr fun e he => List.filterMap_eq_nil_iff.mpr fun id hid => ?_
    exact if_pos (knows_iff_owned.mp (hknown e he id hid))

/-- The built-in configuration is valid, and has the contexts that discovered sources ask for. -/
theorem exists_defaults_for_discovered : ∃ builtIn, defaults = .ok builtIn ∧
    builtIn.problems = [] ∧ builtIn.Knows "test" ∧ builtIn.Knows "fast" := by
  have hfine : ((ofTables builtInEntries).any fun tables =>
      { tables with general := {}, logging := {} : Config }.problems.isEmpty &&
        (tables.owners.contains "test" && tables.owners.contains "fast")) = true := by
    decide +kernel
  obtain ⟨tables, htables, hfine⟩ := (Option.any_eq_true _ _).mp hfine
  simp only [Bool.and_eq_true] at hfine
  obtain ⟨hnone, htest, hfast⟩ := hfine
  exact ⟨_, ofText_of_silent read_defaultDocument htables silent_builtInEntries _,
    List.isEmpty_iff.mp hnone, knows_iff_owned.mpr htest, knows_iff_owned.mpr hfast⟩

end Config

/-! ## The configuration file among the entries -/

namespace Discovery

variable {entries : List (String × FileTree)}

/-- The configuration file is no source. -/
theorem isSource_configFile {node : FileTree} (h : node.isFile = true) :
    isSource "statue.toml" node = false := by
  have hname : isPythonName "statue.toml" = false := by decide +kernel
  cases node with
  | file content => simp [isSource, FileTree.isDirectory, hname]
  | directory _ | link _ => cases h

/-- Writing it changes no source. -/
theorem sourceNames_store (content : ByteArray)
    (hfile : ∀ node, OrderedMap.lookup? "statue.toml" entries = some node → node.isFile = true) :
    sourceNames (OrderedMap.store "statue.toml" (.file content) entries) = sourceNames entries := by
  rw [sourceNames, OrderedMap.filter_store (isSource_configFile rfl) fun node hnode =>
    isSource_configFile (hfile node hnode), ← sourceNames]

/-- The contexts that sources are given. -/
theorem contexts_of_mem_sources {files : FileTree} {workspace : String} {found : Sources}
    (h : sources files workspace = some found) {e : String × SourceSettings}
    (he : e ∈ found.entries) : ∀ id ∈ e.2.contexts, id = "test" ∨ id = "fast" := by
  obtain ⟨root, -, hfound⟩ := Option.bind_eq_some_iff.mp h
  cases hfound
  obtain ⟨before, after, hlist, -⟩ :=
    OrderedMap.get?_ofList_eq_some_iff.mp (OrderedMap.get?_eq_some_iff.mpr he)
  obtain ⟨name, -, hname⟩ := List.mem_map.mp (hlist ▸ List.mem_append_right _ List.mem_cons_self)
  intro id hid
  rw [← congrArg (fun e : String × SourceSettings => e.2.contexts) hname, contextsFor_eq] at hid
  split_ifs at hid
  · exact .inl (List.mem_singleton.mp hid)
  · exact .inr (List.mem_singleton.mp hid)
  · cases hid

end Discovery

/-! ## Setups -/

namespace Setup

variable {files after : FileTree} {workspace : String} {entries : List (String × FileTree)}

/-- The configuration file is there if the directory has an entry of its name. -/
theorem hasPath_configPath (hlist : files.list? workspace = some entries)
    (hfile : ∀ node, OrderedMap.lookup? "statue.toml" entries = some node → node.isFile = true) :
    files.hasPath (configPath workspace) =
      (OrderedMap.lookup? "statue.toml" entries).isSome := by
  apply FileTree.hasPath_entry hlist CommandLine.isName_configFile
  cases hentry : OrderedMap.lookup? "statue.toml" entries with
  | none => rfl
  | some node =>
    cases node with
    | file _ | directory _ => rfl
    | link _ => cases hfile _ hentry

/-- What a setup comes to where the configuration file is a file or not there. -/
theorem write_eq (hlist : files.list? workspace = some entries)
    (hfile : ∀ node, OrderedMap.lookup? "statue.toml" entries = some node → node.isFile = true) :
    ∃ sources after, Discovery.sources files workspace = some sources ∧
      after.list? workspace =
        some (OrderedMap.store "statue.toml" (.file sources.render.toUTF8) entries) ∧
      after.read? (configPath workspace) = some sources.render.toUTF8 ∧
      ∀ overwrite, write files workspace overwrite =
        if (OrderedMap.lookup? "statue.toml" entries).isSome = true ∧ overwrite = false then
          .error (.config (.alreadyExists (configPath workspace)))
        else .ok (⟨configPath workspace, sources,
          (OrderedMap.lookup? "statue.toml" entries).isSome⟩, after) := by
  obtain ⟨sources, hsources⟩ :
      ∃ sources : Sources, Discovery.sources files workspace = some sources :=
    ⟨_, Discovery.sources_of_list? hlist⟩
  obtain ⟨after, hwrite, hafter⟩ := FileTree.write?_entry sources.render.toUTF8 hlist
    CommandLine.isName_configFile hfile
  rw [← configPath] at hwrite
  refine ⟨sources, after, hsources, hafter, FileTree.read?_of_write? hwrite, fun overwrite => ?_⟩
  rw [write]
  dsimp only
  rw [hasPath_configPath hlist hfile, hsources]
  dsimp only
  rw [hwrite]
  cases (OrderedMap.lookup? "statue.toml" entries).isSome <;> cases overwrite <;> rfl

/-- A setup that has written the file writes it again with the same sources. -/
theorem write_again {sources : Sources} (hlist : files.list? workspace = some entries)
    (hfile : ∀ node, OrderedMap.lookup? "statue.toml" entries = some node → node.isFile = true)
    (hsources : Discovery.sources files workspace = some sources)
    (hafter : after.list? workspace =
      some (OrderedMap.store "statue.toml" (.file sources.render.toUTF8) entries)) :
    ∃ again, write after workspace true = .ok (⟨configPath workspace, sources, true⟩, again) ∧
      again.read? (configPath workspace) = some sources.render.toUTF8 := by
  have hwritten := OrderedMap.lookup?_store "statue.toml" "statue.toml"
    (FileTree.file sources.render.toUTF8) entries
  rw [if_pos rfl] at hwritten
  obtain ⟨sources', again, hsources', -, hread, hwrite⟩ := write_eq hafter fun node hnode => by
    cases hwritten.symm.trans hnode
    rfl
  -- the file that was written is no source
  rw [Discovery.sources_of_list? hafter, Discovery.sourceNames_store _ hfile,
    ← Discovery.sources_of_list? hlist, hsources] at hsources'
  obtain rfl : sources = sources' := Option.some.inj hsources'
  refine ⟨again, ?_, hread⟩
  rw [hwrite, if_neg (by simp), hwritten]
  rfl

/-- **A workspace that is set up can be used.** Here `files` are those before and `after` those
after the setup. -/
structure Usable (files after : FileTree) (workspace : String) (setup : Setup) : Prop where
  /-- the sources are those that are discovered -/
  discovered : Discovery.sources files workspace = some setup.sources
  /-- they are loaded over the built-in configuration, without problems -/
  loaded : ∃ builtIn config planner, Config.defaults = .ok builtIn ∧
    Config.load after workspace none = .ok config ∧ config.sources = setup.sources ∧
    config.contexts = builtIn.contexts ∧ config.commands = builtIn.commands ∧
    config.problems = [] ∧ config.planner = .ok planner ∧
    -- and planned for one by one, if there are any
    (config.sources.plans planner [] [] {} = .ok none ↔ setup.sources.keys = []) ∧
    (setup.sources.keys ≠ [] → ∃ plans,
      config.sources.plans planner [] [] {} = .ok (some plans) ∧
        plans.map (·.source) = setup.sources.keys)
  /-- setting up again writes the same bytes -/
  again : ∃ setup' after' bytes, write after workspace true = .ok (setup', after') ∧
    setup'.sources = setup.sources ∧ after.read? (configPath workspace) = some bytes ∧
    after'.read? (configPath workspace) = some bytes

/-- What is loaded from the document of discovered sources can be planned with. -/
theorem usable_loaded {sources : Sources}
    (hsources : Discovery.sources files workspace = some sources)
    (hread : after.read? (configPath workspace) = some sources.render.toUTF8) :
    ∃ builtIn config planner, Config.defaults = .ok builtIn ∧
      Config.load after workspace none = .ok config ∧ config.sources = sources ∧
      config.contexts = builtIn.contexts ∧ config.commands = builtIn.commands ∧
      config.problems = [] ∧ config.planner = .ok planner ∧
      (config.sources.plans planner [] [] {} = .ok none ↔ sources.keys = []) ∧
      (sources.keys ≠ [] → ∃ plans, config.sources.plans planner [] [] {} = .ok (some plans) ∧
        plans.map (·.source) = sources.keys) := by
  obtain ⟨builtIn, hbuiltIn, hfine, htest, hfast⟩ := Config.exists_defaults_for_discovered
  obtain ⟨builtIn', config, hbuiltIn', hload, rfl, -, -, hcontexts, hcommands⟩ :=
    Config.load_render after workspace none sources hread
  obtain rfl : builtIn = builtIn' := Except.ok.inj (hbuiltIn.symm.trans hbuiltIn')
  have hnone : config.problems = [] := by
    refine Config.problems_of_known hcontexts hcommands hfine fun e he id hid => ?_
    rcases Discovery.contexts_of_mem_sources hsources he id hid with rfl | rfl
    · exact htest
    · exact hfast
  obtain ⟨-, hparents, -, hcontexts'⟩ := Config.problems_eq_nil_iff.mp hnone
  refine ⟨builtIn, config, config.uncheckedPlanner, hbuiltIn, hload, rfl, hcontexts, hcommands,
    hnone, Config.planner_of_no_problem hnone, ?_, fun hsome => ?_⟩
  · rw [Sources.plans_eq_none_iff, OrderedMap.keys, List.map_eq_nil_iff, and_iff_right rfl]
  · have hsome' : config.sources.isEmpty = false := by
      simpa [OrderedMap.isEmpty, OrderedMap.keys] using hsome
    obtain ⟨plans, hplans⟩ := Config.plans_of_knows hparents hcontexts' hsome'
      (List.forall_mem_nil _) {}
    refine ⟨plans, hplans, ?_⟩
    obtain ⟨-, hentries⟩ := Sources.plans_configured_eq_ok_iff.mp hplans
    have hsame : List.Forall₂ (· = ·) config.sources.keys (plans.map (·.source)) := by
      rw [OrderedMap.keys, List.forall₂_map_left_iff, List.forall₂_map_right_iff]
      exact hentries.imp fun _ _ h => (Planner.answer_eq_ok_iff.mp h).2.symm
    exact (List.forall₂_eq_eq_eq ▸ hsame).symm

/-- A setup is refused just where the configuration file is there and must not be replaced. -/
theorem write_eq_error_iff {entries : List (String × FileTree)}
    (hlist : files.list? workspace = some entries)
    (hfile : ∀ node, OrderedMap.lookup? "statue.toml" entries = some node → node.isFile = true)
    {overwrite : Bool} {e : Error} : write files workspace overwrite = .error e ↔
      (OrderedMap.lookup? "statue.toml" entries).isSome = true ∧ overwrite = false ∧
        e = .config (.alreadyExists (configPath workspace)) := by
  obtain ⟨sources, after, -, -, -, hwrite⟩ := write_eq hlist hfile
  rw [hwrite]
  split
  · rename_i h
    rw [Except.error.injEq, eq_comm]
    exact ⟨fun he => ⟨h.1, h.2, he⟩, fun he => he.2.2⟩
  · rename_i h
    exact ⟨nofun, fun he => absurd ⟨he.1, he.2.1⟩ h⟩

/-- A request that is refused leaves all files as they were. -/
theorem respond_of_refused {entries : List (String × FileTree)}
    (hlist : files.list? workspace = some entries)
    (hfile : ∀ node, OrderedMap.lookup? "statue.toml" entries = some node → node.isFile = true)
    {e : Error} (h : write files workspace false = .error e) {m : Type → Type} [Monad m]
    (tools : Tools m) (schedule : Schedule Run.Task) (now : Int) (config : Option String) :
    Program.respond tools schedule now ⟨workspace, config, files⟩ (.configInit false) =
      pure { outcome := .error (.config .noUserInput), files } := by
  have hpath := hasPath_configPath hlist hfile
  rw [((write_eq_error_iff hlist hfile).mp h).1] at hpath
  have hdirectory : files.hasDirectory workspace = true := by
    rw [FileTree.hasDirectory, FileTree.get?_of_list? hlist]
    rfl
  simp only [Program.respond, Program.checkWorkspace, hdirectory, if_true, Program.answer,
    Program.setUp, hpath]
  rfl

/-- **A setup leaves a workspace that can be used**, whatever the tree, if the configuration file
is a file or not there. It is refused just where that file is there and must not be replaced; a
request that is refused leaves all files as they were. The workspace is one of the tree, since only
there a directory is listed. -/
theorem write_is_usable {files : FileTree} {workspace : String}
    {entries : List (String × FileTree)} (hlist : files.list? workspace = some entries)
    (hfile : ∀ node, OrderedMap.lookup? "statue.toml" entries = some node → node.isFile = true) :
    (∀ overwrite setup after, write files workspace overwrite = .ok (setup, after) →
      Usable files after workspace setup ∧
        setup.overwritten = (OrderedMap.lookup? "statue.toml" entries).isSome) ∧
    (∀ overwrite e, write files workspace overwrite = .error e ↔
      (OrderedMap.lookup? "statue.toml" entries).isSome = true ∧ overwrite = false ∧
        e = .config (.alreadyExists (configPath workspace))) ∧
    ∀ {m : Type → Type} [Monad m] (tools : Tools m) (schedule : Schedule Run.Task) (now : Int)
      (config : Option String) (e : Error), write files workspace false = .error e →
        Program.respond tools schedule now ⟨workspace, config, files⟩ (.configInit false) =
          pure { outcome := .error (.config .noUserInput), files } := by
  obtain ⟨sources, after, hsources, hafter, hread, hwrite⟩ := write_eq hlist hfile
  refine ⟨fun overwrite setup after' hok => ?_, fun _ _ => write_eq_error_iff hlist hfile,
    fun tools schedule now config e h =>
      respond_of_refused hlist hfile h tools schedule now config⟩
  rw [hwrite] at hok
  split at hok
  · cases hok
  · cases hok
    obtain ⟨again, hagain, hread'⟩ := write_again hlist hfile hsources hafter
    exact ⟨⟨hsources, usable_loaded hsources hread, _, again, _, hagain, rfl, hread, hread'⟩, rfl⟩

/-- A workspace with names that have to be quoted, and an old configuration file. -/
def quotedNames : List (String × FileTree) := [
  ("a \"b\".py", .file .empty),
  ("tests", .directory [("c:\\d\t.py", .file .empty)]),
  ("statue.toml", .file "[sources.old]\n".toUTF8)]

/-- It is set up anew by force, by a path that ends in a slash, and not without. -/
theorem write_is_usable_quotedNames :
    FileTree.list? (.directory quotedNames) "./" = some quotedNames ∧
    (∀ node, OrderedMap.lookup? "statue.toml" quotedNames = some node → node.isFile = true) ∧
    (∃ setup after, write (.directory quotedNames) "./" true = .ok (setup, after) ∧
      Usable (.directory quotedNames) after "./" setup) ∧
    ∃ e, write (.directory quotedNames) "./" false = .error e := by
  have hlist : FileTree.list? (.directory quotedNames) "./" = some quotedNames := by
    have hnames : Path.names "./" = [".", "."] := by decide +kernel
    refine FileTree.list?_eq_some_iff.mpr ⟨by decide, by decide, FileTree.linkLimit, [], ?_, rfl⟩
    rw [hnames]
    exact .dot rfl (.dot rfl .done)
  have hfile : ∀ node, OrderedMap.lookup? "statue.toml" quotedNames = some node →
      node.isFile = true := by
    intro node hnode
    cases hnode
    rfl
  obtain ⟨husable, hrefused, -⟩ := write_is_usable hlist hfile
  refine ⟨hlist, hfile, ?_, _, (hrefused false _).mpr ⟨rfl, rfl, rfl⟩⟩
  cases hwrite : write (.directory quotedNames) "./" true with
  | error e => cases ((hrefused true e).mp hwrite).2.1
  | ok done => exact ⟨done.1, done.2, rfl, (husable true done.1 done.2 hwrite).1⟩

end Setup

end Checkup
