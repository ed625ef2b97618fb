import Checkup.Config.Load
import Checkup.Proofs.BuiltIn
import Checkup.Proofs.Maps
import Checkup.Proofs.Traversal

/-!
# Sources are read back

The document that is written for some sources is read as exactly these sources: the same
paths in the same order, each with its three lists, whatever characters they have.

* `Sources.toList_render` — the lines of the document.
* `Sources.addSections_saidAll` — its headers grow one table, which has the sources in order.
* `Sources.read_render`, `Sources.ofTables_documentOf` — what is read from that table.
* `Config.load_render` — the configuration of a workspace whose file is that document.
-/

namespace Checkup

open Toml (Entries Line Node Simple Table Value Written)

namespace Sources

/-! ## Lines -/

/-- The lists of a source, as they are called in a document. -/
def fields (s : SourceSettings) : List (String × Simple) :=
  [("contexts", .texts s.contexts), ("allow_list", .texts s.allow), ("deny_list", .texts s.deny)]

/-- One source in plain lines. -/
def lines (path : String) (s : SourceSettings) : List Written :=
  .header ["sources", path] :: (fields s).map (fun f => .pair f.1 f.2) ++ [.blank]

theorem toList_renderSource (path : String) (s : SourceSettings) :
    (renderSource path s).toList = Written.text (lines path s) := by
  have hsources : Toml.writeKey "sources" = "sources" := by decide +kernel
  have hcontexts : Toml.writeKey "contexts" = "contexts" := by decide +kernel
  have hallow : Toml.writeKey "allow_list" = "allow_list" := by decide +kernel
  have hdeny : Toml.writeKey "deny_list" = "deny_list" := by decide +kernel
  unfold renderSource
  simp only [lines, fields, List.map_cons, List.map_nil, List.cons_append, List.nil_append,
    String.toList_append, Written.text_cons_cons, Written.text_singleton,
    Written.chars, Toml.dotted_cons_cons, Toml.dotted_singleton, Simple.write, hsources, hcontexts,
    hallow, hdeny]
  simp

/-- The lines of the document. Without sources there is only a header. -/
def documentLines (sources : Sources) : List Written :=
  if sources.isEmpty then [.header ["sources"], .blank]
  else sources.entries.flatMap fun e => lines e.1 e.2

theorem toList_render (sources : Sources) :
    (render sources).toList = Written.text (documentLines sources) := by
  unfold render documentLines
  split
  · decide +kernel
  · have hne : ∀ e : String × SourceSettings, lines e.1 e.2 ≠ [] := fun _ => List.cons_ne_nil _ _
    have hlines : (String.toList ∘ fun e : String × SourceSettings => renderSource e.1 e.2) =
        fun e => Written.text (lines e.1 e.2) := funext fun e => toList_renderSource e.1 e.2
    rw [String.toList_intercalate, Written.text_flatMap hne, List.map_map]
    exact congrArg _ (congrArg (sources.entries.map ·) hlines)

/-- The document starts with a header. -/
theorem exists_documentLines (sources : Sources) :
    ∃ path more, documentLines sources = .header path :: more := by
  obtain ⟨entries, hnodup⟩ := sources
  cases entries with
  | nil => exact ⟨_, _, rfl⟩
  | cons e more => exact ⟨_, _, rfl⟩

theorem fits_documentLines (sources : Sources) : ∀ line ∈ documentLines sources, line.Fits := by
  intro line hline
  rw [documentLines] at hline
  split at hline
  · have hfits : ∀ line ∈ [Written.header ["sources"], .blank], line.Fits := by decide
    exact hfits line hline
  · obtain ⟨e, -, hline⟩ := List.mem_flatMap.mp hline
    rcases List.mem_cons.mp hline with rfl | hline
    · exact ⟨List.cons_ne_nil _ _, by simp [Toml.depthLimit]⟩
    · -- only headers have to fit
      have hother : ∀ path, line ≠ .header path := by
        rintro path rfl
        simp [fields] at hline
      cases line with
      | header path => exact absurd rfl (hother path)
      | blank | pair _ _ => trivial

/-! ## Tables -/

/-- What a source is read as. -/
def valueOf (s : SourceSettings) : Value :=
  .table ((fields s).map fun f => (f.1, f.2.value))

/-- What the document of some sources is read as. -/
def documentOf (sources : Sources) : Entries :=
  [("sources", .table (sources.entries.map fun e => (e.1, valueOf e.2)))]

/-- The pairs below the header of a source. -/
def pairsOf (s : SourceSettings) : List (List String × Value) :=
  (fields s).map fun f => ([f.1], f.2.value)

/-- The table that the header of a source opens. -/
def nodeOf (s : SourceSettings) : Node :=
  .table .opened ((fields s).map fun f => (f.1, .value f.2.value))

/-- What the lines of a source say. -/
def said (path : String) (s : SourceSettings) : List Line :=
  .header .table ["sources", path] :: (fields s).map fun f => .pair [f.1] f.2.value

theorem filterMap_lines (path : String) (s : SourceSettings) :
    (lines path s).filterMap Written.line? = said path s := rfl

/-- What the lines of some sources say. -/
def saidAll (sources : List (String × SourceSettings)) : List Line :=
  sources.flatMap fun e => said e.1 e.2

/-- A source ends where the next one starts. -/
theorem leadingPairs_saidAll (sources : List (String × SourceSettings)) :
    Toml.leadingPairs (saidAll sources) = [] := by
  cases sources <;> rfl

/-- The header of a source with the pairs below it. -/
theorem addSections_said (t : Table) (path : String) (s : SourceSettings)
    (more : List (String × SourceSettings)) :
    Toml.addSections t (said path s ++ saidAll more) =
      (Table.addSection .table (pairsOf s) t ["sources", path]).bind fun t =>
        Toml.addSections t (saidAll more) := by
  simp [said, pairsOf, fields, Toml.addSections, Toml.leadingPairs, leadingPairs_saidAll]

/-- A new source goes behind those that are there. -/
theorem addSection_source {sub : Table} {path : String} (hnew : sub.get? path = none)
    (s : SourceSettings) :
    Table.addSection .table (pairsOf s) sub [path] = some (sub ++ [(path, nodeOf s)]) := by
  rw [Table.addSection]
  · rfl
  · exact hnew

/-- The table of the sources grows by one source after the other. -/
theorem addSections_saidAll (more : List (String × SourceSettings)) :
    ∀ sub : Table, (sub.map Prod.fst ++ more.map Prod.fst).Nodup →
      Toml.addSections [("sources", .table .implied sub)] (saidAll more) =
        some [("sources", .table .implied (sub ++ more.map fun e => (e.1, nodeOf e.2)))] := by
  induction more with
  | nil =>
    intro sub _
    simp [saidAll, Toml.addSections]
  | cons e more ih =>
    obtain ⟨path, s⟩ := e
    intro sub hnodup
    have hnew : sub.get? path = none := Table.get?_of_notMem fun hmem =>
      List.disjoint_of_nodup_append hnodup hmem List.mem_cons_self
    have hsources : Table.get? [("sources", Node.table .implied sub)] "sources" =
      some (.table .implied sub) := rfl
    have hmore := ih (sub ++ [(path, nodeOf s)]) (by simpa using hnodup)
    rw [saidAll, List.flatMap_cons]
    refine (addSections_said _ path s more).trans ?_
    rw [Table.addSection, hsources]
    · simp only [addSection_source hnew]
      simpa [Table.set] using hmore
    · exact fun h => nomatch h

/-- The headers of the document make one table of all sources. -/
theorem addSections_document (sources : Sources) :
    Toml.addSections [] ((documentLines sources).filterMap Written.line?) =
      some [("sources",
        .table (if sources.isEmpty then .opened else .implied)
          (sources.entries.map fun e => (e.1, nodeOf e.2)))] := by
  obtain ⟨entries, hnodup⟩ := sources
  cases entries with
  | nil => rfl
  | cons e more =>
    -- the first header implies the table that the others grow
    obtain ⟨path, s⟩ := e
    have hsaid : (documentLines ⟨(path, s) :: more, hnodup⟩).filterMap Written.line? =
        said path s ++ saidAll more := by
      simp only [documentLines, OrderedMap.isEmpty, List.isEmpty_cons]
      simp [List.filterMap_flatMap, filterMap_lines, saidAll]
    have hmore := addSections_saidAll more [(path, nodeOf s)] hnodup
    have hfirst : Table.addSection .table (pairsOf s) [] ["sources", path] =
        some [("sources", .table .implied [(path, nodeOf s)])] := rfl
    rw [hsaid, addSections_said, hfirst]
    exact hmore

theorem finishEntries_sources (entries : List (String × SourceSettings)) :
    Table.finishEntries (entries.map fun e => (e.1, nodeOf e.2)) =
      entries.map fun e => (e.1, valueOf e.2) := by
  induction entries with
  | nil => rfl
  | cons e entries ih =>
    rw [List.map_cons, Table.finishEntries, ih]
    simp [nodeOf, valueOf, fields, Table.finishNode, Table.finishEntries]

/-- **The document of the sources is read** as one table, with the sources in their order. -/
theorem read_render (sources : Sources) :
    Toml.read (render sources) = some (documentOf sources) := by
  obtain ⟨path, more, hlines⟩ := exists_documentLines sources
  have htext := toList_render sources
  have hfits := fits_documentLines sources
  rw [hlines] at htext hfits
  rw [Toml.read_text htext hfits, ← hlines, addSections_document]
  simp [documentOf, Table.finishEntries, Table.finishNode, finishEntries_sources]

/-! ## Configurations -/

theorem readTexts_texts (items : List String) :
    Config.readTexts (Simple.texts items).value = some items := by
  have hread : ∀ s, Config.readText (.string s) = some s := fun _ => rfl
  exact mapM_map_eq_some hread items

theorem readSource_valueOf (s : SourceSettings) : Config.readSource (valueOf s) = some s := by
  simp [valueOf, fields, Config.readSource, Config.fieldsOf, OrderedMap.lookup?, Config.readField,
    readTexts_texts]

/-- **The sources are read back** from their table. -/
theorem ofTables_documentOf (sources : Sources) :
    Config.ofTables (documentOf sources) = some { sources } := by
  have hentries : (sources.entries.map fun e => (e.1, valueOf e.2)).mapM
      (fun e => (Config.readSource e.2).map fun x => (e.1, x)) = some sources.entries :=
    mapM_map_eq_some (fun e => by rw [readSource_valueOf]; rfl) sources.entries
  have hlist : OrderedMap.ofList sources.entries = sources :=
    OrderedMap.ext (OrderedMap.entries_ofList sources.nodup)
  have htable : Config.readTable Config.readSource
      (.table (sources.entries.map fun e => (e.1, valueOf e.2))) = some sources := by
    rw [Config.readTable, hentries, Option.map_some, hlist]
  simp [documentOf, Config.ofTables, OrderedMap.lookup?, Config.readField, htable]

end Sources

namespace Config

/-- The document of some sources, over the built-in configuration. -/
theorem ofWorkspace_render {builtIn : Config} (h : defaults = .ok builtIn) (sources : Sources)
    (origin : String) :
    ofWorkspace origin sources.render =
      .ok { builtIn with general := {}, logging := {}, sources } := by
  have hsilent : Silent sources.documentOf := by
    have hkey : pathOf "sources" = ["sources"] ∧ Text.lower "sources" = "sources" ∧
        "sources" ≠ "statue" ∧ "sources" ≠ "logging" := by decide +kernel
    exact fun e he => List.mem_singleton.mp he ▸ hkey
  rw [ofWorkspace, ofText_of_silent sources.read_render sources.ofTables_documentOf hsilent, h]
  rfl

/-- A file that holds the text of a document gives its configuration. -/
theorem ofFile_of_read? {files : FileTree} {path text : String} {config : Config}
    (hread : files.read? path = some text.toUTF8) (htext : ofWorkspace path text = .ok config) :
    ofFile files path = .ok config := by
  rw [ofFile, FileTree.hasPath_of_read? hread, FileTree.readText?_of_read? hread]
  simp [htext, Except.mapError]

/-- **Sources are read back**: if the configuration file of a workspace, or the file that is
named, is the document of some sources, the configuration is the built-in one with exactly these
sources, and with default settings. The file is one of the tree: a path that leaves it is not read
here. -/
theorem load_render (files : FileTree) (workspace : String) (path : Option String)
    (sources : Sources)
    (h : files.read? (path.getD (Setup.configPath workspace)) = some sources.render.toUTF8) :
    ∃ builtIn config, defaults = .ok builtIn ∧ load files workspace path = .ok config ∧
      config.sources = sources ∧ config.general = {} ∧ config.logging = {} ∧
      config.contexts = builtIn.contexts ∧ config.commands = builtIn.commands := by
  obtain ⟨builtIn, hdefaults, -⟩ := exists_defaults
  refine ⟨builtIn, { builtIn with general := {}, logging := {}, sources }, hdefaults, ?_,
    rfl, rfl, rfl, rfl, rfl⟩
  have hfile := ofFile_of_read? h (ofWorkspace_render hdefaults sources _)
  cases path with
  | some path => exact hfile
  | none =>
    -- the file is there, so the built-in configuration does not count alone
    rw [Option.getD_none] at h hfile
    rw [load, FileTree.hasPath_of_read? h, if_pos rfl, hfile]

/-- Sources with an empty path, a path that looks like a dotted key, and one of control
characters; their lists have runs of both quotes, a leading line feed and an empty text. -/
def quotedSources : Sources := OrderedMap.ofList [
  ("", {}),
  ("a.b", { contexts := ["'''\"\"\"", "\\"] }),
  ("\n\t\x7f", { allow := ["\nline\n\"\""], deny := ["", "\x00'"] })]

/-- They are read back from a tree that holds nothing but their document. -/
theorem load_render_quoted : ∃ builtIn config, defaults = .ok builtIn ∧
    load (.directory [("statue.toml", .file quotedSources.render.toUTF8)]) "" none = .ok config ∧
      config.sources = quotedSources ∧ config.general = {} ∧ config.logging = {} ∧
      config.contexts = builtIn.contexts ∧ config.commands = builtIn.commands := by
  refine load_render _ "" none quotedSources ?_
  generalize quotedSources.render.toUTF8 = content
  have hpath : Setup.configPath "" = "statue.toml" := by decide +kernel
  have hnames : Path.names "statue.toml" = ["statue.toml"] := by decide +kernel
  rw [Option.getD_none, hpath]
  simp [FileTree.read?, FileTree.get?, FileTree.locate, hnames, FileTree.follow, FileTree.at?,
    FileTree.child?, FileTree.entries, OrderedMap.lookup?, Path.isAbsolute]

end Config

end Checkup
