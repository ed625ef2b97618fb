import Checkup.Proofs.Listings
import Checkup.Proofs.Precedence

/-!
# Numbers of past runs

Past runs are numbered from one on where they are listed and where they are asked for, and from
zero on where they are looked up:

* `Invocation.ofArguments_historyList`, `ofArguments_historyShow` — a number is read from the
  command line as it is written.
* `Program.exists_runs`, `showPastRun_of_stored`, `showPastRun_of_beyond` — what both requests come
  to, for the paths that are listed.
* `Program.showPastRun64` — looking up in numbers of 64 bits; none of them wraps around
  (`showPastRun64_eq`).
* `Program.numbers_agree` — the numbers of a list are those to ask for.
-/

namespace Checkup

/-! ## Numbers on the command line -/

namespace Text

/-- A number is written with digits, so without a sign. -/
theorem exists_toList_toString (n : Nat) :
    ∃ c cs, (toString n).toList = c :: cs ∧ c ≠ '+' ∧ c ≠ '-' := by
  obtain ⟨c, cs, hdigits⟩ := List.exists_cons_of_ne_nil (Nat.toDigits_ne_nil (b := 10) (n := n))
  have hspelled : SpellsNumber (c :: cs) n := hdigits ▸ spellsNumber_toDigits n
  exact ⟨c, cs, by simpa using hdigits, hspelled.ne_sign⟩

/-- A number of 64 bits is read back from its text. -/
theorem unsigned64?_toString {n : Nat} (h : n < 2 ^ 64) :
    unsigned64? (toString n).toList = some n := by
  obtain ⟨c, cs, hdigits, hplus, -⟩ := exists_toList_toString n
  have hnumber : digitsNumber? (c :: cs) = some n := by
    rw [← hdigits]
    simpa using digitsNumber?_toDigits n
  rw [hdigits, unsigned64?]
  · simpa [hnumber] using h
  · exact fun rest heq => hplus (List.cons.inj heq).1

end Text

namespace Arguments

variable {σ : Type} {level : Level σ} {state : σ} {isGiven : σ → Bool}
  {give : String → σ → Except UsageError σ} {option text : String} {letter c : Char}
  {name cs : List Char}

section Plain

variable (htext : text.toList = c :: cs) (hdash : c ≠ '-')
include htext hdash

/-- A subcommand ends a level. -/
theorem scan_subcommand {rest : List String} (hname : text ∈ level.subcommands) :
    level.scan state .none false (text :: rest) = .ok ⟨state, .none, some (text, rest)⟩ := by
  simp [Level.scan, htext, hdash, hname]

/-- The last argument is the value of the option before it, if that is given by its letter. -/
theorem scan_short (hoption : option.toList = ['-', letter]) (hletter : letter ≠ '-')
    (hflag : (level.short? letter).map Flag.action = some (.value isGiven give)) :
    level.scan state .none false [option, text] =
      .ok ⟨state, .held isGiven give text, .none⟩ := by
  simp [Level.scan, hoption, hletter, Level.readShort, hflag, Pending.settle, htext, hdash, bind,
    Except.bind, pure, Except.pure]

/-- So it is if the option is given by its long name. -/
theorem scan_long (hoption : option.toList = '-' :: '-' :: name) (hne : name ≠ [])
    (hname : '=' ∉ name)
    (hflag : (level.long? name).map Flag.action = some (.value isGiven give)) :
    level.scan state .none false [option, text] =
      .ok ⟨state, .held isGiven give text, .none⟩ := by
  obtain ⟨d, ds, rfl⟩ := List.exists_cons_of_ne_nil hne
  have hall : ∀ c ∈ d :: ds, decide (c ≠ '=') = true := fun c hc =>
    decide_eq_true fun heq => hname (heq ▸ hc)
  -- the name has no end before that of the option
  have hends : (d :: ds ++ []).takeWhile (· ≠ '=') = d :: ds ∧
      (d :: ds ++ []).dropWhile (· ≠ '=') = [] := Text.takeWhile_dropWhile_append hall nofun
  rw [List.append_nil] at hends
  have hread : level.readLong state .none (d :: ds) = .ok (state, .awaiting isGiven give) := by
    rw [Level.readLong, hends.1, hends.2, hflag]
    rfl
  simp [Level.scan, hoption, hread, htext, hdash, bind, Except.bind]

/-- The name of a group leads to the reader of what follows. -/
theorem read_group {subcommands : List (String × Reader)} {rest : List String} {reader : Reader}
    {request : Request} (hname : subcommands.lookup text = some reader)
    (hread : reader.read rest = .ok { request }) :
    (Reader.group subcommands).read (text :: rest) = .ok { request } := by
  have hmem : text ∈ subcommands.map Prod.fst ++ [helpName] := by
    obtain ⟨before, after, hsplit, -⟩ := List.lookup_eq_some_iff.mp hname
    simp [hsplit]
  rw [Reader.group]
  dsimp only
  rw [scan_subcommand htext hdash hmem]
  simp only [bind, Except.bind]
  rw [hname]
  dsimp only
  rw [hread]
  rfl

theorem read_historyList {n : Nat} (hnumber : numberValue text = .ok n) :
    historyListReader.read ["--head", text] = .ok { request := .historyList (some n) } := by
  rw [historyListReader, Reader.leaf]
  dsimp only
  have hoption : "--head".toList = '-' :: '-' :: ['h', 'e', 'a', 'd'] := by decide
  rw [scan_long htext hdash hoption (by decide) (by decide) rfl]
  simp only [bind, Except.bind, Pending.settle, giveValue]
  rw [hnumber]
  rfl

theorem read_historyShow {n : Nat} (hnumber : positiveValue text = .ok n) :
    historyShowReader.read ["-n", text] = .ok { request := .historyShow n } := by
  rw [historyShowReader, Reader.leaf]
  dsimp only
  have hoption : "-n".toList = ['-', 'n'] := by decide
  rw [scan_short htext hdash hoption (by decide) rfl]
  simp only [bind, Except.bind, Pending.settle, giveValue]
  rw [hnumber]
  rfl

end Plain

end Arguments

namespace Invocation

open Arguments

variable {n : Nat}

/-- A list of past runs with a limit is asked for in any number of 64 bits. -/
theorem ofArguments_historyList (h : n < 2 ^ 64) :
    ofArguments ["history", "list", "--head", toString n] =
      .ok { request := .historyList (some n) } := by
  obtain ⟨c, cs, htext, -, hdash⟩ := Text.exists_toList_toString n
  have hnumber : numberValue (toString n) = .ok n := by
    rw [numberValue, Text.unsigned64?_toString h]
  have hread := read_historyList htext hdash hnumber
  have hlist : "list".toList = ['l', 'i', 's', 't'] := by decide
  have hhistory : "history".toList = ['h', 'i', 's', 't', 'o', 'r', 'y'] := by decide
  exact read_group hhistory (by decide) rfl (read_group hlist (by decide) rfl hread)

/-- A past run is asked for in any number of 64 bits but zero. -/
theorem ofArguments_historyShow (hpos : 0 < n) (h : n < 2 ^ 64) :
    ofArguments ["history", "show", "-n", toString n] =
      .ok { request := .historyShow n } := by
  obtain ⟨c, cs, htext, -, hdash⟩ := Text.exists_toList_toString n
  have hnumber : positiveValue (toString n) = .ok n := by
    rw [positiveValue, numberValue, Text.unsigned64?_toString h]
    exact if_neg hpos.ne'
  have hread := read_historyShow htext hdash hnumber
  have hshow : "show".toList = ['s', 'h', 'o', 'w'] := by decide
  have hhistory : "history".toList = ['h', 'i', 's', 't', 'o', 'r', 'y'] := by decide
  exact read_group hhistory (by decide) rfl (read_group hshow (by decide) rfl hread)

end Invocation

/-! ## Lists and single runs -/

/-- The path with an index is the one that is listed there. -/
theorem History.path_eq {h : History} {files : FileTree} {stored : List String}
    (hlist : h.list files = .ok stored) (index : Nat) :
    h.path files index =
      (stored[index]?).elim (.error (.history (.missing (index + 1) stored.length))) .ok := by
  rw [path, hlist]
  simp only [bind, Except.bind]
  cases stored[index]? <;> rfl

namespace Program

variable {w : Workspace} {c : Config} {stored : List String}

section Stored

variable (hload : loadConfig w = .ok c) (hlist : (historyOf w c).list w.files = .ok stored)
include hload hlist

theorem showHistory_eq (head : Option Nat) :
    showHistory w head = ((stored.take (head.getD stored.length)).mapM fun path =>
      (History.load w.files path).map (path, ·)).map Report.historyList := by
  simp only [map_eq_bind]
  rw [showHistory, hload]
  change ((historyOf w c).list w.files >>= _) = _
  rw [hlist]
  rfl

/-- A list of past runs has the first of those that are stored, all of them loaded. -/
theorem exists_runs {head : Option Nat} {text : String} (h : showHistory w head = .ok text) :
    ∃ runs, text = Report.historyList runs ∧
      List.Forall₂ (fun path run => run.1 = path ∧ History.load w.files path = .ok run.2)
        (stored.take (head.getD stored.length)) runs := by
  rw [showHistory_eq hload hlist, map_eq_bind] at h
  obtain ⟨runs, hruns, h⟩ := bind_eq_ok h
  refine ⟨runs, (Except.ok.inj h).symm, (mapM_eq_ok_iff.mp hruns).imp fun path run hrun => ?_⟩
  rw [map_eq_bind] at hrun
  obtain ⟨e, he, hrun⟩ := bind_eq_ok hrun
  obtain rfl := Except.ok.inj hrun
  exact ⟨rfl, he⟩

/-- Past runs are listed just if those that the list has can be loaded. -/
theorem exists_showHistory_iff {head : Option Nat} :
    (∃ text, showHistory w head = .ok text) ↔
      ∀ path ∈ stored.take (head.getD stored.length), ∃ e, History.load w.files path = .ok e := by
  constructor
  · rintro ⟨text, htext⟩ path hpath
    obtain ⟨runs, -, hruns⟩ := exists_runs hload hlist htext
    obtain ⟨run, -, -, hrun⟩ := exists_of_mem_forall₂ hruns.flip hpath
    exact ⟨run.2, hrun⟩
  · intro hall
    have heach : ∀ path ∈ stored.take (head.getD stored.length),
        ∃ run, (History.load w.files path).map (path, ·) = .ok run := by
      intro path hpath
      obtain ⟨e, he⟩ := hall path hpath
      rw [he]
      exact ⟨(path, e), rfl⟩
    obtain ⟨runs, hruns⟩ := exists_mapM_eq_ok heach
    refine ⟨Report.historyList runs, ?_⟩
    rw [showHistory_eq hload hlist, hruns]
    rfl

theorem showPastRun_eq (number : Nat) :
    showPastRun w number =
      (stored[number - 1]?).elim (.error (.history (.missing (number - 1 + 1) stored.length)))
        fun path => (History.load w.files path).map (Report.historyDetail path) := by
  simp only [map_eq_bind]
  rw [showPastRun, hload]
  change ((historyOf w c).path w.files (number - 1) >>= _) = _
  rw [History.path_eq hlist]
  cases stored[number - 1]? <;> rfl

/-- A number up to that of stored runs asks for the run at its place. -/
theorem showPastRun_of_stored {number : Nat} {path : String}
    (hpath : stored[number - 1]? = some path) :
    showPastRun w number = (History.load w.files path).map (Report.historyDetail path) := by
  rw [showPastRun_eq hload hlist, hpath, Option.elim_some]

/-- A higher number is reported to be missing, with that of stored runs. -/
theorem showPastRun_of_beyond {number : Nat} (hbeyond : stored.length < number) :
    showPastRun w number = .error (.history (.missing number stored.length)) := by
  have hnumber : number - 1 + 1 = number := by omega
  rw [showPastRun_eq hload hlist, List.getElem?_eq_none (by omega), Option.elim_none, hnumber]

/-- A line of a list is the first one of the run that it numbers. -/
theorem line_of_list {runs : List (String × Evaluation)} {limit k : Nat}
    (hruns : List.Forall₂ (fun path run => run.1 = path ∧ History.load w.files path = .ok run.2)
      (stored.take limit) runs) (hpos : 0 < k) (hk : k ≤ runs.length) :
    ∃ detail line, showPastRun w k = .ok detail ∧ (Report.lines detail).head? = some line ∧
      (Report.lines (Report.historyList runs))[k - 1]? = some (toString k ++ ") " ++ line) := by
  have hne : runs ≠ [] := List.length_pos_iff.mp (by omega)
  have hlt : k - 1 < runs.length := by omega
  have hlt' : k - 1 < (stored.take limit).length := hruns.length_eq ▸ hlt
  obtain ⟨hpath, hrun⟩ := hruns.get hlt' hlt
  simp only [List.get_eq_getElem, List.getElem_take] at hpath hrun
  obtain ⟨path, e, hentry⟩ : ∃ path e, runs[k - 1] = (path, e) := ⟨_, _, rfl⟩
  rw [← hpath, hentry] at hrun
  rw [hentry] at hpath
  have hstored : stored[k - 1]? = some path := List.getElem?_eq_some_iff.mpr ⟨_, hpath.symm⟩
  refine ⟨Report.historyDetail path e, Report.runLine path e, ?_,
    Report.head?_lines_historyDetail path e, ?_⟩
  · rw [showPastRun_of_stored hload hlist hstored, hrun]
    rfl
  · have hnumber : k - 1 + 1 = k := by omega
    rw [Report.lines_historyList hne, List.getElem?_map, List.getElem?_zipIdx,
      List.getElem?_eq_getElem hlt, hentry]
    simp [hnumber]

end Stored

/-! ## Numbers of 64 bits -/

/-- The index of a number; that of zero is zero. -/
def index64 (number : UInt64) : UInt64 := if number = 0 then 0 else number - 1

/-- The path with an index, with the number that is reported computed in 64 bits. -/
def path64 (h : History) (files : FileTree) (index : UInt64) : Except Error String := do
  let paths ← h.list files
  match paths[index.toNat]? with
  | some path => .ok path
  | none => .error (.history (.missing (index + 1).toNat paths.length))

/-- Shows a past run by its number, computed in 64 bits where numbers may wrap around. -/
def showPastRun64 (w : Workspace) (number : UInt64) : Except Error String := do
  let h := historyOf w (← loadConfig w)
  let path ← path64 h w.files (index64 number)
  return Report.historyDetail path (← History.load w.files path)

theorem toNat_index64 (number : UInt64) : (index64 number).toNat = number.toNat - 1 := by
  rw [index64]
  split
  · rename_i hzero
    rw [hzero]
    rfl
  · rename_i hne
    refine UInt64.toNat_sub_of_le number 1 (UInt64.le_iff_toNat_le.mpr ?_)
    exact Nat.one_le_iff_ne_zero.mpr fun hzero => hne (UInt64.toNat_inj.mp hzero)

/-- An index below the greatest number is reported as the number after it. -/
theorem path64_eq (h : History) (files : FileTree) {index : UInt64}
    (hlt : index.toNat + 1 < 2 ^ 64) : path64 h files index = h.path files index.toNat := by
  have hnumber : (index + 1).toNat = index.toNat + 1 := by
    rw [UInt64.toNat_add]
    exact Nat.mod_eq_of_lt hlt
  rw [path64, hnumber]
  rfl

/-- **No number wraps around**: in 64 bits past runs are shown as in all numbers. -/
theorem showPastRun64_eq (w : Workspace) (number : UInt64) :
    showPastRun64 w number = showPastRun w number.toNat := by
  have hlt : (index64 number).toNat + 1 < 2 ^ 64 := by
    have := number.toNat_lt
    rw [toNat_index64]
    omega
  rw [showPastRun64, showPastRun]
  refine bind_congr fun c => ?_
  dsimp only
  rw [path64_eq _ _ hlt, toNat_index64]

/-! ## All together -/

/-- **The numbers of a list are those to ask for**, whatever is in the directory of the history,
which is one of the tree.

* The files with a stamp are stored runs: those with higher stamps first, and of those with one
  stamp the greater paths first.
* They are listed just if those that the list has can be loaded.
* A list that is not empty has as many lines as its limit allows. Each has the number to ask for
  the run, and the first line of what is shown then.
* Every number of 64 bits, from one on, asks for the run at its place. Beyond the stored runs it is
  reported to be missing, with how many are stored.
* So it is with indices and numbers of 64 bits: none of them wraps around.
* Limits and numbers are read from the command line as they are written. -/
theorem numbers_agree {w : Workspace} {c : Config} {entries : List (String × FileTree)}
    (hload : loadConfig w = .ok c) (hvalid : w.files.Valid)
    (hlists : (historyOf w c).Lists w.files entries) :
    ∃ stored : List String,
      ((historyOf w c).list w.files = .ok stored ∧ stored.Pairwise History.Newer ∧
        ∀ path, path ∈ stored ↔ ∃ name ∈ entries.map Prod.fst,
          (History.stamp? name).isSome = true ∧ (historyOf w c).pathOf name = path) ∧
      (∀ head, (∃ text, showHistory w head = .ok text) ↔
        ∀ path ∈ stored.take (head.getD stored.length),
          ∃ e, History.load w.files path = .ok e) ∧
      (∀ head text, showHistory w head = .ok text →
        let shown := min (head.getD stored.length) stored.length
        0 < shown → (Report.lines text).length = shown ∧
          ∀ k, 0 < k → k ≤ shown → ∃ detail line, showPastRun w k = .ok detail ∧
            (Report.lines detail).head? = some line ∧
            (Report.lines text)[k - 1]? = some (toString k ++ ") " ++ line)) ∧
      (∀ number : UInt64, 0 < number →
        (number.toNat ≤ stored.length → ∃ path, stored[number.toNat - 1]? = some path ∧
          showPastRun w number.toNat =
            (History.load w.files path).map (Report.historyDetail path)) ∧
        (stored.length < number.toNat → ∃ e : HistoryError,
          showPastRun w number.toNat = .error (.history e) ∧
          e.message = "Could not find evaluation number " ++ toString number.toNat ++ " (" ++
            toString stored.length ++ " stored)")) ∧
      (∀ number, showPastRun64 w number = showPastRun w number.toNat) ∧
      (∀ limit : UInt64, Invocation.ofArguments
          ["history", "list", "--head", toString limit.toNat] =
        .ok { request := .historyList (some limit.toNat) }) ∧
      ∀ number : UInt64, 0 < number → Invocation.ofArguments
          ["history", "show", "-n", toString number.toNat] =
        .ok { request := .historyShow number.toNat } := by
  obtain ⟨stored, hlist, hsorted, hmem⟩ := hlists.exists_stored hvalid
  refine ⟨stored, ⟨hlist, hsorted, hmem⟩, fun head => exists_showHistory_iff hload hlist, ?_,
    fun number hpos => ⟨fun hle => ?_, fun hbeyond => ?_⟩,
    showPastRun64_eq w, fun limit => ?_, fun number hpos => ?_⟩
  · intro head text htext shown hshown
    obtain ⟨runs, rfl, hruns⟩ := exists_runs hload hlist htext
    have hlength : runs.length = shown := by rw [← hruns.length_eq, List.length_take]
    have hne : runs ≠ [] := List.length_pos_iff.mp (hlength ▸ hshown)
    refine ⟨?_, fun k hpos hk => line_of_list hload hlist hruns hpos (hlength ▸ hk)⟩
    rw [Report.lines_historyList hne, List.length_map, List.length_zipIdx, hlength]
  · have hpos := UInt64.lt_iff_toNat_lt.mp hpos
    have hpath : stored[number.toNat - 1]? = some stored[number.toNat - 1] :=
      List.getElem?_eq_getElem (Nat.sub_one_lt_of_le hpos hle)
    exact ⟨_, hpath, showPastRun_of_stored hload hlist hpath⟩
  · exact ⟨_, showPastRun_of_beyond hload hlist hbeyond, rfl⟩
  · exact Invocation.ofArguments_historyList limit.toNat_lt
  · exact Invocation.ofArguments_historyShow (UInt64.lt_iff_toNat_lt.mp hpos) number.toNat_lt

/-- Two past runs of one second, and a file that is none. -/
def sameSecond : List (String × FileTree) :=
  [("evaluation-+7.json", .file History.passed.toText.toUTF8), ("notes.txt", .file .empty),
    ("evaluation-7.json", .file History.passed.toText.toUTF8)]

/-- A workspace that has them. -/
def pastWorkspace : Workspace := { files := History.workspaceOf sameSecond }

/-- Of the two, the greater name goes first. -/
theorem stampedNames_sameSecond : History.stampedNames (sameSecond.map Prod.fst) =
    ["evaluation-7.json", "evaluation-+7.json"] := by
  have hfilter : (sameSecond.map Prod.fst).filter (fun name => (History.stamp? name).isSome) =
      ["evaluation-+7.json", "evaluation-7.json"] := by
    decide +kernel
  refine History.stampedNames_eq (by decide) (by decide +kernel) fun name => ?_
  rw [← List.mem_filter (p := fun name => (History.stamp? name).isSome), hfilter]
  simp [or_comm]

theorem load_sameSecond (size : Nat) {name : String} (hname : Path.IsName name)
    (hentry : OrderedMap.lookup? name sameSecond =
      some (.file History.passed.toText.toUTF8)) :
    History.load pastWorkspace.files ((History.ofWorkspace "." size).pathOf name) =
      .ok History.passed := by
  refine History.load_of_read? ?_
  rw [FileTree.read?, pastWorkspace, History.pathOf,
    FileTree.get?_join (History.list?_workspaceOf size sameSecond)
      (History.directory_ofWorkspace "." size).2 hname (by rw [hentry]; rfl), hentry]

/-- Their names decide between the two of one second; there is no third one. -/
theorem numbers_agree_sameSecond : ∃ c stored text detail line,
    loadConfig pastWorkspace = .ok c ∧
    stored = ["evaluation-7.json", "evaluation-+7.json"].map (historyOf pastWorkspace c).pathOf ∧
    (historyOf pastWorkspace c).list pastWorkspace.files = .ok stored ∧
    showHistory pastWorkspace none = .ok text ∧ (Report.lines text).length = 2 ∧
    showPastRun pastWorkspace 2 = .ok detail ∧ (Report.lines detail).head? = some line ∧
    (Report.lines text)[1]? = some ("2) " ++ line) ∧
    ∃ e : HistoryError, showPastRun pastWorkspace 3 = .error (.history e) ∧
      e.message = "Could not find evaluation number 3 (2 stored)" := by
  have hfile : pastWorkspace.files.hasPath (Setup.configPath ".") = false :=
    FileTree.hasPath_join (FileTree.list?_dot _) (by decide) CommandLine.isName_configFile rfl
  obtain ⟨c, hload, -⟩ := CommandLine.exists_loadConfig_of_no_file rfl hfile
  have hvalid : pastWorkspace.files.Valid :=
    History.valid_workspaceOf (FileTree.valid_of_files ⟨by decide, by decide⟩ (by decide))
  have hlists : (historyOf pastWorkspace c).Lists pastWorkspace.files sameSecond :=
    .there (History.list?_workspaceOf _ sameSecond)
  obtain ⟨stored, ⟨hlist, -, -⟩, hlisted, hlines, hnumbers, -⟩ :=
    numbers_agree hload hvalid hlists
  obtain rfl := Except.ok.inj (hlist.symm.trans hlists.list_eq)
  rw [stampedNames_sameSecond] at hlist hlisted hlines hnumbers
  have hloads : ∀ path ∈ ["evaluation-7.json", "evaluation-+7.json"].map
      (historyOf pastWorkspace c).pathOf, ∃ e, History.load pastWorkspace.files path = .ok e := by
    refine List.forall_mem_map.mpr fun name hname => ⟨History.passed, ?_⟩
    rcases List.mem_pair.mp hname with rfl | rfl
    · exact load_sameSecond _ ⟨by decide, by decide, by decide, by decide⟩ rfl
    · exact load_sameSecond _ ⟨by decide, by decide, by decide, by decide⟩ rfl
  obtain ⟨text, htext⟩ := (hlisted none).mpr fun path hpath =>
    hloads path (List.mem_of_mem_take hpath)
  rw [List.length_map] at hlines hnumbers
  obtain ⟨hlength, hline⟩ := hlines none text htext (by decide)
  obtain ⟨detail, line, hdetail, hfirst, hsecond⟩ := hline 2 (by decide) (by decide)
  obtain ⟨e, hmissing, hmessage⟩ := (hnumbers 3 (by decide)).2 (by decide)
  exact ⟨c, _, text, detail, line, hload, rfl, hlist, htext, hlength, hdetail, hfirst, hsecond,
    e, hmissing, hmessage.trans (by decide +kernel)⟩

end Program

end Checkup
