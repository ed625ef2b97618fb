import Checkup.Proofs.StampedNames
import Checkup.Proofs.Storing
import Checkup.Report.Evaluations

/-!
# Past runs in lists

Which files are listed, and what the lines of the reports on them are:

* `History.Lists` — what is in the directory of a history. The paths of the files with a stamp
  are listed, newest first, as they are compared as paths (`History.Lists.exists_stored`).
* `Report.lines` — the lines of a report. A past run has one of its own in a list of past runs
  (`lines_historyList`), and that is the first one when it is shown (`head?_lines_historyDetail`).
-/

namespace Checkup

/-! ## Paths of stored evaluations -/

namespace History

variable {h : History} {files : FileTree} {entries : List (String × FileTree)} {a b name : String}

/-- Paths in one directory are ordered like their file names. -/
theorem Newer.pathOf (hdir : h.directory ≠ "") (hlast : h.directory.toList.getLast? ≠ some '/')
    (hab : Newer a b) (ha : Path.IsName a) (hb : Path.IsName b) :
    Newer (h.pathOf a) (h.pathOf b) := by
  obtain ⟨s, t, hs, ht, horder⟩ := hab
  refine ⟨s, t, (stamp?_pathOf h ha).trans hs, (stamp?_pathOf h hb).trans ht,
    horder.imp_right fun ⟨heq, hlt⟩ => ⟨heq, ?_⟩⟩
  rw [History.pathOf, History.pathOf, Path.join_eq hdir hlast ha, Path.join_eq hdir hlast hb,
    String.lt_iff, String.toList_append (t := a), String.toList_append (t := b)]
  exact List.append_left_lt (String.lt_iff.mp hlt)

/-- What is in the directory of a history. There is nothing if the directory is not there. -/
inductive Lists (h : History) (files : FileTree) : List (String × FileTree) → Prop
  /-- the directory is there -/
  | there {entries : List (String × FileTree)} :
      files.list? h.directory = some entries → Lists h files entries
  /-- nothing is at its path -/
  | absent : files.hasPath h.directory = false → Lists h files []

namespace Lists

theorem list_eq (hlists : h.Lists files entries) :
    h.list files = .ok ((stampedNames (entries.map Prod.fst)).map h.pathOf) := by
  cases hlists with
  | there hlist => exact History.list_eq hlist
  | absent hnone =>
    have hempty : stampedNames [] = [] := List.map_eq_nil_iff.mpr (List.mergeSort_nil ..)
    rw [list, hnone, if_neg Bool.false_ne_true, List.map_nil, hempty]
    rfl

theorem properNames (hlists : h.Lists files entries) (hvalid : files.Valid) :
    FileTree.ProperNames entries := by
  cases hlists with
  | there hlist => exact (FileTree.valid_directory_iff.mp (hvalid.of_list? hlist)).1
  | absent => exact ⟨List.nodup_nil, nofun⟩

/-- **The files with a stamp are listed**, and nothing else is: the paths of all of them, those
with higher stamps first, and of those with one stamp the greater paths first. -/
theorem exists_stored {workspace : String} {size : Nat}
    (hlists : (ofWorkspace workspace size).Lists files entries) (hvalid : files.Valid) :
    ∃ stored, (ofWorkspace workspace size).list files = .ok stored ∧ stored.Pairwise Newer ∧
      ∀ path, path ∈ stored ↔ ∃ name ∈ entries.map Prod.fst, (stamp? name).isSome = true ∧
        (ofWorkspace workspace size).pathOf name = path := by
  obtain ⟨hdir, hlast⟩ := directory_ofWorkspace workspace size
  have hproper := hlists.properNames hvalid
  have hname : ∀ name ∈ stampedNames (entries.map Prod.fst), Path.IsName name := by
    intro name hmem
    obtain ⟨hmem, hsome⟩ := mem_stampedNames.mp hmem
    obtain ⟨stamp, hstamp⟩ := Option.isSome_iff_exists.mp hsome
    exact isName_of_stamp? (hproper.no_slash name hmem) hstamp
  refine ⟨_, hlists.list_eq, ?_, fun path => ?_⟩
  · rw [List.pairwise_map]
    exact (pairwise_stampedNames hproper.nodup).imp_of_mem fun ha hb hab =>
      hab.pathOf hdir hlast (hname _ ha) (hname _ hb)
  · simp only [List.mem_map (f := History.pathOf _), mem_stampedNames, and_assoc]

end Lists

end History

/-! ## Lines of reports -/

namespace Report

/-- The lines of a report. -/
def lines (text : String) : List String := (Text.pieces '\n' text.toList).map String.ofList

/-- A text without line ends. -/
def OneLine (text : String) : Prop := '\n' ∉ text.toList

instance (text : String) : Decidable (OneLine text) := inferInstanceAs (Decidable (_ ∉ _))

theorem oneLine_append {a b : String} : OneLine (a ++ b) ↔ OneLine a ∧ OneLine b := by
  simp [OneLine]

theorem oneLine_toString (n : Nat) : OneLine (toString n) := by
  intro hmem
  have hdigits : '\n' ∈ Nat.toDigits 10 n := by simpa using hmem
  exact absurd (Text.isDigit_of_mem_toDigits hdigits) (by decide)

theorem oneLine_padded (width n : Nat) : OneLine (Moment.padded width n) := by
  have hzeros : OneLine (String.ofList (List.replicate (width - (toString n).length) '0')) := by
    simp [OneLine]
  exact oneLine_append.mpr ⟨hzeros, oneLine_toString n⟩

theorem oneLine_text (m : Moment) : OneLine m.text := by
  have hyear : OneLine (Moment.yearText m.year) := by
    rw [Moment.yearText]
    split
    · exact oneLine_padded _ _
    · split <;> exact oneLine_append.mpr ⟨by decide, oneLine_padded _ _⟩
  have hmarks : OneLine "-" ∧ OneLine " " ∧ OneLine ":" := by decide
  simp only [Moment.text, oneLine_append, hyear, oneLine_padded, hmarks, and_self]

theorem oneLine_savedAt (path : String) : OneLine (savedAt path) := by
  have hcolour : OneLine "\x1b[" ∧ OneLine "33" ∧ OneLine "m" ∧ OneLine "39" := by decide
  have htime : OneLine (((History.moment? path).map Moment.text).getD "unknown time") := by
    cases History.moment? path with
    | none => exact (by decide : OneLine "unknown time")
    | some m => exact oneLine_text m
  simp only [savedAt, yellow, styled, oneLine_append, hcolour, htime, and_self]

/-- A past run is reported in one line. -/
theorem oneLine_runLine (path : String) (e : Evaluation) : OneLine (runLine path e) := by
  have hstatus : OneLine (status e.success) := by
    rw [status]
    split <;> decide
  have hmarks : OneLine " - " ∧ OneLine " (" ∧ OneLine ")" ∧ OneLine "/" ∧
      OneLine " successful" := by decide
  simp only [runLine, ratio, oneLine_append, oneLine_savedAt, oneLine_toString, hstatus, hmarks,
    and_self]

/-- What is put together of lines has these lines. -/
theorem lines_intercalate {ls : List String} (hne : ls ≠ []) (h : ∀ l ∈ ls, OneLine l) :
    lines ("\n".intercalate ls) = ls := by
  have hpieces : Text.pieces '\n' ("\n".intercalate ls).toList = ls.map String.toList := by
    rw [String.toList_intercalate]
    refine Text.pieces_intercalate (by simpa using hne) fun piece hpiece => ?_
    obtain ⟨l, hl, rfl⟩ := List.mem_map.mp hpiece
    exact h l hl
  rw [lines, hpieces, List.map_map]
  exact List.map_id'' (fun l => String.ofList_toList) ls

/-- The first line of a text ends where another one starts. -/
theorem head?_lines {line rest : String} (hline : OneLine line)
    (hrest : rest = "" ∨ ∃ more, rest = "\n" ++ more) :
    (lines (line ++ rest)).head? = some line := by
  rcases hrest with rfl | ⟨more, rfl⟩
  · simp [lines, Text.pieces_of_notMem hline]
  · have hpieces : Text.pieces '\n' (line ++ ("\n" ++ more)).toList =
        line.toList :: Text.pieces '\n' more.toList := by
      simp [Text.pieces_append_cons, Text.pieces_of_notMem hline]
    rw [lines, hpieces, List.map_cons, List.head?_cons, String.ofList_toList]

/-- The first line of a past run is that of the run. -/
theorem head?_lines_historyDetail (path : String) (e : Evaluation) :
    (lines (historyDetail path e)).head? = some (runLine path e) := by
  refine head?_lines (oneLine_runLine path e) ?_
  cases e.entries with
  | nil => exact .inl rfl
  | cons entry rest => exact .inr ⟨_, by simp [String.append_assoc]; rfl⟩

/-- Past runs are listed in a line each, with their numbers. -/
theorem lines_historyList {runs : List (String × Evaluation)} (hne : runs ≠ []) :
    lines (historyList runs) = runs.zipIdx.map fun ((path, e), index) =>
      toString (index + 1) ++ ") " ++ runLine path e := by
  rw [historyList, if_neg (by simpa using hne)]
  refine lines_intercalate (by simpa using hne) fun l hl => ?_
  obtain ⟨⟨⟨path, e⟩, index⟩, -, rfl⟩ := List.mem_map.mp hl
  have hmark : OneLine ") " := by decide
  simp only [oneLine_append, oneLine_toString, hmark, oneLine_runLine, and_self]

end Report

end Checkup
