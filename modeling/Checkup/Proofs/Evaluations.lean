import Checkup.Evaluation.Stored
import Checkup.Proofs.Json
import Checkup.Proofs.Maps
import Checkup.Proofs.Traversal

/-!
# Evaluations are read back

What is stored of an evaluation stands for it: every source at its place, with every command
in its place, whatever texts and exit statuses they have.

* `CommandEvaluation.ofJson?_toJson`, `Results.ofJson?_toJson` — the records.
* `Evaluation.ofJson?_toJson` — the object of all sources.
* `Evaluation.ofText?_toText` — the text.
-/

namespace Checkup

open Json (Value Faithful read_write)

/-! ## Values of fields -/

namespace Json.Value

theorem texts?_texts (items : List String) : (Value.texts items).texts? = some items := by
  have hitem : ∀ s, (Value.text s).text? = some s := fun _ => rfl
  exact mapM_map_eq_some hitem items

theorem members?_record (members : List (String × Value)) :
    (Value.record members).members? = some members := by
  rw [Value.record, Value.members?, mapM_map_eq_some]
  exact fun _ => rfl

/-- Of members with distinct names one has the name that it has. -/
theorem filter_name_eq {members : List (String × Value)} (hnodup : (members.map Prod.fst).Nodup)
    {member : String × Value} (hmem : member ∈ members) :
    members.filter (·.1 = member.1) = [member] := by
  obtain ⟨before, after, rfl⟩ := List.append_of_mem hmem
  rw [List.map_append, List.map_cons, List.nodup_append, List.nodup_cons] at hnodup
  obtain ⟨-, ⟨hafter, -⟩, hbefore⟩ := hnodup
  have hnone : ∀ others : List (String × Value), member.1 ∉ others.map Prod.fst →
      others.filter (·.1 = member.1) = [] := by
    intro others hothers
    rw [List.filter_eq_nil_iff]
    intro other hother hname
    exact hothers (List.mem_map.mpr ⟨other, hother, by simpa using hname⟩)
  have hbefore' : member.1 ∉ before.map Prod.fst := fun hmem =>
    hbefore _ hmem _ List.mem_cons_self rfl
  simp [List.filter_append, hnone _ hbefore', hnone _ hafter]

/-- The fields of a record are found by their names. -/
theorem fields?_record {members : List (String × Value)}
    (hnodup : (members.map Prod.fst).Nodup) :
    (Value.record members).fields? (members.map Prod.fst) =
      some (members.map fun member => some member.2) := by
  have hfield : ∀ member ∈ members,
      (Value.field? members ∘ Prod.fst) member = pure (some member.2) := by
    intro member hmem
    rw [Function.comp_apply, Value.field?, filter_name_eq hnodup hmem]
    rfl
  have hfields : (members.map Prod.fst).mapM (Value.field? members) =
      some (members.map fun member => some member.2) := by
    rw [List.mapM_map, mapM_congr hfield]
    exact List.mapM_pure
  change (Value.record members).members?.bind _ = _
  rw [members?_record, Option.bind_some, hfields]

end Json.Value

theorem exitCodeOfJson?_exitCodeToJson (code : Option Int32) :
    exitCodeOfJson? (exitCodeToJson code) = some code := by
  cases code with
  | none => rfl
  | some code =>
    have hfits : Int32.minValue.toInt ≤ code.toInt ∧ code.toInt ≤ Int32.maxValue.toInt :=
      ⟨code.minValue_le_toInt, code.toInt_le⟩
    rw [exitCodeToJson, exitCodeOfJson?, if_pos hfits, Int32.ofInt_toInt]

/-! ## Records -/

/-- A command is read back from its record. -/
theorem CommandEvaluation.ofJson?_toJson (e : CommandEvaluation) : ofJson? e.toJson = some e := by
  have hfields : e.toJson.fields? fieldNames = some [some (.text e.command), some (.texts e.args),
      some (.boolean e.success), some (exitCodeToJson e.exitCode), some (.texts e.output)] :=
    Value.fields?_record (by simp)
  have hcommand : (Value.text e.command).text? = some e.command := rfl
  have hsuccess : (Value.boolean e.success).boolean? = some e.success := rfl
  rw [ofJson?, hfields]
  simp [hcommand, hsuccess, Value.texts?_texts, exitCodeOfJson?_exitCodeToJson]

/-- The results of a source are read back from their record. -/
theorem Results.ofJson?_toJson (results : Results) : ofJson? results.toJson = some results := by
  have hfields : results.toJson.fields? ["commands_evaluations"] =
      some [some (.array (results.map CommandEvaluation.toJson))] :=
    Value.fields?_record (by simp)
  rw [ofJson?, hfields]
  exact mapM_map_eq_some CommandEvaluation.ofJson?_toJson results

/-- The sources are read back from their object, in their order. -/
theorem Evaluation.ofJson?_toJson (e : Evaluation) : ofJson? e.toJson = some e := by
  have hkeys : OrderedMap.ofList e.entries = e :=
    OrderedMap.ext (OrderedMap.entries_ofList e.nodup)
  rw [ofJson?, toJson, Value.members?_record, Option.bind_eq_bind, Option.bind_some,
    mapM_map_eq_some]
  · exact congrArg some hkeys
  · intro entry
    exact congrArg (Option.map (entry.1, ·)) (Results.ofJson?_toJson entry.2)

/-! ## Texts -/

theorem faithful_texts (items : List String) : Faithful (.texts items) := by
  refine .array fun v hv => ?_
  obtain ⟨s, -, rfl⟩ := List.mem_map.mp hv
  exact .text s

theorem faithful_exitCodeToJson (code : Option Int32) : Faithful (exitCodeToJson code) := by
  cases code with
  | none => exact .null
  | some code => exact .integer code.toInt

theorem CommandEvaluation.faithful_toJson (e : CommandEvaluation) : Faithful e.toJson := by
  refine .record fun member hmember => ?_
  simp only [List.mem_cons, List.not_mem_nil, or_false] at hmember
  rcases hmember with rfl | rfl | rfl | rfl | rfl
  · exact .text e.command
  · exact faithful_texts e.args
  · exact .boolean e.success
  · exact faithful_exitCodeToJson e.exitCode
  · exact faithful_texts e.output

theorem Results.faithful_toJson (results : Results) : Faithful results.toJson := by
  refine .record fun member hmember => ?_
  obtain rfl := List.mem_singleton.mp hmember
  refine .array fun v hv => ?_
  obtain ⟨e, -, rfl⟩ := List.mem_map.mp hv
  exact e.faithful_toJson

namespace Evaluation

theorem faithful_toJson (e : Evaluation) : Faithful e.toJson := by
  refine .record fun member hmember => ?_
  obtain ⟨entry, -, rfl⟩ := List.mem_map.mp hmember
  exact Results.faithful_toJson entry.2

/-- **An evaluation is read back from its text.** -/
theorem ofText?_toText (e : Evaluation) : ofText? e.toText = some e := by
  rw [ofText?, toText, read_write e.faithful_toJson, Option.bind_some, ofJson?_toJson]

end Evaluation

end Checkup
