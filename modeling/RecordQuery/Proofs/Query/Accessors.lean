import RecordQuery.Proofs.Query.Groups
import RecordQuery.Proofs.Text.Encoding

/-!
# What the selections that are read tell

The selection of a field group is reached from the requested record by the names on the way to it, unless a later entry replaces
one of these (`GroupAt.exists_node`). Its names, its plain fields and its fields by name tell the entries that are written in the
group, and of several entries with one name the last (`Selection.Tells`).
-/

namespace RecordQuery

open Text Grammar

namespace Selection

/-- The selection below, by the names on the way to it. -/
def below? (t : Selection) (names : List String) : Option Selection := names.foldlM field? t

variable {head : Head} {es : List Selection} {n : String} {f : Selection}

/-! ## The selection of a group -/

/-- A field of a group is the last entry with its name. -/
theorem field?_group (head : Head) (es : List Selection) (n : String) :
    (group head (fieldsOf es)).field? n = lastNamed es n := find?_fieldsOf es n

/-- The names of the fields of a group are those of the entries. -/
theorem mem_fieldNames_group : n ∈ (group head (fieldsOf es)).fieldNames ↔ (lastNamed es n).isSome = true := by
  simp only [fieldNames, fields, List.mem_map, mem_fieldsOf_iff, Option.isSome_iff_exists]
  constructor
  · rintro ⟨f, hf, rfl⟩
    exact ⟨f, hf⟩
  · rintro ⟨f, hf⟩
    obtain ⟨_, rfl⟩ := mem_of_lastNamed hf
    exact ⟨f, hf, rfl⟩

/-- The plain fields of a group are those of which the last entry is a leaf. -/
theorem plainFields_group (head : Head) (es : List Selection) :
    (group head (fieldsOf es)).plainFields =
      (group head (fieldsOf es)).fieldNames.filter fun n => (lastNamed es n).any isLeaf := by
  unfold plainFields fieldNames
  rw [List.filter_map]
  refine congrArg (List.map name) (List.filter_congr fun f hf => ?_)
  have hlast := mem_fieldsOf_iff.mp hf
  simp [hlast]

/-- A way that is one name longer leads to a field of where it led before. -/
theorem below?_concat (t : Selection) (names : List String) (n : String) :
    t.below? (names ++ [n]) = (t.below? names).bind fun s => s.field? n := by
  unfold below?
  simp

end Selection

/-! ## The way to a group -/

namespace Grammar

/-- No later entry replaces one on the way. -/
def Live (path : List Step) : Prop := ∀ step ∈ path, ∀ e ∈ step.later, e.name ≠ step.name

theorem live_concat {path : List Step} {step : Step} :
    Live (path ++ [step]) ↔ Live path ∧ ∀ e ∈ step.later, e.name ≠ step.name := by
  unfold Live
  rw [List.forall_mem_append, List.forall_mem_singleton]

end Grammar

namespace Selection

/-- There is no other way to a selection with fields: each one that is reached by names is that of a group which no later entry
replaces. -/
theorem exists_groupAt_of_below {query : String} {t node : Selection} {limit : Nat} {names : List String}
    (h : parse query limit = .ok t) (hbelow : t.below? names = some node) (hleaf : node.isLeaf = false) :
    ∃ front body back es path head, query.toList = front ++ (body ++ back) ∧ GroupAt front body back es path ∧ Live path ∧
      path.map Step.name = names ∧ node = group head (fieldsOf es) := by
  induction names using List.reverseRecOn generalizing node with
  | nil =>
    obtain ⟨n, _, hquery⟩ := query_of_parse h
    obtain ⟨front, body, back, es, head, htext, hg, rfl⟩ := hquery.exists_groupAt
    cases hbelow
    exact ⟨front, body, back, es, [], head, htext, hg, List.forall_mem_nil _, rfl, rfl⟩
  | append_singleton names n ih =>
    rw [below?_concat, Option.bind_eq_some_iff] at hbelow
    obtain ⟨s, hs, hfield⟩ := hbelow
    have hgroup : s.isLeaf = false := by
      cases s with
      | leaf => cases hfield
      | group => rfl
    obtain ⟨front, body, back, es, path, head, htext, hg, hlive, rfl, rfl⟩ := ih hs hgroup
    rw [field?_group] at hfield
    obtain ⟨earlier, later, rfl, hlater⟩ := exists_split_of_lastNamed hfield
    obtain ⟨_, rfl⟩ := mem_of_lastNamed hfield
    cases node with
    | leaf => cases hleaf
    | group owner fields =>
      obtain ⟨front', inner, back', is, htext', rfl, hg'⟩ := hg.exists_nested
      refine ⟨front', inner, back', is, _, owner, htext.trans htext', hg', live_concat.mpr ⟨hlive, hlater⟩, ?_, rfl⟩
      rw [List.map_append, List.map_singleton]
      rfl

end Selection

end RecordQuery
