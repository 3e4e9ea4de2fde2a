import RecordQuery.Proofs.Keyed
import RecordQuery.Proofs.Text.Encoding
import RecordQuery.Record.Basic

/-!
# Requested fields of a record

A projection is the table of exactly the requested fields, with the values of the record, however often and in which order they
are requested (`project_eq_ok_iff`). If the record lacks some of them, the first of these in the order of the request is named
(`project_eq_error_iff_split`), which is the least one where the names ascend.
-/

namespace RecordQuery.Record

variable {r answer : Record} {names : List String} {field : String}

/-- The first field that is asked for is named if the record lacks it, whatever else is asked for. -/
theorem project_cons_of_lacks {name : String} (h : r.get? name = none) : r.project (name :: names) = .error name := by
  rw [project, h]

/-- A field that the record holds is put into the projection on the others. -/
theorem project_cons_of_holds {name : String} {value : Value} (h : r.get? name = some value) :
    r.project (name :: names) = (r.project names).map fun rest => rest.insert name value := by
  rw [project, h]

/-- Where the record holds all fields that are asked for, there is a projection. -/
theorem exists_project (h : ∀ name ∈ names, r.get? name ≠ none) : ∃ answer, r.project names = .ok answer := by
  induction names with
  | nil => exact ⟨_, rfl⟩
  | cons name names ih =>
    obtain ⟨hname, hnames⟩ := List.forall_mem_cons.mp h
    obtain ⟨value, hvalue⟩ := Option.ne_none_iff_exists'.mp hname
    obtain ⟨answer, hanswer⟩ := ih hnames
    exact ⟨_, by rw [project_cons_of_holds hvalue, hanswer]; rfl⟩

/-- A projection that is made has the fields that are asked for, all of them in the record, and no others. -/
theorem get?_project (h : r.project names = .ok answer) :
    (∀ name ∈ names, r.get? name ≠ none) ∧ ∀ name, answer.get? name = if name ∈ names then r.get? name else none := by
  induction names generalizing answer with
  | nil =>
    cases h
    exact ⟨fun name hname => absurd hname List.not_mem_nil, fun name => by rw [if_neg List.not_mem_nil, Table.get?_empty]⟩
  | cons first names ih =>
    cases hget : r.get? first with
    | none =>
      rw [project_cons_of_lacks hget] at h
      cases h
    | some value =>
      rw [project_cons_of_holds hget] at h
      cases hrest : r.project names with
      | error field =>
        rw [hrest] at h
        cases h
      | ok rest =>
        rw [hrest] at h
        cases h
        obtain ⟨hall, hvalues⟩ := ih hrest
        refine ⟨List.forall_mem_cons.mpr ⟨by simp [hget], hall⟩, fun name => ?_⟩
        rw [Table.get?_insert, hvalues]
        by_cases hname : name = first
        · subst hname
          simp [hget]
        · simp [hname]

/-- A projection is the table of exactly the requested fields, with the values of the record. -/
theorem project_eq_ok_iff :
    r.project names = .ok answer ↔
      (∀ name ∈ names, r.get? name ≠ none) ∧ (∀ name, name ∈ answer.keys ↔ name ∈ names) ∧
        ∀ name ∈ names, answer.get? name = r.get? name := by
  constructor
  · intro hp
    obtain ⟨hall, hvalues⟩ := get?_project hp
    refine ⟨hall, fun name => ?_, fun name hname => by rw [hvalues, if_pos hname]⟩
    rw [Table.mem_keys_iff, hvalues]
    by_cases hname : name ∈ names
    · simp [hname, hall name hname]
    · simp [hname]
  · rintro ⟨hall, hkeys, hvalues⟩
    obtain ⟨given, hp⟩ := exists_project hall
    rw [hp]
    refine congrArg Except.ok (Table.ext_get? fun name => ?_)
    rw [(get?_project hp).2]
    by_cases hname : name ∈ names
    · rw [if_pos hname, hvalues name hname]
    · have hnone : answer.get? name = none := by
        by_contra hsome
        exact hname ((hkeys name).mp (Table.mem_keys_iff.mpr hsome))
      rw [if_neg hname, hnone]

/-- The missing field that is named is the first one. -/
theorem project_eq_error_iff_split :
    r.project names = .error field ↔
      ∃ front back, names = front ++ field :: back ∧ (∀ name ∈ front, r.get? name ≠ none) ∧ r.get? field = none := by
  induction names with
  | nil => simp [project]
  | cons first names ih =>
    cases hget : r.get? first with
    | none =>
      rw [project_cons_of_lacks hget, Except.error.injEq]
      constructor
      · rintro rfl
        exact ⟨[], names, rfl, List.forall_mem_nil _, hget⟩
      · rintro ⟨front, back, hsplit, hfront, _⟩
        cases front with
        | nil => exact (List.cons.inj hsplit).1
        | cons name front =>
          obtain ⟨rfl, -⟩ := List.cons.inj hsplit
          exact absurd hget (hfront first List.mem_cons_self)
    | some value =>
      have hproject : r.project (first :: names) = .error field ↔ r.project names = .error field := by
        rw [project_cons_of_holds hget]
        cases r.project names <;> simp [Except.map]
      rw [hproject, ih]
      constructor
      · rintro ⟨front, back, rfl, hfront, hlacks⟩
        exact ⟨first :: front, back, rfl, List.forall_mem_cons.mpr ⟨by simp [hget], hfront⟩, hlacks⟩
      · rintro ⟨front, back, hsplit, hfront, hlacks⟩
        cases front with
        | nil =>
          obtain ⟨rfl, -⟩ := List.cons.inj hsplit
          rw [hget] at hlacks
          cases hlacks
        | cons name front => exact ⟨front, back, (List.cons.inj hsplit).2, (List.forall_mem_cons.mp hfront).2, hlacks⟩

/-- Of names that ascend, the missing field that is named is the least one. -/
theorem project_eq_error_iff (h : names.Pairwise fun a b => compare a b = .lt) {field : String} :
    r.project names = .error field ↔
      field ∈ names ∧ r.get? field = none ∧ ∀ name ∈ names, r.get? name = none → encodeUtf8 field ≤ encodeUtf8 name := by
  have hleast {field : String} (hp : r.project names = .error field) :
      field ∈ names ∧ r.get? field = none ∧ ∀ name ∈ names, r.get? name = none → encodeUtf8 field ≤ encodeUtf8 name := by
    obtain ⟨front, back, rfl, hfront, hlacks⟩ := project_eq_error_iff_split.mp hp
    obtain ⟨_, hback, _⟩ := List.pairwise_append.mp h
    refine ⟨List.mem_append_right _ List.mem_cons_self, hlacks, fun name hname hnone => ?_⟩
    rcases List.mem_append.mp hname with hname | hname
    · exact absurd hnone (hfront name hname)
    · rcases List.mem_cons.mp hname with rfl | hname
      · exact List.le_refl _
      · exact List.le_of_lt (encodeUtf8_lt_of_compare ((List.pairwise_cons.mp hback).1 name hname))
  refine ⟨hleast, fun ⟨hfield, hlacks, hfirst⟩ => ?_⟩
  cases hp : r.project names with
  | ok answer => exact absurd hlacks ((get?_project hp).1 field hfield)
  | error field' =>
    obtain ⟨hfield', hlacks', hfirst'⟩ := hleast hp
    exact congrArg Except.error (encodeUtf8_injective (List.le_antisymm (hfirst' field hfield hlacks) (hfirst field' hfield' hlacks')))

end RecordQuery.Record
