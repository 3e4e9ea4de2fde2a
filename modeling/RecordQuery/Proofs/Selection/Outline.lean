import Mathlib.Data.List.Forall2
import RecordQuery.Proofs.Json.Ordered
import RecordQuery.Proofs.Query.Image
import RecordQuery.Selection.Outline

/-!
# What outlines say

The outline of what a query asks for says all of it: selections with the same outline are the same (`Selection.outline_eq_iff`).
An outline is told by its members (`Json.member?`). What a head says is under keys of its own, and since nothing but the name is
said about a leaf of a query, the key of a `null` says all there is to say about it.
-/

namespace RecordQuery

namespace Json

/-- The member of an object under a key. -/
def member? (key : String) : Json → Option Json
  | .object members => members.lookup key
  | _ => none

end Json

/-! ## Heads -/

/-- The outline of a call tells the call. -/
theorem Call.outline_injective {c d : Call} (h : c.outline = d.outline) : c = d := by
  obtain ⟨name, argument⟩ := c
  obtain ⟨name', argument'⟩ := d
  have hname := congrArg (Json.member? "name") h
  have hargument := congrArg (Json.member? "argument") h
  cases argument <;> cases argument' <;> simp_all [outline, argumentMember, Json.member?, List.lookup_cons]

/-- The calls are told by what stands under their key. -/
theorem eq_of_lookup_callsMember {cs ds : List Call} (h : (callsMember cs).lookup "calls" = (callsMember ds).lookup "calls") :
    cs = ds := by
  cases cs with
  | nil =>
    cases ds with
    | nil => rfl
    | cons d ds => cases h
  | cons c cs =>
    cases ds with
    | nil => cases h
    | cons d ds =>
      simp only [callsMember, List.lookup_cons, beq_self_eq_true, Option.some.injEq, Json.array.injEq] at h
      exact List.map_injective_iff.mpr (fun _ _ => Call.outline_injective) h

/-- What stands under each key in the outline of a group. -/
theorem Head.member?_outline (h : Head) (fields : Json) :
    (h.outline [("fields", fields)]).member? "argument" = h.argument.map .string ∧
      (h.outline [("fields", fields)]).member? "calls" = (callsMember h.calls).lookup "calls" ∧
      (h.outline [("fields", fields)]).member? "fields" = some fields ∧
      (h.outline [("fields", fields)]).member? "name" = some (.string h.name) := by
  obtain ⟨name, argument, calls⟩ := h
  cases argument <;> cases calls <;> simp [outline, argumentMember, callsMember, Json.member?, List.lookup_cons]

/-- The outline of a group tells its head and what is said about its fields. -/
theorem Head.outline_injective {h k : Head} {fields fields' : Json}
    (he : h.outline [("fields", fields)] = k.outline [("fields", fields')]) : h = k ∧ fields = fields' := by
  obtain ⟨hargument, hcalls, hfields, hname⟩ := h.member?_outline fields
  obtain ⟨kargument, kcalls, kfields, kname⟩ := k.member?_outline fields'
  rw [he] at hargument hcalls hfields hname
  have hargument : h.argument = k.argument :=
    Option.map_injective (fun _ _ => Json.string.inj) (hargument.symm.trans kargument)
  have hcalls : h.calls = k.calls := eq_of_lookup_callsMember (hcalls.symm.trans kcalls)
  have hname : h.name = k.name := Json.string.inj (Option.some.inj (hname.symm.trans kname))
  obtain ⟨name, argument, calls⟩ := h
  exact ⟨by subst hargument hcalls hname; rfl, Option.some.inj (hfields.symm.trans kfields)⟩

/-! ## The order of the members -/

/-- The keys that occur in outlines, in their order. -/
def outlineKeys : List String := ["argument", "calls", "fields", "name"]

/-- Members ascend if their keys come from those of outlines, in their order. -/
theorem ascending_of_keys {members : List (String × Json)} (h : (members.map Prod.fst).Sublist outlineKeys) :
    Keyed.Ascending Prod.fst members := by
  have hkeys : outlineKeys.Pairwise fun k l => compare k l = .lt := by decide +kernel
  exact List.pairwise_map.mp (hkeys.sublist h)

/-- An argument is told under its own key, if there is one. -/
theorem keys_argumentMember (argument : Option String) : ((argumentMember argument).map Prod.fst).Sublist ["argument"] := by
  cases argument with
  | none => exact List.nil_sublist _
  | some => exact List.Sublist.refl _

theorem keys_callsMember (cs : List Call) : ((callsMember cs).map Prod.fst).Sublist ["calls"] := by
  cases cs with
  | nil => exact List.nil_sublist _
  | cons => exact List.Sublist.refl _

/-- What is told about an argument is in order. -/
theorem ordered_argumentMember (argument : Option String) : ∀ m ∈ argumentMember argument, m.2.Ordered := by
  cases argument with
  | none => exact List.forall_mem_nil _
  | some text => exact List.forall_mem_singleton.mpr (.string text)

theorem Call.ordered_outline (c : Call) : c.outline.Ordered := by
  have hkeys : (["argument"] ++ ["name"]).Sublist outlineKeys := by decide
  refine .object (ascending_of_keys ?_) ?_
  · rw [List.map_append]
    exact ((keys_argumentMember c.argument).append (.refl ["name"])).trans hkeys
  · exact List.forall_mem_append.mpr ⟨ordered_argumentMember c.argument, List.forall_mem_singleton.mpr (.string c.name)⟩

theorem ordered_callsMember (cs : List Call) : ∀ m ∈ callsMember cs, m.2.Ordered := by
  cases cs with
  | nil => exact List.forall_mem_nil _
  | cons c cs =>
    refine List.forall_mem_singleton.mpr (.array fun j hj => ?_)
    obtain ⟨d, _, rfl⟩ := List.mem_map.mp hj
    exact d.ordered_outline

/-- The outline of a group is in order if what it says about the fields is. -/
theorem Head.ordered_outline (h : Head) {fields : Json} (hf : fields.Ordered) :
    (h.outline [("fields", fields)]).Ordered := by
  have hkeys := (keys_argumentMember h.argument).append (keys_callsMember h.calls)
  refine .object (ascending_of_keys ?_) ?_
  · simp only [List.map_append]
    exact (hkeys.append (.refl ["fields"])).append (.refl ["name"])
  · refine List.forall_mem_append.mpr ⟨List.forall_mem_append.mpr ⟨List.forall_mem_append.mpr ⟨?_, ?_⟩, ?_⟩, ?_⟩
    · exact ordered_argumentMember h.argument
    · exact ordered_callsMember h.calls
    · exact List.forall_mem_singleton.mpr hf
    · exact List.forall_mem_singleton.mpr (.string h.name)

namespace Selection

/-! ## Fields -/

/-- What stands under the name of a field. -/
def entry : Selection → Json
  | leaf h => if h.isBare then .null else outline (leaf h)
  | group h fs => outline (group h fs)

/-- The fields are told one by one, each by its name and what stands under it. -/
theorem fieldOutlines_eq_map (fs : List Selection) : fieldOutlines fs = fs.map fun f => (f.name, f.entry) := by
  induction fs with
  | nil => rfl
  | cons f fs ih =>
    rw [List.map_cons, ← ih]
    cases f with
    | leaf h => rfl
    | group h gs => rfl

/-- Fields of which each is told by its name and what stands under it are told by their outlines. -/
theorem eq_of_fieldOutlines {fs gs : List Selection}
    (hf : ∀ f ∈ fs, ∀ g, g.IsField → f.name = g.name → f.entry = g.entry → f = g) (hg : ∀ g ∈ gs, g.IsField)
    (h : fieldOutlines fs = fieldOutlines gs) : fs = gs := by
  rw [fieldOutlines_eq_map, fieldOutlines_eq_map] at h
  induction fs generalizing gs with
  | nil => exact (List.map_eq_nil_iff.mp h.symm).symm
  | cons f fs ih =>
    cases gs with
    | nil => cases h
    | cons g gs =>
      obtain ⟨hhead, htail⟩ := List.cons.inj h
      obtain ⟨hname, hentry⟩ := Prod.mk.inj hhead
      obtain ⟨hf, hfs⟩ := List.forall_mem_cons.mp hf
      obtain ⟨hg, hgs⟩ := List.forall_mem_cons.mp hg
      rw [hf g hg hname hentry, ih hfs hgs htail]

/-- A field that can be asked for is told by its name and what stands under it. -/
theorem IsField.eq_of_entry {f : Selection} (hf : f.IsField) :
    ∀ g, g.IsField → f.name = g.name → f.entry = g.entry → f = g := by
  induction hf with
  | @leaf name hn =>
    -- `null` leaves out the name, which the key has
    intro g hg hname hentry
    cases hg with
    | leaf => exact congrArg (fun name => Selection.leaf { name }) hname
    | group => cases hentry
  | @group h fields hn hq ha _ ih =>
    intro g hg _ hentry
    cases hg with
    | leaf => cases hentry
    | @group k fields' _ _ _ hf' =>
      obtain ⟨rfl, hfields⟩ := Head.outline_injective hentry
      rw [eq_of_fieldOutlines ih hf' (Json.object.inj hfields)]

/-- What a query asks for is told by its outline. -/
theorem IsQuery.eq_of_outline {t t' : Selection} (h : t.IsQuery) (h' : t'.IsQuery) (he : t.outline = t'.outline) :
    t = t' := by
  obtain @⟨h, fields, _, _, _, hf⟩ := h
  obtain @⟨h', fields', _, _, _, hf'⟩ := h'
  obtain ⟨rfl, hfields⟩ := Head.outline_injective he
  rw [eq_of_fieldOutlines (fun f hm => (hf f hm).eq_of_entry) hf' (Json.object.inj hfields)]

/-! ## The order of the fields -/

/-- What is told about fields that ascend stands under keys that ascend. -/
theorem ascending_fieldOutlines {fs : List Selection} (h : Keyed.Ascending name fs) :
    Keyed.Ascending Prod.fst (fieldOutlines fs) := by
  rw [fieldOutlines_eq_map]
  exact List.pairwise_map.mpr h

/-- What is told about fields that ascend is in order, if it is for each of them. -/
theorem ordered_fieldOutlines {fs : List Selection} (ha : Keyed.Ascending name fs) (h : ∀ f ∈ fs, f.entry.Ordered) :
    (Json.object (fieldOutlines fs)).Ordered := by
  refine .object (ascending_fieldOutlines ha) fun m hm => ?_
  rw [fieldOutlines_eq_map] at hm
  obtain ⟨f, hf, rfl⟩ := List.mem_map.mp hm
  exact h f hf

/-- What stands under the name of a field is in order, at every depth. -/
theorem IsField.ordered_entry {f : Selection} (hf : f.IsField) : f.entry.Ordered := by
  induction hf with
  | leaf => exact .null
  | group _ _ ha _ ih => exact Head.ordered_outline _ (ordered_fieldOutlines ha ih)

/-- The outline of a query is in order. -/
theorem IsQuery.ordered_outline {t : Selection} (h : t.IsQuery) : t.outline.Ordered := by
  obtain @⟨h, fields, _, _, ha, hf⟩ := h
  exact h.ordered_outline (ordered_fieldOutlines ha fun f hm => (hf f hm).ordered_entry)

/-! ## The parts of a selection -/

/-- A selection in a tree: the tree itself or a field of a part. -/
inductive Part (t : Selection) : Selection → Prop where
  | whole : Part t t
  | field {s f : Selection} (hs : Part t s) (hf : f ∈ s.fields) : Part t f

/-- A member under `"fields"` is the one for a field: `null` if the field is a leaf, and otherwise the outline of the field,
which has fields of its own. -/
structure IsEntry (f : Selection) (member : String × Json) : Prop where
  key : member.1 = f.name
  null_iff : member.2 = .null ↔ f.isLeaf = true
  outline : f.isLeaf = false → member.2 = f.outline ∧ ∃ members, member.2.member? "fields" = some (.object members)

/-- The outline has a member for every field of the selection, and no other ones, under `"fields"`. -/
def TellsFields (s : Selection) : Prop :=
  ∃ members, s.outline.member? "fields" = some (.object members) ∧ List.Forall₂ IsEntry s.fields members

/-- A group tells its fields under a key of its own. -/
theorem member?_outline_group (h : Head) (fs : List Selection) :
    (group h fs).outline.member? "fields" = some (.object (fieldOutlines fs)) :=
  (h.member?_outline _).2.2.1

/-- What stands under the name of a field is a member for it. -/
theorem IsField.isEntry {f : Selection} (hf : f.IsField) : IsEntry f (f.name, f.entry) := by
  cases hf with
  | leaf => exact ⟨rfl, ⟨fun _ => rfl, fun _ => rfl⟩, nofun⟩
  | @group h fields => exact ⟨rfl, ⟨nofun, nofun⟩, fun _ => ⟨rfl, _, member?_outline_group h fields⟩⟩

/-- The outline of a group tells its fields. -/
theorem tellsFields_group (h : Head) {fs : List Selection} (hf : ∀ f ∈ fs, f.IsField) : (group h fs).TellsFields := by
  refine ⟨_, member?_outline_group h fs, ?_⟩
  rw [fieldOutlines_eq_map]
  exact List.forall₂_map_right_iff.mpr (List.forall₂_same.mpr fun f hm => (hf f hm).isEntry)

/-- The fields below a field have the shape of fields. -/
theorem IsField.fields {f : Selection} (hf : f.IsField) : ∀ g ∈ f.fields, g.IsField := by
  cases hf with
  | leaf => exact List.forall_mem_nil _
  | group _ _ _ hfields => exact hfields

theorem IsQuery.fields {t : Selection} (h : t.IsQuery) : ∀ g ∈ t.fields, g.IsField := by
  obtain ⟨_, _, _, hf⟩ := h
  exact hf

/-- The fields of each part of a query have the shape of fields. -/
theorem Part.fields {t s : Selection} (h : t.IsQuery) (hs : t.Part s) : ∀ f ∈ s.fields, f.IsField := by
  induction hs with
  | whole => exact h.fields
  | field _ hf ih => exact (ih _ hf).fields

/-- The outline of each part of a query that is no leaf tells its fields. -/
theorem Part.tellsFields {t s : Selection} (h : t.IsQuery) (hs : t.Part s) (hleaf : s.isLeaf = false) : s.TellsFields := by
  cases s with
  | leaf => cases hleaf
  | group head fs => exact tellsFields_group head (hs.fields h)

/-! ## What a query asks for is told by its outline -/

/-- The outlines of two queries that are read are equal exactly when the queries ask for the same, whatever the limits. They are
in order, so that they are equal as documents if they are equal as tables; and under `"fields"` each of them tells the fields, at
every depth: the bare ones by `null`, the others by outlines with fields of their own. -/
theorem outline_eq_iff {query query' : String} {limit limit' : Nat} {t t' : Selection}
    (h : Selection.parse query limit = .ok t) (h' : Selection.parse query' limit' = .ok t') :
    (t.outline = t'.outline ↔ t = t') ∧ t.outline.Ordered ∧ ∀ s, t.Part s → s.isLeaf = false → s.TellsFields := by
  have hq : ∀ {query limit t}, Selection.parse query limit = .ok t → t.IsQuery := by
    intro query limit t h
    obtain ⟨n, _, hquery⟩ := Selection.query_of_parse h
    exact hquery.isQuery.1
  refine ⟨⟨(hq h).eq_of_outline (hq h'), congrArg outline⟩, (hq h).ordered_outline, ?_⟩
  exact fun s hs hleaf => hs.tellsFields (hq h) hleaf

/-- A bare field and one with an empty group have different outlines. -/
theorem outline_eq_iff_emptyGroup :
    ∃ t t', parse "a(1)\x7bb\x7d" = .ok t ∧ parse "a(1)\x7bb()\x7b\x7d\x7d" 2 = .ok t' ∧ ¬t.outline = t'.outline ∧
      t'.TellsFields := by
  have h : parse "a(1)\x7bb\x7d" = .ok (.group ⟨"a", some "1", []⟩ [.leaf ⟨"b", none, []⟩]) := by decide +kernel
  have h' : parse "a(1)\x7bb()\x7b\x7d\x7d" 2 = .ok (.group ⟨"a", some "1", []⟩ [.group ⟨"b", none, []⟩ []]) := by
    decide +kernel
  refine ⟨_, _, h, h', fun he => ?_, (outline_eq_iff h' h).2.2 _ .whole rfl⟩
  exact absurd ((outline_eq_iff h h').1.mp he) (by decide)

end Selection

end RecordQuery
