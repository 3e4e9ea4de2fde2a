import RecordQuery.Proofs.Query.Groups

/-!
# The order of entries

Where the entries of a field group are separated by commas (`Grammar.joined`), the text of the group may be put together from
them anew. Only the last entry of each name has a say in what the query denotes, whatever the others ask for
(`GroupAt.parse_of_lastNamed`): so entries with different names may change places, and an entry may go that a later one replaces.
-/

namespace RecordQuery

open Text Grammar

namespace Grammar

/-- An entry of a field group, with the number of field groups nested in each other in it, the one around included. -/
structure Entry where
  selection : Selection
  depth : Nat

/-- The name of the field for which the entry asks. -/
def Entry.name (e : Entry) : String := e.selection.name

/-- What stands between two commas of a field group: blanks, or one entry. -/
inductive ItemText : List Char → Option Entry → Prop where
  | blank {text : List Char} (hb : Blank text) : ItemText text none
  | leaf {name : List Char} (hn : FieldName name) : ItemText name (some ⟨.leaf ⟨wordOf name, none, []⟩, 1⟩)
  | group {head inner blanks : List Char} {owner : Head} {is : List Selection} {k : Nat} (ho : FieldHead head owner)
      (hi : Body inner is k) (hb : Blank blanks) :
      ItemText (head ++ '{' :: (inner ++ '}' :: blanks)) (some ⟨.group owner (fieldsOf is), k + 1⟩)

/-- A piece of the text of a field group, without the commas around it. -/
structure Item where
  text : List Char
  /-- The entry, if the text is not blank. -/
  entry : Option Entry
  written : ItemText text entry

/-- The text of items with commas between them. -/
def joined (items : List Item) : List Char := [','].intercalate (items.map Item.text)

/-- The entries of items. -/
def entriesOf (items : List Item) : List Entry := items.filterMap Item.entry

/-- The number of field groups nested in each other in a group with these entries. -/
def deepest (entries : List Entry) : Nat := (entries.map Entry.depth).foldr max 1

/-! ## The text of items -/

section Items

variable {text rest : List Char} {es : List Selection} {n : Nat} {entry : Option Entry}

theorem joined_cons_cons (item item' : Item) (items : List Item) :
    joined (item :: item' :: items) = item.text ++ ',' :: joined (item' :: items) := by
  simp [joined, List.intercalate_cons_cons]

theorem entriesOf_cons (item : Item) (items : List Item) :
    entriesOf (item :: items) = item.entry.toList ++ entriesOf items := by
  unfold entriesOf
  cases h : item.entry <;> simp [h]

theorem deepest_cons (e : Entry) (entries : List Entry) : deepest (e :: entries) = max e.depth (deepest entries) := rfl

/-- An item may stand in front of a comma and at the end of a field group. -/
theorem ItemText.body (h : ItemText text entry) (he : rest = [] ∨ rest.head? = some ',') {entries : List Entry}
    (hr : Body rest (entries.map Entry.selection) (deepest entries)) :
    Body (text ++ rest) ((entry.toList ++ entries).map Entry.selection) (deepest (entry.toList ++ entries)) := by
  cases h with
  | blank hb => exact .blanks hb hr
  | leaf hn =>
    have hone := hr.one_le
    rw [Option.toList_some, List.singleton_append, deepest_cons, Nat.max_eq_right hone]
    exact .leaf hn he hr
  | group ho hi hb =>
    rw [List.append_assoc, List.cons_append, List.append_assoc, List.cons_append]
    exact .group ho hi (.blanks hb hr)

/-- Items with commas between them make up a field group. -/
theorem body_joined (items : List Item) :
    Body (joined items) ((entriesOf items).map Entry.selection) (deepest (entriesOf items)) := by
  induction items with
  | nil => exact .done
  | cons item items ih =>
    rw [entriesOf_cons]
    cases items with
    | nil =>
      have hlast : Body (item.text ++ []) _ _ := item.written.body (.inl rfl) ih
      simpa [joined] using hlast
    | cons item' items =>
      rw [joined_cons_cons]
      exact item.written.body (.inr rfl) (.comma ih)

end Items

/-! ## The entries that count -/

section Entries

variable {entries entries' : List Entry}

/-- A bound for the nesting of entries is one for the group around them and for each of them. -/
theorem deepest_le_iff {n : Nat} : deepest entries ≤ n ↔ 1 ≤ n ∧ ∀ e ∈ entries, e.depth ≤ n := by
  induction entries with
  | nil => simp [deepest]
  | cons e entries ih =>
    rw [deepest_cons, Nat.max_le, ih, List.forall_mem_cons]
    exact and_left_comm

/-- Fewer entries have no more field groups nested in each other. -/
theorem deepest_le_of_subset (h : entries' ⊆ entries) : deepest entries' ≤ deepest entries := by
  obtain ⟨hone, hall⟩ := deepest_le_iff.mp (Nat.le_refl (deepest entries))
  exact deepest_le_iff.mpr ⟨hone, fun e he => hall e (h he)⟩

/-- The last entry of a name is found among the entries of this name. -/
theorem lastNamed_map_selection (entries : List Entry) (name : String) :
    lastNamed (entries.map Entry.selection) name = ((entries.filter (·.name = name)).map Entry.selection).getLast? := by
  rw [lastNamed, List.filter_map]
  rfl

/-- Two entries with different names may change places. -/
theorem filter_name_swap {e e' : Entry} (h : e.name ≠ e'.name) (entries : List Entry) (name : String) :
    (e :: e' :: entries).filter (·.name = name) = (e' :: e :: entries).filter (·.name = name) := by
  by_cases he : e.name = name
  · have he' : e'.name ≠ name := fun he' => h (he.trans he'.symm)
    simp [he, he']
  · simp [List.filter_cons, he]

/-- Without an entry that a later one replaces, the last entry of each name is the same. -/
theorem lastNamed_erase {earlier later : List Selection} {e : Selection} (h : ∃ f ∈ later, f.name = e.name) (name : String) :
    lastNamed (earlier ++ later) name = lastNamed (earlier ++ e :: later) name := by
  unfold lastNamed
  by_cases hname : e.name = name
  · obtain ⟨f, hf, hfname⟩ := h
    have hne : later.filter (·.name = name) ≠ [] := by
      refine List.ne_nil_of_mem (List.mem_filter.mpr ⟨hf, ?_⟩)
      simp [hfname, hname]
    rw [List.filter_append, List.filter_append, List.filter_cons_of_pos (by simpa using hname)]
    rw [List.getLast?_append_of_ne_nil _ hne, List.getLast?_append_of_ne_nil _ (List.cons_ne_nil _ _)]
    rw [← List.singleton_append, List.getLast?_append_of_ne_nil _ hne]
  · simp [hname]

end Entries

variable {query : String} {t : Selection} {limit : Nat} {front back : List Char} {es : List Selection} {path : List Step}
  {items items' : List Item}

/-- A query is read as before if a group of it is put together anew from entries that it had, with the same last one of each
name. -/
theorem GroupAt.parse_of_lastNamed (hg : GroupAt front (joined items) back es path)
    (htext : query.toList = front ++ (joined items ++ back)) (h : Selection.parse query limit = .ok t)
    (hsubset : entriesOf items' ⊆ entriesOf items)
    (hlast : ∀ name, lastNamed ((entriesOf items').map Entry.selection) name =
      lastNamed ((entriesOf items).map Entry.selection) name) :
    Selection.parse (String.ofList (front ++ (joined items' ++ back))) limit = .ok t :=
  hg.parse_congr (body_joined items) (body_joined items') (fieldsOf_congr hlast) (deepest_le_of_subset hsubset) htext h

end Grammar

/-- In each group of a query that is read, if its entries are separated by commas: with the entries in another order, in which
those of one name stand as before, the query is read as the same selection, and so it is without an entry that a later one of its
name replaces. -/
theorem Selection.parse_rearranged {query : String} {t : Selection} {limit : Nat} {front back : List Char}
    {es : List Selection} {path : List Step} {items : List Item} (h : parse query limit = .ok t)
    (hg : GroupAt front (joined items) back es path) (htext : query.toList = front ++ (joined items ++ back)) :
    (∀ items', (entriesOf items').Perm (entriesOf items) →
        (∀ name, (entriesOf items').filter (·.name = name) = (entriesOf items).filter (·.name = name)) →
          parse (String.ofList (front ++ (joined items' ++ back))) limit = .ok t) ∧
      ∀ items' earlier e later, entriesOf items = earlier ++ e :: later → (∃ f ∈ later, f.name = e.name) →
        entriesOf items' = earlier ++ later → parse (String.ofList (front ++ (joined items' ++ back))) limit = .ok t := by
  constructor
  · intro items' hperm hnames
    refine hg.parse_of_lastNamed htext h hperm.subset fun name => ?_
    rw [lastNamed_map_selection, lastNamed_map_selection, hnames]
  · intro items' earlier e later hitems hreplaced hitems'
    refine hg.parse_of_lastNamed htext h ?subset fun name => ?last
    case subset =>
      rw [hitems, hitems']
      simp
    case last =>
      obtain ⟨f, hf, hname⟩ := hreplaced
      have hfield : ∃ g ∈ later.map Entry.selection, g.name = e.selection.name :=
        ⟨f.selection, List.mem_map_of_mem hf, hname⟩
      rw [hitems, hitems', List.map_append, List.map_append, List.map_cons]
      exact lastNamed_erase hfield name

/-- A field with a group of its own before a plain field of its name and another one: put behind the other one, and left out. -/
theorem Selection.parse_rearranged_repeated :
    parse "a()\x7bb(1)\x7bx\x7d, c ,b\x7d" 2 = .ok (.group ⟨"a", none, []⟩ [.leaf ⟨"b", none, []⟩, .leaf ⟨"c", none, []⟩]) ∧
      parse "a()\x7b c ,b(1)\x7bx\x7d,b\x7d" 2 = .ok (.group ⟨"a", none, []⟩ [.leaf ⟨"b", none, []⟩, .leaf ⟨"c", none, []⟩]) ∧
      parse "a()\x7b c ,b\x7d" 2 = .ok (.group ⟨"a", none, []⟩ [.leaf ⟨"b", none, []⟩, .leaf ⟨"c", none, []⟩]) := by
  have hparse : parse "a()\x7bb(1)\x7bx\x7d, c ,b\x7d" 2 =
      .ok (.group ⟨"a", none, []⟩ [.leaf ⟨"b", none, []⟩, .leaf ⟨"c", none, []⟩]) := by
    decide +kernel
  have hb : FieldName ['b'] := fieldName_singleton (by decide) rfl
  have hx : FieldName ['x'] := fieldName_singleton (by decide) rfl
  have hc : FieldName [' ', 'c', ' '] :=
    ⟨by simp [Avoids, fieldStops], fun h => absurd (h 'c' (by simp)) (by decide)⟩
  have hone : Qualifier ('(' :: (['1'] ++ ')' :: ([] ++ []))) (some "1") [] :=
    .argument (by simp [Avoids, argumentStops]) .nil layout_nil
  have ha : RootName ['a'] := ⟨List.cons_ne_nil _ _, avoids_cons.mpr ⟨by decide, avoids_nil _⟩⟩
  have hinner : Body (['x'] ++ []) _ 1 := .leaf hx (.inl rfl) .done
  have hlong : ItemText _ _ := .group (.qualified hb hone) hinner blank_nil
  obtain ⟨hpermuted, hdeleted⟩ := @parse_rearranged _ _ _ _ _ _ _ [⟨_, _, hlong⟩, ⟨_, _, .leaf hc⟩, ⟨_, _, .leaf hb⟩] hparse
    (.root ha qualifier_parens (body_joined _) blank_nil) rfl
  refine ⟨hparse, ?_, ?_⟩
  · refine hpermuted [⟨_, _, .leaf hc⟩, ⟨_, _, hlong⟩, ⟨_, _, .leaf hb⟩] (.swap _ _ _) fun name => ?_
    exact filter_name_swap (by decide) _ name
  · exact hdeleted [⟨_, _, .leaf hc⟩, ⟨_, _, .leaf hb⟩] [] _ _ rfl
      ⟨_, List.mem_cons_of_mem _ List.mem_cons_self, rfl⟩ rfl

end RecordQuery
