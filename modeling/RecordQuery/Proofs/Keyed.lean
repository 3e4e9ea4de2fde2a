import RecordQuery.Keyed

/-!
# Keyed lists, put together item by item

Inserting the items of a list one after the other gives a keyed list of some of them. A list whose keys ascend already is given
back as it is, since every item finds its place at the end. A keyed list is its look-up: after an insertion the new item is
found under its key and all others as before (`find?_insert`), and a table is determined by the values under its keys
(`Table.ext_get?`).
-/

namespace RecordQuery

namespace Keyed

universe u v

variable {κ : Type u} {α : Type v} [Ord κ] {key : α → κ}

/-- An item whose key is greater than all others is put at the end. -/
theorem insert_eq_append [Std.OrientedOrd κ] {a : α} {items : List α}
    (h : ∀ b ∈ items, compare (key b) (key a) = .lt) : insert key a items = items ++ [a] := by
  induction items with
  | nil => rfl
  | cons b items ih =>
    have hb : compare (key a) (key b) = .gt := Std.OrientedCmp.gt_of_lt (h b List.mem_cons_self)
    have hi := ih fun c hc => h c (List.mem_cons_of_mem b hc)
    rw [insert, hb, List.cons_append]
    exact congrArg (b :: ·) hi

/-- Inserting items keeps the keys ascending. -/
theorem ascending_foldl_insert [Std.TransOrd κ] {fields : List α} (h : Ascending key fields) (items : List α) :
    Ascending key (items.foldl (fun fields a => insert key a fields) fields) := by
  induction items generalizing fields with
  | nil => exact h
  | cons a items ih => exact ih (ascending_insert h)

/-- What is there after inserting items was there before or is one of them. -/
theorem mem_foldl_insert {x : α} {fields items : List α}
    (h : x ∈ items.foldl (fun fields a => insert key a fields) fields) : x ∈ fields ∨ x ∈ items := by
  induction items generalizing fields with
  | nil => exact .inl h
  | cons a items ih =>
    rcases ih h with h | h
    · rcases mem_insert h with rfl | h
      · exact .inr List.mem_cons_self
      · exact .inl h
    · exact .inr (List.mem_cons_of_mem a h)

/-- Inserting items with ascending keys behind others puts them there as they are. -/
theorem foldl_insert_of_ascending [Std.OrientedOrd κ] {fields items : List α} (h : Ascending key (fields ++ items)) :
    items.foldl (fun fields a => insert key a fields) fields = fields ++ items := by
  induction items generalizing fields with
  | nil => rw [List.foldl_nil, List.append_nil]
  | cons a items ih =>
    have hlt : ∀ b ∈ fields, compare (key b) (key a) = .lt := by
      intro b hb
      exact (List.pairwise_append.mp h).2.2 b hb a List.mem_cons_self
    have hsnoc : fields ++ a :: items = fields ++ [a] ++ items := by
      rw [List.append_assoc, List.singleton_append]
    rw [hsnoc] at h ⊢
    rw [List.foldl_cons, insert_eq_append hlt]
    exact ih h

/-! ## Look-up -/

section LookUp

variable [Std.TransOrd κ]

/-- An item is found under its key after it is inserted, and under other keys what was there before. -/
theorem find?_insert (k : κ) (a : α) (items : List α) :
    find? key k (insert key a items) = if compare k (key a) = .eq then some a else find? key k items := by
  induction items with
  | nil => cases hka : compare k (key a) <;> simp [find?, insert, hka]
  | cons b items ih =>
    cases hab : compare (key a) (key b) with
    | lt =>
      cases hka : compare k (key a) with
      | lt =>
        have hkb : compare k (key b) = .lt := Std.TransCmp.lt_trans hka hab
        simp [find?, insert, hab, hka, hkb]
      | eq | gt => simp [find?, insert, hab, hka]
    | eq =>
      have hkb : compare k (key a) = compare k (key b) := Std.TransCmp.congr_right hab
      cases hka : compare k (key b) <;> simp [find?, insert, hab, hkb, hka]
    | gt =>
      have hba : compare (key b) (key a) = .lt := Std.OrientedCmp.lt_of_gt hab
      cases hkb : compare k (key b) with
      | lt =>
        have hka : compare k (key a) = .lt := Std.TransCmp.lt_trans hkb hba
        simp [find?, insert, hab, hkb, hka]
      | eq =>
        have hka : compare k (key a) = .lt := Std.TransCmp.lt_of_eq_of_lt hkb hba
        simp [find?, insert, hab, hkb, hka]
      | gt => simp only [find?, insert, hab, hkb, ih]

/-- Of two items with one key that are inserted one after the other, the first is gone. -/
theorem insert_insert {a b : α} (h : compare (key a) (key b) = .eq) (items : List α) :
    insert key a (insert key b items) = insert key a items := by
  induction items with
  | nil => simp [insert, h]
  | cons c items ih =>
    have hc : compare (key a) (key c) = compare (key b) (key c) := Std.TransCmp.congr_left h
    cases hbc : compare (key b) (key c) with
    | lt | eq => simp [insert, hbc, hc, h]
    | gt => simp [insert, hbc, hc, ih]

/-- What is found is an item with the key. -/
theorem find?_eq_some_iff {k : κ} {a : α} {items : List α} (h : Ascending key items) :
    find? key k items = some a ↔ a ∈ items ∧ compare k (key a) = .eq := by
  induction items with
  | nil => simp [find?]
  | cons b items ih =>
    obtain ⟨hb, hitems⟩ := List.pairwise_cons.mp h
    -- an item behind `b` has no key up to that of `b`
    have hbehind (hk : compare k (key b) ≠ .gt) (ha : a ∈ items) : compare k (key a) = .lt := by
      cases hkb : compare k (key b) with
      | lt => exact Std.TransCmp.lt_trans hkb (hb a ha)
      | eq => exact Std.TransCmp.lt_of_eq_of_lt hkb (hb a ha)
      | gt => exact absurd hkb hk
    cases hkb : compare k (key b) with
    | lt =>
      simp only [find?, hkb, reduceCtorEq, List.mem_cons, false_iff, not_and]
      rintro (rfl | ha)
      · simp [hkb]
      · simp [hbehind (by simp [hkb]) ha]
    | eq =>
      simp only [find?, hkb, Option.some.injEq, List.mem_cons]
      constructor
      · rintro rfl
        exact ⟨.inl rfl, hkb⟩
      · rintro ⟨rfl | ha, hka⟩
        · rfl
        · simp [hbehind (by simp [hkb]) ha] at hka
    | gt =>
      simp only [find?, hkb, ih hitems, List.mem_cons]
      constructor
      · exact fun ⟨ha, hka⟩ => ⟨.inr ha, hka⟩
      · rintro ⟨rfl | ha, hka⟩
        · simp [hkb] at hka
        · exact ⟨ha, hka⟩

/-- Keyed lists with the same items are the same. -/
theorem eq_of_mem_iff {as bs : List α} (ha : Ascending key as) (hb : Ascending key bs) (h : ∀ a, a ∈ as ↔ a ∈ bs) :
    as = bs := by
  have hne {a b : α} (hab : compare (key a) (key b) = .lt) : a ≠ b := by
    rintro rfl
    simp at hab
  have hperm : as.Perm bs := (List.perm_ext_iff_of_nodup (ha.imp hne) (hb.imp hne)).mpr h
  refine hperm.eq_of_pairwise (fun a b _ _ hab hba => ?_) ha hb
  have hnot : compare (key b) (key a) ≠ .lt := Std.OrientedCmp.not_lt_of_lt hab
  exact absurd hba hnot

/-- An item is the only one with its key. -/
theorem eq_of_key_eq {a b : α} {items : List α} (h : Ascending key items) (ha : a ∈ items) (hb : b ∈ items)
    (hk : key a = key b) : a = b := by
  have hfound : find? key (key a) items = some a := (find?_eq_some_iff h).mpr ⟨ha, Std.ReflCmp.compare_self⟩
  have hfound' : find? key (key a) items = some b := (find?_eq_some_iff h).mpr ⟨hb, hk ▸ Std.ReflCmp.compare_self⟩
  exact Option.some.inj (hfound.symm.trans hfound')

end LookUp

end Keyed

namespace Table

variable {κ : Type u} {α : Type v} [Ord κ]

theorem get?_empty (k : κ) : (empty : Table κ α).get? k = none := rfl

/-- The entries of a table that is put together from pairs are the pairs, inserted from left to right. -/
theorem entries_ofList [Std.TransOrd κ] (entries : List (κ × α)) :
    (ofList entries).entries = entries.foldl (fun fields e => Keyed.insert Prod.fst e fields) [] :=
  (List.foldl_hom Table.entries fun _ _ => rfl).symm

/-- A table that is put together from pairs holds none but these. -/
theorem mem_of_mem_ofList [Std.TransOrd κ] {e : κ × α} {entries : List (κ × α)} (h : e ∈ (ofList entries).entries) :
    e ∈ entries := by
  rw [entries_ofList] at h
  exact (Keyed.mem_foldl_insert h).resolve_left List.not_mem_nil

variable [Std.TransOrd κ] [Std.LawfulEqOrd κ] {t u : Table κ α}

/-- A value is found under its key after it is put there, and under other keys what was there before. -/
theorem get?_insert [DecidableEq κ] (t : Table κ α) (k k' : κ) (a : α) :
    (t.insert k a).get? k' = if k' = k then some a else t.get? k' := by
  rw [get?, insert, Keyed.find?_insert]
  simp only [Std.LawfulEqCmp.compare_eq_iff_eq]
  split <;> rfl

/-- A value is under a key exactly if the key and the value are an entry. -/
theorem get?_eq_some_iff {k : κ} {a : α} : t.get? k = some a ↔ (k, a) ∈ t.entries := by
  simp only [get?, Option.map_eq_some_iff, Keyed.find?_eq_some_iff t.ascending, Std.LawfulEqCmp.compare_eq_iff_eq]
  constructor
  · rintro ⟨⟨k, a⟩, ⟨h, rfl⟩, rfl⟩
    exact h
  · exact fun h => ⟨(k, a), ⟨h, rfl⟩, rfl⟩

/-- Pairs with other keys do not change what is under a key. -/
theorem get?_foldl_insert_of_ne {k : κ} {entries : List (κ × α)} (h : ∀ e ∈ entries, e.1 ≠ k) :
    (entries.foldl (fun t e => t.insert e.1 e.2) t).get? k = t.get? k := by
  classical
  induction entries generalizing t with
  | nil => rfl
  | cons e entries ih =>
    obtain ⟨he, hentries⟩ := List.forall_mem_cons.mp h
    rw [List.foldl_cons, ih hentries, get?_insert, if_neg (Ne.symm he)]

/-- A pair that is put into a table is found there, if no key comes twice among the pairs. -/
theorem get?_foldl_insert_of_mem {e : κ × α} {entries : List (κ × α)} (hn : (entries.map Prod.fst).Nodup)
    (he : e ∈ entries) : (entries.foldl (fun t e => t.insert e.1 e.2) t).get? e.1 = some e.2 := by
  classical
  induction entries generalizing t with
  | nil => cases he
  | cons e' entries ih =>
    obtain ⟨hfirst, hrest⟩ := List.nodup_cons.mp hn
    rcases List.mem_cons.mp he with rfl | he
    · have hne : ∀ e' ∈ entries, e'.1 ≠ e.1 := fun e' he' heq => hfirst (heq ▸ List.mem_map_of_mem he')
      rw [List.foldl_cons, get?_foldl_insert_of_ne hne, get?_insert, if_pos rfl]
    · exact ih hrest he

/-- A table that is put together from pairs holds all of them, if no key comes twice. -/
theorem mem_ofList_iff {e : κ × α} {entries : List (κ × α)} (hn : (entries.map Prod.fst).Nodup) :
    e ∈ (ofList entries).entries ↔ e ∈ entries :=
  ⟨mem_of_mem_ofList, fun he => get?_eq_some_iff.mp (get?_foldl_insert_of_mem hn he)⟩

/-- Tables with the same values under the same keys are the same. -/
theorem ext_get? (h : ∀ k, t.get? k = u.get? k) : t = u := by
  have hentries : t.entries = u.entries := by
    refine Keyed.eq_of_mem_iff t.ascending u.ascending fun ⟨k, a⟩ => ?_
    rw [← get?_eq_some_iff, ← get?_eq_some_iff, h]
  cases t
  cases u
  cases hentries
  rfl

/-- A table is the one with its own entries. -/
theorem ofList_entries (t : Table κ α) : ofList t.entries = t := by
  have hentries := entries_ofList t.entries
  have hasc := t.ascending
  rw [← List.nil_append t.entries] at hasc
  rw [Keyed.foldl_insert_of_ascending hasc, List.nil_append] at hentries
  refine ext_get? fun k => ?_
  rw [get?, hentries, get?]

/-- The keys are those under which there is a value. -/
theorem mem_keys_iff {k : κ} : k ∈ t.keys ↔ t.get? k ≠ none := by
  rw [Option.ne_none_iff_exists', keys, List.mem_map]
  constructor
  · rintro ⟨⟨k, a⟩, h, rfl⟩
    exact ⟨a, get?_eq_some_iff.mpr h⟩
  · rintro ⟨a, h⟩
    exact ⟨(k, a), get?_eq_some_iff.mp h, rfl⟩

end Table

end RecordQuery
