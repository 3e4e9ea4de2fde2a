import RecordQuery.Proofs.Json.Ordered
import RecordQuery.Proofs.Json.Written

/-!
# Documents written and read back

Both ways of writing a document put a text of its form in front of what follows, so a document without floating-point numbers is
read back from what is written (`parse_compact`, `parse_pretty`). On one line nothing is written but printable characters.
-/

namespace RecordQuery.Json

open Text (Layout)

/-- A document without floating-point numbers, in order, with at most so many lists and objects nested in each other. -/
inductive Plain : Nat → Json → Prop where
  | null {d : Nat} : Plain d .null
  | bool {d : Nat} (b : Bool) : Plain d (.bool b)
  | integer {d : Nat} {n : Int} (hn : FitsWord n) : Plain d (.number (.integer n))
  | string {d : Nat} (s : String) : Plain d (.string s)
  | array {d : Nat} {items : List Json} (h : ∀ j ∈ items, Plain d j) : Plain (d + 1) (.array items)
  | object {d : Nat} {members : List (String × Json)} (ha : Keyed.Ascending Prod.fst members)
    (h : ∀ m ∈ members, Plain d m.2) : Plain (d + 1) (.object members)

/-- A way of writing puts a text of the piece in front of what follows. -/
structure Writes (write : List Char → List Char) (d : Nat) (p : Piece) (text : List Char) : Prop where
  written : Written d text p
  write_eq : ∀ rest, write rest = text ++ rest

/-- Members whose keys ascend make up an object as they are. -/
theorem ofMembers_of_ascending {members : List (String × Json)} (h : Keyed.Ascending Prod.fst members) :
    ofMembers members = .object members := by
  rw [ofMembers, Table.entries_ofList]
  rw [← List.nil_append members] at h
  exact congrArg Json.object (Keyed.foldl_insert_of_ascending h)

variable {d level : Nat} {j : Json} {items : List Json} {members : List (String × Json)}

/-! ## On one line -/

/-- No control character occurs, so the text is on one line. -/
def OneLine (text : List Char) : Prop := ∀ c ∈ text, 0x20 ≤ c.toNat

theorem oneLine_nil : OneLine [] := fun _ h => absurd h List.not_mem_nil

theorem oneLine_cons {c : Char} {text : List Char} : OneLine (c :: text) ↔ 0x20 ≤ c.toNat ∧ OneLine text :=
  List.forall_mem_cons

theorem oneLine_append {text rest : List Char} : OneLine (text ++ rest) ↔ OneLine text ∧ OneLine rest :=
  List.forall_mem_append

/-- An integer is written on one line. -/
theorem oneLine_writeInt (n : Int) : OneLine (Number.writeInt n) := by
  intro c hc
  rcases Number.mem_writeInt hc with rfl | hdigit
  · decide
  · have hrange := Number.isSome_digit?_iff.mp hdigit
    omega

/-- The character of a hexadecimal digit is no control character. -/
theorem toNat_digitChar_ge {n : Nat} (h : n < 16) : 0x20 ≤ (Nat.digitChar n).toNat := by
  revert n
  decide

/-- The letter of an escape is no control character. -/
theorem toNat_escapeLetter_ge {c e : Char} (h : escapeLetter? c = some e) : 0x20 ≤ e.toNat := by
  unfold escapeLetter? at h
  repeat' split at h
  all_goals cases h
  all_goals decide

/-- What stands for a character is on one line: a control character is escaped. -/
theorem oneLine_stringChar (c : Char) : OneLine (stringChar c) := by
  unfold stringChar
  split
  next e he => simp [oneLine_cons, oneLine_nil, toNat_escapeLetter_ge he]
  next =>
    split
    next h => simp [oneLine_cons, oneLine_nil, toNat_digitChar_ge, Nat.mod_lt, show c.toNat / 16 < 16 by omega]
    next h => exact oneLine_cons.mpr ⟨Nat.not_lt.mp h, oneLine_nil⟩

/-- A quoted string is on one line, whatever it holds. -/
theorem oneLine_stringChars (s : String) : OneLine (stringChars s) := by
  refine oneLine_cons.mpr ⟨by decide, oneLine_append.mpr ⟨fun c hc => ?_, oneLine_cons.mpr ⟨by decide, oneLine_nil⟩⟩⟩
  obtain ⟨d, _, hd⟩ := List.mem_flatMap.mp hc
  exact oneLine_stringChar d c hd

/-- Items are written on one line if each of them is. -/
theorem exists_writes_compactItems (hne : items ≠ [])
    (h : ∀ j ∈ items, ∃ text, Writes (compactChars · j) d (.value j) text ∧ OneLine text) :
    ∃ text, Writes (fun rest => compactItems (']' :: rest) items) d (.items items) text ∧ OneLine text := by
  induction items with
  | nil => exact absurd rfl hne
  | cons j js ih =>
    obtain ⟨hj, hjs⟩ := List.forall_mem_cons.mp h
    obtain ⟨text, hwrites, hline⟩ := hj
    cases js with
    | nil =>
      refine ⟨_, ⟨.lastItem hwrites.written Text.layout_nil, fun rest => ?_⟩, ?_⟩
      · rw [compactItems, hwrites.write_eq, List.nil_append, List.append_assoc, List.singleton_append]
      · simp [oneLine_append, oneLine_cons, oneLine_nil, hline]
    | cons k js =>
      obtain ⟨texts, hrest, hlines⟩ := ih (List.cons_ne_nil k js) hjs
      refine ⟨_, ⟨.item hwrites.written Text.layout_nil hrest.written, fun rest => ?_⟩, ?_⟩
      · rw [compactItems, hwrites.write_eq, hrest.write_eq, List.nil_append, List.append_assoc, List.cons_append]
        exact List.cons_ne_nil k js
      · simp [oneLine_append, oneLine_cons, hline, hlines]

/-- Members are written on one line if each of their values is. -/
theorem exists_writes_compactMembers (hne : members ≠ [])
    (h : ∀ m ∈ members, ∃ text, Writes (compactChars · m.2) d (.value m.2) text ∧ OneLine text) :
    ∃ text, Writes (fun rest => compactMembers ('}' :: rest) members) d (.members members) text ∧ OneLine text := by
  induction members with
  | nil => exact absurd rfl hne
  | cons m ms ih =>
    obtain ⟨key, j⟩ := m
    obtain ⟨hj, hms⟩ := List.forall_mem_cons.mp h
    obtain ⟨text, hwrites, hline⟩ := hj
    cases ms with
    | nil =>
      refine ⟨_, ⟨.lastMember Text.layout_nil hwrites.written Text.layout_nil, fun rest => ?_⟩, ?_⟩
      · simp only [compactMembers, hwrites.write_eq, List.nil_append, List.append_assoc, List.cons_append]
      · simp [oneLine_append, oneLine_cons, oneLine_nil, oneLine_stringChars, hline]
    | cons m ms =>
      obtain ⟨texts, hrest, hlines⟩ := ih (List.cons_ne_nil m ms) hms
      refine ⟨_, ⟨.member Text.layout_nil hwrites.written Text.layout_nil hrest.written, fun rest => ?_⟩, ?_⟩
      · rw [compactMembers, hwrites.write_eq, hrest.write_eq]
        · simp only [List.nil_append, List.append_assoc, List.cons_append]
        · exact List.cons_ne_nil m ms
      · simp [oneLine_append, oneLine_cons, oneLine_stringChars, hline, hlines]

/-- A document is written on one line. -/
theorem Plain.exists_writes_compact (h : Plain d j) : ∃ text, Writes (compactChars · j) d (.value j) text ∧ OneLine text := by
  induction h with
  | null => exact ⟨_, ⟨.null, fun _ => rfl⟩, by simp [oneLine_cons, oneLine_nil]⟩
  | bool b =>
    cases b with
    | true => exact ⟨_, ⟨.true, fun _ => rfl⟩, by simp [oneLine_cons, oneLine_nil]⟩
    | false => exact ⟨_, ⟨.false, fun _ => rfl⟩, by simp [oneLine_cons, oneLine_nil]⟩
  | integer hn => exact ⟨_, ⟨.integer hn, fun _ => rfl⟩, oneLine_writeInt _⟩
  | string s => exact ⟨_, ⟨.string s, fun _ => rfl⟩, oneLine_stringChars s⟩
  | @array d items _ ih =>
    cases items with
    | nil => exact ⟨_, ⟨.emptyList, fun _ => rfl⟩, by simp [oneLine_cons, oneLine_nil]⟩
    | cons j js =>
      obtain ⟨text, hwrites, hline⟩ := exists_writes_compactItems (List.cons_ne_nil j js) ih
      refine ⟨_, ⟨.list Text.layout_nil hwrites.written, fun rest => ?_⟩, oneLine_cons.mpr ⟨by decide, hline⟩⟩
      rw [compactChars, hwrites.write_eq]
      rfl
  | @object d members ha _ ih =>
    cases members with
    | nil => exact ⟨_, ⟨.emptyObject, fun _ => rfl⟩, by simp [oneLine_cons, oneLine_nil]⟩
    | cons m ms =>
      obtain ⟨text, hwrites, hline⟩ := exists_writes_compactMembers (List.cons_ne_nil m ms) ih
      have hwritten := Written.object Text.layout_nil hwrites.written
      rw [ofMembers_of_ascending ha] at hwritten
      refine ⟨_, ⟨hwritten, fun rest => ?_⟩, oneLine_cons.mpr ⟨by decide, hline⟩⟩
      rw [compactChars, hwrites.write_eq]
      rfl

/-! ## With a line for every item -/

/-- A new line and the blanks that indent it are layout. -/
theorem layout_newLine (level : Nat) : Layout (newLine level []) := by
  intro c hc
  rw [newLine, List.append_nil, List.mem_cons, List.mem_replicate] at hc
  rcases hc with rfl | ⟨_, rfl⟩ <;> rfl

/-- A new line is put in front of what follows. -/
theorem newLine_eq_append (level : Nat) (rest : List Char) : newLine level rest = newLine level [] ++ rest := by
  rw [newLine, newLine, List.append_nil, List.cons_append]

/-- Items are written on lines of their own. -/
theorem exists_writes_prettyItems (outer : Nat) (hne : items ≠ [])
    (h : ∀ j ∈ items, ∃ text, Writes (prettyChars level · j) d (.value j) text) :
    ∃ text, Written d text (.items items) ∧
      ∀ rest, prettyItems level (newLine outer (']' :: rest)) items = newLine level [] ++ (text ++ rest) := by
  induction items with
  | nil => exact absurd rfl hne
  | cons j js ih =>
    obtain ⟨⟨text, hwrites⟩, hjs⟩ := List.forall_mem_cons.mp h
    cases js with
    | nil =>
      refine ⟨_, .lastItem hwrites.written (layout_newLine outer), fun rest => ?_⟩
      rw [prettyItems, hwrites.write_eq, newLine_eq_append level, newLine_eq_append outer]
      simp only [List.append_assoc, List.singleton_append]
    | cons k js =>
      obtain ⟨texts, hwritten, hrest⟩ := ih (List.cons_ne_nil k js) hjs
      refine ⟨_, .item hwrites.written (layout_newLine level) hwritten, fun rest => ?_⟩
      rw [prettyItems, hwrites.write_eq, hrest, newLine_eq_append level]
      · simp only [List.append_assoc, List.cons_append]
      · exact List.cons_ne_nil k js

theorem layout_space : Layout [' '] := by
  intro c hc
  rw [List.mem_singleton.mp hc]
  rfl

/-- Members are written on lines of their own. -/
theorem exists_writes_prettyMembers (outer : Nat) (hne : members ≠ [])
    (h : ∀ m ∈ members, ∃ text, Writes (prettyChars level · m.2) d (.value m.2) text) :
    ∃ text, Written d text (.members members) ∧
      ∀ rest, prettyMembers level (newLine outer ('}' :: rest)) members = newLine level [] ++ (text ++ rest) := by
  induction members with
  | nil => exact absurd rfl hne
  | cons m ms ih =>
    obtain ⟨key, j⟩ := m
    obtain ⟨⟨text, hwrites⟩, hms⟩ := List.forall_mem_cons.mp h
    cases ms with
    | nil =>
      refine ⟨_, .lastMember layout_space hwrites.written (layout_newLine outer), fun rest => ?_⟩
      rw [prettyMembers, hwrites.write_eq, newLine_eq_append level, newLine_eq_append outer]
      simp only [List.append_assoc, List.cons_append, List.nil_append]
    | cons m ms =>
      obtain ⟨texts, hwritten, hrest⟩ := ih (List.cons_ne_nil m ms) hms
      refine ⟨_, .member layout_space hwrites.written (layout_newLine level) hwritten, fun rest => ?_⟩
      rw [prettyMembers, hwrites.write_eq, hrest, newLine_eq_append level]
      · simp only [List.append_assoc, List.cons_append, List.nil_append]
      · exact List.cons_ne_nil m ms

/-- A document is written with a line for every item. -/
theorem Plain.exists_writes_pretty (h : Plain d j) (level : Nat) : ∃ text, Writes (prettyChars level · j) d (.value j) text := by
  -- what stands inside is written one level deeper
  induction h generalizing level with
  | null => exact ⟨_, .null, fun _ => rfl⟩
  | bool b =>
    cases b with
    | true => exact ⟨_, .true, fun _ => rfl⟩
    | false => exact ⟨_, .false, fun _ => rfl⟩
  | integer hn => exact ⟨_, .integer hn, fun _ => rfl⟩
  | string s => exact ⟨_, .string s, fun _ => rfl⟩
  | @array d items _ ih =>
    cases items with
    | nil => exact ⟨_, .emptyList, fun _ => rfl⟩
    | cons j js =>
      obtain ⟨text, hwritten, hwrite⟩ :=
        exists_writes_prettyItems level (List.cons_ne_nil j js) fun j hj => ih j hj (level + 1)
      refine ⟨_, .list (layout_newLine (level + 1)) hwritten, fun rest => ?_⟩
      rw [prettyChars, hwrite, List.cons_append, List.append_assoc]
  | @object d members ha _ ih =>
    cases members with
    | nil => exact ⟨_, .emptyObject, fun _ => rfl⟩
    | cons m ms =>
      obtain ⟨text, hwritten, hwrite⟩ :=
        exists_writes_prettyMembers level (List.cons_ne_nil m ms) fun m hm => ih m hm (level + 1)
      have hobject := Written.object (layout_newLine (level + 1)) hwritten
      rw [ofMembers_of_ascending ha] at hobject
      refine ⟨_, hobject, fun rest => ?_⟩
      rw [prettyChars, hwrite, List.cons_append, List.append_assoc]

/-! ## Reading back -/

/-- What is written on one line has the form of the document's text. -/
theorem Plain.written_compact (h : Plain d j) : Written d j.compact.toList (.value j) ∧ OneLine j.compact.toList := by
  obtain ⟨text, hwrites, hline⟩ := h.exists_writes_compact
  have htext : j.compact.toList = text := by
    rw [compact, String.toList_ofList, hwrites.write_eq, List.append_nil]
  rw [htext]
  exact ⟨hwrites.written, hline⟩

/-- What is written with a line for every item has the form of the document's text. -/
theorem Plain.written_pretty (h : Plain d j) : Written d j.pretty.toList (.value j) := by
  obtain ⟨text, hwrites⟩ := h.exists_writes_pretty 0
  have htext : j.pretty.toList = text := by
    rw [pretty, String.toList_ofList, hwrites.write_eq, List.append_nil]
  rw [htext]
  exact hwrites.written

/-- A document is read back from what is written of it. -/
theorem parse_compact (h : Plain maxDepth j) : parse j.compact = .ok j ∧ parse j.pretty = .ok j := by
  have hcompact := parse_of_written h.written_compact.1
  have hpretty := parse_of_written h.written_pretty
  rw [String.ofList_toList] at hcompact hpretty
  exact ⟨hcompact, hpretty⟩

end RecordQuery.Json
