import RecordQuery.Proofs.Json.Scalar

/-!
# Documents read from their text

What a document looks like as a text (`Json.Written`), and that it is read from such a text (`parse_of_written`). Reading goes
along the derivation of a text: each rule has a lemma that says how its piece is read in front of whatever may stand behind it
(`Piece.Reads`).
-/

namespace RecordQuery.Json

open Text (Layout StartsSolid isLayout)

/-! ## The form of a text -/

/-- A document, or what stands between the brackets of a list or an object. -/
inductive Piece where
  | value (j : Json)
  | items (items : List Json)
  | members (members : List (String × Json))

/-- The text of a piece in which at most so many lists and objects are nested in each other. Items and members are followed by the
mark that closes them, and layout stands where it can. -/
inductive Written : Nat → List Char → Piece → Prop where
  | null {d : Nat} : Written d ['n', 'u', 'l', 'l'] (.value .null)
  | true {d : Nat} : Written d ['t', 'r', 'u', 'e'] (.value (.bool true))
  | false {d : Nat} : Written d ['f', 'a', 'l', 's', 'e'] (.value (.bool false))
  | integer {d : Nat} {n : Int} (hn : FitsWord n) : Written d (Number.writeInt n) (.value (.number (.integer n)))
  | string {d : Nat} (s : String) : Written d (stringChars s) (.value (.string s))
  | emptyList {d : Nat} : Written (d + 1) ['[', ']'] (.value (.array []))
  | list {d : Nat} {front text : List Char} {items : List Json} (hf : Layout front) (h : Written d text (.items items)) :
    Written (d + 1) ('[' :: (front ++ text)) (.value (.array items))
  | emptyObject {d : Nat} : Written (d + 1) ['{', '}'] (.value (.object []))
  | object {d : Nat} {front text : List Char} {members : List (String × Json)} (hf : Layout front)
    (h : Written d text (.members members)) : Written (d + 1) ('{' :: (front ++ text)) (.value (.ofMembers members))
  | lastItem {d : Nat} {text behind : List Char} {j : Json} (h : Written d text (.value j)) (hb : Layout behind) :
    Written d (text ++ (behind ++ [']'])) (.items [j])
  | item {d : Nat} {text front texts : List Char} {j : Json} {items : List Json} (h : Written d text (.value j))
    (hf : Layout front) (hs : Written d texts (.items items)) :
    Written d (text ++ ',' :: (front ++ texts)) (.items (j :: items))
  | lastMember {d : Nat} {key : String} {front text behind : List Char} {j : Json} (hf : Layout front)
    (h : Written d text (.value j)) (hb : Layout behind) :
    Written d (stringChars key ++ ':' :: (front ++ (text ++ (behind ++ ['}'])))) (.members [(key, j)])
  | member {d : Nat} {key : String} {front text next texts : List Char} {j : Json} {members : List (String × Json)}
    (hf : Layout front) (h : Written d text (.value j)) (hn : Layout next) (hs : Written d texts (.members members)) :
    Written d (stringChars key ++ ':' :: (front ++ (text ++ ',' :: (next ++ texts)))) (.members ((key, j) :: members))

/-- The text of a piece starts with a value or a key, never with layout or a closing mark. -/
theorem Written.startsValue {d : Nat} {text : List Char} {p : Piece} (h : Written d text p) : StartsValue text := by
  induction h with
  | null => exact ⟨'n', _, rfl, by decide⟩
  | true => exact ⟨'t', _, rfl, by decide⟩
  | false => exact ⟨'f', _, rfl, by decide⟩
  | integer => exact startsValue_writeInt _
  | string => exact ⟨'"', _, rfl, by decide⟩
  | emptyList | list => exact ⟨'[', _, rfl, by decide⟩
  | emptyObject | object => exact ⟨'{', _, rfl, by decide⟩
  | lastItem _ _ ih => exact ih.append _
  | item _ _ _ ih => exact ih.append _
  | lastMember | member => exact ⟨'"', _, rfl, by decide⟩

/-! ## Values -/

/-- Layout in front of a value is skipped. -/
theorem readValue_layout (steps d : Nat) {front text : List Char} (hf : Layout front) (ht : StartsSolid text) (o : Nat) :
    readValue steps d ⟨o, front ++ text⟩ = readValue steps d ⟨o + front.length, text⟩ := by
  cases d with
  | zero | succ d => simp only [readValue, skipLayout_layout hf ht, skipLayout_solid ht]

/-- What starts neither a list nor an object is a scalar, however deep lists and objects may be nested. -/
theorem readValue_scalar (steps d : Nat) {text : List Char} (ht : StartsSolid text) (hl : text.head? ≠ some '[')
    (ho : text.head? ≠ some '{') (o : Nat) : readValue steps d ⟨o, text⟩ = readScalar steps ⟨o, text⟩ := by
  cases d with
  | zero | succ d =>
    rw [readValue, skipLayout_solid ht]
    split
    next h => exact absurd (congrArg List.head? h) hl
    next h => exact absurd (congrArg List.head? h) ho
    next => rfl

section Steps

variable {key : Cursor → Outcome String} {value : Cursor → Outcome Json} {steps o : Nat} {c c' : Cursor} {j : Json} {k : String}
  {front text rest : List Char}

/-- Reads the last item of a list. -/
theorem readItems_last {done : List Json} (hv : value c = .ok (j, ⟨o, front ++ ']' :: rest⟩)) (hf : Layout front) :
    readItems value (steps + 1) done c = .ok (.array (done.reverse ++ [j]), ⟨o + front.length + 1, rest⟩) := by
  have hskip : (⟨o, front ++ ']' :: rest⟩ : Cursor).skipLayout = ⟨o + front.length, ']' :: rest⟩ :=
    skipLayout_mark hf rfl o rest
  simp only [readItems, hv, hskip, Cursor.past, List.reverse_cons]

/-- Reads an item with another one behind it. -/
theorem readItems_more {done : List Json} (hv : value c = .ok (j, ⟨o, ',' :: (front ++ text)⟩)) (hf : Layout front)
    (ht : StartsValue text) :
    readItems value (steps + 1) done c = readItems value steps (j :: done) ⟨o + 1 + front.length, text⟩ := by
  have hcomma : (⟨o, ',' :: (front ++ text)⟩ : Cursor).skipLayout = ⟨o, ',' :: (front ++ text)⟩ :=
    skipLayout_solid (Text.startsSolid_cons.mpr rfl) o
  rw [readItems, hv]
  simp only [hcomma, Cursor.past, skipLayout_layout hf ht.startsSolid]
  obtain ⟨d, ds, rfl, _, hclose, _⟩ := ht
  split
  next h => cases h
  next h => exact absurd (List.cons.inj h).1 hclose
  next => rfl

/-- Reads the last member of an object. -/
theorem readMembers_last {done : List (String × Json)} (hk : key c = .ok (k, c'))
    (hv : value c' = .ok (j, ⟨o, front ++ '}' :: rest⟩)) (hf : Layout front) :
    readMembers key value (steps + 1) done c = .ok (.ofMembers (done.reverse ++ [(k, j)]), ⟨o + front.length + 1, rest⟩) := by
  have hskip : (⟨o, front ++ '}' :: rest⟩ : Cursor).skipLayout = ⟨o + front.length, '}' :: rest⟩ :=
    skipLayout_mark hf rfl o rest
  simp only [readMembers, hk, hv, hskip, Cursor.past, List.reverse_cons]

/-- Reads a member with another one behind it. -/
theorem readMembers_more {done : List (String × Json)} (hk : key c = .ok (k, c'))
    (hv : value c' = .ok (j, ⟨o, ',' :: (front ++ text)⟩)) (hf : Layout front) (ht : StartsValue text) :
    readMembers key value (steps + 1) done c =
      readMembers key value steps ((k, j) :: done) ⟨o + 1 + front.length, text⟩ := by
  have hcomma : (⟨o, ',' :: (front ++ text)⟩ : Cursor).skipLayout = ⟨o, ',' :: (front ++ text)⟩ :=
    skipLayout_solid (Text.startsSolid_cons.mpr rfl) o
  rw [readMembers]
  simp only [hk, hv, hcomma, Cursor.past, skipLayout_layout hf ht.startsSolid]
  obtain ⟨d, ds, rfl, _, _, hclose⟩ := ht
  split
  next h => cases h
  next h => exact absurd (List.cons.inj h).1 hclose
  next => rfl

end Steps

/-! ## Pieces -/

/-- What comes of reading a piece from its text, whatever stands behind it. -/
def Piece.Reads (d : Nat) (text : List Char) : Piece → Prop
  | .value j =>
    ∀ steps o rest, text.length ≤ steps → Ends rest →
      ∃ o', readValue steps d ⟨o, text ++ rest⟩ = .ok (j, ⟨o', rest⟩)
  | .items js =>
    ∀ steps count done o rest, text.length ≤ steps → text.length ≤ count →
      ∃ o', readItems (readValue steps d) count done ⟨o, text ++ rest⟩ = .ok (.array (done.reverse ++ js), ⟨o', rest⟩)
  | .members ms =>
    ∀ steps count done o rest, text.length ≤ steps → text.length ≤ count →
      ∃ o', readMembers (readKey steps) (readValue steps d) count done ⟨o, text ++ rest⟩ =
        .ok (.ofMembers (done.reverse ++ ms), ⟨o', rest⟩)

variable {d : Nat} {text front behind texts : List Char} {j : Json} {items : List Json} {key : String}
  {members : List (String × Json)}

/-- A value that starts neither a list nor an object is read as a piece, if it is read as a scalar. -/
theorem reads_scalar (ht : StartsValue text) (hl : text.head? ≠ some '[') (ho : text.head? ≠ some '{')
    (h : ∀ steps o rest, text.length ≤ steps → Ends rest → ∃ o', readScalar steps ⟨o, text ++ rest⟩ = .ok (j, ⟨o', rest⟩)) :
    (Piece.value j).Reads d text := by
  intro steps o rest hs hr
  have hne : text ≠ [] := by
    rintro rfl
    obtain ⟨_, _, hnil, _⟩ := ht
    cases hnil
  rw [readValue_scalar steps d (ht.append rest).startsSolid]
  · exact h steps o rest hs hr
  · rwa [List.head?_append_of_ne_nil text hne]
  · rwa [List.head?_append_of_ne_nil text hne]

theorem reads_writeInt {n : Int} (hn : FitsWord n) : (Piece.value (.number (.integer n))).Reads d (Number.writeInt n) := by
  have hhead : ∀ c ∈ ['[', '{'], (Number.writeInt n).head? ≠ some c := by
    intro c hc hhead
    rcases Number.mem_writeInt (List.mem_of_head? hhead) with rfl | hdigit
    · exact absurd hc (by decide)
    · rcases List.mem_pair.mp hc with rfl | rfl <;> cases hdigit
  exact reads_scalar (startsValue_writeInt n) (hhead '[' (by decide)) (hhead '{' (by decide))
    fun steps o rest _ hr => readScalar_writeInt hn steps o hr

theorem reads_stringChars (s : String) : (Piece.value (.string s)).Reads d (stringChars s) := by
  refine reads_scalar ⟨'"', _, rfl, by decide⟩ (by simp [stringChars]) (by simp [stringChars]) ?_
  intro steps o rest hs _
  obtain ⟨text, htext, o', hread⟩ := readString_stringChars hs (o + 1) rest
  refine ⟨o', ?_⟩
  have hscalar : readScalar steps ⟨o, '"' :: text ++ rest⟩ =
      (readString steps ⟨o + 1, text ++ rest⟩).map fun read => (.string read.1, read.2) := rfl
  rw [htext, hscalar, hread]
  rfl

/-- A list is read behind its opening bracket. -/
theorem reads_list (hf : Layout front) (ht : StartsValue text) (h : (Piece.items items).Reads d text) :
    (Piece.value (.array items)).Reads (d + 1) ('[' :: (front ++ text)) := by
  intro steps o rest hs _
  simp only [List.length_cons, List.length_append] at hs
  obtain ⟨o', hread⟩ := h steps steps [] (o + 1 + front.length) rest (by omega) (by omega)
  refine ⟨o', ?_⟩
  rw [List.cons_append, List.append_assoc, readValue, skipLayout_solid (Text.startsSolid_cons.mpr rfl)]
  simp only [Cursor.past, readList, skipLayout_layout hf (ht.append rest).startsSolid]
  obtain ⟨c, cs, rfl, _, hclose, _⟩ := ht
  split
  next h => cases h
  next h => exact absurd (List.cons.inj h).1 hclose
  next => exact hread

/-- An object is read behind its opening brace. -/
theorem reads_object (hf : Layout front) (ht : StartsValue text) (h : (Piece.members members).Reads d text) :
    (Piece.value (.ofMembers members)).Reads (d + 1) ('{' :: (front ++ text)) := by
  intro steps o rest hs _
  simp only [List.length_cons, List.length_append] at hs
  obtain ⟨o', hread⟩ := h steps steps [] (o + 1 + front.length) rest (by omega) (by omega)
  refine ⟨o', ?_⟩
  rw [List.cons_append, List.append_assoc, readValue, skipLayout_solid (Text.startsSolid_cons.mpr rfl)]
  simp only [Cursor.past, readObject, skipLayout_layout hf (ht.append rest).startsSolid]
  obtain ⟨c, cs, rfl, _, _, hclose⟩ := ht
  split
  next h => cases h
  next h => exact absurd (List.cons.inj h).1 hclose
  next => exact hread

/-- The last item of a list is read with the layout and the closing bracket behind it. -/
theorem reads_lastItem (h : (Piece.value j).Reads d text) (hb : Layout behind) :
    (Piece.items [j]).Reads d (text ++ (behind ++ [']'])) := by
  intro steps count done o rest hs hc
  simp only [List.length_cons, List.length_append, List.length_nil] at hs hc
  obtain ⟨count, rfl⟩ := Nat.exists_eq_succ_of_ne_zero (n := count) (by omega)
  have hends : Ends (behind ++ ']' :: rest) := ends_layout hb (ends_mark (by decide) rest)
  obtain ⟨o', hread⟩ := h steps o (behind ++ ']' :: rest) (by omega) hends
  rw [List.append_assoc, List.append_assoc, List.singleton_append]
  exact ⟨_, readItems_last hread hb⟩

/-- An item is read with the comma behind it and the items that follow. -/
theorem reads_item (h : (Piece.value j).Reads d text) (hf : Layout front) (ht : StartsValue texts)
    (hs : (Piece.items items).Reads d texts) : (Piece.items (j :: items)).Reads d (text ++ ',' :: (front ++ texts)) := by
  intro steps count done o rest hsteps hc
  simp only [List.length_cons, List.length_append] at hsteps hc
  obtain ⟨count, rfl⟩ := Nat.exists_eq_succ_of_ne_zero (n := count) (by omega)
  obtain ⟨o', hread⟩ := h steps o (',' :: (front ++ (texts ++ rest))) (by omega) (ends_mark (by decide) _)
  obtain ⟨o'', hreads⟩ := hs steps count (j :: done) (o' + 1 + front.length) rest (by omega) (by omega)
  refine ⟨o'', ?_⟩
  rw [List.append_assoc, List.cons_append, List.append_assoc, readItems_more hread hf (ht.append rest), hreads,
    List.reverse_cons, List.append_assoc, List.singleton_append]

/-- The last member of an object is read with the layout and the closing brace behind it. -/
theorem reads_lastMember (hf : Layout front) (ht : StartsValue text) (h : (Piece.value j).Reads d text) (hb : Layout behind) :
    (Piece.members [(key, j)]).Reads d (stringChars key ++ ':' :: (front ++ (text ++ (behind ++ ['}'])))) := by
  intro steps count done o rest hs hc
  simp only [List.length_cons, List.length_append, List.length_nil] at hs hc
  obtain ⟨count, rfl⟩ := Nat.exists_eq_succ_of_ne_zero (n := count) (by omega)
  have hfits : (stringChars key).length ≤ steps := by omega
  obtain ⟨o', hkey⟩ := readKey_stringChars hfits o (front ++ (text ++ (behind ++ '}' :: rest)))
  have hends : Ends (behind ++ '}' :: rest) := ends_layout hb (ends_mark (by decide) rest)
  obtain ⟨o'', hread⟩ := h steps (o' + front.length) (behind ++ '}' :: rest) (by omega) hends
  rw [← readValue_layout steps d hf (ht.append _).startsSolid] at hread
  simp only [List.append_assoc, List.cons_append, List.nil_append]
  exact ⟨_, readMembers_last hkey hread hb⟩

/-- A member is read with the comma behind it and the members that follow. -/
theorem reads_member {next : List Char} (hf : Layout front) (ht : StartsValue text) (h : (Piece.value j).Reads d text)
    (hn : Layout next) (hts : StartsValue texts) (hs : (Piece.members members).Reads d texts) :
    (Piece.members ((key, j) :: members)).Reads d
      (stringChars key ++ ':' :: (front ++ (text ++ ',' :: (next ++ texts)))) := by
  intro steps count done o rest hsteps hc
  simp only [List.length_cons, List.length_append] at hsteps hc
  obtain ⟨count, rfl⟩ := Nat.exists_eq_succ_of_ne_zero (n := count) (by omega)
  have hfits : (stringChars key).length ≤ steps := by omega
  obtain ⟨o', hkey⟩ := readKey_stringChars hfits o (front ++ (text ++ ',' :: (next ++ (texts ++ rest))))
  obtain ⟨o'', hread⟩ := h steps (o' + front.length) (',' :: (next ++ (texts ++ rest))) (by omega) (ends_mark (by decide) _)
  rw [← readValue_layout steps d hf (ht.append _).startsSolid] at hread
  obtain ⟨last, hreads⟩ := hs steps count ((key, j) :: done) (o'' + 1 + next.length) rest (by omega) (by omega)
  refine ⟨last, ?_⟩
  simp only [List.append_assoc, List.cons_append]
  rw [readMembers_more hkey hread hn (hts.append rest), hreads, List.reverse_cons, List.append_assoc, List.singleton_append]

/-- What is written is read. -/
theorem Written.reads {p : Piece} (h : Written d text p) : p.Reads d text := by
  induction h with
  | null => exact reads_scalar ⟨'n', _, rfl, by decide⟩ (by decide) (by decide) fun _ o _ _ _ => ⟨o + 4, rfl⟩
  | true => exact reads_scalar ⟨'t', _, rfl, by decide⟩ (by decide) (by decide) fun _ o _ _ _ => ⟨o + 4, rfl⟩
  | false => exact reads_scalar ⟨'f', _, rfl, by decide⟩ (by decide) (by decide) fun _ o _ _ _ => ⟨o + 5, rfl⟩
  | integer hn => exact reads_writeInt hn
  | string s => exact reads_stringChars s
  | emptyList => exact fun steps o rest _ _ => ⟨o + 2, rfl⟩
  | list hf h ih => exact reads_list hf h.startsValue ih
  | emptyObject => exact fun steps o rest _ _ => ⟨o + 2, rfl⟩
  | object hf h ih => exact reads_object hf h.startsValue ih
  | lastItem _ hb ih => exact reads_lastItem ih hb
  | item _ hf hs ih ihs => exact reads_item ih hf hs.startsValue ihs
  | lastMember hf h hb ih => exact reads_lastMember hf h.startsValue ih hb
  | member hf h hn hs ih ihs => exact reads_member hf h.startsValue ih hn hs.startsValue ihs

/-- A document is read from its text. -/
theorem parse_of_written (h : Written maxDepth text (.value j)) : parse (String.ofList text) = .ok j := by
  obtain ⟨o, hread⟩ := h.reads (text.length + 1) 0 [] (Nat.le_succ _) ends_nil
  rw [List.append_nil] at hread
  have hdocument : readDocument text = .ok j := by
    simp only [readDocument, bind, Except.bind, hread]
    rfl
  rw [parse, String.toList_ofList, hdocument]

end RecordQuery.Json
