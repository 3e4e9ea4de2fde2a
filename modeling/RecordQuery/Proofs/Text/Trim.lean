import Mathlib.Data.List.DropRight
import RecordQuery.Text.Blank

/-!
# Trimming

What trimming keeps of a text. A text of blanks is trimmed to nothing, blanks in front do not matter, and a text is left as it
is exactly when it neither starts nor ends with a blank (`trim_eq_self_iff`), which the trimmed text itself never does.
-/

namespace RecordQuery.Text

/-- A text of blanks only. -/
def Blank (cs : List Char) : Prop := ∀ c ∈ cs, isBlank c = true

/-- A text of layout characters only. -/
def Layout (cs : List Char) : Prop := ∀ c ∈ cs, isLayout c = true

/-- Layout is blank. -/
theorem Layout.blank {cs : List Char} (h : Layout cs) : Blank cs :=
  fun c hc => isBlank_of_isLayout (h c hc)

theorem blank_nil : Blank [] := fun _ h => absurd h List.not_mem_nil

theorem layout_nil : Layout [] := fun _ h => absurd h List.not_mem_nil

@[simp] theorem all_isBlank_iff {cs : List Char} : cs.all isBlank = true ↔ Blank cs := List.all_eq_true

theorem blank_append {as bs : List Char} : Blank (as ++ bs) ↔ Blank as ∧ Blank bs := List.forall_mem_append

/-- The blanks at the end are dropped from the back. -/
theorem trimEnd_eq_rdropWhile (cs : List Char) : trimEnd cs = cs.rdropWhile isBlank := rfl

/-- Nothing is left exactly of the texts of blanks. -/
theorem trim_eq_nil_iff {cs : List Char} : trim cs = [] ↔ Blank cs := by
  rw [trim, trimEnd_eq_rdropWhile, List.rdropWhile_eq_nil_iff]
  constructor
  · intro h c hc
    rw [← List.takeWhile_append_dropWhile (p := isBlank) (l := cs), List.mem_append] at hc
    rcases hc with hc | hc
    · exact List.mem_takeWhile_imp hc
    · exact h c hc
  · intro h c hc
    exact h c ((List.dropWhile_sublist _).subset hc)

/-- Blanks in front are trimmed away. -/
theorem trim_append_of_blank {u : List Char} (hu : Blank u) (cs : List Char) : trim (u ++ cs) = trim cs := by
  rw [trim, trim, List.dropWhile_append_of_pos hu]

/-- Blanks behind are trimmed away. -/
theorem trim_append_blank {v : List Char} (hv : Blank v) (cs : List Char) : trim (cs ++ v) = trim cs := by
  have hend (as : List Char) : trimEnd (as ++ v) = trimEnd as := by
    rw [trimEnd, trimEnd, List.reverse_append,
      List.dropWhile_append_of_pos fun c hc => hv c (List.mem_reverse.mp hc)]
  by_cases hb : Blank cs
  · rw [trim_eq_nil_iff.mpr hb, trim_eq_nil_iff.mpr (blank_append.mpr ⟨hb, hv⟩)]
  · obtain ⟨c, hc, hn⟩ : ∃ c ∈ cs, ¬isBlank c = true := by simpa [Blank] using hb
    rw [trim, trim, List.dropWhile_append, if_neg, hend]
    rw [List.isEmpty_iff, List.dropWhile_eq_nil_iff]
    exact fun h => hn (h c hc)

/-- What is taken off the front as blanks is blank. -/
theorem blank_takeWhile (cs : List Char) : Blank (cs.takeWhile isBlank) := fun _ hc => List.mem_takeWhile_imp hc

/-- A text is what trimming keeps of it, between the blanks in front and others behind. -/
theorem exists_trim_split (cs : List Char) : ∃ v, Blank v ∧ cs = cs.takeWhile isBlank ++ (trim cs ++ v) := by
  refine ⟨(cs.dropWhile isBlank).rtakeWhile isBlank, fun c hc => List.mem_rtakeWhile_imp hc, ?_⟩
  rw [trim, trimEnd_eq_rdropWhile, List.rdropWhile_append_rtakeWhile, List.takeWhile_append_dropWhile]

/-- Trimming keeps no other characters. -/
theorem mem_of_mem_trim {c : Char} {cs : List Char} (h : c ∈ trim cs) : c ∈ cs :=
  (List.dropWhile_sublist _).subset ((List.rdropWhile_prefix isBlank _).subset h)

/-- A text that neither starts nor ends with a blank. -/
def Trimmed (cs : List Char) : Prop :=
  (∀ c, cs.head? = some c → isBlank c = false) ∧ ∀ c, cs.getLast? = some c → isBlank c = false

/-- Dropping the blanks in front changes nothing if there are none. -/
theorem dropWhile_isBlank_eq_self_iff {cs : List Char} :
    cs.dropWhile isBlank = cs ↔ ∀ c, cs.head? = some c → isBlank c = false := by
  cases cs with
  | nil => simp
  | cons c cs => simp [List.dropWhile_eq_self_iff]

/-- Dropping the blanks at the end changes nothing if there are none. -/
theorem trimEnd_eq_self_iff {cs : List Char} :
    trimEnd cs = cs ↔ ∀ c, cs.getLast? = some c → isBlank c = false := by
  rw [trimEnd_eq_rdropWhile, List.rdropWhile_eq_self_iff]
  rcases List.eq_nil_or_concat cs with rfl | ⟨as, c, rfl⟩
  · simp
  · simp

/-- Blanks in front are dropped up to what follows them. -/
theorem dropWhile_isBlank_append (front : List Char) {text : List Char}
    (h : ∀ c, text.head? = some c → isBlank c = false) :
    (front ++ text).dropWhile isBlank = front.dropWhile isBlank ++ text := by
  rw [List.dropWhile_append]
  split
  next hnil =>
    rw [List.isEmpty_iff.mp hnil, List.nil_append]
    exact dropWhile_isBlank_eq_self_iff.mpr h
  next => rfl

/-- Blanks behind a text that ends with none are dropped, and nothing else is. -/
theorem trimEnd_append_blank {behind : List Char} (hb : Blank behind) {text : List Char}
    (h : ∀ c, text.getLast? = some c → isBlank c = false) : trimEnd (text ++ behind) = text := by
  have hreverse : ∀ c ∈ behind.reverse, isBlank c = true := fun c hc => hb c (List.mem_reverse.mp hc)
  rw [trimEnd, List.reverse_append, List.dropWhile_append_of_pos hreverse]
  exact trimEnd_eq_self_iff.mpr h

/-- What is trimmed neither starts nor ends with a blank. -/
theorem trimmed_trim (cs : List Char) : Trimmed (trim cs) := by
  constructor
  · intro c hc
    have hp : trim cs <+: cs.dropWhile isBlank := List.rdropWhile_prefix isBlank _
    obtain ⟨rest, hr⟩ := hp
    have hd : (cs.dropWhile isBlank).head? = some c := by
      rw [← hr, List.head?_append, hc]
      rfl
    exact dropWhile_isBlank_eq_self_iff.mp (List.dropWhile_idempotent isBlank cs) c hd
  · exact trimEnd_eq_self_iff.mp (List.rdropWhile_idempotent isBlank _)

/-- Trimming changes nothing exactly where there is nothing to trim. -/
theorem trim_eq_self_iff {cs : List Char} : trim cs = cs ↔ Trimmed cs := by
  constructor
  · intro h
    exact h ▸ trimmed_trim cs
  · rintro ⟨hhead, hlast⟩
    rw [trim, dropWhile_isBlank_eq_self_iff.mpr hhead, trimEnd_eq_self_iff.mpr hlast]

/-- A word without outer blanks has a character that is no blank. -/
theorem Trimmed.not_blank {cs : List Char} (h : Trimmed cs) (hne : cs ≠ []) : ¬Blank cs := by
  intro hb
  rw [← trim_eq_nil_iff, trim_eq_self_iff.mpr h] at hb
  exact hne hb

end RecordQuery.Text
