import RecordQuery.Proofs.Keyed
import RecordQuery.Proofs.Token.Scan
import RecordQuery.Selection.Descent

/-!
# Reading by descent

A reader by descent has the outcome that the stages tell of the tokens that it has not taken, leaves the same tokens, and holds
none ahead when it is done. While it reads, each of its functions takes the tokens that lead from one stage to the next (`At`),
or it fails as reading from that stage does (`Yields`).
-/

namespace RecordQuery

namespace DescentReader

variable {limit : Nat} {full : Except ParseError Selection × List Token} {stage next : Stage} {r r' : DescentReader} {t : Token}
  {ts : List Token} {kind : TokenKind} {expected : Expectation} {e : ParseError} {α β : Type}

/-! ## Taking tokens -/

/-- A token that is no fault is taken, and none is held ahead then. -/
structure Takes (r : DescentReader) (t : Token) (r' : DescentReader) : Prop where
  limit_eq : r'.limit = r.limit
  ahead : r'.ahead = none
  pending : r.pending = t :: r'.pending
  clear : ∀ fault, t.kind ≠ .error fault

/-- A token that is taken is pending no more. -/
theorem Takes.length_lt (h : Takes r t r') : r'.pending.length < r.pending.length := by
  rw [h.pending]
  exact Nat.lt_succ_self _

/-- Reading the tokens that are not taken from the stage on has the outcome of the whole reading. -/
structure At (limit : Nat) (full : Except ParseError Selection × List Token) (stage : Stage) (r : DescentReader) : Prop where
  limit_eq : r.limit = limit
  /-- No fault is held ahead. -/
  clear : ∀ t fault, r.ahead = some t → t.kind ≠ .error fault
  run : stage.readAll limit r.pending = full

/-- What is read is as told, or the error is the outcome of the whole reading and no token is held ahead. -/
def Yields (limit : Nat) (full : Except ParseError Selection × List Token) (Q : α → DescentReader → Prop) :
    EStateM.Result ParseError DescentReader α → Prop
  | .ok a r => Q a r
  | .error e r => r.limit = limit ∧ r.ahead = none ∧ full = (.error e, r.pending)

/-- What is told of a reading may be weakened. -/
theorem Yields.imp {x : EStateM.Result ParseError DescentReader α} {Q Q' : α → DescentReader → Prop}
    (h : Yields limit full Q x) (hQ : ∀ a r, Q a r → Q' a r) : Yields limit full Q' x := by
  cases x with
  | ok a r => exact hQ a r h
  | error => exact h

/-- A reading that goes on with what was read yields what the second part yields from there. -/
theorem Yields.bind {x : Reading α} {f : α → Reading β} {Q : α → DescentReader → Prop} {Q' : β → DescentReader → Prop}
    (h : Yields limit full Q (x r)) (hf : ∀ a r', Q a r' → Yields limit full Q' (f a r')) :
    Yields limit full Q' ((x >>= f) r) := by
  show Yields limit full Q' (EStateM.bind x f r)
  unfold EStateM.bind
  cases hx : x r with
  | ok a r' =>
    rw [hx] at h
    exact hf a r' h
  | error e r' =>
    rw [hx] at h
    exact h

theorem Yields.get_bind {f : DescentReader → Reading β} {Q : β → DescentReader → Prop} (h : Yields limit full Q (f r r)) :
    Yields limit full Q ((get >>= f) r) := h

theorem Yields.set_bind {f : PUnit → Reading β} {Q : β → DescentReader → Prop} (h : Yields limit full Q (f ⟨⟩ r')) :
    Yields limit full Q ((set r' >>= f) r) := h

/-- There is nothing to take, or the first pending token is taken. -/
theorem take_cases (r : DescentReader) :
    r.take = (none, r) ∧ r.ahead = none ∧ r.pending = [] ∨
      ∃ t r', r.take = (some t, r') ∧ r'.limit = r.limit ∧ r'.ahead = none ∧ r.pending = t :: r'.pending := by
  obtain ⟨scanner, ahead, limit⟩ := r
  cases ahead with
  | some t => exact .inr ⟨t, ⟨scanner, none, limit⟩, rfl, rfl, rfl, rfl⟩
  | none =>
    cases h : scanner.next with
    | none => exact .inl ⟨by simp only [take, h], rfl, by simp [pending, Scanner.tokens_of_next_none h]⟩
    | some p =>
      obtain ⟨t, scanner'⟩ := p
      exact .inr ⟨t, ⟨scanner', none, limit⟩, by simp only [take, h], rfl, rfl,
        by simp [pending, Scanner.tokens_of_next_some h]⟩

theorem pending_of_none (h : r.ahead = none) : r.pending = r.scanner.tokens := by
  rw [pending, h, Option.toList_none, List.nil_append]

theorem pending_of_some (h : r.ahead = some t) : r.pending = t :: r.scanner.tokens := by
  rw [pending, h, Option.toList_some, List.singleton_append]

/-- The token ahead is the first one that is pending. -/
theorem eq_of_ahead {u : Token} (h : r.ahead = some u) (hp : r.pending = t :: ts) : t = u := by
  rw [pending_of_some h] at hp
  exact (List.cons.inj hp).1.symm

namespace At

/-- A token that is no fault is read by its kind. -/
theorem read_of_clear (h : ∀ fault, t.kind ≠ .error fault) : stage.read limit t = stage.readToken limit t := by
  unfold Stage.read
  split
  next fault hk => exact absurd hk (h fault)
  next => rfl

/-- Two stages at which the next token leads to the same go on in the same way. -/
theorem congr {stage' : Stage} (h : At limit full stage r) (hp : r.pending = t :: ts)
    (hread : stage'.read limit t = stage.read limit t) : At limit full stage' r := by
  refine ⟨h.limit_eq, h.clear, ?_⟩
  rw [← h.run, hp, Stage.readAll, Stage.readAll, hread]

/-- A token that fits leads to the next stage. -/
theorem more (h : At limit full stage r) (ht : Takes r t r') (hread : stage.readToken limit t = .more next) :
    At limit full next r' := by
  refine ⟨ht.limit_eq.trans h.limit_eq, ?_, ?_⟩
  · intro u fault hu
    rw [ht.ahead] at hu
    cases hu
  · rw [← h.run, ht.pending, Stage.readAll, read_of_clear ht.clear, hread]

/-- A token that completes the query ends the whole reading, with the tokens behind it left. -/
theorem done {selection : Selection} (h : At limit full stage r) (ht : Takes r t r')
    (hread : stage.readToken limit t = .done selection) : full = (.ok selection, r'.pending) := by
  rw [← h.run, ht.pending, Stage.readAll, read_of_clear ht.clear, hread]

/-- A token that does not fit ends the reading. -/
theorem fail {Q : α → DescentReader → Prop} (h : At limit full stage r) (ht : Takes r t r')
    (hread : stage.readToken limit t = .failed e) : Yields limit full Q ((throw e : Reading α) r') := by
  refine ⟨ht.limit_eq.trans h.limit_eq, ht.ahead, ?_⟩
  rw [← h.run, ht.pending, Stage.readAll, read_of_clear ht.clear, hread]

end At

/-- The next token is taken, or it is a fault, which is the outcome. -/
theorem yields_advance (h : At limit full stage r) : Yields limit full (Takes r) (advance r) := by
  refine Yields.get_bind ?_
  rcases take_cases r with ⟨htake, hahead, hpending⟩ | ⟨t, r', htake, hlimit, hahead, hpending⟩
  · rw [htake]
    refine Yields.set_bind ⟨h.limit_eq, hahead, ?_⟩
    rw [← h.run, hpending, Stage.readAll]
  · rw [htake]
    refine Yields.set_bind ?_
    cases hk : t.kind with
    | error fault =>
      simp only [hk]
      refine ⟨hlimit.trans h.limit_eq, hahead, ?_⟩
      simp only [← h.run, hpending, Stage.readAll, Stage.read, hk]
    | _ =>
      simp only [hk]
      exact ⟨hlimit, hahead, hpending, by simp [hk]⟩

/-- A token that was taken is held ahead again. -/
theorem yields_hold (h : At limit full stage r) (ht : Takes r t r') :
    Yields limit full (fun _ r'' => At limit full stage r'' ∧ r''.ahead = some t ∧ r''.pending = r.pending) (hold t r') := by
  have hpending : { r' with ahead := some t }.pending = r.pending := by
    rw [ht.pending, pending_of_none ht.ahead]
    rfl
  refine ⟨⟨ht.limit_eq.trans h.limit_eq, ?_, by rw [hpending, h.run]⟩, rfl, hpending⟩
  intro u fault hu
  cases hu
  exact ht.clear fault

/-- The next token is held ahead without being taken, or it is a fault, which is the outcome. -/
theorem yields_peek (h : At limit full stage r) :
    Yields limit full (fun t r' => At limit full stage r' ∧ r'.ahead = some t ∧ r'.pending = r.pending) (peek r) := by
  refine Yields.get_bind ?_
  cases ha : r.ahead with
  | some t => exact ⟨h, ha, rfl⟩
  | none =>
    refine (yields_advance h).bind fun t r' ht => ?_
    refine (yields_hold h ht).bind ?_
    rintro - r'' ⟨h', hahead, hpending⟩
    exact ⟨h', hahead, hpending⟩

/-- A token of the kind is taken, if every other one is an error at the stage. -/
theorem yields_expect (h : At limit full stage r)
    (hother : ∀ t ts, r.pending = t :: ts → t.kind ≠ kind → stage.readToken limit t = .failed (.ofToken expected t)) :
    Yields limit full (fun t r' => Takes r t r' ∧ t.kind = kind) (expect kind expected r) := by
  refine (yields_advance h).bind fun t r' ht => ?_
  split
  next hk => exact ⟨ht, hk⟩
  next hk => exact h.fail ht (hother t _ ht.pending hk)

/-! ## Arguments and calls -/

section Heads

variable {head : OpenHead} {groups : List OpenGroup} {slot : ArgumentSlot}

/-- An argument is read with its right parenthesis, and the head has it from then on. -/
theorem yields_readArgument (h : At limit full (.leftParen slot head groups) r) :
    Yields limit full
      (fun argument r' => At limit full (.resume (head.fill argument slot) groups) r' ∧ r'.pending.length < r.pending.length)
      (readArgument r) := by
  refine (yields_expect h fun t _ _ hk => by simp only [Stage.readToken, hk, if_false]).bind ?_
  rintro paren r₁ ⟨hparen, hk⟩
  have h₁ : At limit full (.argument slot head groups) r₁ := h.more hparen (by simp only [Stage.readToken, hk, if_true])
  refine (yields_advance h₁).bind fun t r₂ ht => ?_
  have hlt : r₂.pending.length < r.pending.length := ht.length_lt.trans hparen.length_lt
  cases hk : t.kind with
  | rightParen => exact ⟨h₁.more ht (by simp only [Stage.readToken, hk]), hlt⟩
  | argument =>
    have h₂ : At limit full (.rightParen slot t.text head groups) r₂ := h₁.more ht (by simp only [Stage.readToken, hk])
    refine (yields_expect h₂ fun u _ _ hu => by simp only [Stage.readToken, hu, if_false]).bind ?_
    rintro close r₃ ⟨hclose, hkind⟩
    refine ⟨h₂.more hclose (by simp only [Stage.readToken, hkind, if_true]), ?_⟩
    exact hclose.length_lt.trans hlt
  | _ => exact h₁.fail ht (by simp only [Stage.readToken, hk])

/-- A stage that goes on with calls of a head, and to which the argument of a call leads back. -/
def TakesCalls (back : OpenHead → Stage) : Prop :=
  ∀ head t, t.kind = .dot → ∃ groups,
    (∀ limit, (back head).readToken limit t = .more (.callName head groups)) ∧ ∀ h, .resume h groups = back h

theorem takesCalls_root : TakesCalls .root :=
  fun head t hk => ⟨[], fun limit => by simp only [Stage.readToken, hk], fun _ => rfl⟩

theorem takesCalls_fields (group : OpenGroup) (outer : List OpenGroup) :
    TakesCalls fun head => .fields (group.enter head) outer := by
  intro head t hk
  refine ⟨group.enter head :: outer, fun limit => ?_, fun _ => rfl⟩
  simp only [Stage.readToken, Stage.readField, hk, OpenGroup.enter]

/-- Calls are read behind the ones that the head has, up to a token that is no dot. -/
theorem yields_readCalls {back : OpenHead → Stage} (hback : TakesCalls back) {steps : Nat}
    (h : At limit full (back head) r) (hsteps : r.pending.length < steps) :
    Yields limit full
      (fun calls r' => At limit full (back { head with calls := calls.reverse ++ head.calls }) r' ∧
        (∃ t, r'.ahead = some t ∧ t.kind ≠ .dot) ∧ (r'.pending.length < r.pending.length ∨ r'.pending = r.pending))
      (readCalls steps r) := by
  induction steps generalizing head r with
  | zero => exact absurd hsteps (Nat.not_lt_zero _)
  | succ steps ih =>
    refine (yields_peek h).bind ?_
    rintro t r₁ ⟨h₁, ht, hpending⟩
    split
    next hk =>
      obtain ⟨groups, hdot, hresume⟩ := hback head t hk
      refine (yields_advance h₁).bind fun dot r₂ hr₂ => ?_
      obtain rfl := eq_of_ahead ht hr₂.pending
      have h₂ : At limit full (.callName head groups) r₂ := h₁.more hr₂ (hdot limit)
      refine (yields_expect h₂ fun u _ _ hu => by simp only [Stage.readToken, hu, if_false]).bind ?_
      rintro name r₃ ⟨hr₃, hname⟩
      have h₃ : At limit full (.leftParen (.call name.text) head groups) r₃ :=
        h₂.more hr₃ (by simp only [Stage.readToken, hname, if_true])
      refine (yields_readArgument h₃).bind ?_
      rintro argument r₄ ⟨h₄, hlt₄⟩
      have hlt : r₄.pending.length < r₁.pending.length := hlt₄.trans (hr₃.length_lt.trans hr₂.length_lt)
      rw [hpending] at hlt
      rw [hresume] at h₄
      refine (ih h₄ (by omega)).bind ?_
      rintro calls r₅ ⟨h₅, hother, hr₅⟩
      refine ⟨?_, hother, .inl ?_⟩
      · simpa [OpenHead.fill] using h₅
      · rcases hr₅ with hlt₅ | hpending₅
        · exact hlt₅.trans hlt
        · rwa [hpending₅]
    next hk => exact ⟨h₁, ⟨t, ht, hk⟩, .inr hpending⟩

end Heads

/-! ## Fields -/

/-- Calls that are pushed one by one stand behind those of the head. -/
theorem foldl_pushCall (h : Head) (calls : List Call) :
    calls.foldl Selection.pushCall (.leaf h) = .leaf { h with calls := h.calls ++ calls } := by
  induction calls generalizing h with
  | nil => simp
  | cons call calls ih => simp [Selection.pushCall, ih]

theorem settle_owner (group : OpenGroup) : group.settle.owner = group.owner := by
  obtain ⟨owner, fields, current⟩ := group
  cases current <;> rfl

theorem enter_current {group : OpenGroup} {head : OpenHead} (h : group.current = some head) : group.enter head = group := by
  obtain ⟨owner, fields, current⟩ := group
  cases h
  rfl

/-- What is read of a group so far, and the field that was read last: the field is in the selection already, and in the group it
is the current one. -/
structure Matches (group : OpenGroup) (parent : Selection) (last : Option String) : Prop where
  parent_eq : parent = .group group.owner group.settle.fields
  last_eq : last = group.current.map OpenHead.name

namespace Matches

variable {group : OpenGroup} {parent : Selection} {last : Option String} {head : OpenHead}

theorem start (owner : Head) : Matches (.start owner) (.group owner []) none := ⟨rfl, rfl⟩

/-- Where the current field is put into the group, none was read last. -/
theorem settle (h : Matches group parent last) : Matches group.settle parent none := by
  obtain ⟨owner, fields, current⟩ := group
  cases current <;> exact ⟨h.parent_eq, rfl⟩

/-- A new field is put below the selection. -/
theorem enter (h : Matches group parent last) :
    Matches (group.settle.enter head) (parent.putField (.leaf head.close)) (some head.name) := by
  obtain ⟨owner, fields, current⟩ := group
  rw [h.parent_eq]
  cases current <;> exact ⟨rfl, rfl⟩

/-- The current field is the one that was read last, a leaf. -/
theorem field (h : Matches group parent last) (hc : group.current = some head) :
    last = some head.name ∧ parent = (Selection.group group.owner group.fields).putField (.leaf head.close) := by
  obtain ⟨owner, fields, current⟩ := group
  cases hc
  exact ⟨h.last_eq, h.parent_eq⟩

/-- A selection with the name of the current field takes its stead. -/
theorem putField (h : Matches group parent last) (hc : group.current = some head) {field : Selection}
    (hname : field.name = head.name) : parent.putField field = (Selection.group group.owner group.fields).putField field := by
  have heq : compare field.name (Selection.leaf head.close).name = .eq := by
    rw [hname]
    exact Std.ReflCmp.compare_self
  rw [(h.field hc).2]
  exact congrArg (Selection.group group.owner) (Keyed.insert_insert heq group.fields)

/-- The current field with more calls. -/
theorem calls (h : Matches group parent last) (hc : group.current = some head) (calls : List Call) :
    Matches (group.enter { head with calls := calls.reverse ++ head.calls })
      (parent.putField (calls.foldl Selection.pushCall (.leaf head.close))) last := by
  have hclose : ({ head with calls := calls.reverse ++ head.calls } : OpenHead).close =
      { head.close with calls := head.close.calls ++ calls } := by
    simp [OpenHead.close]
  rw [foldl_pushCall, h.putField hc rfl, ← hclose]
  exact ⟨rfl, (h.field hc).1⟩

/-- The current field with fields below it. -/
theorem put (h : Matches group parent last) (hc : group.current = some head) (fields : List Selection) :
    Matches (group.put (.group head.close fields)).leave (parent.putField (.group head.close fields)) none := by
  rw [h.putField hc rfl]
  exact ⟨rfl, rfl⟩

end Matches

/-- The field to which a mark applies is the current one; without one the mark is an error. -/
theorem yields_attached {group : OpenGroup} {outer : List OpenGroup} {parent : Selection} {last : Option String}
    (h : At limit full (.fields group outer) r) (ht : Takes r t r') (hm : Matches group parent last)
    (hdetached : group.current = none →
      (Stage.fields group outer).readToken limit t = .failed (.detached t.kind t.start)) :
    Yields limit full
      (fun field r'' => r'' = r' ∧ ∃ head, group.current = some head ∧ field = .leaf head.close)
      (attached parent last t r') := by
  cases hc : group.current with
  | none =>
    rw [attached, hm.last_eq, hc]
    exact h.fail ht (hdetached hc)
  | some head =>
    obtain ⟨hlast, hparent⟩ := hm.field hc
    have hfield : last.bind parent.field? = some (.leaf head.close) := by
      rw [hlast, hparent]
      show Keyed.find? _ head.close.name (Keyed.insert _ _ _) = _
      rw [Keyed.find?_insert]
      exact if_pos Std.ReflCmp.compare_self
    rw [attached, hfield]
    exact ⟨rfl, head, rfl, rfl⟩

/-- A group that is one too many is an error of the brace that opens it. -/
theorem yields_checkDepth {owner : Head} {outer : List OpenGroup} (h : At limit full stage r) (ht : Takes r t r')
    (hopen : stage.readToken limit t = Stage.openGroup limit owner outer) :
    Yields limit full (fun _ r'' => r'' = r' ∧ At limit full (.fields (.start owner) outer) r')
      (checkDepth (outer.length + 1) r') := by
  have hlimit : r'.limit = limit := ht.limit_eq.trans h.limit_eq
  show Yields limit full _ ((if r'.limit < outer.length + 1 then throw (.tooDeep r'.limit) else pure () : Reading Unit) r')
  rw [hlimit]
  rw [Stage.openGroup] at hopen
  split
  next hlt =>
    rw [if_neg (by omega)] at hopen
    exact h.fail ht hopen
  next hlt =>
    rw [if_pos (by omega)] at hopen
    exact ⟨rfl, h.more ht hopen⟩

/-- The stage behind a selection with a field group, within the groups that are still open. -/
def behind (selection : Selection) : List OpenGroup → Stage
  | [] => .complete selection
  | parent :: outer => .fields (parent.put selection).leave outer

/-- At the end of a field group the reader is behind the selection that it completes. -/
theorem leaveGroup_eq (group : OpenGroup) (outer : List OpenGroup) : Stage.leaveGroup group outer = behind group.close outer := by
  cases outer <;> rfl

/-- A selection of the owner is read to the end of its field group. -/
structure Completes (limit : Nat) (full : Except ParseError Selection × List Token) (owner : Head) (outer : List OpenGroup)
    (r : DescentReader) (selection : Selection) (r' : DescentReader) : Prop where
  shape : ∃ fields, selection = .group owner fields
  stage : At limit full (behind selection outer) r'
  length_lt : r'.pending.length < r.pending.length

/-- Fields are read up to the brace that closes their group. -/
theorem yields_readFields {steps : Nat} {group : OpenGroup} {outer : List OpenGroup} {parent : Selection} {last : Option String}
    (hm : Matches group parent last) (h : At limit full (.fields group outer) r) (hsteps : r.pending.length < steps) :
    Yields limit full (Completes limit full group.owner outer r)
      (readFields steps (outer.length + 1) parent last r) := by
  induction steps generalizing group outer parent last r with
  | zero => exact absurd hsteps (Nat.not_lt_zero _)
  | succ steps ih =>
    -- what is read of the same group behind some of the tokens
    have hrest (group' : OpenGroup) {parent' : Selection} {last' : Option String} {r' : DescentReader}
        (howner : group'.owner = group.owner) (hm' : Matches group' parent' last')
        (h' : At limit full (.fields group' outer) r') (hlt : r'.pending.length < r.pending.length) :
        Yields limit full (Completes limit full group.owner outer r)
          (readFields steps (outer.length + 1) parent' last' r') := by
      refine (ih hm' h' (by omega)).imp ?_
      rintro selection r'' ⟨hshape, hstage, hlt'⟩
      rw [howner] at hshape
      exact ⟨hshape, hstage, hlt'.trans hlt⟩
    refine (yields_advance h).bind fun t r₁ ht => ?_
    have hlt₁ := ht.length_lt
    cases hk : t.kind with
    | comma =>
      exact hrest group.settle (settle_owner group) hm.settle
        (h.more ht (by simp only [Stage.readToken, Stage.readField, hk])) hlt₁
    | fieldName =>
      exact hrest (group.settle.enter { name := t.text }) (settle_owner group) hm.enter
        (h.more ht (by simp only [Stage.readToken, Stage.readField, hk])) hlt₁
    | function =>
      have h₁ : At limit full (.leftParen .own { name := t.text } (group.settle :: outer)) r₁ :=
        h.more ht (by simp only [Stage.readToken, Stage.readField, hk])
      refine (yields_readArgument h₁).bind ?_
      rintro argument r₂ ⟨h₂, hlt₂⟩
      exact hrest (group.settle.enter { name := t.text, argument }) (settle_owner group) hm.enter h₂ (hlt₂.trans hlt₁)
    | dot =>
      refine (yields_attached h ht hm fun hc => by simp only [Stage.readToken, Stage.readField, hk, hc]).bind ?_
      rintro field r₁ ⟨rfl, head, hc, rfl⟩
      refine (yields_hold h ht).bind ?_
      rintro - r₂ ⟨h₂, hahead, hpending⟩
      rw [← enter_current hc] at h₂
      refine (yields_readCalls (takesCalls_fields group outer) h₂ (by rw [hpending]; exact hsteps)).bind ?_
      rintro calls r₃ ⟨h₃, ⟨u, hu, hnot⟩, hr₃⟩
      refine hrest (group.enter { head with calls := calls.reverse ++ head.calls }) rfl (hm.calls hc calls) h₃ ?_
      rw [hpending] at hr₃
      rcases hr₃ with hlt₃ | hpending₃
      · exact hlt₃
      · -- calls were read, since a dot is ahead of them
        rw [eq_of_ahead hu (hpending₃.trans ht.pending)] at hk
        exact absurd hk hnot
    | leftBrace =>
      refine (yields_attached h ht hm fun hc => by simp only [Stage.readToken, Stage.readField, hk, hc]).bind ?_
      rintro field r₁ ⟨rfl, head, hc, rfl⟩
      have hopen : (Stage.fields group outer).readToken limit t = Stage.openGroup limit head.close (group :: outer) := by
        simp only [Stage.readToken, Stage.readField, hk, hc]
      refine (yields_checkDepth h ht hopen).bind ?_
      rintro - r₁ ⟨rfl, h₁⟩
      refine (ih (.start head.close) h₁ (by omega)).bind ?_
      rintro selection r₂ ⟨⟨fields, rfl⟩, h₂, hlt₂⟩
      exact hrest (group.put (.group head.close fields)).leave rfl (hm.put hc fields) h₂ (hlt₂.trans hlt₁)
    | rightBrace =>
      refine ⟨⟨_, hm.parent_eq⟩, ?_, hlt₁⟩
      have hclose : At limit full (.leaveGroup group outer) r₁ :=
        h.more ht (by simp only [Stage.readToken, Stage.readField, hk])
      rw [leaveGroup_eq] at hclose
      rw [hm.parent_eq]
      exact hclose
    | endOfInput => exact h.fail ht (by simp only [Stage.readToken, Stage.readField, hk])
    | _ => exact h.fail ht (by simp only [Stage.readToken, Stage.readField, hk])

/-! ## Whole queries -/

/-- The argument of the requested record is read, or left out where a call follows its name. -/
theorem yields_readRootArgument {name : String} (h : At limit full (.named { name }) r) :
    Yields limit full
      (fun argument r' => At limit full (.root { name, argument }) r' ∧ r'.pending.length ≤ r.pending.length)
      (readRootArgument r) := by
  refine (yields_peek h).bind ?_
  rintro t r₁ ⟨h₁, ht, hpending₁⟩
  split
  next hk =>
    have h₂ : At limit full (.leftParen .own { name } []) r₁ :=
      h₁.congr (pending_of_some ht) (by simp only [Stage.read, Stage.readToken, hk, if_true])
    refine (yields_readArgument h₂).imp ?_
    rintro argument r₂ ⟨h₃, hlt⟩
    rw [hpending₁] at hlt
    exact ⟨h₃, Nat.le_of_lt hlt⟩
  next hparen =>
    refine (yields_peek h₁).bind ?_
    rintro u r₂ ⟨h₂, hu, hpending₂⟩
    obtain rfl : u = t := eq_of_ahead ht (hpending₂ ▸ pending_of_some hu)
    split
    next hk =>
      refine ⟨h₂.congr (pending_of_some hu) ?_, by rw [hpending₂, hpending₁]⟩
      simp only [Stage.read, Stage.readToken, hk]
    next hdot =>
      refine (yields_advance h₂).bind fun v r₃ hv => ?_
      obtain rfl := eq_of_ahead hu hv.pending
      exact h₂.fail hv (by simp only [Stage.readToken])

/-- A whole query is read. -/
theorem yields_readQuery (h : At limit full .start r) :
    Yields limit full (fun selection r' => r'.limit = limit ∧ r'.ahead = none ∧ full = (.ok selection, r'.pending))
      (readQuery r) := by
  refine Yields.get_bind ?_
  refine (yields_advance h).bind fun t r₁ ht => ?_
  split
  next hk =>
    have h₁ : At limit full (.named { name := t.text }) r₁ := h.more ht (by simp only [Stage.readToken, hk, if_true])
    refine (yields_readRootArgument h₁).bind ?_
    rintro argument r₂ ⟨h₂, hle₂⟩
    have hlt₁ := ht.length_lt
    refine (yields_readCalls takesCalls_root h₂ (by omega)).bind ?_
    rintro calls r₃ ⟨h₃, ⟨u, hu, hnot⟩, hr₃⟩
    have hle₃ : r₃.pending.length ≤ r₂.pending.length := by
      rcases hr₃ with hlt | hpending
      · exact Nat.le_of_lt hlt
      · rw [hpending]
    rw [List.append_nil] at h₃
    refine (yields_expect h₃ fun brace _ hpending hbrace => ?_).bind ?_
    · rw [← eq_of_ahead hu hpending] at hnot
      simp only [Stage.readToken]
    rintro brace r₄ ⟨hr₄, hbrace⟩
    have hopen : (Stage.root { name := t.text, argument, calls := calls.reverse }).readToken limit brace =
        Stage.openGroup limit { name := t.text, argument, calls } [] := by
      simp only [Stage.readToken, hbrace, OpenHead.close, List.reverse_reverse]
    have hcheck := yields_checkDepth h₃ hr₄ hopen
    refine hcheck.bind ?_
    rintro - r₄ ⟨rfl, h₄⟩
    have hlt₄ := hr₄.length_lt
    refine (yields_readFields (.start _) h₄ (by omega)).bind ?_
    rintro selection r₅ ⟨-, h₅, -⟩
    refine (yields_expect h₅ fun u _ _ hu => by simp only [behind, Stage.readToken, hu, if_false]).bind ?_
    rintro last r₆ ⟨hr₆, hlast⟩
    exact ⟨hr₆.limit_eq.trans h₅.limit_eq, hr₆.ahead,
      h₅.done hr₆ (by simp only [behind, Stage.readToken, hlast, if_true])⟩
  next hk => exact h.fail ht (by simp only [Stage.readToken, hk, if_false])

/-- Reading with a token ahead is reading without: the outcome is the same, the same tokens are left, and none is held. -/
theorem read_eq (h : r.ahead = none) :
    r.read.1 = (Stage.start.readAll r.limit r.scanner.tokens).1 ∧ r.read.2.limit = r.limit ∧ r.read.2.ahead = none ∧
      r.read.2.scanner.tokens = (Stage.start.readAll r.limit r.scanner.tokens).2 := by
  have hstart : At r.limit (Stage.start.readAll r.limit r.scanner.tokens) .start r := by
    refine ⟨rfl, ?_, by rw [pending_of_none h]⟩
    intro t fault ht
    rw [h] at ht
    cases ht
  have hyields := yields_readQuery hstart
  rw [read]
  cases hq : readQuery r with
  | ok selection r' =>
    rw [hq] at hyields
    obtain ⟨hlimit, hahead, hfull⟩ := hyields
    rw [hfull]
    exact ⟨rfl, hlimit, hahead, (pending_of_none hahead).symm⟩
  | error e r' =>
    rw [hq] at hyields
    obtain ⟨hlimit, hahead, hfull⟩ := hyields
    rw [hfull]
    exact ⟨rfl, hlimit, hahead, (pending_of_none hahead).symm⟩

end DescentReader

/-- A query is what a reader by descent reads in it. -/
theorem Selection.parse_eq_byDescent (query : String) (limit : Nat) :
    parse query limit = (DescentReader.ofScanner (Scanner.ofString query) limit).read.1 :=
  (DescentReader.read_eq (r := .ofScanner (Scanner.ofString query) limit) rfl).1.symm

end RecordQuery
