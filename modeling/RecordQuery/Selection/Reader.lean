import RecordQuery.Selection.Basic
import RecordQuery.Selection.Error
import RecordQuery.Token.Scanner

/-!
# Reading selections

Tokens are read one at a time. A stage says what the tokens read so far call for and holds the selections that are not complete
yet: the field groups that are still open, the innermost first. Reading stops with the first token that does not fit, or with
the end of the query, so it never looks at a token that it does not use.
-/

namespace RecordQuery

/-- A head to which calls can still be added. -/
structure OpenHead where
  name : String
  /-- The text between the parentheses, if there is any. -/
  argument : Option String := none
  /-- The calls so far, the last one first. -/
  calls : List Call := []
  deriving Repr

/-- The head that is complete with the calls so far. -/
def OpenHead.close (h : OpenHead) : Head := ⟨h.name, h.argument, h.calls.reverse⟩

/-- A field group that is still open. -/
structure OpenGroup where
  /-- What the group belongs to. -/
  owner : Head
  /-- The fields that are complete, in ascending order of their names. -/
  fields : List Selection
  /-- The field that a call or a field group would belong to; it is not among `fields` yet. -/
  current : Option OpenHead
  deriving Repr

namespace OpenGroup

/-- The group of a selection before its first field. -/
def start (owner : Head) : OpenGroup := ⟨owner, [], none⟩

/-- Puts a field into the group, in the stead of one with the same name. -/
def put (g : OpenGroup) (field : Selection) : OpenGroup := { g with fields := Keyed.insert Selection.name field g.fields }

/-- Makes a field the current one. -/
def enter (g : OpenGroup) (h : OpenHead) : OpenGroup := { g with current := some h }

/-- Leaves the current field without putting it into the group. -/
def leave (g : OpenGroup) : OpenGroup := { g with current := none }

/-- Puts the current field into the group, as a plain field to which nothing can be added any more. -/
def settle (g : OpenGroup) : OpenGroup :=
  match g.current with
  | none => g
  | some h => (g.put (.leaf h.close)).leave

/-- The selection that the group completes. -/
def close (g : OpenGroup) : Selection := .group g.owner g.settle.fields

end OpenGroup

/-- Where an argument goes. -/
inductive ArgumentSlot where
  /-- To the selection itself. -/
  | own
  /-- To a call with this name. -/
  | call (name : String)
  deriving DecidableEq, Repr

/-- Completes a head by an argument. -/
def OpenHead.fill (h : OpenHead) (argument : Option String) : ArgumentSlot → OpenHead
  | .own => { h with argument }
  | .call name => { h with calls := { name, argument } :: h.calls }

/-- What the tokens read so far call for. The heads are the selections being read, `groups` the field groups around them. -/
inductive Stage where
  /-- The name of the requested record. -/
  | start
  /-- An argument or a call after the name of the requested record. -/
  | named (head : OpenHead)
  /-- The name of a call. -/
  | callName (head : OpenHead) (groups : List OpenGroup)
  /-- A left parenthesis. -/
  | leftParen (slot : ArgumentSlot) (head : OpenHead) (groups : List OpenGroup)
  /-- An argument or a right parenthesis. -/
  | argument (slot : ArgumentSlot) (head : OpenHead) (groups : List OpenGroup)
  /-- A right parenthesis after an argument. -/
  | rightParen (slot : ArgumentSlot) (text : String) (head : OpenHead) (groups : List OpenGroup)
  /-- A call or the field group of the requested record. -/
  | root (head : OpenHead)
  /-- A field of the innermost group, or its end. -/
  | fields (group : OpenGroup) (outer : List OpenGroup)
  /-- The end of the query. -/
  | complete (selection : Selection)
  deriving Repr

/-- What a token leads to. -/
inductive Progress where
  | more (stage : Stage)
  | done (selection : Selection)
  | failed (error : ParseError)
  deriving Repr

namespace Stage

/-- After the argument of a head: back to the requested record or to the fields around the head. -/
def resume (head : OpenHead) : List OpenGroup → Stage
  | [] => .root head
  | group :: outer => .fields (group.enter head) outer

/-- After the end of a field group: the requested record is complete, or the group is a field of the one around it. -/
def leaveGroup (group : OpenGroup) : List OpenGroup → Stage
  | [] => .complete group.close
  | parent :: outer => .fields (parent.put group.close).leave outer

/-- Opens a field group within `outer`, unless that is one too many. -/
def openGroup (limit : Nat) (owner : Head) (outer : List OpenGroup) : Progress :=
  if outer.length < limit then .more (.fields (.start owner) outer) else .failed (.tooDeep limit)

/-- Reads a token inside a field group. -/
def readField (limit : Nat) (group : OpenGroup) (outer : List OpenGroup) (t : Token) : Progress :=
  match t.kind with
  | .comma => .more (.fields group.settle outer)
  | .fieldName => .more (.fields (group.settle.enter { name := t.text }) outer)
  | .function => .more (.leftParen .own { name := t.text } (group.settle :: outer))
  | .dot =>
    match group.current with
    | some head => .more (.callName head (group :: outer))
    | none => .failed (.detached .dot t.start)
  | .leftBrace =>
    match group.current with
    | some head => openGroup limit head.close (group :: outer)
    | none => .failed (.detached .leftBrace t.start)
  | .rightBrace => .more (leaveGroup group outer)
  | .endOfInput => .failed (.unexpectedEnd .rightBrace)
  | _ => .failed (.ofToken .fieldOrRightBrace t)

/-- Reads a token that is not a fault. -/
def readToken (limit : Nat) (stage : Stage) (t : Token) : Progress :=
  match stage with
  | .start => if t.kind = .objectName then .more (.named { name := t.text }) else .failed (.noRoot t.kind)
  | .named head =>
    match t.kind with
    | .leftParen => .more (.argument .own head [])
    | .dot => .more (.callName head [])
    | _ => .failed (.ofToken .argumentOrCall t)
  | .callName head groups =>
    if t.kind = .function then .more (.leftParen (.call t.text) head groups) else .failed (.ofToken .functionName t)
  | .leftParen slot head groups =>
    if t.kind = .leftParen then .more (.argument slot head groups) else .failed (.ofToken .leftParen t)
  | .argument slot head groups =>
    match t.kind with
    | .rightParen => .more (resume (head.fill none slot) groups)
    | .argument => .more (.rightParen slot t.text head groups)
    | _ => .failed (.ofToken .argumentOrRightParen t)
  | .rightParen slot text head groups =>
    if t.kind = .rightParen then .more (resume (head.fill (some text) slot) groups)
    else .failed (.ofToken .rightParen t)
  | .root head =>
    match t.kind with
    | .dot => .more (.callName head [])
    | .leftBrace => openGroup limit head.close []
    | _ => .failed (.ofToken .leftBrace t)
  | .fields group outer => readField limit group outer t
  | .complete selection => if t.kind = .endOfInput then .done selection else .failed (.ofToken .endOfInput t)

/-- Reads a token; a fault of the scan ends the reading at every stage. -/
def read (limit : Nat) (stage : Stage) (t : Token) : Progress :=
  match t.kind with
  | .error fault => .failed (.scan fault t.start)
  | _ => stage.readToken limit t

/-- Reads tokens until the query is complete or a token does not fit; gives the outcome and the tokens that are left. -/
def readAll (limit : Nat) (stage : Stage) : List Token → Except ParseError Selection × List Token
  | [] => (.error (.unexpectedEnd .moreInput), [])
  | t :: ts =>
    match stage.read limit t with
    | .more stage => stage.readAll limit ts
    | .done selection => (.ok selection, ts)
    | .failed error => (.error error, ts)

end Stage

/-- How many field groups may be nested in each other when nothing else is said. -/
def defaultDepth : Nat := 64

/-- A reader of selections in front of the tokens that are left. -/
structure SelectionReader where
  tokens : List Token
  /-- How many field groups may be nested in each other. -/
  limit : Nat := defaultDepth
  deriving Repr

namespace SelectionReader

/-- The reader in front of what a scanner has left. -/
def ofScanner (s : Scanner) (limit : Nat := defaultDepth) : SelectionReader := ⟨s.tokens, limit⟩

/-- Reads one selection; the reader goes on behind the last token it used. -/
def read (r : SelectionReader) : Except ParseError Selection × SelectionReader :=
  let (outcome, tokens) := Stage.start.readAll r.limit r.tokens
  (outcome, { r with tokens })

end SelectionReader

/-- Reads a query in which at most `limit` field groups are nested in each other. -/
def Selection.parse (query : String) (limit : Nat := defaultDepth) : Except ParseError Selection :=
  (Stage.start.readAll limit (Scanner.ofString query).tokens).1

end RecordQuery
