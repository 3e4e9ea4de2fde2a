import Mathlib.Data.List.Forall2
import RecordQuery.Command.Basic
import RecordQuery.Proofs.Text.Quoted
import RecordQuery.Proofs.Token.Automaton
import RecordQuery.Proofs.Token.Layout

/-!
# The tokens of a query as lines

A check can show the tokens of any query, each on a line of its own. The lines tell the tokens (`check_lists`): a line for a fault,
the line for an end with nothing left over and a line with a kind and a quoted text start differently (`Shows`), and the angle
bracket behind the kind is the first one, so the kind and the quoted text can be taken apart.
-/

namespace RecordQuery

open Text (Avoids Unbroken quotedChars)

/-! ## Lines -/

/-- The kinds that are shown by name. -/
def TokenKind.named : List TokenKind :=
  [objectName, dot, function, leftParen, argument, rightParen, leftBrace, fieldName, comma, rightBrace, endOfInput]

/-- The line that shows what a token says. -/
inductive Shows : Lexeme → List Char → Prop where
  | fault (f : ScanFault) : Shows (.error f, f.message) f.message.toList
  | nothingLeft : Shows (.endOfInput, "") ['E', 'O', 'F']
  | named {kind : TokenKind} {text : String} (hk : kind ∈ TokenKind.named) (ht : kind = .endOfInput → text ≠ "") :
    Shows (kind, text) ('<' :: (kind.describe.toList ++ '>' :: ' ' :: quotedChars text.toList))

/-- Each kind but that of a fault is shown by its name. -/
theorem TokenKind.mem_named {kind : TokenKind} (h : ∀ f, kind ≠ .error f) : kind ∈ named := by
  cases kind with
  | error f => exact absurd rfl (h f)
  | _ => decide

/-- The message of a fault tells the fault. -/
theorem ScanFault.message_inj {f f' : ScanFault} : f.message.toList = f'.message.toList → f = f' := by
  cases f <;> cases f' <;> decide

/-- The message of a fault starts with an i, as neither the line of an end nor one with a kind does. -/
theorem ScanFault.head?_message (f : ScanFault) : f.message.toList.head? = some 'i' := by
  cases f <;> decide

/-- The name of a kind goes up to the first angle bracket behind it. -/
theorem TokenKind.avoids_describe {kind : TokenKind} (h : kind ∈ named) : Avoids ['>'] kind.describe.toList := by
  have hall : ∀ k ∈ named, '>' ∉ k.describe.toList := by decide +kernel
  intro c hc hbracket
  obtain rfl := List.mem_singleton.mp hbracket
  exact hall kind h hc

/-- The name of a kind tells the kind. -/
theorem TokenKind.describe_inj {kind kind' : TokenKind} (h : kind ∈ named) (h' : kind' ∈ named)
    (heq : kind.describe.toList = kind'.describe.toList) : kind = kind' := by
  have hall : ∀ k ∈ named, ∀ k' ∈ named, k.describe.toList = k'.describe.toList → k = k' := by decide +kernel
  exact hall kind h kind' h' heq

namespace Shows

variable {l l' : Lexeme} {line line' : List Char}

/-- A line shows one thing. -/
theorem inj (h : Shows l line) (h' : Shows l' line') (heq : line = line') : l = l' := by
  have hhead := congrArg List.head? heq
  cases h with
  | fault f =>
    rw [f.head?_message] at hhead
    cases h' with
    | fault f' => rw [ScanFault.message_inj heq]
    | nothingLeft => cases hhead
    | named => cases hhead
  | nothingLeft =>
    cases h' with
    | fault f' =>
      rw [f'.head?_message] at hhead
      cases hhead
    | nothingLeft => rfl
    | named => cases hhead
  | named hk ht =>
    cases h' with
    | fault f' =>
      rw [f'.head?_message] at hhead
      cases hhead
    | nothingLeft => cases hhead
    | named hk' ht' =>
      have hbracket : '>' ∈ ['>'] := List.mem_singleton_self '>'
      obtain ⟨hkind, _, hrest⟩ := (TokenKind.avoids_describe hk).append_cons_inj (TokenKind.avoids_describe hk') hbracket
        hbracket (List.cons.inj heq).2
      rw [TokenKind.describe_inj hk hk' hkind, String.toList_inj.mp (Text.quotedChars_inj (List.cons.inj hrest).2)]

/-- Nothing that a line shows breaks it. -/
theorem unbroken (h : Shows l line) : Unbroken line := by
  cases h with
  | fault f => cases f <;> decide
  | nothingLeft => decide
  | @named kind text hk ht =>
    have hall : ∀ k ∈ TokenKind.named, Unbroken ('<' :: k.describe.toList) := by decide +kernel
    have hback : Unbroken ['>', ' '] := by decide
    exact Text.unbroken_append.mpr ⟨hall kind hk, Text.unbroken_append.mpr ⟨hback, Text.unbroken_quotedChars text.toList⟩⟩

end Shows

/-- The line of a token shows what it says; the text of a fault is the one that its kind tells. -/
theorem Token.shows_display {t : Token} (h : ∀ w, t.kind.text? = some w → t.text = w) : Shows t.lexeme t.display.toList := by
  have hnamed (hk : ∀ f, t.kind ≠ .error f) (ht : t.kind = .endOfInput → t.text ≠ "")
      (hline : t.display = "<" ++ t.kind.describe ++ "> " ++ Text.quoted t.text) : Shows t.lexeme t.display.toList := by
    have hshows : Shows t.lexeme _ := .named (TokenKind.mem_named hk) ht
    have htext : t.display.toList = '<' :: (t.kind.describe.toList ++ '>' :: ' ' :: quotedChars t.text.toList) := by
      rw [hline]
      simp [Text.quoted]
    rwa [htext]
  obtain ⟨kind, text, start, stop⟩ := t
  cases kind with
  | error f =>
    cases h f.message rfl
    exact .fault f
  | endOfInput =>
    by_cases ht : text = ""
    · subst ht
      have hline : Token.display ⟨.endOfInput, "", start, stop⟩ = "EOF" := by simp [Token.display]
      rw [hline]
      exact .nothingLeft
    · exact hnamed nofun (fun _ => ht) (if_neg ht)
  | _ => exact hnamed nofun nofun rfl

/-! ## Listings -/

/-- The lines list the tokens of a query. -/
structure Lists (query : String) (lines : List String) : Prop where
  /-- Each token has its line, in order. -/
  shown : List.Forall₂ (fun t line => Shows t.lexeme line.toList) (Scanner.ofString query).tokens lines
  /-- The last line is the one of the token that ends the query, and no other is. -/
  ended : ∃ front last, (Scanner.ofString query).tokens = front ++ [last] ∧ last.kind.isTerminal = true ∧
    ∀ t ∈ front, t.kind.isTerminal = false
  /-- No line is broken. -/
  unbroken : ∀ line ∈ lines, Unbroken line.toList

/-- The lines that are made of a query list its tokens. -/
theorem lists_tokenLines (query : String) : Lists query (tokenLines query) := by
  have hplaced := Cursor.placed_ofChars query.toList
  have hshows : ∀ t ∈ (Scanner.ofString query).tokens, Shows t.lexeme t.display.toList :=
    fun t ht => Token.shows_display fun _ hw => Cursor.text_of_mem_tokens hplaced ht hw
  refine ⟨?_, Cursor.exists_tokens_eq_append hplaced, fun line hline => ?_⟩
  · rw [tokenLines, List.forall₂_map_right_iff, List.forall₂_same]
    exact hshows
  · obtain ⟨t, ht, rfl⟩ := List.mem_map.mp hline
    exact (hshows t ht).unbroken

/-- Lines list one row of lexemes. -/
theorem lexemes_eq_of_forall₂ {ts us : List Token} {lines : List String}
    (ht : List.Forall₂ (fun t line => Shows t.lexeme line.toList) ts lines)
    (hu : List.Forall₂ (fun t line => Shows t.lexeme line.toList) us lines) : ts.map Token.lexeme = us.map Token.lexeme := by
  induction ht generalizing us with
  | nil =>
    cases hu
    rfl
  | cons hline _ ih =>
    cases hu with
    | cons hline' hrest => rw [List.map_cons, List.map_cons, hline.inj hline' rfl, ih hrest]

/-- A check that is to show tokens never fails: it lists the tokens of the query, the one that ends it included, each on a line that
nothing breaks. Queries with the same lines have tokens of the same kinds with the same texts. -/
theorem check_lists (query : String) (maxDepth : Option Nat) :
    ∃ lines, check query maxDepth true = .ok (.tokens lines) ∧ Lists query lines ∧
      ∀ query' maxDepth', check query' maxDepth' true = .ok (.tokens lines) →
        (Scanner.ofString query').tokens.map Token.lexeme = (Scanner.ofString query).tokens.map Token.lexeme := by
  refine ⟨tokenLines query, rfl, lists_tokenLines query, fun query' maxDepth' h => ?_⟩
  have hlines : tokenLines query' = tokenLines query := Reading.tokens.inj (Except.ok.inj h)
  have hshown' := (lists_tokenLines query').shown
  rw [hlines] at hshown'
  exact lexemes_eq_of_forall₂ hshown' (lists_tokenLines query).shown

/-- Two queries with the same tokens, laid out differently: an argument of a quote, a backslash and a tab, and line breaks at the
end that are quoted. -/
theorem check_lists_quoted :
    tokenLines "n(\"\\\t)\x7b\x7d\r\n" =
        ["<object name> \"n\"", "<'('> \"(\"", "<argument> \"\\\"\\\\\\t\"", "<')'> \")\"", "<'\x7b'> \"\x7b\"",
          "<'\x7d'> \"\x7d\"", "<end of input> \"\\r\\n\""] ∧
      check "n(\"\\\t)\n\x7b \x7d\r\n" none true = check "n(\"\\\t)\x7b\x7d\r\n" none true ∧
      (Scanner.ofString "n(\"\\\t)\n\x7b \x7d\r\n").tokens.map Token.lexeme =
        (Scanner.ofString "n(\"\\\t)\x7b\x7d\r\n").tokens.map Token.lexeme := by
  have hlines : tokenLines "n(\"\\\t)\n\x7b \x7d\r\n" = tokenLines "n(\"\\\t)\x7b\x7d\r\n" := by decide +kernel
  have hcheck : check "n(\"\\\t)\n\x7b \x7d\r\n" none true = check "n(\"\\\t)\x7b\x7d\r\n" none true := by
    rw [check, check, if_pos rfl, if_pos rfl, hlines]
  obtain ⟨lines, hlists, _, hsame⟩ := check_lists "n(\"\\\t)\x7b\x7d\r\n" none
  exact ⟨by decide +kernel, hcheck, hsame _ none (hcheck.trans hlists)⟩

end RecordQuery
