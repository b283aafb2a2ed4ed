import QueryGate.Proofs.Query.Clauses

/-!
# Rendering

What the values, the conditions and the terms of a request are rendered as in the text of a
query, said of the strings themselves. The structure that a query has in between, with its
literals and operands, does not occur in the rules (`Json.Renders`, `Operator.Renders`,
`Clause.Renders`, `OrderTerm.Renders`). It agrees with them: a clause is admitted as a condition
with some text if that text is a rendering of the clause (`Clause.renders_iff`).
-/

namespace QueryGate

/-! ## Values -/

/-- What stands within quotes for a text: quotes and backslashes are doubled. -/
inductive Escapes : List Char → List Char → Prop where
  | nil : Escapes [] []
  | doubled {c : Char} {cs escaped : List Char} (hc : c = '\'' ∨ c = '\\')
      (h : Escapes cs escaped) : Escapes (c :: cs) (c :: c :: escaped)
  | plain {c : Char} {cs escaped : List Char} (hc : c ≠ '\'' ∧ c ≠ '\\')
      (h : Escapes cs escaped) : Escapes (c :: cs) (c :: escaped)

/-- A text is a string in quotes. -/
def Quotes (s text : String) : Prop :=
  ∃ escaped, Escapes s.toList escaped ∧ text = "'" ++ String.ofList escaped ++ "'"

namespace Json

/-- A scalar is rendered as a literal: a string in quotes, unless it has the form of a date. -/
inductive Renders : Json → String → Prop where
  | null : Renders .null "NULL"
  | yes : Renders (.bool true) "TRUE"
  | no : Renders (.bool false) "FALSE"
  | number (n : JsonNumber) : Renders (.number n) (String.ofList n.text)
  | date {s : String} (hdate : Literal.isDate s = true) : Renders (.string s) s
  | string {s text : String} (hdate : Literal.isDate s = false) (h : Quotes s text) :
      Renders (.string s) text

/-- A scalar other than `null` is rendered as a pattern: in quotes, whatever it is. -/
inductive RendersPattern : Json → String → Prop where
  | string {s text : String} (h : Quotes s text) : RendersPattern (.string s) text
  | number {n : JsonNumber} {text : String} (h : Quotes (String.ofList n.text) text) :
      RendersPattern (.number n) text
  | yes : RendersPattern (.bool true) "'true'"
  | no : RendersPattern (.bool false) "'false'"

end Json

/-- What an operator compares with is rendered for a value: a list in parentheses behind `IN` and
    `NOT IN`, where a scalar is a list of one, a pattern behind `LIKE`, and else a literal. -/
inductive Operator.Renders (op : Operator) : Json → String → Prop where
  | literal {value : Json} {text : String} (hlist : ¬(op = .isIn ∨ op = .notIn))
      (hlike : op ≠ .like) (h : value.Renders text) : Renders op value text
  | pattern {value : Json} {text : String} (hlike : op = .like) (h : value.RendersPattern text) :
      Renders op value text
  | list {values : List Json} {texts : List String} (hlist : op = .isIn ∨ op = .notIn)
      (hne : values ≠ []) (h : List.Forall₂ Json.Renders values texts) :
      Renders op (.array values) ("(" ++ ", ".intercalate texts ++ ")")
  | single {value : Json} {text : String} (hlist : op = .isIn ∨ op = .notIn)
      (h : value.Renders text) : Renders op value ("(" ++ text ++ ")")

section Values

variable {cs escaped : List Char} {s text : String} {value : Json} {op : Operator}

theorem escapes_iff : Escapes cs escaped ↔ escaped = cs.flatMap Literal.escape := by
  constructor
  · intro h
    induction h with
    | nil => rfl
    | doubled hc _ ih => rw [List.flatMap_cons, Literal.escape, if_pos hc, ← ih]; rfl
    | plain hc _ ih => rw [List.flatMap_cons, Literal.escape, if_neg (not_or.2 hc), ← ih]; rfl
  · rintro rfl
    induction cs with
    | nil => exact .nil
    | cons c cs ih =>
      rw [List.flatMap_cons, Literal.escape]
      split_ifs with hc
      · exact .doubled hc ih
      · exact .plain (not_or.1 hc) ih

theorem quotes_iff : Quotes s text ↔ text = String.ofList (Literal.quoted s) := by
  have hquoted : String.ofList (Literal.quoted s) =
      "'" ++ String.ofList (s.toList.flatMap Literal.escape) ++ "'" := by
    rw [Literal.quoted, ← List.singleton_append, String.ofList_append, String.ofList_append]
  rw [Quotes, hquoted]
  simp only [escapes_iff, exists_eq_left]

theorem Operator.takesList_iff : op.takesList = true ↔ op = .isIn ∨ op = .notIn := by
  cases op <;> simp [takesList]

/-- The renderings of a scalar are the texts of its literals. -/
theorem Json.renders_iff :
    value.Renders text ↔ ∃ literal : Literal, literal.Denotes value ∧
      text = String.ofList literal.text := by
  constructor
  · intro h
    cases h with
    | null => exact ⟨.null, .null, rfl⟩
    | yes => exact ⟨.bool true, .bool true, rfl⟩
    | no => exact ⟨.bool false, .bool false, rfl⟩
    | number n => exact ⟨.number n, .number n, rfl⟩
    | date hdate => exact ⟨.date text, .date hdate, String.ofList_toList.symm⟩
    | @string s _ hdate h => exact ⟨.string s, .string hdate, quotes_iff.1 h⟩
  · rintro ⟨literal, hliteral, rfl⟩
    cases hliteral with
    | null => exact .null
    | bool b =>
      cases b with
      | true => exact .yes
      | false => exact .no
    | number n => exact .number n
    | @date s hdate =>
      rw [Literal.text, String.ofList_toList]
      exact .date hdate
    | string hdate => exact .string hdate (quotes_iff.2 rfl)

/-- The renderings of a pattern are the texts of its literals. -/
theorem Json.rendersPattern_iff :
    value.RendersPattern text ↔ ∃ literal : Literal, literal.IsPatternOf value ∧
      text = String.ofList literal.text := by
  constructor
  · intro h
    cases h with
    | @string s _ h => exact ⟨.string s, .string s, quotes_iff.1 h⟩
    | @number n _ h => exact ⟨_, .number n, quotes_iff.1 h⟩
    | yes => exact ⟨_, .bool true, rfl⟩
    | no => exact ⟨_, .bool false, rfl⟩
  · rintro ⟨literal, hliteral, rfl⟩
    cases hliteral with
    | string s => exact .string (quotes_iff.2 rfl)
    | number n => exact .number (quotes_iff.2 rfl)
    | bool b =>
      cases b with
      | true => exact .yes
      | false => exact .no

/-- The renderings of the items of a list are the texts of their literals. -/
theorem forall₂_renders_iff {values : List Json} {texts : List String} :
    List.Forall₂ Json.Renders values texts ↔
      ∃ literals, List.Forall₂ Literal.Denotes literals values ∧
        texts = literals.map fun literal => String.ofList literal.text := by
  constructor
  · intro h
    induction h with
    | nil => exact ⟨[], .nil, rfl⟩
    | cons h _ ih =>
      obtain ⟨literal, hliteral, rfl⟩ := Json.renders_iff.1 h
      obtain ⟨literals, hliterals, rfl⟩ := ih
      exact ⟨literal :: literals, .cons hliteral hliterals, rfl⟩
  · rintro ⟨literals, hliterals, rfl⟩
    induction hliterals with
    | nil => exact .nil
    | cons h _ ih => exact .cons (Json.renders_iff.2 ⟨_, h, rfl⟩) ih

/-- The texts of a list with a separator between them, as a string. -/
theorem ofList_joined (separator : String) (texts : List (List Char)) :
    String.ofList (joined separator texts) = separator.intercalate (texts.map String.ofList) := by
  rw [← String.toList_inj, String.toList_ofList, String.toList_intercalate, List.map_map, joined]
  simp only [Function.comp_def, String.toList_ofList, List.map_id']

theorem Operand.ofList_text_list (literals : List Literal) :
    String.ofList (Operand.list literals).text =
      "(" ++ ", ".intercalate (literals.map fun literal => String.ofList literal.text) ++ ")" := by
  have htext : (Operand.list literals).text =
      ['('] ++ joined ", " (literals.map Literal.text) ++ [')'] := rfl
  rw [htext, String.ofList_append, String.ofList_append, ofList_joined, List.map_map]
  rfl

/-- The renderings of a value for an operator are the texts of the operands that it takes. -/
theorem Operator.renders_iff :
    op.Renders value text ↔ ∃ operand : Operand, operand.Denotes op value ∧
      text = String.ofList operand.text := by
  constructor
  · intro h
    cases h with
    | literal hlist hlike h =>
      obtain ⟨literal, hliteral, rfl⟩ := Json.renders_iff.1 h
      have hlist : op.takesList = false := Bool.eq_false_iff.2 fun h => hlist (takesList_iff.1 h)
      exact ⟨.one literal, .one hlist hlike hliteral, rfl⟩
    | pattern hlike h =>
      obtain ⟨literal, hliteral, rfl⟩ := Json.rendersPattern_iff.1 h
      exact ⟨.one literal, .pattern hlike hliteral, rfl⟩
    | list hlist hne h =>
      obtain ⟨literals, hliterals, rfl⟩ := forall₂_renders_iff.1 h
      exact ⟨.list literals, .list (takesList_iff.2 hlist) hne hliterals,
        (Operand.ofList_text_list literals).symm⟩
    | single hlist h =>
      obtain ⟨literal, hliteral, rfl⟩ := Json.renders_iff.1 h
      exact ⟨.list [literal], .single (takesList_iff.2 hlist) hliteral,
        (Operand.ofList_text_list [literal]).symm⟩
  · rintro ⟨operand, hoperand, rfl⟩
    cases hoperand with
    | one hlist hlike h =>
      -- an operator that takes no list is neither `IN` nor `NOT IN`
      refine .literal (fun h => ?_) hlike (Json.renders_iff.2 ⟨_, h, rfl⟩)
      rw [takesList_iff.2 h] at hlist
      cases hlist
    | pattern hlike h => exact .pattern hlike (Json.rendersPattern_iff.2 ⟨_, h, rfl⟩)
    | list hlist hne h =>
      rw [Operand.ofList_text_list]
      exact .list (takesList_iff.1 hlist) hne (forall₂_renders_iff.2 ⟨_, h, rfl⟩)
    | single hlist h =>
      rw [Operand.ofList_text_list]
      exact .single (takesList_iff.1 hlist) (Json.renders_iff.2 ⟨_, h, rfl⟩)

end Values

/-! ## Conditions and terms -/

/-- A clause is rendered as a condition: its field is not blank and allowed, its operator is one and
    is allowed on the field, and its value has a rendering for that. -/
inductive Clause.Renders (view : View) (object : String) : Clause → String → Prop where
  | intro {field op text : String} {value : Json} {parsed : Operator}
      (hne : Text.trimmed field ≠ "") (hallowed : Text.trimmed field ∈ view.fields object)
      (hparse : Operator.parse? op = some parsed)
      (hop : parsed ∈ view.operators object (Text.trimmed field))
      (hvalue : parsed.Renders value text) :
      Renders view object (.condition field op (some value))
        (Text.trimmed field ++ " " ++ parsed.spelling ++ " " ++ text)

/-- A term is rendered with its direction, which is ascending unless it says `DESC`, in any case. -/
inductive OrderTerm.Renders : OrderTerm → String → Prop where
  | descending {term : OrderTerm} {s : String} (h : term.direction = some s)
      (hdesc : Text.sameLetters (Text.trim s.toList) "desc".toList = true) :
      Renders term (Text.trimmed term.field ++ " DESC")
  | ascending {term : OrderTerm} (h : ∀ s, term.direction = some s →
        Text.sameLetters (Text.trim s.toList) "desc".toList = false) :
      Renders term (Text.trimmed term.field ++ " ASC")

theorem Comparison.ofList_text (c : Comparison) : String.ofList c.text =
    c.field ++ " " ++ c.op.spelling ++ " " ++ String.ofList c.operand.text := by
  rw [← String.toList_inj]
  simp [text]

/-- The renderings of a clause are the texts of the conditions that it is admitted as. -/
theorem Clause.renders_iff {view : View} {object text : String} {clause : Clause} :
    clause.Renders view object text ↔ ∃ c, Admits view object clause c ∧
      text = String.ofList c.text := by
  constructor
  · intro h
    cases h with
    | @intro field op text value parsed hne hallowed hparse hop hvalue =>
      obtain ⟨operand, hoperand, rfl⟩ := Operator.renders_iff.1 hvalue
      refine ⟨⟨Text.trimmed field, parsed, operand⟩, ?_, ?_⟩
      · exact .intro rfl hne hallowed hparse hop hoperand
      · rw [Comparison.ofList_text]
  · rintro ⟨c, hadmits, rfl⟩
    obtain ⟨hfield, hne, hallowed, hparse, hop, hoperand⟩ := hadmits
    rw [hfield] at hne hallowed hop
    rw [Comparison.ofList_text, hfield]
    exact .intro hne hallowed hparse hop (Operator.renders_iff.2 ⟨_, hoperand, rfl⟩)

/-- The text of a term in normal form is a rendering of the term. -/
theorem OrderTerm.renders_normalize (term : OrderTerm) :
    term.Renders (String.ofList (orderTermText term.normalize)) := by
  have htext : ∀ direction : Direction, String.ofList
      (orderTermText (Text.trimmed term.field, direction)) =
        Text.trimmed term.field ++ (" " ++ direction.spelling) := by
    intro direction
    rw [← String.toList_inj]
    simp [orderTermText]
  -- what does not say `DESC` is ascending, also where no direction is given
  have hdescending : " " ++ Direction.descending.spelling = " DESC" := by decide
  have hascending : " " ++ Direction.ascending.spelling = " ASC" := by decide
  rw [OrderTerm.normalize, htext]
  cases hdirection : term.direction with
  | none =>
    rw [Direction.ofText, hascending]
    exact .ascending fun s hs => by rw [hdirection] at hs; cases hs
  | some s =>
    rw [Direction.ofText]
    split_ifs with hdesc
    · rw [hdescending]
      exact .descending hdirection hdesc
    · rw [hascending]
      refine .ascending fun s' hs' => ?_
      obtain rfl := Option.some.inj (hdirection.symm.trans hs')
      exact Bool.eq_false_iff.2 hdesc

end QueryGate
