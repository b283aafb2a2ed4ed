import Mathlib.Data.List.Forall2
import QueryGate.Query.Compile

/-!
# What becomes of a clause

The rules by which a clause of a request is a condition of the query or an error, as
relations that say nothing of how it is found out.

* `Literal.Denotes`, `Literal.IsPatternOf`, `Operand.Denotes`: what is written for a value;
* `Operand.Fault`: why nothing can be written for it;
* `Admits`: a clause is a condition of the query, with an operand that denotes its value;
* `Refuses`: a clause breaks a rule, and no rule that is looked at before;
* `comparison_ok_iff`, `refuses_of_comparison_error`: clauses are compiled by these rules.
-/

namespace QueryGate

/-! ## Literals -/

namespace Literal

/-- A literal denotes a value: it is the value itself, dates being written for all strings that
    have the form of one. -/
inductive Denotes : Literal → Json → Prop where
  | null : Denotes .null .null
  | bool (b : Bool) : Denotes (.bool b) (.bool b)
  | number (n : JsonNumber) : Denotes (.number n) (.number n)
  | date {s : String} (h : isDate s = true) : Denotes (.date s) (.string s)
  | string {s : String} (h : isDate s = false) : Denotes (.string s) (.string s)

/-- A literal is the pattern of a value: the string that the value is or is written as. -/
inductive IsPatternOf : Literal → Json → Prop where
  | string (s : String) : IsPatternOf (.string s) (.string s)
  | number (n : JsonNumber) : IsPatternOf (.string (String.ofList n.text)) (.number n)
  | bool (b : Bool) : IsPatternOf (.string (toString b)) (.bool b)

theorem ofJson_ok_iff {value : Json} {literal : Literal} :
    ofJson value = .ok literal ↔ literal.Denotes value := by
  constructor
  · intro h
    cases value with
    | null => cases h; exact .null
    | bool b => cases h; exact .bool b
    | number n => cases h; exact .number n
    | string s =>
      cases h
      split_ifs with hs
      · exact .date hs
      · exact .string (Bool.eq_false_iff.2 hs)
    | array items => cases h
    | object members => cases h
  · rintro (_ | b | n | hs | hs)
    · rfl
    · rfl
    · rfl
    · rw [ofJson, if_pos hs]
    · rw [ofJson, if_neg (Bool.eq_false_iff.1 hs)]

theorem ofJson_error_iff {value : Json} {error : LiteralError} :
    ofJson value = .error error ↔
      error = .unsupported value.kind ∧ ∀ literal : Literal, ¬literal.Denotes value := by
  constructor
  · intro h
    refine ⟨?_, fun literal hliteral => ?_⟩
    · cases value <;> cases h <;> rfl
    · rw [ofJson_ok_iff.2 hliteral] at h
      cases h
  · rintro ⟨rfl, hnone⟩
    cases hvalue : ofJson value with
    | ok literal => exact absurd (ofJson_ok_iff.1 hvalue) (hnone literal)
    | error error => cases value <;> cases hvalue <;> rfl

theorem patternOfJson_ok_iff {value : Json} {literal : Literal} :
    patternOfJson value = .ok literal ↔ literal.IsPatternOf value := by
  constructor
  · intro h
    cases value with
    | string s => cases h; exact .string s
    | number n => cases h; exact .number n
    | bool b => cases h; exact .bool b
    | null => cases h
    | array items => cases h
    | object members => cases h
  · rintro (s | n | b) <;> rfl

theorem patternOfJson_error_iff {value : Json} {error : LiteralError} :
    patternOfJson value = .error error ↔
      error = .badPattern value.kind ∧ ∀ literal : Literal, ¬literal.IsPatternOf value := by
  constructor
  · intro h
    refine ⟨?_, fun literal hliteral => ?_⟩
    · cases value <;> cases h <;> rfl
    · rw [patternOfJson_ok_iff.2 hliteral] at h
      cases h
  · rintro ⟨rfl, hnone⟩
    cases hvalue : patternOfJson value with
    | ok literal => exact absurd (patternOfJson_ok_iff.1 hvalue) (hnone literal)
    | error error => cases value <;> cases hvalue <;> rfl

end Literal

/-! ## Operands -/

namespace Operand

/-- An operand of an operator denotes a value. -/
inductive Denotes (op : Operator) : Operand → Json → Prop where
  /-- A scalar. -/
  | one {literal : Literal} {value : Json} (hlist : op.takesList = false) (hlike : op ≠ .like)
      (h : literal.Denotes value) : Denotes op (.one literal) value
  /-- A pattern. -/
  | pattern {literal : Literal} {value : Json} (hlike : op = .like)
      (h : literal.IsPatternOf value) : Denotes op (.one literal) value
  /-- A list of scalars. -/
  | list {literals : List Literal} {values : List Json} (hlist : op.takesList = true)
      (hne : values ≠ []) (h : List.Forall₂ Literal.Denotes literals values) :
      Denotes op (.list literals) (.array values)
  /-- A scalar where a list is expected. -/
  | single {literal : Literal} {value : Json} (hlist : op.takesList = true)
      (h : literal.Denotes value) : Denotes op (.list [literal]) value

/-- Why an operator has no operand for a value. -/
inductive Fault (op : Operator) : Json → ClauseFault → Prop where
  /-- A list is empty. -/
  | emptyList (hlist : op.takesList = true) : Fault op (.array []) (.emptyList op)
  /-- An item of a list, the first such, is no scalar. -/
  | item {before : List Json} {literals : List Literal} {bad : Json} {after : List Json}
      (hlist : op.takesList = true) (hbefore : List.Forall₂ Literal.Denotes literals before)
      (hbad : ∀ literal : Literal, ¬literal.Denotes bad) :
      Fault op (.array (before ++ bad :: after)) (.literal (.unsupported bad.kind))
  /-- A value is no scalar, and no list where one is expected. -/
  | value {value : Json} (hlike : op ≠ .like)
      (harray : op.takesList = true → ∀ items, value ≠ .array items)
      (hvalue : ∀ literal : Literal, ¬literal.Denotes value) :
      Fault op value (.literal (.unsupported value.kind))
  /-- A value is no pattern. -/
  | pattern {value : Json} (hlike : op = .like)
      (hvalue : ∀ literal : Literal, ¬literal.IsPatternOf value) :
      Fault op value (.literal (.badPattern value.kind))

end Operand

section Results

variable {α β ε ε' : Type}

theorem mapError_map_ok_iff {f : α → β} {g : ε → ε'} {x : Except ε α} {b : β} :
    (x.map f).mapError g = .ok b ↔ ∃ a, x = .ok a ∧ f a = b := by
  cases x <;> simp [Except.map, Except.mapError]

theorem mapError_map_error_iff {f : α → β} {g : ε → ε'} {x : Except ε α} {e' : ε'} :
    (x.map f).mapError g = .error e' ↔ ∃ e, x = .error e ∧ g e = e' := by
  cases x <;> simp [Except.map, Except.mapError]

variable {f : α → Except ε β} {a : α} {as : List α}

theorem mapM_cons_ok_iff {bs : List β} :
    (a :: as).mapM f = .ok bs ↔ ∃ b bs', f a = .ok b ∧ as.mapM f = .ok bs' ∧ b :: bs' = bs := by
  rw [List.mapM_cons]
  cases f a <;> cases as.mapM f <;> simp [bind, Except.bind, pure, Except.pure]

theorem mapM_cons_error_iff {e : ε} :
    (a :: as).mapM f = .error e ↔ f a = .error e ∨ ∃ b, f a = .ok b ∧ as.mapM f = .error e := by
  rw [List.mapM_cons]
  cases f a <;> cases as.mapM f <;> simp [bind, Except.bind, pure, Except.pure]

end Results

/-- Literals are found for all items of a list. -/
theorem mapM_ofJson_ok_iff {values : List Json} {literals : List Literal} :
    values.mapM Literal.ofJson = .ok literals ↔ List.Forall₂ Literal.Denotes literals values := by
  induction values generalizing literals with
  | nil => simp [pure, Except.pure, eq_comm]
  | cons value values ih =>
    rw [mapM_cons_ok_iff, List.forall₂_cons_right_iff]
    simp only [Literal.ofJson_ok_iff, ih, @eq_comm _ literals]

/-- Literals are found for all items of a list before one that has none. -/
theorem mapM_ofJson_error {values : List Json} {error : LiteralError}
    (h : values.mapM Literal.ofJson = .error error) :
    ∃ before literals bad after, values = before ++ bad :: after ∧
      List.Forall₂ Literal.Denotes literals before ∧
      (∀ literal : Literal, ¬literal.Denotes bad) ∧ error = .unsupported bad.kind := by
  induction values with
  | nil => cases h
  | cons value values ih =>
    rcases mapM_cons_error_iff.1 h with h | ⟨literal, hliteral, h⟩
    · obtain ⟨rfl, hnone⟩ := Literal.ofJson_error_iff.1 h
      exact ⟨[], [], value, values, rfl, .nil, hnone, rfl⟩
    · obtain ⟨before, literals, bad, after, rfl, hbefore, hbad, rfl⟩ := ih h
      exact ⟨value :: before, literal :: literals, bad, after, rfl,
        .cons (Literal.ofJson_ok_iff.1 hliteral) hbefore, hbad, rfl⟩

/-- An operator takes what denotes the value. -/
theorem operand_ok_iff {op : Operator} {value : Json} {o : Operand} :
    operand op value = .ok o ↔ o.Denotes op value := by
  constructor
  · intro h
    unfold operand at h
    split_ifs at h with hlist hlike
    · split at h
      · cases h
      -- a list of its own, and a scalar as a list of one
      · next items hne =>
        obtain ⟨literals, hliterals, rfl⟩ := mapError_map_ok_iff.1 h
        exact .list hlist (fun hnil => hne hnil) (mapM_ofJson_ok_iff.1 hliterals)
      · obtain ⟨literal, hliteral, rfl⟩ := mapError_map_ok_iff.1 h
        exact .single hlist (Literal.ofJson_ok_iff.1 hliteral)
    · obtain ⟨literal, hliteral, rfl⟩ := mapError_map_ok_iff.1 h
      exact .pattern hlike (Literal.patternOfJson_ok_iff.1 hliteral)
    · obtain ⟨literal, hliteral, rfl⟩ := mapError_map_ok_iff.1 h
      exact .one (Bool.eq_false_iff.2 hlist) hlike (Literal.ofJson_ok_iff.1 hliteral)
  · intro h
    unfold operand
    cases h with
    | one hlist hlike h =>
      rw [hlist, if_neg Bool.false_ne_true, if_neg hlike]
      exact mapError_map_ok_iff.2 ⟨_, Literal.ofJson_ok_iff.2 h, rfl⟩
    | pattern hlike h =>
      subst hlike
      exact mapError_map_ok_iff.2 ⟨_, Literal.patternOfJson_ok_iff.2 h, rfl⟩
    | list hlist hne h =>
      rw [if_pos hlist]
      split
      · next heq => exact absurd (Json.array.inj heq) hne
      · next heq =>
        obtain rfl := Json.array.inj heq
        exact mapError_map_ok_iff.2 ⟨_, mapM_ofJson_ok_iff.2 h, rfl⟩
      · next hscalar => exact absurd rfl (hscalar _)
    | single hlist h =>
      rw [if_pos hlist]
      split
      · cases h
      · cases h
      · exact mapError_map_ok_iff.2 ⟨_, Literal.ofJson_ok_iff.2 h, rfl⟩

/-- Where there is no operand, there is a fault. -/
theorem fault_of_operand_error {op : Operator} {value : Json} {fault : ClauseFault}
    (h : operand op value = .error fault) : Operand.Fault op value fault := by
  unfold operand at h
  split_ifs at h with hlist hlike
  · split at h
    · cases h
      exact .emptyList hlist
    · obtain ⟨error, herror, rfl⟩ := mapError_map_error_iff.1 h
      obtain ⟨before, literals, bad, after, rfl, hbefore, hbad, rfl⟩ := mapM_ofJson_error herror
      exact .item hlist hbefore hbad
    · next hscalar =>
      obtain ⟨error, herror, rfl⟩ := mapError_map_error_iff.1 h
      obtain ⟨rfl, hnone⟩ := Literal.ofJson_error_iff.1 herror
      refine .value ?_ (fun _ items => hscalar items) hnone
      rintro rfl
      cases hlist
  · obtain ⟨error, herror, rfl⟩ := mapError_map_error_iff.1 h
    obtain ⟨rfl, hnone⟩ := Literal.patternOfJson_error_iff.1 herror
    exact .pattern hlike hnone
  · obtain ⟨error, herror, rfl⟩ := mapError_map_error_iff.1 h
    obtain ⟨rfl, hnone⟩ := Literal.ofJson_error_iff.1 herror
    exact .value hlike (fun h => absurd h hlist) hnone

/-! ## Clauses -/

/-- A clause is admitted as a condition: its field is not blank and allowed, its operator is one
    and is allowed on the field, and the operand denotes its value. -/
inductive Admits (view : View) (object : String) : Clause → Comparison → Prop where
  | intro {field op : String} {value : Json} {c : Comparison}
      (hfield : c.field = Text.trimmed field) (hne : c.field ≠ "")
      (hallowed : c.field ∈ view.fields object)
      (hparse : Operator.parse? op = some c.op) (hop : c.op ∈ view.operators object c.field)
      (hoperand : c.operand.Denotes c.op value) :
      Admits view object (.condition field op (some value)) c

/-- The error for which the clause at a place is refused. -/
inductive Refuses (view : View) (object : String) (index : ℕ) : Clause → CompileError → Prop where
  /-- It is no condition. -/
  | notCondition (item : Json) :
      Refuses view object index (.malformed item) (.malformedCondition index (.notCondition item))
  /-- Its field is blank. -/
  | emptyField {field op : String} {value : Option Json} (hfield : Text.trimmed field = "") :
      Refuses view object index (.condition field op value) (.malformedCondition index .emptyField)
  /-- It has no value. -/
  | noValue {field op : String} (hfield : Text.trimmed field ≠ "") :
      Refuses view object index (.condition field op none)
        (.malformedCondition index (.noValue (Text.trimmed field)))
  /-- Its field is not allowed. -/
  | field {field op : String} {value : Json} (hfield : Text.trimmed field ≠ "")
      (hallowed : Text.trimmed field ∉ view.fields object) :
      Refuses view object index (.condition field op (some value))
        (.disallowedField object (Text.trimmed field))
  /-- Its operator is none, or not allowed on the field. -/
  | operator {field op : String} {value : Json} (hfield : Text.trimmed field ≠ "")
      (hallowed : Text.trimmed field ∈ view.fields object)
      (hop : ∀ parsed, Operator.parse? op = some parsed →
        parsed ∉ view.operators object (Text.trimmed field)) :
      Refuses view object index (.condition field op (some value))
        (.disallowedOperator (Text.trimmed field) op)
  /-- Its value has no operand. -/
  | operand {field op : String} {value : Json} {parsed : Operator} {fault : ClauseFault}
      (hfield : Text.trimmed field ≠ "") (hallowed : Text.trimmed field ∈ view.fields object)
      (hparse : Operator.parse? op = some parsed)
      (hop : parsed ∈ view.operators object (Text.trimmed field))
      (hfault : Operand.Fault parsed value fault) :
      Refuses view object index (.condition field op (some value)) (.malformedCondition index fault)

section Comparison

variable {view : View} {object : String} {index : ℕ} {clause : Clause}

/-- Compiling a clause decides by the rules. -/
theorem comparison_spec {result : Except CompileError Comparison}
    (h : comparison view object index clause = result) :
    match result with
    | .ok c => Admits view object clause c
    | .error e => Refuses view object index clause e := by
  cases clause with
  | malformed item =>
    subst h
    exact .notCondition item
  | condition field op value =>
    dsimp only [comparison] at h
    -- the checks in the order in which they are made: the first that fails gives the error
    by_cases hempty : (Text.trimmed field).isEmpty = true
    · rw [if_pos hempty] at h
      subst h
      exact .emptyField (String.isEmpty_iff.1 hempty)
    rw [if_neg hempty] at h
    have hfield : Text.trimmed field ≠ "" := fun h => hempty (String.isEmpty_iff.2 h)
    cases value with
    | none =>
      subst h
      exact .noValue hfield
    | some value =>
      dsimp only at h
      by_cases hallowed : Text.trimmed field ∈ view.fields object
      swap
      · rw [if_pos hallowed] at h
        subst h
        exact .field hfield hallowed
      rw [if_neg (not_not_intro hallowed)] at h
      cases hop : (Operator.parse? op).filter
          fun op => op ∈ view.operators object (Text.trimmed field) with
      | none =>
        rw [hop] at h
        subst h
        -- no operator, and one that is not allowed, are refused alike
        refine .operator hfield hallowed fun parsed hparse hmem => ?_
        rw [hparse, Option.filter_some, if_pos (decide_eq_true hmem)] at hop
        cases hop
      | some parsed =>
        rw [hop] at h
        obtain ⟨hparse, hmem⟩ := Option.filter_eq_some_iff.1 hop
        have hmem := of_decide_eq_true hmem
        cases hoperand : operand parsed value with
        | ok o =>
          dsimp only at h
          rw [hoperand] at h
          subst h
          exact .intro rfl hfield hallowed hparse hmem (operand_ok_iff.1 hoperand)
        | error fault =>
          dsimp only at h
          rw [hoperand] at h
          subst h
          exact .operand hfield hallowed hparse hmem (fault_of_operand_error hoperand)

/-- A clause is compiled to a condition if it is admitted as it. -/
theorem comparison_ok_iff {c : Comparison} :
    comparison view object index clause = .ok c ↔ Admits view object clause c := by
  constructor
  · exact fun h => comparison_spec h
  · intro h
    cases h with
    | @intro field op value c hfield hne hallowed hparse hop hoperand =>
      obtain ⟨name, parsed, o⟩ := c
      obtain rfl := hfield
      have hempty : ¬(Text.trimmed field).isEmpty = true := fun h => hne (String.isEmpty_iff.1 h)
      have hoperand : operand parsed value = .ok o := operand_ok_iff.2 hoperand
      dsimp only [comparison]
      rw [if_neg hempty, if_neg (not_not_intro hallowed), hparse, Option.filter_some,
        if_pos (decide_eq_true hop)]
      dsimp only
      rw [hoperand]
      rfl

theorem Admits.field_mem {c : Comparison} (h : Admits view object clause c) :
    c.field ∈ view.fields object := by
  obtain ⟨-, -, hallowed, -, -, -⟩ := h
  exact hallowed

theorem Admits.op_mem {c : Comparison} (h : Admits view object clause c) :
    c.op ∈ view.operators object c.field := by
  obtain ⟨-, -, -, -, hop, -⟩ := h
  exact hop

/-- A clause is admitted as one condition at most. -/
theorem Admits.unique {c c' : Comparison} (h : Admits view object clause c)
    (h' : Admits view object clause c') : c = c' := by
  have hok : comparison view object 0 clause = .ok c := comparison_ok_iff.2 h
  rw [comparison_ok_iff.2 h'] at hok
  exact (Except.ok.inj hok).symm

/-- A clause is compiled to an error if it is refused for it; then it is admitted as nothing. -/
theorem refuses_of_comparison_error {e : CompileError}
    (h : comparison view object index clause = .error e) :
    Refuses view object index clause e ∧ ∀ c, ¬Admits view object clause c := by
  refine ⟨comparison_spec h, fun c hc => ?_⟩
  rw [comparison_ok_iff.2 hc] at h
  cases h

end Comparison

end QueryGate
