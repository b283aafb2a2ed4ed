import QueryGate.Proofs.Query.LiteralReading

/-!
# Queries read back

A list is read back if each of its items is, whatever token ends it, and if the
separator is not found behind the last one (`readList_joined`). From the names and the
literals up, so are operands, conditions and the parts of a query, and with them every
proper query (`Query.ofText?_text`), so that no text has two readings
(`Query.text_injective`).
-/

namespace QueryGate

/-! ## Lists -/

/-- A reader finds an item again behind whose text a token may end. -/
def ReadsBack {α : Type} (read : Reader α) (write : α → List Char) (item : α) : Prop :=
  ∀ rest, Ends rest → read (write item ++ rest) = some (item, rest)

section Lists

variable {α : Type} {read : Reader α} {write : α → List Char} {separator : String}

/-- A list with `count` items at most is read back. -/
theorem readList_joined (hsep : ∀ cs, Ends (separator.toList ++ cs)) {items : List α}
    (hne : items ≠ []) (hitems : ∀ item ∈ items, ReadsBack read write item) {rest : List Char}
    (hends : Ends rest) (hstop : Text.after separator.toList rest = none) {count : ℕ}
    (hcount : items.length ≤ count) :
    readList separator.toList read count (joined separator (items.map write) ++ rest) =
      some (items, rest) := by
  induction items generalizing count with
  | nil => exact absurd rfl hne
  | cons item items ih =>
    obtain ⟨count, rfl⟩ : ∃ n, count = n + 1 := Nat.exists_eq_succ_of_ne_zero (by
      rintro rfl
      cases hcount)
    have hitem := hitems item List.mem_cons_self
    cases items with
    | nil =>
      have htext : joined separator ([item].map write) = write item := List.intercalate_singleton
      rw [htext, readList, hitem rest hends]
      simp [hstop]
    | cons next items =>
      have htext : joined separator ((item :: next :: items).map write) ++ rest =
          write item ++ (separator.toList ++
            (joined separator ((next :: items).map write) ++ rest)) := by
        simp only [joined, List.map_cons, List.intercalate_cons_cons, List.append_assoc]
      have htail := ih (List.cons_ne_nil _ _) (fun i hi => hitems i (List.mem_cons_of_mem _ hi))
        (Nat.le_of_succ_le_succ hcount)
      rw [htext, readList, hitem _ (hsep _), Option.bind_some]
      simp only [after_append, htail, Option.map_some]

/-- A list has no more items than its text has characters, but one. -/
theorem length_le_joined (hsep : separator.toList ≠ []) (texts : List (List Char)) :
    texts.length ≤ (joined separator texts).length + 1 := by
  induction texts with
  | nil => exact Nat.zero_le _
  | cons text texts ih =>
    cases texts with
    | nil => exact Nat.le_add_left 1 _
    | cons next texts =>
      have hpos : 0 < separator.toList.length := List.length_pos_iff.2 hsep
      rw [joined, List.intercalate_cons_cons, List.length_append, List.length_append,
        List.length_cons]
      rw [joined] at ih
      omega

/-- A list is read back by a reader that allows for as many items as there are characters. -/
theorem readList_text (hsep : ∀ cs, Ends (separator.toList ++ cs)) (hempty : separator.toList ≠ [])
    {items : List α} (hne : items ≠ []) (hitems : ∀ item ∈ items, ReadsBack read write item)
    {rest : List Char} (hends : Ends rest) (hstop : Text.after separator.toList rest = none) :
    readList separator.toList read ((joined separator (items.map write) ++ rest).length + 1)
      (joined separator (items.map write) ++ rest) = some (items, rest) := by
  refine readList_joined hsep hne hitems hends hstop ?_
  have hlength := length_le_joined hempty (items.map write)
  rw [List.length_map] at hlength
  rw [List.length_append]
  omega

/-- A part of a query that is left out if it has no items is read back. -/
theorem readPart_text (hsep : ∀ cs, Ends (separator.toList ++ cs))
    (hempty : separator.toList ≠ []) {keyword : List Char} {items : List α}
    (hitems : ∀ item ∈ items, ReadsBack read write item) {rest : List Char} (hends : Ends rest)
    (hstop : Text.after separator.toList rest = none) (hnext : Text.after keyword rest = none) :
    readPart keyword separator.toList read
      ((if items.isEmpty then [] else keyword ++ joined separator (items.map write)) ++ rest) =
      some (items, rest) := by
  cases items with
  | nil =>
    rw [List.isEmpty_nil, if_pos rfl, List.nil_append, readPart, hnext]
  | cons item items =>
    rw [List.isEmpty_cons, if_neg Bool.false_ne_true, List.append_assoc, readPart, after_append]
    exact readList_text hsep hempty (List.cons_ne_nil _ _) hitems hends hstop

end Lists

/-! ## Conditions and orders -/

theorem readOperator_append (op : Operator) (rest : List Char) :
    readOperator (op.spelling.toList ++ ' ' :: rest) = some (op, rest) := by
  cases op <;> rfl

theorem readDirection_append (direction : Direction) (rest : List Char) :
    readDirection (direction.spelling.toList ++ rest) = some (direction, rest) := by
  cases direction <;> rfl

/-- The operands that an operator takes: a list that is not empty or one literal, all proper. -/
def Operand.IsProper (op : Operator) : Operand → Prop
  | .one literal => op.takesList = false ∧ literal.IsProper
  | .list literals =>
    op.takesList = true ∧ literals ≠ [] ∧ ∀ literal ∈ literals, literal.IsProper

theorem readOperand_text {op : Operator} {operand : Operand} (h : operand.IsProper op) :
    ReadsBack (readOperand op) Operand.text operand := by
  intro rest hrest
  cases operand with
  | one literal =>
    obtain ⟨hop, hliteral⟩ := h
    simp [readOperand, hop, Operand.text, Literal.readLiteral_text hliteral hrest]
  | list literals =>
    obtain ⟨hop, hne, hliterals⟩ := h
    have hcomma : ∀ cs, Ends (", ".toList ++ cs) := fun cs => ends_comma (' ' :: cs)
    have hlist := readList_text hcomma (by decide) hne (fun literal hliteral rest hrest =>
      Literal.readLiteral_text (hliterals literal hliteral) hrest) (ends_closing rest) rfl
    have htext : (Operand.list literals).text ++ rest =
        ['('] ++ (joined ", " (literals.map Literal.text) ++ ')' :: rest) := by
      simp [Operand.text]
    rw [htext, readOperand, if_pos hop, after_append, Option.bind_some, hlist, Option.bind_some]
    rfl

/-- A condition on a field, with an operand that its operator takes. -/
structure Comparison.IsProper (c : Comparison) : Prop where
  field : Name.IsPlain c.field
  operand : c.operand.IsProper c.op

theorem readComparison_text {c : Comparison} (h : c.IsProper) :
    ReadsBack readComparison Comparison.text c := by
  intro rest hrest
  have htext : c.text ++ rest = c.field.toList ++ (' ' :: (c.op.spelling.toList ++
      ' ' :: (c.operand.text ++ rest))) := by
    simp [Comparison.text]
  have hspace : ∀ cs, Text.after [' '] (' ' :: cs) = some cs := fun _ => rfl
  simp only [htext, readComparison, readName_append h.field (ends_space _), hspace,
    readOperator_append, readOperand_text h.operand rest hrest, Option.bind_some, Option.map_some]

theorem readOrderTerm_text {term : String × Direction} (h : Name.IsPlain term.1) :
    ReadsBack readOrderTerm orderTermText term := by
  intro rest _
  have htext : orderTermText term ++ rest =
      term.1.toList ++ (' ' :: (term.2.spelling.toList ++ rest)) := by
    simp [orderTermText]
  have hspace : ∀ cs, Text.after [' '] (' ' :: cs) = some cs := fun _ => rfl
  simp only [htext, readOrderTerm, readName_append h (ends_space _), hspace,
    readDirection_append, Option.bind_some, Option.map_some]

/-! ## Queries -/

theorem readLimit?_toString (n : ℕ) : readLimit? (toString n).toList = some n := by
  have hall : (Nat.toDigits 10 n).all Char.isDigit = true :=
    List.all_eq_true.2 (allDigits_toDigits n)
  simp [readLimit?, Nat.repr, hall, DecimalStyle.digitsValue_toDigits]

namespace Query

/-- The queries that are read back: they select something, all their names are names, and their
    conditions have operands that fit. -/
structure IsProper (q : Query) : Prop where
  fields_ne_nil : q.fields ≠ []
  fields : ∀ field ∈ q.fields, Name.IsPlain field
  object : Name.IsPlain q.object
  conditions : ∀ c ∈ q.conditions, c.IsProper
  orderBy : ∀ term ∈ q.orderBy, Name.IsPlain term.1

/-- A word that begins neither the order nor the limit does not stand behind the conditions. -/
theorem after_orderText (q : Query) {word : List Char}
    (horder : ∀ cs, Text.after word (" ORDER BY ".toList ++ cs) = none)
    (hlimit : ∀ cs, Text.after word (" LIMIT ".toList ++ cs) = none) (limit : List Char) :
    Text.after word (q.orderText ++ (" LIMIT ".toList ++ limit)) = none := by
  rw [orderText]
  split_ifs
  · exact hlimit limit
  · rw [List.append_assoc]
    exact horder _

theorem ends_orderText (q : Query) (limit : List Char) :
    Ends (q.orderText ++ (" LIMIT ".toList ++ limit)) := by
  rw [orderText]
  split_ifs
  · exact ends_space _
  · rw [List.append_assoc]
    exact ends_space _

theorem ends_whereText (q : Query) (limit : List Char) :
    Ends (q.whereText ++ (q.orderText ++ (" LIMIT ".toList ++ limit))) := by
  rw [whereText]
  split_ifs
  · exact ends_orderText q limit
  · rw [List.append_assoc]
    exact ends_space _

/-- A query is read back from its text, whatever its literals hold. -/
theorem ofText?_text {q : Query} (hq : q.IsProper) : ofText? (String.ofList q.text) = some q := by
  have htext : q.text = "SELECT ".toList ++ (joined ", " (q.fields.map String.toList) ++
      (" FROM ".toList ++ (q.object.toList ++ (q.whereText ++ (q.orderText ++
        (" LIMIT ".toList ++ (toString q.limit).toList)))))) := by
    unfold text
    simp only [List.append_assoc]
  have hlimit := readLimit?_toString q.limit
  generalize (toString q.limit).toList = limit at htext hlimit
  have hcomma : ∀ cs, Ends (", ".toList ++ cs) := fun cs => ends_comma (' ' :: cs)
  have hand : ∀ cs, Ends (" AND ".toList ++ cs) := fun _ => ends_space _
  have hfrom : Ends (" FROM ".toList ++ (q.object.toList ++ (q.whereText ++ (q.orderText ++
    (" LIMIT ".toList ++ limit))))) := ends_space _
  have hfields := readList_text hcomma (by decide) hq.fields_ne_nil
    (fun field hfield rest hrest => readName_append (hq.fields field hfield) hrest) hfrom rfl
  have hobject := readName_append hq.object (ends_whereText q limit)
  have hconditions : readPart " WHERE ".toList " AND ".toList readComparison
      (q.whereText ++ (q.orderText ++ (" LIMIT ".toList ++ limit))) =
      some (q.conditions, q.orderText ++ (" LIMIT ".toList ++ limit)) :=
    readPart_text hand (by decide) (fun c hc => readComparison_text (hq.conditions c hc))
      (ends_orderText q limit) (after_orderText q (fun _ => rfl) (fun _ => rfl) limit)
      (after_orderText q (fun _ => rfl) (fun _ => rfl) limit)
  have horder : readPart " ORDER BY ".toList ", ".toList readOrderTerm
      (q.orderText ++ (" LIMIT ".toList ++ limit)) = some (q.orderBy, " LIMIT ".toList ++ limit) :=
    readPart_text hcomma (by decide) (fun term hterm => readOrderTerm_text (hq.orderBy term hterm))
      (ends_space _) rfl rfl
  simp only [ofText?, String.toList_ofList, htext, after_append, hfields, hobject, hconditions,
    horder, hlimit, Option.bind_some, Option.map_some]

/-- No text is that of two queries. -/
theorem text_injective {q q' : Query} (hq : q.IsProper) (hq' : q'.IsProper)
    (h : q.text = q'.text) : q = q' := by
  have hread := ofText?_text hq
  rw [h, ofText?_text hq'] at hread
  exact (Option.some.inj hread).symm

end Query

end QueryGate
