import QueryGate.Proofs.Discovery.WrittenConditions

/-!
# Conditions mined from compiled queries

The text of a query on names without reserved words is mined for its conditions again
(`conditions_mined_back`). But a clause is cut out of the text before its literals are emptied,
and so what a string holds does matter: from a word or mark in it that ends a clause on,
no condition is found (`limit_in_literal`).
-/

namespace QueryGate

open Text WhereClause

/-! ## Queries -/

namespace Query

/-- A query on free names, with proper operands. -/
structure IsFree (q : Query) : Prop where
  fields : ∀ field ∈ q.fields, Name.IsFree field
  object : Name.IsFree q.object
  conditions : ∀ c ∈ q.conditions, c.IsFree

/-- The words that a clause begins with. -/
def startWords : List (List Char) := ["where".toList]

theorem lacks_joined {texts : List (List Char)} (h : ∀ text ∈ texts, Lacks startWords [] text) :
    Lacks startWords [] (joined ", " texts) := by
  induction texts with
  | nil => decide
  | cons text texts ih =>
    have htext := h text List.mem_cons_self
    cases texts with
    | nil => rwa [joined, List.intercalate_singleton]
    | cons next texts =>
      have htexts := ih fun t ht => h t (List.mem_cons_of_mem _ ht)
      have hspace : Lacks startWords [] (' ' :: joined ", " (next :: texts)) :=
        htexts.cons (by decide) (by decide) (by decide)
      rw [joined, List.intercalate_cons_cons, List.append_assoc]
      exact htext.append_cons (by decide) (by decide) hspace

variable {q : Query}

/-- The text up to the name of the object. -/
def front (q : Query) : List Char :=
  "SELECT ".toList ++ joined ", " (q.fields.map String.toList) ++ " FROM ".toList ++
    q.object.toList

/-- The text behind the conditions. -/
def back (q : Query) : List Char := q.orderText ++ " LIMIT ".toList ++ (toString q.limit).toList

theorem text_eq (q : Query) : q.text = q.front ++ (q.whereText ++ q.back) := by
  unfold text front back
  generalize (toString q.limit).toList = limit
  simp only [List.append_assoc]

theorem IsFree.lacks_front (h : q.IsFree) : Lacks startWords [] q.front := by
  have hname : ∀ {s : String}, Name.IsFree s → Lacks startWords [] s.toList := fun hs =>
    hs.lacks (by decide) (by decide)
  have hfields : Lacks startWords [] (joined ", " (q.fields.map String.toList)) :=
    lacks_joined fun text htext => by
      obtain ⟨field, hfield, rfl⟩ := List.mem_map.1 htext
      exact hname (h.fields field hfield)
  have htext : q.front = "SELECT".toList ++ ' ' :: (joined ", " (q.fields.map String.toList) ++
      ' ' :: ("FROM".toList ++ ' ' :: q.object.toList)) := by
    have hjoin : ∀ select fields source object : List Char,
        select ++ [' '] ++ fields ++ (' ' :: source ++ [' ']) ++ object =
          select ++ ' ' :: (fields ++ ' ' :: (source ++ ' ' :: object)) := by simp
    exact hjoin "SELECT".toList _ "FROM".toList _
  have hfrom : Lacks startWords [] ("FROM".toList ++ ' ' :: q.object.toList) :=
    Lacks.append_cons (by decide) (by decide) (by decide) (hname h.object)
  have hselected := hfields.append_cons (c := ' ') (by decide) (by decide) hfrom
  rw [htext]
  exact Lacks.append_cons (by decide) (by decide) (by decide) hselected

theorem lacks_orderTermText {term : String × Direction}
    (h : Lacks startWords [] term.1.toList) : Lacks startWords [] (orderTermText term) := by
  have hdirection : Lacks startWords [] term.2.spelling.toList := by
    cases term.2 <;> decide
  exact h.append_cons (by decide) (by decide) hdirection

theorem lacks_limit (n : ℕ) : Lacks startWords [] (toString n).toList := by
  have hdull : IsDull (toString n).toList := by
    refine isDull_of_allDigits ?_
    simpa [Nat.repr] using allDigits_toDigits n
  exact hdull.lacks (by decide) (by decide)

/-- Behind the conditions a clause ends at once, and no other one begins unless it does so in the
    order. -/
theorem exists_back (q : Query) :
    ∃ word rest, q.back = ' ' :: (word ++ rest) ∧ word ≠ [] ∧
      clauseEnd (some ' ') (word ++ rest) = some ((), rest) ∧
      ((∀ term ∈ q.orderBy, Lacks startWords [] term.1.toList) →
        Lacks startWords [] (word ++ rest) ∧ Lacks startWords [] rest) := by
  have hlimit : Lacks startWords [] (' ' :: (toString q.limit).toList) :=
    (lacks_limit q.limit).cons (by decide) (by decide) (by decide)
  have hlast : Lacks startWords [] ("LIMIT".toList ++ ' ' :: (toString q.limit).toList) :=
    Lacks.append_cons (by decide) (by decide) (by decide) (lacks_limit q.limit)
  rw [back, orderText]
  generalize (toString q.limit).toList = limit at hlimit hlast
  split_ifs
  · exact ⟨"LIMIT".toList, ' ' :: limit, rfl, by decide, rfl, fun _ => ⟨hlast, hlimit⟩⟩
  · refine ⟨"ORDER BY".toList,
      ' ' :: (joined ", " (q.orderBy.map orderTermText) ++ ' ' :: ("LIMIT".toList ++ ' ' :: limit)),
      ?_, by decide, rfl, fun horder => ?_⟩
    · have hjoin : ∀ order terms word limit : List Char,
          (' ' :: order ++ [' ']) ++ terms ++ (' ' :: word ++ [' ']) ++ limit =
            ' ' :: (order ++ ' ' :: (terms ++ ' ' :: (word ++ ' ' :: limit))) := by simp
      exact hjoin "ORDER BY".toList _ "LIMIT".toList _
    · have hterms : Lacks startWords [] (joined ", " (q.orderBy.map orderTermText)) :=
        lacks_joined fun text htext => by
          obtain ⟨term, hterm, rfl⟩ := List.mem_map.1 htext
          exact lacks_orderTermText (horder term hterm)
      have hrest := hterms.append_cons (c := ' ') (by decide) (by decide) hlast
      exact ⟨Lacks.append_cons (by decide) (by decide) (by decide) hrest,
        hrest.cons (by decide) (by decide) (by decide)⟩

/-- A clause is cut at the first end of one. -/
theorem clauseMatcher_where (rest : List Char) :
    clauseMatcher (some ' ') ("WHERE".toList ++ ' ' :: rest) =
      some (match cutFirst clauseEnd (some 'E') (' ' :: rest) with
        | some (body, _, rest) => (body, rest)
        | none => (' ' :: rest, [])) := rfl

section Mining

variable {shown rest : List Comparison} {c : Comparison}

theorem text_of_conditions (h : q.conditions = shown ++ c :: rest) :
    q.text = (q.front ++ [' ']) ++ ("WHERE".toList ++ ' ' :: (Comparison.upTo shown c ++
      (c.operand.text ++ (rest.flatMap (fun d => " AND ".toList ++ d.text) ++ q.back)))) := by
  have hne : q.conditions.isEmpty = false := by
    rw [h]
    cases shown <;> rfl
  have hjoin : ∀ front word conditions operand more back : List Char,
      front ++ ((' ' :: word ++ [' ']) ++ (conditions ++ (operand ++ more)) ++ back) =
        (front ++ [' ']) ++ (word ++ ' ' :: (conditions ++ (operand ++ (more ++ back)))) := by simp
  rw [text_eq, whereText, hne, if_neg Bool.false_ne_true, h, Comparison.joined_append]
  exact hjoin _ "WHERE".toList _ _ _ _

/-- The clauses of the text are those from its `WHERE` on. -/
theorem clauses_text (hq : q.IsFree) (h : q.conditions = shown ++ c :: rest) :
    clauses q.text = matchesFrom clauseMatcher (some ' ')
      ("WHERE".toList ++ ' ' :: (Comparison.upTo shown c ++
        (c.operand.text ++ (rest.flatMap (fun d => " AND ".toList ++ d.text) ++ q.back)))) := by
  have hlacks : Lacks startWords [] (q.front ++ [' ']) :=
    hq.lacks_front.append_cons (by decide) (by decide) (by decide)
  have hmisses : ∀ tail, Misses clauseMatcher none (q.front ++ [' ']) tail := fun tail =>
    clauseMatcher_opensOn.misses hlacks (.inl (by rw [List.getLast?_concat]; rfl)) none
  rw [clauses, text_of_conditions h, findAll_eq, (hmisses _).matchesFrom_eq, List.getLast?_concat]
  rfl

/-- The conditions up to the first one that holds the end of a clause are mined in any case. -/
theorem exists_usages (hq : q.IsFree) (h : q.conditions = shown ++ c :: rest)
    (hshown : ∀ d ∈ shown, d.holdsEnd = false) :
    ∃ more, usages q.text = (shown ++ [c]).map Comparison.usage ++ more := by
  have hfree : ∀ d ∈ shown ++ c :: rest, d.IsFree := fun d hd => hq.conditions d (h ▸ hd)
  have hc : c.IsFree := hfree c (List.mem_append_right _ List.mem_cons_self)
  have hbefore : ∀ d ∈ shown, d.IsFree := fun d hd => hfree d (List.mem_append_left _ hd)
  have hmisses : ∀ tail,
      Misses clauseEnd (some 'E') (' ' :: Comparison.upTo shown c) tail := fun tail =>
    ⟨clauseEnd_opensOn.eq_none_of_not_isWord (by decide) (by decide),
      Comparison.misses_clauseEnd_upTo (fun d hd => ⟨hbefore d hd, hshown d hd⟩) hc _ tail⟩
  rw [usages, clauses_text hq h]
  set behind := c.operand.text ++ (rest.flatMap (fun d => " AND ".toList ++ d.text) ++ q.back)
  -- wherever the clause ends, what stands before the operand of `c` is part of it
  obtain ⟨body, remaining, hclause⟩ : ∃ body remaining, clauseMatcher (some ' ')
      ("WHERE".toList ++ ' ' :: (Comparison.upTo shown c ++ behind)) =
        some (' ' :: (Comparison.upTo shown c ++ body), remaining) := by
    rw [clauseMatcher_where, ← List.cons_append, (hmisses behind).cutFirst_eq]
    cases cutFirst clauseEnd ((' ' :: Comparison.upTo shown c).getLast?.or (some 'E')) behind with
    | none => exact ⟨behind, [], rfl⟩
    | some found => exact ⟨found.1, found.2.2, rfl⟩
  have hne : "WHERE".toList ++ ' ' :: (Comparison.upTo shown c ++ behind) ≠ [] :=
    List.append_ne_nil_of_left_ne_nil (by decide) _
  -- the clause is the first that is found, and the conditions shown are the first in it
  obtain ⟨more, hmore⟩ := exists_matchesFrom hne hclause
  rw [hmore, List.flatMap_cons, Comparison.usagesIn_upTo hbefore hc, List.append_assoc]
  exact ⟨_, rfl⟩

/-- Without the end of a clause in a condition, and without the beginning of one in the order, all
    conditions are mined and nothing else. -/
theorem usages_text (hq : q.IsFree) (hends : ∀ d ∈ q.conditions, d.holdsEnd = false)
    (horder : ∀ term ∈ q.orderBy, Lacks startWords [] term.1.toList) :
    usages q.text = q.conditions.map Comparison.usage := by
  obtain ⟨word, remaining, hback, hword, hend, hlacks⟩ := exists_back q
  obtain ⟨hlacksBack, hlacksRemaining⟩ := hlacks horder
  rcases List.eq_nil_or_concat' q.conditions with hnil | ⟨shown, c, h⟩
  · -- no clause at all
    have htext : q.text = q.front ++ ' ' :: (word ++ remaining) := by
      rw [text_eq, whereText, hnil, hback]
      rfl
    have hmisses : Misses clauseMatcher none q.text [] :=
      clauseMatcher_opensOn.misses
        (htext ▸ hq.lacks_front.append_cons (by decide) (by decide) hlacksBack) (.inr rfl) none
    rw [usages, clauses, findAll_eq, hmisses.matchesFrom_eq_nil, hnil]
    rfl
  · -- one clause: it goes up to the end that `exists_back` names, and no other one begins there
    have hshown : ∀ d ∈ shown ++ [c], d.IsFree ∧ d.holdsEnd = false := fun d hd =>
      ⟨hq.conditions d (h ▸ hd), hends d (h ▸ hd)⟩
    have htext : "WHERE".toList ++ ' ' :: (Comparison.upTo shown c ++ (c.operand.text ++
        (([] : List Comparison).flatMap (fun d => " AND ".toList ++ d.text) ++ q.back))) =
        ("WHERE".toList ++ Comparison.clauseText shown c ++ word) ++ remaining := by
      rw [hback, Comparison.clauseText]
      simp
    have hcut : cutFirst clauseEnd (some 'E')
        (Comparison.clauseText shown c ++ (word ++ remaining)) =
          some (Comparison.clauseText shown c, (), remaining) := by
      rw [(Comparison.misses_clauseText hshown _ _).cutFirst_eq, Comparison.getLast?_clauseText,
        Option.some_or, cutFirst_found hend, Option.map_some]
      dsimp only
      rw [List.append_nil]
    have hclause : clauseMatcher (some ' ')
        (("WHERE".toList ++ Comparison.clauseText shown c ++ word) ++ remaining) =
        some (Comparison.clauseText shown c, remaining) := by
      rw [List.append_assoc, List.append_assoc, Comparison.clauseText, List.cons_append,
        clauseMatcher_where, ← List.cons_append, ← Comparison.clauseText, hcut]
    rw [usages, clauses_text hq h, htext, matchesFrom_found (by simp) hclause, List.flatMap_cons,
      Comparison.usagesIn_clauseText fun d hd => (hshown d hd).1,
      (clauseMatcher_opensOn.misses hlacksRemaining (.inr rfl) _).matchesFrom_eq_nil,
      List.flatMap_nil, List.append_nil, h]

end Mining

end Query

/-! ## Compiled queries -/

/-- A view whose names hold no reserved words. -/
structure View.HasFreeNames (view : View) : Prop where
  object : ∀ object, view.knows object = true → Name.IsFree object
  field : ∀ object, ∀ field ∈ view.fields object, Name.IsFree field

section Compiled

variable {view : View} {options : CompileOptions} {request : Request} {c : Compiled}

theorem Admits.isFree (hview : view.HasFreeNames) {object : String} {clause : Clause}
    {cmp : Comparison} (h : Admits view object clause cmp) : cmp.IsFree := by
  obtain ⟨-, -, hallowed, -, -, hoperand⟩ := h
  exact ⟨hview.field object _ hallowed, hoperand.isProper⟩

/-- What is compiled on a view with free names is a query on free names. -/
theorem query_isFree (hview : view.HasFreeNames) (h : compile view options request = .ok c) :
    c.query.IsFree := by
  obtain ⟨refused, unsorted, haccount⟩ := exists_accounts h
  have hobject : c.query.object = request.normalize.object := haccount.object
  constructor
  case fields =>
    intro field hfield
    rw [haccount.fields, List.mem_eraseDups, List.mem_filter, decide_eq_true_eq] at hfield
    exact hview.field _ field hfield.2
  case object =>
    rw [hobject]
    exact hview.object _ (Bool.of_not_eq_false fun hknows =>
      not_unknown_of_ok h (knows_eq_false_iff.1 hknows))
  case conditions =>
    intro cmp hcmp
    obtain ⟨item, -, hadmits⟩ := haccount.conditions.exists_of_mem_kept hcmp
    exact hadmits.isFree hview

/-- No term to sort by begins a clause, if that is so for those that need not be allowed. -/
theorem lacks_orderBy (hview : view.HasFreeNames) (h : compile view options request = .ok c)
    (horder : options.validateOrderBy = false → ∀ term ∈ c.query.orderBy,
      ∀ segment ∈ Name.segments term.1, lowered segment ≠ "where".toList) :
    ∀ term ∈ c.query.orderBy, Lacks Query.startWords [] term.1.toList := by
  obtain ⟨refused, unsorted, haccount⟩ := exists_accounts h
  intro term hterm
  obtain ⟨item, -, -, hsortable⟩ := haccount.orderBy.exists_of_mem_kept hterm
  rw [Sortable] at hsortable
  split_ifs at hsortable with hvalidate
  · exact (hview.field _ _ hsortable).lacks (by decide) (by decide)
  · refine Name.lacks_of_isField hsortable (fun segment hsegment hmem => ?_) (by decide)
    exact horder (Bool.eq_false_iff.2 hvalidate) term hterm segment hsegment
      (List.mem_singleton.1 hmem)

/-- The text of a query that is compiled on a view with free names is mined for its conditions, in
    their order, up to the first one that compares with a string which holds the end of a clause.
    If there is none, and no term to sort by that was not validated begins a clause, it is mined for
    all of them and for nothing else. -/
theorem conditions_mined_back (hview : view.HasFreeNames)
    (h : compile view options request = .ok c) :
    (∀ shown cmp rest, c.query.conditions = shown ++ cmp :: rest →
      (∀ d ∈ shown, d.holdsEnd = false) →
      ∃ more, usages c.text.toList = (shown ++ [cmp]).map (fun d => (d.field, d.op)) ++ more) ∧
    ((∀ d ∈ c.query.conditions, d.holdsEnd = false) →
      (options.validateOrderBy = false → ∀ term ∈ c.query.orderBy,
        ∀ segment ∈ Name.segments term.1, lowered segment ≠ "where".toList) →
      usages c.text.toList = c.query.conditions.map fun d => (d.field, d.op)) := by
  have hfree := query_isFree hview h
  rw [Compiled.text, String.toList_ofList]
  exact ⟨fun shown cmp rest hconditions hshown => Query.exists_usages hfree hconditions hshown,
    fun hends horder => Query.usages_text hfree hends (lacks_orderBy hview h horder)⟩

end Compiled

theorem View.accountNames_hasFreeNames : accountNames.HasFreeNames where
  object object h := by
    obtain rfl := eq_of_accountNames_knows h
    exact ⟨by decide, by decide⟩
  field object field h := by
    obtain rfl := eq_of_mem_accountNames_fields h
    exact ⟨by decide, by decide⟩

/-- A request for the accounts whose names are like each of some patterns. -/
def Request.namesLike (patterns : List String) : Request where
  object := "Account"
  fields := some ["Name"]
  conditions := some <| .list <| patterns.map fun pattern => .condition
    { field := "Name", op := some "like", value := some (.string pattern) }

/-- A condition on a name by a pattern. -/
def Comparison.nameLike (pattern : String) : Comparison := ⟨"Name", .like, .one (.string pattern)⟩

/-- Quotes and operators in a pattern are mined for nothing. What is mined in any case are the
    conditions up to a pattern in which a clause seems to end. -/
theorem quotedOperators_mined : View.accountNames.HasFreeNames ∧
    (∃ c, compile .accountNames {} (.namesLike ["' AND Foo = 'x", "\\'"]) = .ok c ∧
      (∀ d ∈ c.query.conditions, d.holdsEnd = false) ∧
      usages c.text.toList = [("Name", .like), ("Name", .like)]) ∧
    ∃ c more, compile .accountNames {} (.namesLike ["x", "y LIMIT 1", "z"]) = .ok c ∧
      (∀ d ∈ [Comparison.nameLike "x"], d.holdsEnd = false) ∧
      usages c.text.toList = [("Name", .like), ("Name", .like)] ++ more := by
  have hquoted : ∃ c, compile .accountNames {} (.namesLike ["' AND Foo = 'x", "\\'"]) = .ok c ∧
      c.query.conditions = [.nameLike "' AND Foo = 'x", .nameLike "\\'"] := ⟨_, rfl, rfl⟩
  have hcut : ∃ c, compile .accountNames {} (.namesLike ["x", "y LIMIT 1", "z"]) = .ok c ∧
      c.query.conditions = [.nameLike "x"] ++ .nameLike "y LIMIT 1" :: [.nameLike "z"] :=
    ⟨_, rfl, rfl⟩
  have hview := View.accountNames_hasFreeNames
  have hx : ∀ d ∈ [Comparison.nameLike "x"], d.holdsEnd = false := by decide
  obtain ⟨c, hc, hconditions⟩ := hquoted
  obtain ⟨c', hc', hconditions'⟩ := hcut
  have hends : ∀ d ∈ c.query.conditions, d.holdsEnd = false := by
    rw [hconditions]
    decide
  have hmined := (conditions_mined_back hview hc).2 hends (by rintro ⟨⟩)
  rw [hconditions] at hmined
  obtain ⟨more, hmore⟩ := (conditions_mined_back hview hc').1 _ _ _ hconditions' hx
  exact ⟨hview, ⟨c, hc, hends, hmined⟩, c', more, hc', hx, hmore⟩

/-- A word that ends a clause hides the conditions behind it though it stands within quotes, and
    what stands before it there is mined, as its literal does not end in the clause. And a field
    name that need not be allowed to sort by it begins a clause. -/
theorem limit_in_literal : View.accountNames.HasFreeNames ∧
    (∃ c, compile .accountNames {} (.namesLike ["x LIMIT y", "z"]) = .ok c ∧
      c.query.conditions.map (fun d => (d.field, d.op)) = [("Name", .like), ("Name", .like)] ∧
      usages c.text.toList = [("Name", .like)]) ∧
    (∃ c, compile .accountNames {} (.namesLike ["x Foo = 1 LIMIT 5"]) = .ok c ∧
      c.query.conditions.map (fun d => (d.field, d.op)) = [("Name", .like)] ∧
      usages c.text.toList = [("Name", .like), ("Foo", .equal)]) ∧
    ∃ c, compile .accountNames { validateOrderBy := false }
        { object := "Account", fields := some ["Name"]
          orderBy := some (.one { field := "Where.Origin" }) } = .ok c ∧
      c.query.conditions.map (fun d => (d.field, d.op)) = [] ∧
      usages c.text.toList = [("Orig", .isIn)] :=
  ⟨View.accountNames_hasFreeNames, ⟨_, rfl, rfl, by decide +kernel⟩,
    ⟨_, rfl, rfl, by decide +kernel⟩, _, rfl, rfl, by decide +kernel⟩

end QueryGate
