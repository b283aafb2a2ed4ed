import Mathlib.Data.List.Forall2
import QueryGate.Proofs.Discovery.Conditions
import QueryGate.Proofs.Discovery.Sources
import QueryGate.Proofs.Discovery.Units

/-!
# Conditions on other objects

A document on one object may hold queries on others. Their conditions say nothing of the
object as long as each query has a unit of its own, a paragraph or a row of a table. So two
documents teach the same if their units agree but for what follows in queries on other
objects (`Agrees`, `conditions_isolated`). On a page, which is made up of paragraphs, the
units are there to be seen (`Page.units_text`).

Of several queries in one unit only the first is looked at for its object, and the conditions
of all are taken for conditions on that. So conditions on other objects get in where rows of a
table have a heading right above them, or where the line between two queries holds blanks
(`shared_unit_leak`).
-/

namespace QueryGate

open Text WhereClause

/-! ## Two documents -/

/-- Two units agree for an object: they are the same, or the same query on another object but for
    what follows behind the name of that. -/
inductive Agrees (object : String) : List Char → List Char → Prop where
  | same (unit : List Char) : Agrees object unit unit
  | other {source : String} {front tail tail' : List Char}
      (hopens : SelectList.Opens source front) (hsource : source ≠ object)
      (htail : Name.Stops tail) (htail' : Name.Stops tail') :
      Agrees object (front ++ tail) (front ++ tail')

theorem Agrees.usagesOn_eq {object : String} {unit unit' : List Char}
    (h : Agrees object unit unit') : usagesOn object unit = usagesOn object unit' := by
  cases h with
  | same => rfl
  | other hopens hsource htail htail' =>
    rw [usagesOn_eq_nil (hopens.sourceOf?_append htail) hsource,
      usagesOn_eq_nil (hopens.sourceOf?_append htail') hsource]

/-- Units that agree hold the same conditions on the object. -/
theorem flatMap_usagesOn_eq {object : String} {us us' : List (List Char)}
    (h : List.Forall₂ (Agrees object) us us') :
    us.flatMap (usagesOn object) = us'.flatMap (usagesOn object) := by
  induction h with
  | nil => rfl
  | cons hunit _ ih => rw [List.flatMap_cons, List.flatMap_cons, hunit.usagesOn_eq, ih]

/-! ## Pages -/

/-- A line that can stand in a paragraph: it is not blank, ends nowhere before its end, and holds
    no fence. -/
structure IsLine (line : List Char) : Prop where
  proper : isProper line = true
  feed : '\n' ∉ line
  carriage : line.getLast? ≠ some '\r'
  fence : ¬fence <:+: line

instance (line : List Char) : Decidable (IsLine line) :=
  decidable_of_iff
    (isProper line = true ∧ '\n' ∉ line ∧ line.getLast? ≠ some '\r' ∧ ¬WhereClause.fence <:+: line)
    ⟨fun ⟨proper, feed, carriage, fence⟩ => ⟨proper, feed, carriage, fence⟩,
      fun h => ⟨h.proper, h.feed, h.carriage, h.fence⟩⟩

theorem IsLine.ne_nil {line : List Char} (h : IsLine line) : line ≠ [] := by
  rintro rfl
  exact absurd h.proper (by decide)

/-- Paragraphs, each with its lines. -/
abbrev Page := List (List (List Char))

namespace Page

/-- A page has lines that can stand in paragraphs. -/
def IsPlain (page : Page) : Prop := ∀ ls ∈ page, ∀ line ∈ ls, IsLine line

instance (page : Page) : Decidable page.IsPlain :=
  inferInstanceAs (Decidable (∀ ls ∈ page, ∀ line ∈ ls, IsLine line))

/-- The text of a page, with an empty line between any two paragraphs. -/
def text (page : Page) : List Char := ['\n', '\n'].intercalate (page.map joinLines)

/-- The units of a page: the rows of paragraphs that are tables, and all other paragraphs. -/
def units (page : Page) : List (List Char) :=
  page.flatMap fun ls => if ls.all isTableRow then ls else [joinLines ls]

theorem blockUnits_joinLines {ls : List (List Char)} (h : ∀ line ∈ ls, IsLine line) :
    blockUnits (joinLines ls) = if ls.all isTableRow then ls else [joinLines ls] := by
  have hlines : properLines (joinLines ls) = ls := by
    rw [properLines, lines_joinLines fun line hline =>
      ⟨(h line hline).ne_nil, (h line hline).feed, (h line hline).carriage⟩]
    exact List.filter_eq_self.2 fun line hline => (h line hline).proper
  rw [blockUnits_eq, hlines]

theorem splitOn_text {page : Page} (h : page.IsPlain) (hne : page ≠ []) :
    splitOn ['\n', '\n'] page.text = page.map joinLines := by
  refine splitOn_intercalate (List.cons_ne_nil _ _) (mt List.map_eq_nil_iff.1 hne) ?_
  intro part hpart
  obtain ⟨ls, hls, rfl⟩ := List.mem_map.1 hpart
  refine unbroken_joinLines fun line hline => ?_
  exact ⟨(h ls hls line hline).ne_nil, (h ls hls line hline).feed⟩

/-- The units of a page are those of its text. -/
theorem units_text {page : Page} (h : page.IsPlain) : WhereClause.units page.text = page.units := by
  by_cases hne : page = []
  · subst hne
    rfl
  rw [WhereClause.units, blocks, splitOn_text h hne, List.flatMap_assoc, List.flatMap_map, units]
  refine List.flatMap_congr fun ls hls => ?_
  -- no fence parts a paragraph, so that each is a block
  have hfence : splitOn fence (joinLines ls) = [joinLines ls] :=
    splitOn_eq_singleton (not_infix_joinLines (by decide) (by decide)
      fun line hline => (h ls hls line hline).fence)
  rw [hfence, List.flatMap_singleton, blockUnits_joinLines (h ls hls)]

end Page

/-- What a document on an object records of conditions are those in units that concern the object,
    and what is learned when no payload contributes is no more but for select lists. So two
    documents whose units agree for the object have the same conditions, and so have two plain
    pages whose paragraphs and rows do. -/
theorem conditions_isolated (object : String) (kind : DocumentKind) :
    (∀ text field op,
      (Extractor.whereOperators.extract ⟨object, kind, text⟩).entry.Records field op ↔
        ∃ unit ∈ units text, Concerns object unit ∧ (field, op) ∈ usages unit) ∧
    (∀ text, (Payload.harvest ⟨object, kind, text⟩).contributed = false →
      (Payload.extract ⟨object, kind, text⟩).entry.operators =
          (Extractor.whereOperators.extract ⟨object, kind, text⟩).entry.operators ∧
        (Payload.extract ⟨object, kind, text⟩).entry.fields =
          (Extractor.tabular.extract ⟨object, kind, text⟩).entry.fields ∪
            (Extractor.whereOperators.extract ⟨object, kind, text⟩).entry.fields ∧
        (Payload.extract ⟨object, kind, text⟩).entry.defaults =
          (Extractor.tabular.extract ⟨object, kind, text⟩).entry.defaults) ∧
    (∀ text text', List.Forall₂ (Agrees object) (units text) (units text') →
      (Extractor.whereOperators.extract ⟨object, kind, text⟩).entry =
        (Extractor.whereOperators.extract ⟨object, kind, text'⟩).entry) ∧
    (∀ page page' : Page, page.IsPlain → page'.IsPlain →
      List.Forall₂ (Agrees object) page.units page'.units →
      (Extractor.whereOperators.extract ⟨object, kind, page.text⟩).entry =
        (Extractor.whereOperators.extract ⟨object, kind, page'.text⟩).entry) := by
  have hentry : ∀ text, (Extractor.whereOperators.extract ⟨object, kind, text⟩).entry =
      (Findings.empty.addUsages ((units text).flatMap (usagesOn object))).entry :=
    fun text => Findings.addConditions_entry .empty ⟨object, kind, text⟩
  have hagree : ∀ text text', List.Forall₂ (Agrees object) (units text) (units text') →
      (Extractor.whereOperators.extract ⟨object, kind, text⟩).entry =
        (Extractor.whereOperators.extract ⟨object, kind, text'⟩).entry := by
    intro text text' h
    rw [hentry, hentry, flatMap_usagesOn_eq h]
  refine ⟨fun text field op => ?_, fun text h => Payload.extract_parts h, hagree, ?_⟩
  · have hempty : ¬Findings.empty.entry.Records field op := fun ⟨_, hops, _⟩ => by cases hops
    rw [hentry, Findings.records_addUsages, or_iff_left hempty, List.mem_flatMap]
    simp only [mem_usagesOn]
  · intro page page' hpage hpage' h
    rw [← Page.units_text hpage, ← Page.units_text hpage'] at h
    exact hagree _ _ h

/-- A page on opportunities: a query with a heading above it, and a table with a query on accounts
    that has conditions behind it. -/
def Page.opportunities (conditions : String) : Page :=
  [["# Open deals".toList, "SELECT Id FROM Opportunity WHERE Amount > 5".toList],
    ["| Deals | SELECT Id FROM Opportunity WHERE Name LIKE 'A%' |".toList,
      ("| Accounts | SELECT Id FROM Account" ++ conditions ++ " |").toList]]

/-- The conditions of the query on accounts may be deleted from the page. -/
theorem opportunities_isolated :
    (Extractor.whereOperators.extract ⟨"Opportunity", .tabular,
        (Page.opportunities " WHERE Industry = 'Tech'").text⟩).entry =
      (Extractor.whereOperators.extract ⟨"Opportunity", .tabular,
        (Page.opportunities "").text⟩).entry ∧
    (Extractor.whereOperators.extract ⟨"Opportunity", .tabular,
        (Page.opportunities "").text⟩).entry =
      (Entry.empty.addOperator "Amount" .greater).addOperator "Name" .like := by
  have hopens : SelectList.Opens "Account" "| Accounts | SELECT Id FROM Account".toList := by
    decide +kernel
  have haccounts : Agrees "Opportunity"
      ("| Accounts | SELECT Id FROM Account".toList ++ " WHERE Industry = 'Tech' |".toList)
      ("| Accounts | SELECT Id FROM Account".toList ++ " |".toList) :=
    .other hopens (by decide) (by decide +kernel) (by decide +kernel)
  refine ⟨(conditions_isolated "Opportunity" .tabular).2.2.2 _ _ (by decide +kernel)
    (by decide +kernel) ?_, by decide +kernel⟩
  exact .cons (.same _) (.cons (.same _) (.cons haccounts .nil))

/-- A text on opportunities in which a query on accounts has a condition. -/
def withAccounts (front back : String) : List Char :=
  (front ++ "SELECT Id FROM Account WHERE Industry = 'Tech'" ++ back).toList

/-- The text without the condition. -/
def withoutCondition (front back : String) : List Char :=
  (front ++ "SELECT Id FROM Account" ++ back).toList

/-- The condition on accounts is taken for one on opportunities. -/
def IsLeaking (front back : String) : Prop :=
  (Extractor.whereOperators.extract
      ⟨"Opportunity", .tabular, withoutCondition front back⟩).entry =
    Entry.empty.addOperator "Amount" .greater ∧
  (Extractor.whereOperators.extract ⟨"Opportunity", .tabular, withAccounts front back⟩).entry =
    (Entry.empty.addOperator "Amount" .greater).addOperator "Industry" .equal

instance (front back : String) : Decidable (IsLeaking front back) :=
  inferInstanceAs (Decidable (_ ∧ _))

/-- Rows of a table are one unit as soon as a heading stands right above them, and so are two
    queries with a line of blanks between them. -/
theorem shared_unit_leak :
    IsLeaking "## Views\n| A | SELECT Id FROM Opportunity WHERE Amount > 5 |\n| B | " " |\n" ∧
      IsLeaking "SELECT Id FROM Opportunity WHERE Amount > 5\n \n" "\n" := by
  decide +kernel

end QueryGate
