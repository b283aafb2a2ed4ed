import Mathlib.Data.List.Induction
import QueryGate.Proofs.Json.Canonical
import QueryGate.Proofs.Text.Bytes
import QueryGate.Request.Normal
import QueryGate.Request.Reader

/-!
# What building a request says

A request is built call by call, and its shape changes on the way: equalities become a list at
the first condition behind them, and a single term becomes a list at the second one. Nothing of
this is seen in the normal form, where each call has an effect of its own
(`NormalRequest.perform`): a condition comes behind the clauses that there are, a term behind the
terms, and equalities take the place of all clauses.

* `normalize_perform`, `normalize_build`: the effect of one call, and of one after the other;
* `build_normalizes`: what is left of the calls in the end.
-/

namespace QueryGate

namespace Request

/-- A call that goes on building a request. -/
inductive Call where
  /-- Asks for other fields. -/
  | select (fields : List String)
  /-- Adds a condition. -/
  | filter (condition : Condition)
  /-- Puts equalities in the place of all conditions. -/
  | whereEqual (members : List (String × Json))
  /-- Adds a term to the order. -/
  | thenBy (field : String) (direction : Direction)
  /-- Asks for another limit. -/
  | limitTo (limit : Json)

namespace Call

/-- The request with what a call says. -/
def perform (r : Request) : Call → Request
  | select fields => r.select fields
  | filter condition => r.filter condition
  | whereEqual members => r.whereEqual members
  | thenBy field direction => r.thenBy field direction
  | limitTo limit => r.limitTo limit

/-- The fields that a call asks for. -/
def fields? : Call → Option (List String)
  | select fields => some (fields.map Text.trimmed)
  | _ => none

/-- The clause of the condition that a call adds. -/
def clause? : Call → Option Clause
  | filter c => some (.condition c.field (c.op.getD "=") c.value)
  | _ => none

/-- Whether a call puts equalities in the place of all conditions. -/
def isWhereEqual : Call → Bool
  | whereEqual _ => true
  | _ => false

/-- The term that a call adds. -/
def term? : Call → Option (String × Direction)
  | thenBy field direction => some (Text.trimmed field, direction)
  | _ => none

/-- The limit that a call asks for, which is none if it is no number. -/
def limit? : Call → Option (Option Binary64)
  | limitTo limit => some limit.finite?
  | _ => none

end Call

/-- The request that calls build. -/
def build (r : Request) (calls : List Call) : Request := calls.foldl Call.perform r

end Request

/-! ## Effects of calls -/

/-- The clause that a field be equal to a value. -/
def Clause.equality (member : String × Json) : Clause := .condition member.1 "=" (some member.2)

namespace NormalRequest

open Request

/-- What a call makes of a normal form. -/
def perform (n : NormalRequest) : Call → NormalRequest
  | .select fields => { n with fields := fields.map Text.trimmed }
  | .filter c => { n with clauses := n.clauses ++ [.condition c.field (c.op.getD "=") c.value] }
  | .whereEqual members => { n with clauses := members.map .equality }
  | .thenBy field direction => { n with orderBy := n.orderBy ++ [(Text.trimmed field, direction)] }
  | .limitTo limit => { n with limit := limit.finite? }

variable {n : NormalRequest} {call : Call} {calls : List Call}

theorem object_perform : (n.perform call).object = n.object := by
  cases call <;> rfl

theorem fields_perform : (n.perform call).fields = call.fields?.getD n.fields := by
  cases call <;> rfl

theorem orderBy_perform : (n.perform call).orderBy = n.orderBy ++ call.term?.toList := by
  cases call with
  | thenBy field direction => rfl
  | _ => exact (List.append_nil _).symm

theorem limit_perform : (n.perform call).limit = call.limit?.getD n.limit := by
  cases call <;> rfl

theorem clauses_perform (h : call.isWhereEqual = false) :
    (n.perform call).clauses = n.clauses ++ call.clause?.toList := by
  cases call with
  | filter c => rfl
  | whereEqual members => cases h
  | _ => exact (List.append_nil _).symm

/-! ## Effects of runs -/

theorem object_foldl : (calls.foldl perform n).object = n.object := by
  induction calls generalizing n with
  | nil => rfl
  | cons call calls ih => rw [List.foldl_cons, ih, object_perform]

/-- What is asked for last counts. -/
theorem fields_foldl :
    (calls.foldl perform n).fields = (calls.filterMap Call.fields?).getLast?.getD n.fields := by
  induction calls using List.reverseRecOn with
  | nil => rfl
  | append_singleton calls call ih =>
    rw [List.foldl_concat, fields_perform, ih, List.filterMap_append]
    cases hfields : call.fields? <;> simp [hfields]

theorem limit_foldl :
    (calls.foldl perform n).limit = (calls.filterMap Call.limit?).getLast?.getD n.limit := by
  induction calls using List.reverseRecOn with
  | nil => rfl
  | append_singleton calls call ih =>
    rw [List.foldl_concat, limit_perform, ih, List.filterMap_append]
    cases hlimit : call.limit? <;> simp [hlimit]

theorem orderBy_foldl :
    (calls.foldl perform n).orderBy = n.orderBy ++ calls.filterMap Call.term? := by
  induction calls generalizing n with
  | nil => exact (List.append_nil _).symm
  | cons call calls ih =>
    rw [List.foldl_cons, ih, orderBy_perform, List.append_assoc, List.filterMap_cons]
    cases call.term? <;> rfl

/-- Without new equalities all clauses stay. -/
theorem clauses_foldl (h : ∀ call ∈ calls, call.isWhereEqual = false) :
    (calls.foldl perform n).clauses = n.clauses ++ calls.filterMap Call.clause? := by
  induction calls generalizing n with
  | nil => exact (List.append_nil _).symm
  | cons call calls ih =>
    obtain ⟨hcall, hcalls⟩ := List.forall_mem_cons.1 h
    rw [List.foldl_cons, ih hcalls, clauses_perform hcall, List.append_assoc, List.filterMap_cons]
    cases call.clause? <;> rfl

/-- Of what is said before equalities nothing is left of the clauses. -/
theorem clauses_foldl_whereEqual {earlier later : List Call} {members : List (String × Json)}
    (h : ∀ call ∈ later, call.isWhereEqual = false) :
    ((earlier ++ .whereEqual members :: later).foldl perform n).clauses =
      members.map .equality ++ later.filterMap Call.clause? := by
  rw [List.foldl_append, List.foldl_cons, clauses_foldl h]
  rfl

end NormalRequest

namespace Request

/-! ## Requests and their normal forms -/

/-- Conditions say the same as the list they are turned into. -/
theorem clauses_items (conditions : Conditions) :
    (Conditions.list conditions.items).clauses = conditions.clauses := by
  cases conditions with
  | list items => rfl
  | equalities members => exact List.map_map

theorem ofText_spelling (direction : Direction) :
    Direction.ofText direction.spelling = direction := by
  cases direction <;> decide

theorem normalize_filter (r : Request) (c : Condition) :
    (r.filter c).normalize =
      { r.normalize with
        clauses := r.normalize.clauses ++ [.condition c.field (c.op.getD "=") c.value] } := by
  cases hconditions : r.conditions with
  | none => simp [filter, normalize, hconditions, Conditions.clauses, ConditionItem.clause,
      Condition.clause]
  | some conditions =>
    have hitems := clauses_items conditions
    rw [Conditions.clauses] at hitems
    simp [filter, normalize, hconditions, Conditions.clauses, hitems,
      ConditionItem.clause, Condition.clause]

theorem normalize_thenBy (r : Request) (field : String) (direction : Direction) :
    (r.thenBy field direction).normalize =
      { r.normalize with orderBy := r.normalize.orderBy ++ [(Text.trimmed field, direction)] } := by
  have hterm : OrderTerm.normalize ⟨field, some direction.spelling⟩ =
      (Text.trimmed field, direction) := congrArg (Prod.mk _) (ofText_spelling direction)
  cases horder : r.orderBy with
  | none => simp [thenBy, normalize, horder, OrderTerms.terms, hterm]
  | some order => simp [thenBy, normalize, horder, OrderTerms.terms, hterm]

/-- A call has the same effect on a request and on its normal form. -/
theorem normalize_perform (r : Request) (call : Call) :
    (call.perform r).normalize = r.normalize.perform call := by
  cases call with
  | filter condition => exact normalize_filter r condition
  | thenBy field direction => exact normalize_thenBy r field direction
  | select fields => rfl
  | whereEqual members => rfl
  | limitTo limit => rfl

theorem normalize_build (r : Request) (calls : List Call) :
    (r.build calls).normalize = calls.foldl NormalRequest.perform r.normalize := by
  induction calls generalizing r with
  | nil => rfl
  | cons call calls ih =>
    rw [build, List.foldl_cons, ← build, ih, normalize_perform, List.foldl_cons]

/-- The equalities that are read from an object stand in the order of the bytes of their fields. -/
theorem pairwise_writeUtf8 (written : List (String × Json)) :
    (Json.canonicalMembers written []).Pairwise fun a b =>
      Text.writeUtf8 a.1 < Text.writeUtf8 b.1 :=
  (Json.ascending_canonicalMembers written).imp fun h => Text.writeUtf8_lt (compare_lt_iff_lt.1 h)

/-- A condition or a term that is added to a request, whatever shape it has, comes last in the
    normal form, and nothing else changes. Equalities have the normal form of the list of
    conditions, in the order of the bytes of the fields if they are read from an object. So of
    all calls that build a request there are left, in their order: the conditions added since
    equalities were set last, behind those, all terms, and the fields and the limit asked for
    last. -/
theorem build_normalizes (r : Request) :
    (∀ c : Condition, (r.filter c).normalize =
      { r.normalize with
        clauses := r.normalize.clauses ++ [.condition c.field (c.op.getD "=") c.value] }) ∧
    (∀ field direction, (r.thenBy field direction).normalize =
      { r.normalize with
        orderBy := r.normalize.orderBy ++ [(Text.trimmed field, direction)] }) ∧
    (∀ members : List (String × Json),
      (r.whereEqual members).normalize =
        { r with conditions := some (.list (members.map fun (field, value) =>
            .condition { field, op := some "=", value := some value })) }.normalize) ∧
    (∀ written : List (String × Json), ∃ members,
      Conditions.ofJson? (.object written) = some (.equalities members) ∧
      members.Pairwise fun a b => Text.writeUtf8 a.1 < Text.writeUtf8 b.1) ∧
    ∀ calls : List Call,
      (r.build calls).normalize.object = r.normalize.object ∧
      (r.build calls).normalize.fields =
        (calls.filterMap Call.fields?).getLast?.getD r.normalize.fields ∧
      (r.build calls).normalize.orderBy = r.normalize.orderBy ++ calls.filterMap Call.term? ∧
      (r.build calls).normalize.limit =
        (calls.filterMap Call.limit?).getLast?.getD r.normalize.limit ∧
      ((∀ call ∈ calls, call.isWhereEqual = false) →
        (r.build calls).normalize.clauses = r.normalize.clauses ++ calls.filterMap Call.clause?) ∧
      ∀ earlier members later, calls = earlier ++ .whereEqual members :: later →
        (∀ call ∈ later, call.isWhereEqual = false) →
          (r.build calls).normalize.clauses =
            members.map (fun (field, value) => .condition field "=" (some value)) ++
              later.filterMap Call.clause? := by
  refine ⟨normalize_filter r, normalize_thenBy r, fun members => ?_,
    fun written => ⟨_, rfl, pairwise_writeUtf8 written⟩, fun calls => ?_⟩
  · have hclauses := clauses_items (.equalities members)
    exact congrArg (fun clauses => { r.normalize with clauses }) hclauses.symm
  · rw [normalize_build]
    refine ⟨NormalRequest.object_foldl, NormalRequest.fields_foldl, NormalRequest.orderBy_foldl,
      NormalRequest.limit_foldl, NormalRequest.clauses_foldl, ?_⟩
    rintro earlier members later rfl hlater
    exact NormalRequest.clauses_foldl_whereEqual hlater

/-- Calls that ask for large records. -/
def largeCalls : List Call :=
  [.thenBy " Name " .descending, .filter ⟨"Size", some ">", some (.number (.integer 5))⟩]

/-- The conditions of the calls stand behind those that there are, and behind equalities alone that
    are set between. -/
theorem large_accounts_normalize :
    (∀ call ∈ largeCalls, call.isWhereEqual = false) ∧
    (((ofObject "Account").filter { field := "Id" }).build largeCalls).normalize.clauses =
      [.condition "Id" "=" none, .condition "Size" ">" (some (.number (.integer 5)))] ∧
    (((ofObject "Account").filter { field := "Id" }).build
      ([.filter { field := "Owner" }] ++ .whereEqual [("Type", .string "A")] ::
        largeCalls)).normalize.clauses =
      [.condition "Type" "=" (some (.string "A")),
        .condition "Size" ">" (some (.number (.integer 5)))] := by
  have hcalls : ∀ call ∈ largeCalls, call.isWhereEqual = false := by decide
  obtain ⟨-, -, -, -, hbuild⟩ := build_normalizes ((ofObject "Account").filter { field := "Id" })
  obtain ⟨-, -, -, -, hbehind, -⟩ := hbuild largeCalls
  obtain ⟨-, -, -, -, -, hrenewed⟩ := hbuild
    ([.filter { field := "Owner" }] ++ .whereEqual [("Type", .string "A")] :: largeCalls)
  exact ⟨hcalls, hbehind hcalls, hrenewed _ _ _ rfl hcalls⟩

end Request

end QueryGate
