import QueryGate.Capability.Entry

/-!
# The standard capabilities

The objects that are known without any seed: for each its default fields and its
fields, with the kind of value they hold. The kind decides the operators that a
field accepts; one without a kind accepts `=` alone, as all fields do that have no
operators of their own.
-/

namespace QueryGate.Standard

/-- The kind of value that a field holds. -/
inductive FieldKind where
  /-- A reference to a record. -/
  | reference
  /-- Free text. -/
  | text
  /-- One of a list of choices. -/
  | choice
  /-- A number. -/
  | number
  /-- A date or a time. -/
  | date
  /-- True or false. -/
  | flag
  deriving DecidableEq, Repr

/-- The operators that make sense for a kind of value. -/
def FieldKind.operators : FieldKind → List Operator
  | .reference | .choice => [.equal, .notEqual, .isIn, .notIn]
  | .text => [.equal, .notEqual, .like, .isIn, .notIn]
  | .number =>
    [.equal, .notEqual, .less, .lessEqual, .greater, .greaterEqual, .isIn, .notIn]
  | .date => [.equal, .notEqual, .less, .lessEqual, .greater, .greaterEqual]
  | .flag => [.equal, .notEqual]

/-- An object of the table. -/
structure Row where
  /-- The name of the object. -/
  object : String
  /-- Its default fields. -/
  defaults : List String
  /-- Its fields, with the kinds of the values they hold. -/
  columns : List (String × Option FieldKind)

/-- The entry of an object of the table. -/
def Row.entry (row : Row) : Entry :=
  row.columns.foldl (fun e (field, kind) =>
    match kind with
    | some kind => e.addOperators field kind.operators
    | none => e.addField field) (Entry.empty.withDefaults row.defaults)

/-- The columns of `Account`. -/
def accountRow : Row where
  object := "Account"
  defaults := ["Id", "Name", "Type", "Industry", "AnnualRevenue"]
  columns :=
    [("Id", some .reference), ("Name", some .text), ("Type", some .choice),
     ("Industry", some .choice), ("AnnualRevenue", some .number),
     ("NumberOfEmployees", some .number), ("BillingCity", some .text),
     ("BillingState", some .text), ("BillingCountry", some .text), ("Phone", none),
     ("Website", none), ("OwnerId", some .reference), ("Owner.Name", none),
     ("Rating", some .choice), ("CreatedDate", some .date), ("LastModifiedDate", some .date)]

/-- The columns of `Contact`. -/
def contactRow : Row where
  object := "Contact"
  defaults := ["Id", "Name", "Email", "Title", "AccountId"]
  columns :=
    [("Id", some .reference), ("FirstName", some .text), ("LastName", some .text),
     ("Name", some .text), ("Email", some .text), ("Phone", none), ("Title", some .text),
     ("Department", some .text), ("AccountId", some .reference), ("Account.Name", some .text),
     ("OwnerId", some .reference), ("LeadSource", some .choice), ("MailingCity", none),
     ("MailingCountry", some .text), ("CreatedDate", some .date), ("LastModifiedDate", some .date)]

/-- The columns of `Lead`. -/
def leadRow : Row where
  object := "Lead"
  defaults := ["Id", "Name", "Company", "Status", "LeadSource"]
  columns :=
    [("Id", some .reference), ("FirstName", none), ("LastName", none), ("Name", some .text),
     ("Company", some .text), ("Email", some .text), ("Phone", none), ("Status", some .choice),
     ("LeadSource", some .choice), ("Industry", some .choice), ("Rating", some .choice),
     ("IsConverted", some .flag), ("OwnerId", some .reference), ("CreatedDate", some .date)]

/-- The columns of `Opportunity`. -/
def opportunityRow : Row where
  object := "Opportunity"
  defaults := ["Id", "Name", "Amount", "StageName", "CloseDate"]
  columns :=
    [("Id", some .reference), ("Name", some .text), ("Amount", some .number),
     ("StageName", some .choice), ("CloseDate", some .date), ("Probability", some .number),
     ("Type", some .choice), ("LeadSource", some .choice), ("ForecastCategoryName", some .choice),
     ("NextStep", none), ("IsClosed", some .flag), ("IsWon", some .flag),
     ("AccountId", some .reference), ("Account.Name", some .text), ("OwnerId", some .reference),
     ("Owner.Name", none), ("CreatedDate", some .date), ("LastModifiedDate", some .date)]

/-- The columns of `Case`. -/
def caseRow : Row where
  object := "Case"
  defaults := ["Id", "CaseNumber", "Subject", "Status", "Priority"]
  columns :=
    [("Id", some .reference), ("CaseNumber", some .text), ("Subject", some .text),
     ("Status", some .choice), ("Priority", some .choice), ("Origin", some .choice),
     ("Reason", some .choice), ("IsClosed", some .flag), ("AccountId", some .reference),
     ("Account.Name", none), ("ContactId", some .reference), ("OwnerId", some .reference),
     ("CreatedDate", some .date), ("ClosedDate", some .date)]

/-- The columns of `User`. -/
def userRow : Row where
  object := "User"
  defaults := ["Id", "Name", "Email", "IsActive"]
  columns :=
    [("Id", some .reference), ("Name", some .text), ("Username", some .text),
     ("Email", some .text), ("IsActive", some .flag), ("Title", none), ("Department", some .text),
     ("ProfileId", none), ("UserRoleId", none), ("LastLoginDate", some .date)]

/-- The columns of `Task`. -/
def taskRow : Row where
  object := "Task"
  defaults := ["Id", "Subject", "Status", "ActivityDate"]
  columns :=
    [("Id", some .reference), ("Subject", some .text), ("Status", some .choice),
     ("Priority", some .choice), ("ActivityDate", some .date), ("WhoId", some .reference),
     ("WhatId", some .reference), ("OwnerId", some .reference), ("IsClosed", some .flag),
     ("CreatedDate", some .date)]

/-- The columns of `Campaign`. -/
def campaignRow : Row where
  object := "Campaign"
  defaults := ["Id", "Name", "Type", "Status", "StartDate"]
  columns :=
    [("Id", some .reference), ("Name", some .text), ("Type", some .choice),
     ("Status", some .choice), ("StartDate", some .date), ("EndDate", some .date),
     ("IsActive", some .flag), ("BudgetedCost", some .number), ("ActualCost", some .number),
     ("NumberOfLeads", some .number), ("OwnerId", none)]

/-- The objects of the standard table. -/
def rows : List Row :=
  [accountRow, contactRow, leadRow, opportunityRow, caseRow, userRow, taskRow, campaignRow]

/-- The standard capabilities. -/
def capabilities : Capabilities := .ofList (rows.map fun row => (row.object, row.entry))

end QueryGate.Standard
