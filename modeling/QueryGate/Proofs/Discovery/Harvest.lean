import Mathlib.Tactic.SplitIfs
import QueryGate.Discovery.Extract

/-!
# What payloads add

Payloads change what was learned by nothing but fields and operators on fields, one at a
time, and by issues: what these three keep is kept by a harvest (`Closed.harvest`). So
nothing is learned unless some payload contributes (`entry_eq_empty`), and payloads that
are requests for other objects do not (`addPayload_of_foreign`).
-/

namespace QueryGate.Payload

variable {object : String}

namespace Harvest

variable {P : Harvest → Prop} {h : Harvest}

/-- A property of harvests is kept by what payloads add: fields, operators on fields and issues. -/
structure Closed (P : Harvest → Prop) : Prop where
  field : ∀ h field, Name.isField field = true → P h → P (h.contribute fun e => e.addField field)
  operator : ∀ h field op, Name.isField field = true → P h →
    P (h.contribute fun e => e.addOperator field op)
  report : ∀ h issue, P h → P (h.report issue)

namespace Closed

variable (hP : Closed P)

include hP

theorem addField (hh : P h) (value : Json) : P (h.addField value) := by
  rw [Harvest.addField]
  split
  · next hvalue => exact hP.field _ _ (Option.filter_eq_some_iff.1 hvalue).2 hh
  · exact hh

theorem addCondition (hh : P h) (condition : Json) : P (h.addCondition condition) := by
  rw [Harvest.addCondition]
  split
  · next hfield =>
    dsimp only
    split
    · exact hP.operator _ _ _ (Option.filter_eq_some_iff.1 hfield).2 hh
    · exact hP.report _ _ hh
  · exact hh

theorem addEquality (hh : P h) (member : String × Json) : P (h.addEquality member) := by
  rw [Harvest.addEquality]
  split_ifs with hfield
  · exact hP.operator _ _ _ hfield hh
  · exact hh

theorem addWhere (hh : P h) (conditions : Option Json) : P (h.addWhere conditions) := by
  unfold Harvest.addWhere
  split
  · exact List.foldlRecOn (motive := P) _ _ hh fun _ hh condition _ => hP.addCondition hh condition
  · exact List.foldlRecOn (motive := P) _ _ hh fun _ hh member _ => hP.addEquality hh member
  · exact hh

theorem addPayload (hh : P h) (object : String) (payload : Json) :
    P (h.addPayload object payload) := by
  rw [Harvest.addPayload]
  split_ifs
  · exact hh
  split
  · exact hP.report _ _ hh
  · refine hP.addWhere ?_ _
    exact List.foldlRecOn (motive := P) _ _ hh fun _ hh value _ => hP.addField hh value

theorem addBlock (hh : P h) (object : String) (block : Block × Nat) :
    P (h.addBlock object block) := by
  rw [Harvest.addBlock]
  split
  · exact hh
  split
  · exact hP.report _ _ hh
  · exact List.foldlRecOn (motive := P) _ _ hh
      fun _ hh payload _ => hP.addPayload hh object payload
  · exact hP.addPayload hh object _

/-- What payloads keep holds of a harvest if it holds of none. -/
theorem harvest (hempty : P {}) (document : Document) : P (harvest document) :=
  List.foldlRecOn (motive := P) _ _ hempty
    fun _ hh block _ => hP.addBlock hh document.object block

end Closed

end Harvest

/-- Nothing is learned from payloads unless one contributes. -/
theorem entry_eq_empty {document : Document} (h : (harvest document).contributed = false) :
    (harvest document).findings.entry = .empty := by
  -- fields and operators contribute, and issues leave the entry as it is
  have hclosed : Harvest.Closed fun h => h.contributed = false → h.findings.entry = .empty :=
    { field := fun _ _ _ _ h => by cases h
      operator := fun _ _ _ _ _ h => by cases h
      report := fun _ _ hh h => hh h }
  exact hclosed.harvest (fun _ => rfl) document h

end QueryGate.Payload
