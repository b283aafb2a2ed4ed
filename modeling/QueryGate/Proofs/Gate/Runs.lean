import Mathlib.Data.List.Induction
import QueryGate.Gate

/-!
# Runs of a gate

A gate is asked to scan, to forget, to show what is in effect, to take views and to
compile, in any order, while the files change (`Operation`, `Session`). Only scans and
clearing publish anything, and what is in effect is what was published last, as if the
store had been new (`inEffect`).

* `Session.gate_run`: the gate that a run leads to holds what is in effect;
* `Session.taken_run`: a view holds what was in effect when it was taken;
* `answers_of_run`: every answer in a run follows from what was in effect.
-/

namespace QueryGate.Gate

/-! ## Operations -/

/-- What a gate is asked to do. -/
inductive Operation where
  /-- Scan a directory, with the files as they are then. -/
  | rescan (files : Files) (directory : String)
  /-- Forget what was discovered. -/
  | clear
  /-- Show the snapshot in effect. -/
  | load
  /-- Take a view. It is kept. -/
  | view
  /-- Compile a request against the sources as they are. -/
  | compile (request : Request)
  /-- Compile a request against a view taken earlier; they are numbered from 0. -/
  | compileOn (taken : Nat) (options : CompileOptions) (request : Request)
  /-- Look into a view taken earlier. -/
  | look (taken : Nat)

/-- An answer of a gate. -/
inductive Answer where
  /-- A snapshot. -/
  | snapshot (s : Snapshot)
  /-- A view. -/
  | view (v : View)
  /-- The result of a compilation. -/
  | compiled (result : Except CompileError Compiled)
  /-- There is no such view. -/
  | noView

/-- A gate and the views taken of it. -/
structure Session where
  /-- The gate. -/
  gate : Gate
  /-- The views, in the order they were taken. -/
  taken : List View := []

namespace Session

/-- A session with a new gate. -/
def new (registry : Capabilities) (limits : ScanLimits) (options : CompileOptions) : Session where
  gate := { registry, store := { limits }, options }

/-- Performs an operation. -/
def perform (s : Session) : Operation → Session × Answer
  | .rescan files directory =>
    let gate := s.gate.rescan files directory
    ({ s with gate }, .snapshot gate.store.current)
  | .clear =>
    let gate := s.gate.clear
    ({ s with gate }, .snapshot gate.store.current)
  | .load => (s, .snapshot s.gate.store.current)
  | .view => ({ s with taken := s.taken ++ [s.gate.view] }, .view s.gate.view)
  | .compile request => (s, .compiled (s.gate.compile request))
  | .compileOn taken options request =>
    match s.taken[taken]? with
    | some view => (s, .compiled (QueryGate.compile view options request))
    | none => (s, .noView)
  | .look taken =>
    match s.taken[taken]? with
    | some view => (s, .view view)
    | none => (s, .noView)

/-- The session after operations. -/
def run (s : Session) (ops : List Operation) : Session :=
  ops.foldl (fun s op => (s.perform op).1) s

/-- The answers to operations, one each. -/
def answers : Session → List Operation → List Answer
  | _, [] => []
  | s, op :: ops => (s.perform op).2 :: answers (s.perform op).1 ops

@[simp]
theorem run_append (s : Session) (ops more : List Operation) :
    s.run (ops ++ more) = (s.run ops).run more :=
  List.foldl_append ..

theorem run_snoc (s : Session) (ops : List Operation) (op : Operation) :
    s.run (ops ++ [op]) = ((s.run ops).perform op).1 := by
  rw [run_append]
  rfl

/-- The answer to one operation in a run, with those before it and after it. -/
def answerTo (s : Session) (before : List Operation) (op : Operation) (after : List Operation) :
    Option Answer :=
  (s.answers (before ++ op :: after))[before.length]?

/-- An operation is answered by the session that the operations before it lead to. -/
theorem answerTo_eq (s : Session) (before after : List Operation) (op : Operation) :
    s.answerTo before op after = some ((s.run before).perform op).2 := by
  rw [answerTo]
  induction before generalizing s with
  | nil => rfl
  | cons first before ih =>
    rw [List.cons_append, answers, List.length_cons, List.getElem?_cons_succ, ih]
    rfl

end Session

/-! ## What is in effect -/

namespace Operation

/-- What an operation publishes: where it was found, and the scan. -/
def publication? (limits : ScanLimits) : Operation → Option (Option String × Scan)
  | .rescan files directory => some (some directory, scan limits files directory)
  | .clear => some (none, {})
  | _ => none

/-- Whether an operation publishes a snapshot. -/
def publishes : Operation → Bool
  | .rescan .. | .clear => true
  | _ => false

/-- Whether an operation takes a view. -/
def takesView : Operation → Bool
  | .view => true
  | _ => false

theorem publishes_eq_isSome (limits : ScanLimits) (op : Operation) :
    op.publishes = (op.publication? limits).isSome := by
  cases op <;> rfl

theorem publication?_eq_none {op : Operation} (h : op.publishes = false) (limits : ScanLimits) :
    op.publication? limits = none := by
  rwa [publishes_eq_isSome limits, Option.isSome_eq_false_iff, Option.isNone_iff_eq_none] at h

/-- An operation that leaves nothing discovered: it clears the store, or scans a root that is not
    there or has no directories. -/
inductive Empties : Operation → Prop where
  | clear : Empties .clear
  | missing {files : Files} {directory : String} {error : FileError}
      (hlist : files.list directory = .error error) : Empties (.rescan files directory)
  | bare {files : Files} {directory : String} {entries : List (String × Node)}
      (hlist : files.list directory = .ok entries)
      (hnone : subdirectories directory entries = []) : Empties (.rescan files directory)

/-- Such an operation publishes no entries. -/
theorem Empties.publication?_eq {op : Operation} (h : op.Empties) (limits : ScanLimits) :
    ∃ source report, op.publication? limits = some (source, { report }) := by
  cases h with
  | clear => exact ⟨none, {}, rfl⟩
  | @missing files directory error hlist =>
    refine ⟨some directory, ({} : ScanReport).skip directory (.unreadableRoot error), ?_⟩
    rw [publication?, scan, hlist]
  | @bare files directory entries hlist hnone =>
    refine ⟨some directory, { truncated := decide (limits.maxDirectories < 0) }, ?_⟩
    rw [publication?, scan, hlist]
    simp only [scanEntries, hnone, List.take_nil, List.foldl_nil, List.length_nil]

end Operation

/-- The snapshot in effect after operations: the last one published, with the number of those
    published so far for its version. -/
def inEffect (limits : ScanLimits) (ops : List Operation) : Snapshot :=
  match (ops.filterMap (Operation.publication? limits)).getLast? with
  | some (source, found) =>
    { version := ops.countP Operation.publishes
      source
      entries := found.entries
      report := found.report }
  | none => .empty

section InEffect

variable {limits : ScanLimits} {ops quiet : List Operation} {op : Operation}
  {source : Option String} {found : Scan}

/-- What an operation publishes is in effect right after it. -/
theorem inEffect_snoc_of_publication (h : op.publication? limits = some (source, found)) :
    inEffect limits (ops ++ [op]) =
      { version := ops.countP Operation.publishes + 1
        source
        entries := found.entries
        report := found.report } := by
  have hpublishes : op.publishes = true := by
    rw [Operation.publishes_eq_isSome limits, h, Option.isSome_some]
  have hlast : ((ops ++ [op]).filterMap (Operation.publication? limits)).getLast? =
      some (source, found) := by
    rw [List.filterMap_append, List.filterMap_cons_some h, List.filterMap_nil,
      List.getLast?_concat]
  simp only [inEffect, hlast, List.countP_append, List.countP_singleton, hpublishes, if_true]

/-- Operations that publish nothing leave in effect what was. -/
theorem inEffect_append_quiet (h : ∀ op ∈ quiet, op.publishes = false) :
    inEffect limits (ops ++ quiet) = inEffect limits ops := by
  have hnone : quiet.filterMap (Operation.publication? limits) = [] :=
    List.filterMap_eq_nil_iff.2 fun op hop => Operation.publication?_eq_none (h op hop) limits
  have hcount : quiet.countP Operation.publishes = 0 :=
    List.countP_eq_zero.2 fun op hop => Bool.eq_false_iff.1 (h op hop)
  rw [inEffect, inEffect, List.filterMap_append, hnone, List.append_nil, List.countP_append,
    hcount, Nat.add_zero]

/-- The same from an operation that publishes on. -/
theorem inEffect_append_cons_quiet (h : op.publication? limits = some (source, found))
    (hquiet : ∀ op ∈ quiet, op.publishes = false) :
    inEffect limits (ops ++ op :: quiet) =
      { version := ops.countP Operation.publishes + 1
        source
        entries := found.entries
        report := found.report } := by
  rw [List.append_cons, inEffect_append_quiet hquiet, inEffect_snoc_of_publication h]

/-- The version counts operations. -/
theorem version_inEffect_le (ops : List Operation) :
    (inEffect limits ops).version ≤ ops.length := by
  rw [inEffect]
  split
  · exact List.countP_le_length
  · exact Nat.zero_le _

end InEffect

/-! ## Runs -/

/-- A gate that holds what is in effect after operations. -/
def holding (registry : Capabilities) (limits : ScanLimits) (options : CompileOptions)
    (ops : List Operation) : Gate where
  registry
  options
  store := {
    limits
    current := inEffect limits ops
    published := ops.countP Operation.publishes }

/-- A compilation does not depend on the version, the source and the report of a snapshot. -/
theorem compile_congr_entries {registry : Capabilities} {s s' : Snapshot}
    (h : s.entries = s'.entries) (options : CompileOptions) (request : Request) :
    QueryGate.compile { registry, snapshot := s } options request =
      QueryGate.compile { registry, snapshot := s' } options request := by
  obtain ⟨version, source, entries, report⟩ := s
  obtain rfl : entries = s'.entries := h
  rfl

namespace Session

variable {registry : Capabilities} {limits : ScanLimits} {options : CompileOptions}

/-- One operation brings a gate that holds what is in effect to the next such gate. -/
theorem gate_perform {s : Session} {ops : List Operation}
    (h : s.gate = holding registry limits options ops) (op : Operation) :
    (s.perform op).1.gate = holding registry limits options (ops ++ [op]) := by
  have hquiet : op.publishes = false →
      holding registry limits options (ops ++ [op]) = holding registry limits options ops := by
    intro hop
    rw [holding, inEffect_append_quiet (by simpa using hop), List.countP_append,
      List.countP_singleton, hop]
    rfl
  cases op with
  | rescan files directory =>
    rw [holding, inEffect_snoc_of_publication rfl, List.countP_append]
    simp only [perform, h, Gate.rescan, Store.rescan, Store.publish, holding]
    rfl
  | clear =>
    rw [holding, inEffect_snoc_of_publication rfl, List.countP_append]
    simp only [perform, h, Gate.clear, Store.clear, Store.publish, holding]
    rfl
  | compileOn taken _ _ =>
    rw [perform, hquiet rfl, ← h]
    cases s.taken[taken]? <;> rfl
  | look taken =>
    rw [perform, hquiet rfl, ← h]
    cases s.taken[taken]? <;> rfl
  | _ => exact h.trans (hquiet rfl).symm

/-- The gate that a run leads to holds what is in effect. -/
theorem gate_run (ops : List Operation) :
    ((new registry limits options).run ops).gate = holding registry limits options ops := by
  induction ops using List.reverseRecOn with
  | nil => rfl
  | append_singleton ops op ih =>
    rw [run_snoc]
    exact gate_perform ih op

/-- Versions do not outrun the operations, so that a counter of 64 bits is enough for every run of
    fewer than `2 ^ 64` of them. -/
theorem published_run_le (ops : List Operation) :
    ((new registry limits options).run ops).gate.store.published ≤ ops.length ∧
      ((new registry limits options).run ops).gate.store.current.version ≤ ops.length := by
  rw [gate_run]
  exact ⟨List.countP_le_length, version_inEffect_le ops⟩

/-- Views are added to those taken, at the end, and by taking one only. -/
theorem taken_perform (s : Session) (op : Operation) :
    (s.perform op).1.taken = if op.takesView then s.taken ++ [s.gate.view] else s.taken := by
  cases op with
  | compileOn taken _ _ => rw [perform]; cases s.taken[taken]? <;> rfl
  | look taken => rw [perform]; cases s.taken[taken]? <;> rfl
  | _ => rfl

theorem length_taken_run (ops : List Operation) :
    ((new registry limits options).run ops).taken.length = ops.countP Operation.takesView := by
  induction ops using List.reverseRecOn with
  | nil => rfl
  | append_singleton ops op ih =>
    rw [run_snoc, taken_perform, List.countP_append, List.countP_singleton]
    cases op.takesView
    · exact ih
    · exact List.length_append.trans (congrArg (· + 1) ih)

/-- A view holds what was in effect when it was taken, whatever comes after. -/
theorem taken_run (before after : List Operation) :
    ((new registry limits options).run (before ++ .view :: after)).taken[
        before.countP Operation.takesView]? =
      some { registry, snapshot := inEffect limits before } := by
  induction after using List.reverseRecOn with
  | nil =>
    have hview : ((new registry limits options).run before).gate.view =
        { registry, snapshot := inEffect limits before } := by
      rw [gate_run]
      rfl
    rw [run_snoc, perform, ← length_taken_run before, List.getElem?_concat_length, hview]
  | append_singleton after op ih =>
    have hlt := (List.getElem?_eq_some_iff.1 ih).1
    rw [← List.cons_append, ← List.append_assoc, run_snoc, taken_perform]
    cases op.takesView
    · exact ih
    · exact (List.getElem?_append_left hlt).trans ih

/-! ## Answers -/

theorem answerTo_rescan (before after : List Operation) (files : Files) (directory : String) :
    (new registry limits options).answerTo before (.rescan files directory) after =
      some (.snapshot
        { version := before.countP Operation.publishes + 1
          source := some directory
          entries := (scan limits files directory).entries
          report := (scan limits files directory).report }) := by
  rw [answerTo_eq, perform, gate_run]
  rfl

theorem answerTo_clear (before after : List Operation) :
    (new registry limits options).answerTo before .clear after =
      some (.snapshot { version := before.countP Operation.publishes + 1 }) := by
  rw [answerTo_eq, perform, gate_run]
  rfl

theorem answerTo_load (before after : List Operation) :
    (new registry limits options).answerTo before .load after =
      some (.snapshot (inEffect limits before)) := by
  rw [answerTo_eq, perform, gate_run]
  rfl

theorem answerTo_compile (before after : List Operation) (request : Request) :
    (new registry limits options).answerTo before (.compile request) after =
      some (.compiled
        (QueryGate.compile { registry, snapshot := inEffect limits before } options request)) := by
  rw [answerTo_eq, perform, gate_run]
  rfl

theorem answerTo_view (before after : List Operation) :
    (new registry limits options).answerTo before .view after =
      some (.view { registry, snapshot := inEffect limits before }) := by
  rw [answerTo_eq, perform, gate_run]
  rfl

theorem answerTo_look (before between after : List Operation) :
    (new registry limits options).answerTo (before ++ .view :: between)
        (.look (before.countP Operation.takesView)) after =
      some (.view { registry, snapshot := inEffect limits before }) := by
  rw [answerTo_eq, perform, taken_run]

theorem answerTo_compileOn (before between after : List Operation) (options' : CompileOptions)
    (request : Request) :
    (new registry limits options).answerTo (before ++ .view :: between)
        (.compileOn (before.countP Operation.takesView) options' request) after =
      some (.compiled
        (QueryGate.compile { registry, snapshot := inEffect limits before } options' request)) := by
  rw [answerTo_eq, perform, taken_run]

/-- What an operation publishes is loaded until the next one publishes. -/
theorem answerTo_load_between {op : Operation} {between : List Operation}
    (hop : op.publishes = true) (hquiet : ∀ o ∈ between, o.publishes = false)
    (before after : List Operation) :
    (new registry limits options).answerTo (before ++ op :: between) .load after =
      (new registry limits options).answerTo before op (between ++ .load :: after) := by
  rw [answerTo_load]
  cases op with
  | rescan files directory =>
    rw [inEffect_append_cons_quiet rfl hquiet, answerTo_rescan]
  | clear =>
    rw [inEffect_append_cons_quiet rfl hquiet, answerTo_clear]
  | _ => cases hop

/-- Where nothing is left discovered, requests are compiled against the registry alone. -/
theorem answerTo_compile_of_empties {op : Operation} {quiet : List Operation} (hop : op.Empties)
    (hquiet : ∀ o ∈ quiet, o.publishes = false) (before after : List Operation)
    (request : Request) :
    (new registry limits options).answerTo (before ++ op :: quiet) (.compile request) after =
      some (.compiled (QueryGate.compile { registry } options request)) := by
  obtain ⟨source, report, hpublication⟩ := hop.publication?_eq limits
  rw [answerTo_compile, inEffect_append_cons_quiet hpublication hquiet]
  exact congrArg (fun result => some (Answer.compiled result))
    (compile_congr_entries rfl options request)

end Session

/-- In every run of a new gate, the `k`-th operation that publishes answers with version `k` and
    with what a new store finds in the same files; what is loaded until the next one is that
    snapshot. Requests are compiled against the registry and what is in effect or, on a view taken
    earlier, against what was in effect then. Where nothing is left discovered they are compiled
    against the registry alone. -/
theorem answers_of_run (registry : Capabilities) (limits : ScanLimits) (options : CompileOptions)
    (before after : List Operation) :
    let s := Session.new registry limits options
    -- a scan, and clearing
    (∀ files directory,
      ∃ alone : Snapshot, alone = (({ limits } : Store).rescan files directory).current ∧
        s.answerTo before (.rescan files directory) after =
          some (.snapshot
            { version := before.countP Operation.publishes + 1
              source := some directory
              entries := alone.entries
              report := alone.report })) ∧
    s.answerTo before .clear after =
      some (.snapshot { version := before.countP Operation.publishes + 1 }) ∧
    -- loading, with what was published last in effect
    (∀ op between, op.publishes = true → (∀ o ∈ between, o.publishes = false) →
      s.answerTo (before ++ op :: between) .load after =
        s.answerTo before op (between ++ .load :: after)) ∧
    ((∀ o ∈ before, o.publishes = false) →
      s.answerTo before .load after = some (.snapshot .empty)) ∧
    -- compiling, and views, for what is loaded at the same place
    (∃ now, s.answerTo before .load after = some (.snapshot now) ∧
      (∀ request, s.answerTo before (.compile request) after =
        some (.compiled (QueryGate.compile { registry, snapshot := now } options request))) ∧
      s.answerTo before .view after = some (.view { registry, snapshot := now }) ∧
      ∀ between,
        s.answerTo (before ++ .view :: between) (.look (before.countP Operation.takesView)) after =
          some (.view { registry, snapshot := now }) ∧
        ∀ options' request,
          s.answerTo (before ++ .view :: between)
              (.compileOn (before.countP Operation.takesView) options' request) after =
            some (.compiled (QueryGate.compile { registry, snapshot := now } options' request))) ∧
    -- compiling with nothing left discovered
    ∀ op quiet request, op.Empties → (∀ o ∈ quiet, o.publishes = false) →
      s.answerTo (before ++ op :: quiet) (.compile request) after =
        some (.compiled (QueryGate.compile { registry } options request)) := by
  refine ⟨fun files directory => ⟨_, rfl, Session.answerTo_rescan before after files directory⟩,
    Session.answerTo_clear before after,
    fun op between hop hquiet => Session.answerTo_load_between hop hquiet before after,
    fun hquiet => ?_,
    ⟨inEffect limits before, Session.answerTo_load before after,
      Session.answerTo_compile before after, Session.answerTo_view before after,
      fun between => ⟨Session.answerTo_look before between after,
        Session.answerTo_compileOn before between after⟩⟩,
    fun op quiet request hop hquiet =>
      Session.answerTo_compile_of_empties hop hquiet before after request⟩
  have hnone : inEffect limits ([] ++ before) = inEffect limits [] := inEffect_append_quiet hquiet
  rw [Session.answerTo_load, ← List.nil_append before, hnone]
  rfl

/-- A store is cleared and its root is gone: the scan of that is loaded from then on, and the
    request is compiled as if nothing had been discovered. Before, nothing is loaded. -/
theorem answers_without_root :
    ∃ (gone : Operation) (s : Session), gone = .rescan (fun _ => .error .notFound) "docs" ∧
      s = Session.new Standard.capabilities {} {} ∧ gone.publishes = true ∧ gone.Empties ∧
      s.answerTo [.view] .load [.clear, gone] = some (.snapshot .empty) ∧
      s.answerTo [.clear, .view, gone, .load] .load [] =
        s.answerTo [.clear, .view] gone [.load, .load] ∧
      s.answerTo [.clear, .view, gone, .load] (.compile { object := "Account" }) [] =
        some (.compiled <|
          QueryGate.compile { registry := Standard.capabilities } {} { object := "Account" }) := by
  set gone : Operation := .rescan (fun _ => .error .notFound) "docs"
  have hempties : gone.Empties := .missing rfl
  have hview : ∀ o ∈ [Operation.view], o.publishes = false := List.forall_mem_singleton.2 rfl
  have hload : ∀ o ∈ [Operation.load], o.publishes = false := List.forall_mem_singleton.2 rfl
  obtain ⟨_, _, _, hnothing, _⟩ :=
    answers_of_run Standard.capabilities {} {} [.view] [.clear, gone]
  obtain ⟨_, _, hloaded, _, _, hcompiled⟩ :=
    answers_of_run Standard.capabilities {} {} [.clear, .view] []
  exact ⟨gone, _, rfl, rfl, rfl, hempties, hnothing hview, hloaded gone [.load] rfl hload,
    hcompiled gone [.load] _ hempties hload⟩

end QueryGate.Gate
