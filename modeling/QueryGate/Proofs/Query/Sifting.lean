import Mathlib.Data.List.Forall2
import QueryGate.Query.Compile

/-!
# Sifting

Going through the items of a request is *sifting*: each item in turn is either kept,
as a part of the query, or dropped, as an error. `gather` sifts, whether it is strict
or not, if it gets to the end (`Sifted.of_gather`). The lenient one always does, and
the strict one does the same where nothing is dropped and else ends with the first
error that the lenient one would drop (`gather_strict`).
-/

namespace QueryGate

/-- The items of a list, each of them kept as one thing or dropped as another, in order. -/
inductive Sifted {α β ε : Type} (keeps : α → β → Prop) (drops : α → ε → Prop) :
    List α → List β → List ε → Prop where
  /-- There is nothing left. -/
  | nil : Sifted keeps drops [] [] []
  /-- The next item is kept. -/
  | keep {a : α} {b : β} {items : List α} {kept : List β} {dropped : List ε} (h : keeps a b)
      (rest : Sifted keeps drops items kept dropped) :
      Sifted keeps drops (a :: items) (b :: kept) dropped
  /-- The next item is dropped. -/
  | drop {a : α} {e : ε} {items : List α} {kept : List β} {dropped : List ε} (h : drops a e)
      (rest : Sifted keeps drops items kept dropped) :
      Sifted keeps drops (a :: items) kept (e :: dropped)

namespace Sifted

variable {α β ε : Type} {keeps keeps' : α → β → Prop} {drops drops' : α → ε → Prop}
  {items : List α} {kept : List β} {dropped : List ε}

theorem imp (h : Sifted keeps drops items kept dropped)
    (hkeeps : ∀ a ∈ items, ∀ b, keeps a b → keeps' a b)
    (hdrops : ∀ a ∈ items, ∀ e, drops a e → drops' a e) :
    Sifted keeps' drops' items kept dropped := by
  induction h with
  | nil => exact .nil
  | keep h _ ih =>
    exact .keep (hkeeps _ List.mem_cons_self _ h)
      (ih (fun a ha => hkeeps a (List.mem_cons_of_mem _ ha))
        (fun a ha => hdrops a (List.mem_cons_of_mem _ ha)))
  | drop h _ ih =>
    exact .drop (hdrops _ List.mem_cons_self _ h)
      (ih (fun a ha => hkeeps a (List.mem_cons_of_mem _ ha))
        (fun a ha => hdrops a (List.mem_cons_of_mem _ ha)))

/-- Sifting the images of items is sifting the items. -/
theorem of_map {γ : Type} {f : γ → α} {items : List γ}
    (h : Sifted keeps drops (items.map f) kept dropped) :
    Sifted (fun c b => keeps (f c) b) (fun c e => drops (f c) e) items kept dropped := by
  induction items generalizing kept dropped with
  | nil =>
    cases h
    exact .nil
  | cons c items ih =>
    cases h with
    | keep h rest => exact .keep h (ih rest)
    | drop h rest => exact .drop h (ih rest)

theorem to_map {γ : Type} {f : γ → α} {items : List γ}
    (h : Sifted (fun c b => keeps (f c) b) (fun c e => drops (f c) e) items kept dropped) :
    Sifted keeps drops (items.map f) kept dropped := by
  induction h with
  | nil => exact .nil
  | keep h _ ih => exact .keep h ih
  | drop h _ ih => exact .drop h ih

/-- What is kept may be kept as something else. -/
theorem map_kept {γ : Type} {f : β → γ} {keeps' : α → γ → Prop}
    (h : Sifted keeps drops items kept dropped) (hkeeps : ∀ a b, keeps a b → keeps' a (f b)) :
    Sifted keeps' drops items (kept.map f) dropped := by
  induction h with
  | nil => exact .nil
  | keep h _ ih => exact .keep (hkeeps _ _ h) ih
  | drop h _ ih => exact .drop h ih

/-- Items are sifted by a decision, each of the others being dropped with an error of its own. -/
theorem of_filter (p : α → Prop) [DecidablePred p] (error : α → ε) (items : List α) :
    Sifted (fun a b => b = a ∧ p a) (fun a e => e = error a ∧ ¬p a) items (items.filter (p ·))
      ((items.filter (¬p ·)).map error) := by
  induction items with
  | nil => exact .nil
  | cons a items ih =>
    by_cases ha : p a
    · rw [List.filter_cons, if_pos (by simpa using ha), List.filter_cons,
        if_neg (by simpa using ha)]
      exact .keep ⟨rfl, ha⟩ ih
    · rw [List.filter_cons, if_neg (by simpa using ha), List.filter_cons,
        if_pos (by simpa using ha)]
      exact .drop ⟨rfl, ha⟩ ih

/-- As many items are dropped as are not accepted. -/
theorem length_dropped {p : α → Prop} [DecidablePred p] (h : Sifted keeps drops items kept dropped)
    (hkeeps : ∀ a b, keeps a b → p a) (hdrops : ∀ a e, drops a e → ¬p a) :
    dropped.length = items.countP (¬p ·) := by
  induction h with
  | nil => rfl
  | keep h _ ih => rw [List.countP_cons, if_neg (by simpa using hkeeps _ _ h), ih, Nat.add_zero]
  | drop h _ ih => rw [List.countP_cons, if_pos (by simpa using hdrops _ _ h), List.length_cons, ih]

/-- If nothing is dropped, every item is kept. -/
theorem forall₂_of_nil (h : Sifted keeps drops items kept []) : List.Forall₂ keeps items kept := by
  generalize hdropped : ([] : List ε) = dropped at h
  induction h with
  | nil => exact .nil
  | keep h _ ih => exact .cons h (ih hdropped)
  | drop => cases hdropped

/-- Whatever is kept is kept of an item. -/
theorem exists_of_mem_kept (h : Sifted keeps drops items kept dropped) {b : β} (hb : b ∈ kept) :
    ∃ a ∈ items, keeps a b := by
  induction h with
  | nil => cases hb
  | keep h _ ih =>
    rcases List.mem_cons.1 hb with rfl | hb
    · exact ⟨_, List.mem_cons_self, h⟩
    · obtain ⟨a, ha, hab⟩ := ih hb
      exact ⟨a, List.mem_cons_of_mem _ ha, hab⟩
  | drop _ _ ih =>
    obtain ⟨a, ha, hab⟩ := ih hb
    exact ⟨a, List.mem_cons_of_mem _ ha, hab⟩

/-- Whatever is dropped is dropped for an item. -/
theorem exists_of_mem_dropped (h : Sifted keeps drops items kept dropped) {e : ε}
    (he : e ∈ dropped) : ∃ a ∈ items, drops a e := by
  induction h with
  | nil => cases he
  | keep _ _ ih =>
    obtain ⟨a, ha, hae⟩ := ih he
    exact ⟨a, List.mem_cons_of_mem _ ha, hae⟩
  | drop h _ ih =>
    rcases List.mem_cons.1 he with rfl | he
    · exact ⟨_, List.mem_cons_self, h⟩
    · obtain ⟨a, ha, hae⟩ := ih he
      exact ⟨a, List.mem_cons_of_mem _ ha, hae⟩

/-- What is kept of the same items by another sifting is all that this one keeps too, if it cannot
    do otherwise with it. -/
theorem filter_sublist {ε' : Type} {drops' : α → ε' → Prop} {kept' : List β} {dropped' : List ε'}
    {p : β → Bool} (h : Sifted keeps drops items kept dropped)
    (h' : Sifted keeps' drops' items kept' dropped')
    (hkept : ∀ a b b', keeps a b → p b = true → keeps' a b' → b' = b)
    (hdropped : ∀ a b e, keeps a b → p b = true → ¬drops' a e) :
    (kept.filter p).Sublist kept' := by
  induction h generalizing kept' dropped' with
  | nil => exact List.nil_sublist _
  | @keep a b items kept dropped h _ ih =>
    by_cases hp : p b = true
    · rw [List.filter_cons_of_pos hp]
      cases h' with
      | keep hb' rest' =>
        obtain rfl := hkept a b _ h hp hb'
        exact (ih rest').cons_cons _
      | drop he rest' => exact absurd he (hdropped a b _ h hp)
    · rw [List.filter_cons_of_neg hp]
      cases h' with
      | keep _ rest' => exact (ih rest').cons _
      | drop _ rest' => exact ih rest'
  | drop _ _ ih =>
    cases h' with
    | keep _ rest' => exact (ih rest').cons _
    | drop _ rest' => exact ih rest'

/-- What is kept of the same items by another sifting is all that this one keeps, if it cannot do
    otherwise with it. -/
theorem sublist {ε' : Type} {drops' : α → ε' → Prop} {kept' : List β} {dropped' : List ε'}
    (h : Sifted keeps drops items kept dropped) (h' : Sifted keeps' drops' items kept' dropped')
    (hkept : ∀ a b b', keeps a b → keeps' a b' → b' = b)
    (hdropped : ∀ a b e, keeps a b → ¬drops' a e) : kept.Sublist kept' := by
  have hall := h.filter_sublist (p := fun _ => true) h'
    (fun a b b' hb _ hb' => hkept a b b' hb hb') fun a b e hb _ => hdropped a b e hb
  rwa [List.filter_true] at hall

/-- If this sifting drops nothing, the other one keeps nothing else, and drops nothing either. -/
theorem eq_of_nil {ε' : Type} {drops' : α → ε' → Prop} {kept' : List β} {dropped' : List ε'}
    (h : Sifted keeps drops items kept []) (h' : Sifted keeps' drops' items kept' dropped')
    (hkept : ∀ a b b', keeps a b → keeps' a b' → b' = b)
    (hdropped : ∀ a b e, keeps a b → ¬drops' a e) : kept' = kept ∧ dropped' = [] := by
  generalize hnil : ([] : List ε) = dropped at h
  induction h generalizing kept' dropped' with
  | nil =>
    cases h'
    exact ⟨rfl, rfl⟩
  | keep hb _ ih =>
    cases h' with
    | keep hb' rest' =>
      obtain ⟨rfl, rfl⟩ := ih rest' hnil
      exact ⟨congrArg (· :: _) (hkept _ _ _ hb hb'), rfl⟩
    | drop he => exact absurd he (hdropped _ _ _ hb)
  | drop => cases hnil

end Sifted

/-! ## Gathering -/

section Gather

variable {α β : Type} {strict : Bool}

/-- Results that are gathered to the end are sifted. -/
theorem Sifted.of_gather {results : List (Except CompileError α)} {kept : List α}
    {dropped : List CompileError} (h : gather strict results = .ok (kept, dropped)) :
    Sifted (fun r a => r = .ok a) (fun r e => r = .error e) results kept dropped := by
  induction results generalizing kept dropped with
  | nil =>
    obtain ⟨rfl, rfl⟩ := Prod.mk.inj (Except.ok.inj h)
    exact .nil
  | cons result results ih =>
    -- what is gathered of the other results
    cases hrest : gather strict results with
    | error e =>
      cases result with
      | ok a =>
        rw [gather, hrest] at h
        cases h
      | error e' =>
        rw [gather, hrest] at h
        split_ifs at h
        cases h
    | ok rest =>
      cases result with
      | ok a =>
        rw [gather, hrest] at h
        cases h
        exact .keep rfl (ih hrest)
      | error e' =>
        rw [gather, hrest] at h
        split_ifs at h
        cases h
        exact .drop rfl (ih hrest)

/-- Lenient gathering gets to the end. -/
theorem exists_gather_lenient (results : List (Except CompileError α)) :
    ∃ kept dropped, gather false results = .ok (kept, dropped) := by
  induction results with
  | nil => exact ⟨[], [], rfl⟩
  | cons result results ih =>
    obtain ⟨kept, dropped, hrest⟩ := ih
    cases result with
    | ok a => exact ⟨a :: kept, dropped, by rw [gather, hrest]; rfl⟩
    | error e => exact ⟨kept, e :: dropped, by rw [gather, if_neg Bool.false_ne_true, hrest]; rfl⟩

/-- The first of some errors, or a result if there are none. -/
def firstErrorOr (a : α) : List CompileError → Except CompileError α
  | [] => .ok a
  | e :: _ => .error e

/-- Strict gathering ends with the first error that lenient gathering drops; if there is none, they
    do the same. -/
theorem gather_strict {results : List (Except CompileError α)} {kept : List α}
    {dropped : List CompileError} (h : gather false results = .ok (kept, dropped)) :
    gather true results = firstErrorOr (kept, []) dropped := by
  induction results generalizing kept dropped with
  | nil =>
    cases h
    rfl
  | cons result results ih =>
    obtain ⟨kept', dropped', hrest⟩ := exists_gather_lenient results
    cases result with
    | ok a =>
      rw [gather, hrest] at h
      cases h
      rw [gather, ih hrest]
      cases dropped with
      | nil => rfl
      | cons e errors => rfl
    | error e =>
      rw [gather, if_neg Bool.false_ne_true, hrest] at h
      cases h
      rfl

end Gather

end QueryGate
