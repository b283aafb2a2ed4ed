import QueryGate.Operator
import QueryGate.Proofs.Discovery.ListEnds
import QueryGate.Proofs.Text.Blanks

/-!
# The vocabulary of operators

An operator is read by its capitals, and those are the ones of Unicode. Of the characters beyond
ASCII, some have capitals in ASCII (`ſ`, `ß`, `ﬁ` and more), but only for one are they all among
the characters of the spellings: the dotless i, whose capital is `I` (`isPlain_of_capital`). So
the texts that are read as an operator are those that spell it up to the case of ASCII letters,
where a dotless i may stand for an `i` (`ofText_vocabulary`).
-/

namespace QueryGate

open Text

namespace Operator

variable {c d : Char} {cs word : List Char}

/-- The characters of the spellings. -/
def alphabet : List Char := " !<=>EIKLNOT".toList

/-- The dotless i. -/
def dotlessI : Char := '\u0131'

/-- The character, with an `i` in the place of a dotless one. -/
def dotted (c : Char) : Char := if c = dotlessI then 'i' else c

/-- A text spells an operator: it is the spelling up to the case of ASCII letters, once the
    blanks around it are taken off and each run of blanks within it is made one space. -/
def Spells (s : String) (op : Operator) : Prop :=
  sameLetters (squeeze (trim s.toList)) op.spelling.toList = true

instance (s : String) (op : Operator) : Decidable (Spells s op) :=
  inferInstanceAs (Decidable (_ = true))

theorem mem_alphabet_of_mem_spelling (op : Operator) : ∀ c ∈ op.spelling.toList, c ∈ alphabet := by
  cases op <;> exact List.all_iff_forall_prop.1 (by decide)

theorem lt_of_mem_alphabet (h : c ∈ alphabet) : c.toNat < 0x80 := by
  have hall : ∀ c ∈ alphabet, c.toNat < 0x80 := List.all_iff_forall_prop.1 (by decide)
  exact hall c h

/-! ## Capitals -/

/-- A character is in ASCII, or the dotless i. -/
def IsPlain (c : Char) : Prop := c.toNat < 0x80 ∨ c = dotlessI

theorem dotted_of_ne (h : c ≠ dotlessI) : dotted c = c := if_neg h

theorem IsPlain.capital_eq (h : IsPlain c) : capital c = [(dotted c).toUpper] := by
  rcases h with h | rfl
  · have hne : c ≠ dotlessI := by
      rintro rfl
      exact absurd h (by decide)
    rw [capital, if_pos h, dotted_of_ne hne]
  · decide +kernel

theorem ofNat_notMem_alphabet {n : ℕ} (h : 0x80 ≤ n) : Char.ofNat n ∉ alphabet := by
  intro hmem
  by_cases hvalid : n.isValidChar
  · have hlt := lt_of_mem_alphabet hmem
    have hn : (Char.ofNat n).toNat = n := by rw [Char.ofNat, dif_pos hvalid]; rfl
    omega
  · rw [Char.ofNat, dif_neg hvalid] at hmem
    exact absurd hmem (by decide)

/-- Of the runs of characters beyond ASCII, two have capitals in ASCII: `ı` and `ſ`. -/
theorem capitalRuns_ascii : ∀ run ∈ capitalRuns, 0x80 ≤ run.2.2.2 ∨
    run = (0x131, 0x131, 1, 0x49) ∨ run = (0x17F, 0x17F, 1, 0x53) := by
  decide +kernel

/-- Each text of several capitals holds a character that is in no spelling. -/
theorem longCapitals_notMem : ∀ long ∈ longCapitals,
    ∃ code ∈ long.2, Char.ofNat code ∉ alphabet := by
  decide +kernel

theorem runCapital?_notMem_alphabet (hc : c ≠ dotlessI) (h : runCapital? c = some d) :
    d ∉ alphabet := by
  obtain ⟨run, hrun, hfound⟩ := List.exists_of_findSome?_eq_some h
  dsimp only at hfound
  split_ifs at hfound with hin
  cases hfound
  rcases capitalRuns_ascii run hrun with hhigh | rfl | rfl
  · exact ofNat_notMem_alphabet (Nat.le_add_right_of_le hhigh)
  · have hi : c.toNat = dotlessI.toNat := Nat.le_antisymm hin.2.1 hin.1
    exact absurd (Char.toNat_inj.1 hi) hc
  · have hoffset : c.toNat - 0x17F = 0 := Nat.sub_eq_zero_of_le hin.2.1
    rw [hoffset]
    decide

/-- Capitals that are all in spellings are those of a plain character. -/
theorem isPlain_of_capital (h : ∀ d ∈ capital c, d ∈ alphabet) : IsPlain c := by
  by_contra hplain
  obtain ⟨hascii, hi⟩ := not_or.1 hplain
  rw [capital, if_neg hascii] at h
  cases hlong : longCapitals.lookup c.toNat with
  | some codes =>
    rw [hlong] at h
    obtain ⟨before, behind, hsplit, -⟩ := List.lookup_eq_some_iff.1 hlong
    have hmem : (c.toNat, codes) ∈ longCapitals := by
      rw [hsplit]
      exact List.mem_append_right _ List.mem_cons_self
    obtain ⟨code, hcode, hout⟩ := longCapitals_notMem _ hmem
    exact hout (h _ (List.mem_map_of_mem hcode))
  | none =>
    rw [hlong] at h
    have hmem := h _ (List.mem_singleton_self _)
    cases hrun : runCapital? c with
    | some d =>
      rw [hrun] at hmem
      exact runCapital?_notMem_alphabet hi hrun hmem
    | none =>
      rw [hrun] at hmem
      exact hascii (lt_of_mem_alphabet hmem)

/-- A character that is one of a spelling up to its case is plain. -/
theorem isPlain_of_toLower (hd : d ∈ alphabet) (h : (dotted c).toLower = d.toLower) :
    IsPlain c := by
  by_cases hi : c = dotlessI
  · exact .inr hi
  · left
    rw [dotted_of_ne hi] at h
    rcases Name.toLower_eq_or_mem c with hsame | hcapital
    · have hall : ∀ d ∈ alphabet, d.toLower.toNat < 0x80 := List.all_iff_forall_prop.1 (by decide)
      rw [← hsame, h]
      exact hall d hd
    · have hall : ∀ c ∈ Name.capitals, c.toNat < 0x80 := List.all_iff_forall_prop.1 (by decide)
      exact hall c hcapital

/-- The capital of a character is one of a spelling exactly if the character is that one up to its
    case. -/
theorem capital_eq_iff (hd : d ∈ alphabet) :
    capital c = [d] ↔ (dotted c).toLower = d.toLower := by
  constructor
  · intro h
    have hplain : IsPlain c := isPlain_of_capital (by simpa [h] using hd)
    have hd' : (dotted c).toUpper = d := List.singleton_inj.1 (hplain.capital_eq.symm.trans h)
    rw [← hd', SelectList.toLower_toUpper]
  · intro h
    have hall : ∀ d ∈ alphabet, d.toLower.toUpper = d := List.all_iff_forall_prop.1 (by decide)
    have hd' : (dotted c).toUpper = d :=
      calc (dotted c).toUpper = (dotted c).toLower.toUpper := (SelectList.toUpper_toLower _).symm
        _ = d.toLower.toUpper := by rw [h]
        _ = d := hall d hd
    rw [(isPlain_of_toLower hd h).capital_eq, hd']

/-- The capitals of a text are a word of such characters exactly if the text is that word up to
    case. -/
theorem flatMap_capital_eq_iff (hword : ∀ d ∈ word, d ∈ alphabet) :
    cs.flatMap capital = word ↔ lowered (cs.map dotted) = lowered word := by
  induction cs generalizing word with
  | nil => simp [lowered, eq_comm]
  | cons c cs ih =>
    constructor
    · rintro rfl
      have hplain : IsPlain c := isPlain_of_capital fun d hd => hword d (by simp [hd])
      rw [List.flatMap_cons, hplain.capital_eq] at hword ⊢
      obtain ⟨hd, hrest⟩ := List.forall_mem_cons.1 hword
      exact List.cons_eq_cons.2 ⟨(capital_eq_iff hd).1 hplain.capital_eq, (ih hrest).1 rfl⟩
    · intro h
      obtain ⟨d, word, rfl⟩ := List.exists_cons_of_ne_nil (l := word) (by rintro rfl; cases h)
      obtain ⟨hd, hrest⟩ := List.forall_mem_cons.1 hword
      obtain ⟨hfirst, htail⟩ := List.cons_eq_cons.1 h
      rw [List.flatMap_cons, (capital_eq_iff hd).2 hfirst, (ih hrest).2 htail]
      rfl

/-! ## Reading -/

theorem ofSpelling?_eq_some_iff {op : Operator} :
    ofSpelling? cs = some op ↔ cs = op.spelling.toList := by
  constructor
  · intro h
    have hspelling : (op.spelling.toList == cs) = true :=
      List.find?_some (p := fun op : Operator => op.spelling.toList == cs) h
    exact (beq_iff_eq.1 hspelling).symm
  · rintro rfl
    cases op <;> decide

/-- The operators that a text is read as. -/
theorem ofText_eq_ok_iff {s : String} {op : Operator} : ofText s = .ok op ↔
    sameLetters ((squeeze (trim s.toList)).map dotted) op.spelling.toList = true := by
  have hsame : sameLetters ((squeeze (trim s.toList)).map dotted) op.spelling.toList = true ↔
      ofSpelling? ((collapse s.toList).flatMap capital) = some op := by
    rw [sameLetters, beq_iff_eq, ofSpelling?_eq_some_iff, collapse_eq]
    exact (flatMap_capital_eq_iff (mem_alphabet_of_mem_spelling op)).symm
  rw [hsame, ofText]
  cases ofSpelling? ((collapse s.toList).flatMap capital) <;> simp

theorem ofText_eq_error_iff {s : String} :
    ofText s = .error (unknownMessage s) ↔ ∀ op, ofText s ≠ .ok op := by
  rw [ofText]
  cases ofSpelling? ((collapse s.toList).flatMap capital) <;> simp

theorem dotlessI_mem_squeeze_trim : dotlessI ∈ squeeze (trim cs) ↔ dotlessI ∈ cs := by
  have hi : isBlank dotlessI = false := by decide
  rw [mem_squeeze_iff hi, mem_trim_iff hi]

theorem map_dotted (h : dotlessI ∉ cs) : cs.map dotted = cs := by
  have hsame : ∀ c ∈ cs, dotted c = id c := fun c hc => dotted_of_ne fun hi => h (hi ▸ hc)
  rw [List.map_congr_left hsame, List.map_id]

theorem Spells.dotlessI_notMem {s : String} {op : Operator} (h : Spells s op) :
    dotlessI ∉ s.toList := by
  intro hi
  have hlowered : lowered (squeeze (trim s.toList)) = lowered op.spelling.toList := beq_iff_eq.1 h
  have hmem : dotlessI.toLower ∈ lowered op.spelling.toList :=
    hlowered ▸ List.mem_map_of_mem (dotlessI_mem_squeeze_trim.2 hi)
  obtain ⟨d, hd, hsame⟩ := List.mem_map.1 hmem
  have hall : ∀ d ∈ alphabet, d.toLower ≠ dotlessI.toLower := List.all_iff_forall_prop.1 (by decide)
  exact hall d (mem_alphabet_of_mem_spelling op d hd) hsame

/-- The texts that spell an operator are those that are read as it and hold no dotless i. -/
theorem spells_iff {s : String} {op : Operator} :
    Spells s op ↔ ofText s = .ok op ∧ dotlessI ∉ s.toList := by
  have hsame (hi : dotlessI ∉ s.toList) :
      (squeeze (trim s.toList)).map dotted = squeeze (trim s.toList) :=
    map_dotted fun hmem => hi (dotlessI_mem_squeeze_trim.1 hmem)
  rw [ofText_eq_ok_iff]
  constructor
  · intro h
    have hi := h.dotlessI_notMem
    rw [hsame hi]
    exact ⟨h, hi⟩
  · rintro ⟨h, hi⟩
    rwa [hsame hi] at h

/-- The vocabulary is closed but for the dotless i. Every text that spells an operator is read as
    it, and of the other texts those that spell it once a dotless i is an `i`. All others are
    refused, with a message that holds the text as it was given. -/
theorem ofText_vocabulary (s : String) :
    (∀ op, ofText s = .ok op ↔
      sameLetters ((squeeze (trim s.toList)).map dotted) op.spelling.toList = true) ∧
    (∀ op, Spells s op ↔ ofText s = .ok op ∧ dotlessI ∉ s.toList) ∧
    (ofText s = .error ("unknown operator '" ++ s ++ "'") ↔ ∀ op, ofText s ≠ .ok op) :=
  ⟨fun _ => ofText_eq_ok_iff, fun _ => spells_iff, ofText_eq_error_iff⟩

/-- A text that spells no operator is read as one. -/
theorem dotless_like_read :
    ofText "l\u0131ke" = .ok .like ∧ ∀ op, ¬ Spells "l\u0131ke" op := by
  refine ⟨by rfl, fun op => ?_⟩
  cases op <;> decide

end Operator

end QueryGate
