import Mathlib.Data.List.TakeWhile
import QueryGate.Discovery.Extract
import QueryGate.Proofs.Text.Misses

/-!
# Fenced blocks and what is between them

A fenced block goes from an opening fence to the next fence behind its first line, whatever
follows (`Payload.IsFenced`). A scan finds the blocks from left to right, so that a text is
made up of them and of what stands between them (`Payload.exists_framed_fenced`). And no block
begins at anything but a backtick. So text without backticks may stand around the blocks
instead, and the same blocks are found (`Payload.blocks_framed`).
-/

namespace QueryGate

namespace Text

variable {α : Type} {m : Matcher α} {before before' : Option Char} {front rest tail cs : List Char}

/-! ## The texts of matches -/

/-- Recognizes what a matcher does, and takes down the text that it covers. -/
def covered (m : Matcher α) : Matcher (α × List Char) := fun before cs =>
  (m before cs).map fun (value, rest) => ((value, cs.take (cs.length - rest.length)), rest)

/-- The texts of matches, each behind what stands between it and the one before, and what follows
    the last of them. -/
def framed (parts : List (List Char × List Char)) (last : List Char) : List Char :=
  parts.flatMap (fun (gap, text) => gap ++ text) ++ last

theorem framed_cons (part : List Char × List Char) (parts : List (List Char × List Char))
    (last : List Char) : framed (part :: parts) last = part.1 ++ (part.2 ++ framed parts last) := by
  rw [framed, List.flatMap_cons, List.append_assoc, List.append_assoc]
  rfl

/-- A matcher finds the same whether or not the texts of the matches are taken down. -/
theorem map_fst_findAll_covered (m : Matcher α) (cs : List Char) :
    (findAll (covered m) cs).map Prod.fst = findAll m cs := by
  have hfrom : ∀ before skip, ((piecesFrom (covered m) before skip cs).filterMap
      Piece.value?).map Prod.fst = (piecesFrom m before skip cs).filterMap Piece.value? := by
    induction cs with
    | nil => intro before skip; cases skip <;> rfl
    | cons c cs ih =>
      intro before skip
      cases skip with
      | succ skip => exact ih (some c) skip
      | zero =>
        rw [piecesFrom, piecesFrom, covered]
        cases m before (c :: cs) with
        | none => exact ih (some c) 0
        | some found => exact congrArg (found.1 :: ·) (ih (some c) _)
  exact hfrom none 0

/-- A text is made up of its matches and of what stands between them. -/
theorem exists_framed
    (hm : ∀ before cs found, m before cs = some found → found.2.length < cs.length)
    (cs : List Char) : ∃ parts last, parts.map Prod.snd = (findAll (covered m) cs).map Prod.snd ∧
      framed parts last = cs := by
  have hfrom : ∀ before skip, ∃ parts last, parts.map Prod.snd =
      ((piecesFrom (covered m) before skip cs).filterMap Piece.value?).map Prod.snd ∧
        framed parts last = cs.drop skip := by
    induction cs with
    | nil => exact fun _ skip => ⟨[], [], by cases skip <;> rfl, List.drop_nil.symm⟩
    | cons c cs ih =>
      intro before skip
      cases skip with
      | succ skip => exact ih (some c) skip
      | zero =>
        rw [piecesFrom, covered]
        cases hfound : m before (c :: cs) with
        | none =>
          -- the character belongs to the gap before the next match, or to what follows the last
          obtain ⟨parts, last, hparts, hcs⟩ := ih (some c) 0
          cases parts with
          | nil => exact ⟨[], c :: last, hparts, congrArg (c :: ·) hcs⟩
          | cons part parts =>
            exact ⟨(c :: part.1, part.2) :: parts, last, hparts, congrArg (c :: ·) hcs⟩
        | some found =>
          obtain ⟨parts, last, hparts, hcs⟩ := ih (some c) (cs.length - found.2.length)
          refine ⟨([], (c :: cs).take ((c :: cs).length - found.2.length)) :: parts, last,
            congrArg (_ :: ·) hparts, ?_⟩
          have hlength : (c :: cs).length - found.2.length = cs.length - found.2.length + 1 := by
            have hlt := hm before (c :: cs) found hfound
            rw [List.length_cons] at hlt ⊢
            omega
          rw [framed_cons, hcs, hlength, List.take_succ_cons]
          exact congrArg (c :: ·) (List.take_append_drop _ _)
  exact hfrom none 0

/-! ## Cuts at a fixed text -/

/-- Whether a fixed text begins before the place where it stands does not depend on what follows. -/
theorem misses_literal_append {word : List Char} :
    Misses (literal word) before front (word ++ tail) ↔
      Misses (literal word) before' front word := by
  induction front generalizing before before' with
  | nil => exact Iff.rfl
  | cons c front ih =>
    have hlength : word.length ≤ (c :: front ++ word).length := by
      rw [List.length_append]
      omega
    have hstart : literal word before (c :: front ++ (word ++ tail)) = none ↔
        literal word before' (c :: front ++ word) = none := by
      rw [literal, literal, ← List.append_assoc, after, afterBy_append tail hlength]
      simp only [Option.map_eq_none_iff, after]
    exact and_congr hstart ih

end Text

namespace Payload

open Text WhereClause

variable {before : Option Char} {cs rest raw : List Char} {block : Block}

/-- The language that is named behind an opening fence. -/
def languageOf (line : List Char) : List Char :=
  (line.dropWhile fun c => c == ' ' || c == '\t').takeWhile isLanguagePart

theorem takeWhile_dropWhile_line (line lines : List Char) :
    ((line ++ '\n' :: lines).dropWhile fun c => c == ' ' || c == '\t').takeWhile isLanguagePart =
      languageOf line := by
  have hblank : ('\n' :: lines).dropWhile (fun c => c == ' ' || c == '\t') = '\n' :: lines := rfl
  have hpart : ('\n' :: lines).takeWhile isLanguagePart = [] := rfl
  rw [languageOf, List.dropWhile_append, hblank]
  split_ifs with hempty
  · rw [hpart, List.isEmpty_iff.1 hempty]
    rfl
  · rw [List.takeWhile_append, hpart, List.append_nil]
    split_ifs with hall
    · exact ((List.takeWhile_prefix _).eq_of_length hall).symm
    · rfl

/-- A block is recognized behind the line of its opening fence, up to the first fence there. -/
theorem blockMatcher_line {line : List Char} (hline : '\n' ∉ line) (before : Option Char)
    (lines : List Char) : blockMatcher before (fence ++ (line ++ '\n' :: lines)) =
      (cutFirst (literal fence) none lines).map fun (body, _, rest) =>
        (⟨languageOf line, body⟩, rest) := by
  have hdrop : (line ++ '\n' :: lines).dropWhile (· != '\n') = '\n' :: lines := by
    have hne : ∀ c ∈ line, (c != '\n') = true := fun c hc =>
      bne_iff_ne.2 (ne_of_mem_of_not_mem hc hline)
    rw [List.dropWhile_append_of_pos hne]
    rfl
  rw [blockMatcher, after_eq_some_iff.2 rfl, Option.bind_some]
  dsimp only
  rw [hdrop, takeWhile_dropWhile_line]

/-- A block as it stands in a text: a fence and a line that begins with a language, lines in which
    no fence begins, and another fence. -/
inductive IsFenced : Block → List Char → Prop where
  | mk {line body : List Char} (hline : '\n' ∉ line)
      (hbody : Misses (literal fence) none body fence) :
      IsFenced ⟨languageOf line, body⟩ (fence ++ (line ++ '\n' :: (body ++ fence)))

theorem IsFenced.ne_nil (h : IsFenced block raw) : raw ≠ [] := by
  cases h with
  | mk _ _ => exact List.cons_ne_nil _ _

/-- A block is recognized where it stands, whatever follows. -/
theorem IsFenced.blockMatcher_eq (h : IsFenced block raw) (before : Option Char)
    (tail : List Char) : blockMatcher before (raw ++ tail) = some (block, tail) := by
  cases h with
  | @mk line body hline hbody =>
    have hfence : ∀ before, literal fence before (fence ++ tail) = some ((), tail) :=
      fun before => by
        rw [literal, after_eq_some_iff.2 rfl]
        rfl
    have hmisses : Misses (literal fence) none body (fence ++ tail) := misses_literal_append.2 hbody
    have hraw : fence ++ (line ++ '\n' :: (body ++ fence)) ++ tail =
        fence ++ (line ++ '\n' :: (body ++ (fence ++ tail))) := by simp
    rw [hraw, blockMatcher_line hline, hmisses.cutFirst_eq, cutFirst_found (hfence _),
      Option.map_some, Option.map_some]
    dsimp only
    rw [List.append_nil]

/-- What is recognized is a block as it stands in the text. -/
theorem exists_isFenced (h : blockMatcher before cs = some (block, rest)) :
    ∃ raw, IsFenced block raw ∧ cs = raw ++ rest := by
  obtain ⟨opened, hopened, hblock⟩ := Option.bind_eq_some_iff.1 h
  obtain rfl := after_eq_some_iff.1 hopened
  by_cases hmem : '\n' ∈ opened
  · obtain ⟨line, lines, rfl, hline⟩ := List.eq_append_cons_of_mem hmem
    rw [blockMatcher_line hline] at h
    obtain ⟨⟨body, _, rest'⟩, hcut, hpair⟩ := Option.map_eq_some_iff.1 h
    cases hpair
    obtain ⟨back, rfl, hback⟩ := exists_of_cutFirst hcut
    obtain ⟨rest'', hrest, hpair⟩ := Option.map_eq_some_iff.1 hback
    cases hpair
    obtain rfl := after_eq_some_iff.1 hrest
    exact ⟨_, .mk hline (misses_literal_append.1 (misses_of_cutFirst hcut)), by simp⟩
  · -- the line of the opening fence does not end
    have hdrop : opened.dropWhile (· != '\n') = [] := List.dropWhile_eq_nil_iff.2 fun c hc =>
      bne_iff_ne.2 (ne_of_mem_of_not_mem hc hmem)
    dsimp only at hblock
    rw [hdrop] at hblock
    cases hblock

/-- The blocks of a text, as they stand in it. -/
def fenced (cs : List Char) : List (List Char) := (findAll (covered blockMatcher) cs).map Prod.snd

/-- A text is made up of its blocks and of what stands between them. -/
theorem exists_framed_fenced (cs : List Char) :
    ∃ parts last, parts.map Prod.snd = fenced cs ∧ framed parts last = cs := by
  refine exists_framed (fun before cs (block, rest) hblock => ?_) cs
  obtain ⟨raw, hraw, rfl⟩ := exists_isFenced hblock
  rw [List.length_append]
  exact Nat.lt_add_of_pos_left (List.length_pos_iff.2 hraw.ne_nil)

/-- What stands in a text for a block. -/
theorem isFenced_of_mem {found : Block × List Char}
    (h : found ∈ findAll (covered blockMatcher) cs) :
    IsFenced found.1 found.2 := by
  obtain ⟨front, rest, rest', -, hfound⟩ := exists_of_mem_findAll h
  obtain ⟨⟨block, rest''⟩, hblock, hpair⟩ := Option.map_eq_some_iff.1 hfound
  cases hpair
  obtain ⟨raw, hraw, rfl⟩ := exists_isFenced hblock
  rw [List.length_append, Nat.add_sub_cancel, List.take_left]
  exact hraw

/-- No block begins in a text without backticks. -/
theorem misses_blockMatcher {gap tail : List Char} (h : '\x60' ∉ gap) (before : Option Char) :
    Misses blockMatcher before gap tail := by
  induction gap generalizing before with
  | nil => exact misses_nil
  | cons c gap ih =>
    rw [List.mem_cons, not_or] at h
    refine ⟨Option.eq_none_iff_forall_ne_some.2 fun (block, rest) hblock => ?_, ih h.2 _⟩
    obtain ⟨raw, hraw, hcs⟩ := exists_isFenced hblock
    cases hraw with
    | mk _ _ => exact h.1 (List.cons.inj hcs).1.symm

/-- The blocks of a text are found again with any texts without backticks between them. -/
theorem blocks_framed {parts : List (List Char × List Char)} {last : List Char}
    (hparts : parts.map Prod.snd = fenced cs) (hgaps : ∀ part ∈ parts, '\x60' ∉ part.1)
    (hlast : '\x60' ∉ last) : blocks (framed parts last) = blocks cs := by
  -- by induction on the blocks, from any character before the text
  have hfrom : ∀ (found : List (Block × List Char)) (parts : List (List Char × List Char)) before,
      (∀ f ∈ found, IsFenced f.1 f.2) → parts.map Prod.snd = found.map Prod.snd →
      (∀ part ∈ parts, '\x60' ∉ part.1) →
      matchesFrom blockMatcher before (framed parts last) = found.map Prod.fst := by
    intro found
    induction found with
    | nil =>
      intro parts before _ hparts _
      obtain rfl := List.map_eq_nil_iff.1 hparts
      exact (misses_blockMatcher hlast before).matchesFrom_eq_nil
    | cons f found ih =>
      intro parts before hfound hparts hgaps
      obtain ⟨part, parts, rfl, hpart, hparts⟩ := List.map_eq_cons_iff.1 hparts
      obtain ⟨hf, hfound⟩ := List.forall_mem_cons.1 hfound
      obtain ⟨hgap, hgaps⟩ := List.forall_mem_cons.1 hgaps
      rw [framed_cons, (misses_blockMatcher hgap before).matchesFrom_eq, hpart,
        matchesFrom_found hf.ne_nil (hf.blockMatcher_eq _ _), ih _ _ hfound hparts hgaps]
      rfl
  rw [blocks, findAll_eq, hfrom _ parts none (fun _ => isFenced_of_mem) hparts hgaps,
    map_fst_findAll_covered, blocks]

end Payload

end QueryGate
