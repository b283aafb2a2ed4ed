import QueryGate.Proofs.Discovery.ClauseEnds
import QueryGate.Proofs.Discovery.SelectItems

/-!
# Blocks in select lists

A block from a `TYPEOF` to an `END` is taken out of a list with all that it holds. If each
`TYPEOF` in a text opens such a block, no block goes on behind the text, and what is left
of it has the same parentheses (`OpensBlocks`): so a text in parentheses is left with
both of them, and on its own (`withoutBlocks_group`).
-/

namespace QueryGate

open Text

namespace SelectList

variable {before : Option Char} {c : Char} {cs block front rest tail : List Char} {depth : ℕ}

/-- A `TYPEOF` with all up to an `END`, in whatever case, with neither parentheses nor another `END`
    in between. -/
inductive IsBlock : List Char → Prop
  | intro {opening body closing : List Char} (hopening : opening.map fold = "typeof".toList)
    (hclosing : closing.map fold = "end".toList) (hne : body ≠ [])
    (hhead : wordAt body.head? = false) (hlast : wordAt body.getLast? = false)
    (hflat : IsFlat body) (hend : Lacks ["end".toList] [] body) :
    IsBlock (opening ++ (body ++ closing))

/-- Behind the character `before`, each `TYPEOF` in a text opens a block, or stands within one. -/
inductive OpensBlocks : (before : Option Char) → List Char → Prop
  | nil {before : Option Char} : OpensBlocks before []
  | plain {before : Option Char} {c : Char} {cs : List Char}
    (hword : wordAt before = false → ((c :: cs).takeWhile isWord).map fold ≠ "typeof".toList)
    (h : OpensBlocks (some c) cs) : OpensBlocks before (c :: cs)
  | block {before : Option Char} {block rest : List Char} (hbefore : wordAt before = false)
    (hblock : IsBlock block) (hrest : wordAt rest.head? = false)
    (h : OpensBlocks block.getLast? rest) : OpensBlocks before (block ++ rest)

/-- In a text without the word no block is opened. -/
theorem opensBlocks_of_lacks (h : Lacks ["typeof".toList] [] cs) (before : Option Char) :
    OpensBlocks before cs := by
  have hfresh : ∀ word ∈ freshWords before cs, word.map fold ≠ "typeof".toList :=
    fun word hword heq => h.words word (mem_of_mem_freshWords hword) (List.mem_singleton.2 heq)
  clear h
  induction cs generalizing before with
  | nil => exact .nil
  | cons c cs ih =>
    refine .plain (fun hbefore => hfresh _ ?_) (ih (some c) fun word hword =>
      hfresh word (freshWords_cons_subset hword))
    obtain ⟨more, hmore⟩ := exists_wordsOf (c :: cs)
    rw [freshWords, hbefore, if_neg Bool.false_ne_true, hmore]
    exact List.mem_cons_self

/-! ## Recognizing blocks -/

theorem typeofMatcher_opensOn : OpensOn ["typeof".toList] [] typeofMatcher := by
  intro before c cs found hfound
  obtain ⟨found', hkeyword, -⟩ := Option.bind_eq_some_iff.1 hfound
  exact opensOn_keyword (by decide) (by decide) [] before c cs found' hkeyword

theorem IsBlock.typeofMatcher_eq (h : IsBlock block) (hbefore : wordAt before = false)
    (htail : wordAt tail.head? = false) :
    typeofMatcher before (block ++ tail) = some ([], tail) := by
  cases h with
  | @intro opening body closing hopening hclosing hne hhead hlast hflat hend =>
    have hbody : wordAt (body ++ (closing ++ tail)).head? = false := by
      rwa [List.head?_append_of_ne_nil _ hne]
    have hkeyword : keyword "TYPEOF".toList before (opening ++ (body ++ (closing ++ tail))) =
        some ((), body ++ (closing ++ tail)) := keyword_of_fold hopening hbefore hbody
    have hopens : OpensOn ["end".toList] [] (keyword "END".toList) :=
      opensOn_keyword (by decide) (by decide) []
    have hmisses : Misses (keyword "END".toList) (some 'F') body (closing ++ tail) :=
      hopens.misses hend (.inl hlast) _
    have hbehind : wordAt (body.getLast?.or (some 'F')) = false := by
      rwa [Option.or_of_isSome (List.getLast?_isSome.2 hne)]
    have hfound : keyword "END".toList (body.getLast?.or (some 'F')) (closing ++ tail) =
        some ((), tail) := keyword_of_fold hclosing hbehind htail
    rw [typeofMatcher, List.append_assoc, List.append_assoc, hkeyword, Option.bind_some]
    dsimp only
    rw [hmisses.cutFirst_eq, cutFirst_found hfound]
    rfl

theorem IsBlock.isFlat (h : IsBlock block) : IsFlat block := by
  cases h with
  | intro hopening hclosing hne hhead hlast hflat hend =>
    intro c hc
    rcases List.mem_append.1 hc with hc | hc
    · exact isFlat_of_map_fold hopening (by decide) c hc
    rcases List.mem_append.1 hc with hc | hc
    · exact hflat c hc
    · exact isFlat_of_map_fold hclosing (by decide) c hc

theorem IsBlock.ne_nil (h : IsBlock block) : block ≠ [] := by
  cases h with
  | intro hopening hclosing hne hhead hlast hflat hend =>
    exact List.append_ne_nil_of_right_ne_nil _ (List.append_ne_nil_of_left_ne_nil hne _)

theorem IsBlock.isTrim (h : IsBlock block) : IsTrim block := by
  cases h with
  | @intro opening body closing hopening hclosing hne hhead hlast hflat hend =>
    have hfirst : opening ≠ [] := by
      rintro rfl
      cases hopening
    have hlast : closing ≠ [] := by
      rintro rfl
      cases hclosing
    exact (isTrim_of_not_isBlank (not_isBlank_of_map_fold hopening (by decide))).append hfirst
      (isTrim_of_not_isBlank (not_isBlank_of_map_fold hclosing (by decide))) hlast body

/-- A text begins with no block if it does not begin with the word. -/
theorem typeofMatcher_eq_none
    (hword : wordAt before = false → ((c :: cs).takeWhile isWord).map fold ≠ "typeof".toList)
    (htail : wordAt tail.head? = false) : typeofMatcher before (c :: (cs ++ tail)) = none := by
  refine Option.eq_none_iff_forall_ne_some.2 fun found hfound => ?_
  rcases typeofMatcher_opensOn before c _ found hfound with hc | ⟨hbefore, -, hmem⟩
  · cases hc
  · rw [← List.cons_append, takeWhile_append_of_ends (List.cons_ne_nil c cs) (.inr htail)] at hmem
    exact hword hbefore (List.mem_singleton.1 hmem)

/-! ## Taking them out -/

/-- What a piece of a text leaves of it. -/
def leftOf : Piece (List Char) → List Char
  | .plain c => [c]
  | .found value => value

/-- What is left of a text without its blocks, behind the character `before`. -/
def withoutBlocks (before : Option Char) (cs : List Char) : List Char :=
  (piecesFrom typeofMatcher before 0 cs).flatMap leftOf

theorem replaceAll_typeofMatcher (cs : List Char) :
    replaceAll typeofMatcher cs = withoutBlocks none cs := by
  have hleft : leftOf = fun
      | .plain c => [c]
      | .found value => value := by
    funext piece
    cases piece <;> rfl
  rw [withoutBlocks, hleft]
  rfl

theorem withoutBlocks_append (h : Misses typeofMatcher before front tail) :
    withoutBlocks before (front ++ tail) =
      front ++ withoutBlocks (front.getLast?.or before) tail := by
  have hplain : (front.map Piece.plain).flatMap leftOf = front := by
    rw [List.flatMap_map]
    exact List.flatMap_singleton' front
  rw [withoutBlocks, h.piecesFrom_eq, List.flatMap_append, hplain, withoutBlocks]

theorem withoutBlocks_cons (h : typeofMatcher before (c :: cs) = none) :
    withoutBlocks before (c :: cs) = c :: withoutBlocks (some c) cs := by
  rw [withoutBlocks, piecesFrom, h]
  rfl

theorem withoutBlocks_plain
    (hword : wordAt before = false → ((c :: cs).takeWhile isWord).map fold ≠ "typeof".toList) :
    withoutBlocks before (c :: cs) = c :: withoutBlocks (some c) cs := by
  have hnone : typeofMatcher before (c :: (cs ++ [])) = none := typeofMatcher_eq_none hword rfl
  rw [List.append_nil] at hnone
  exact withoutBlocks_cons hnone

theorem IsBlock.withoutBlocks_append (h : IsBlock block) (hbefore : wordAt before = false)
    (htail : wordAt tail.head? = false) :
    withoutBlocks before (block ++ tail) = withoutBlocks block.getLast? tail := by
  rw [withoutBlocks, piecesFrom_found h.ne_nil (h.typeofMatcher_eq hbefore htail)]
  rfl

theorem withoutBlocks_close (before : Option Char) (cs : List Char) :
    withoutBlocks before (')' :: cs) = ')' :: withoutBlocks (some ')') cs :=
  withoutBlocks_cons (typeofMatcher_opensOn.eq_none_of_not_isWord List.not_mem_nil (by decide))

/-- A text whose blocks end in it is left on its own, in front of a parenthesis. -/
theorem OpensBlocks.withoutBlocks_append (h : OpensBlocks before cs) (tail : List Char) :
    withoutBlocks before (cs ++ ')' :: tail) =
      withoutBlocks before cs ++ ')' :: withoutBlocks (some ')') tail := by
  have hclose : wordAt (')' :: tail).head? = false := rfl
  induction h with
  | nil => exact withoutBlocks_close _ tail
  | @plain before c cs hword h ih =>
    rw [List.cons_append, withoutBlocks_cons (typeofMatcher_eq_none hword hclose), ih,
      withoutBlocks_plain hword, List.cons_append]
  | @block before block rest hbefore hblock hrest h ih =>
    have hbehind : wordAt (rest ++ ')' :: tail).head? = false := by
      cases rest with
      | nil => rfl
      | cons c rest => exact hrest
    rw [List.append_assoc, hblock.withoutBlocks_append hbefore hbehind, ih,
      hblock.withoutBlocks_append hbefore hrest]

/-- Blocks hold no parentheses. -/
theorem OpensBlocks.depthAfter?_eq (h : OpensBlocks before cs) (depth : ℕ) :
    depthAfter? depth (withoutBlocks before cs) = depthAfter? depth cs := by
  induction h generalizing depth with
  | nil => rfl
  | @plain before c cs hword h ih =>
    rw [withoutBlocks_plain hword, depthAfter?, depthAfter?, ih, ih, ih]
  | @block before block rest hbefore hblock hrest h ih =>
    rw [hblock.withoutBlocks_append hbefore hrest, ih, depthAfter?_append,
      hblock.isFlat.depthAfter?_eq, Option.bind_some]

/-- A text in parentheses is left on its own. -/
theorem withoutBlocks_group (h : OpensBlocks (some '(') cs) (before : Option Char)
    (tail : List Char) :
    withoutBlocks before (group cs ++ tail) =
      group (withoutBlocks (some '(') cs) ++ withoutBlocks (some ')') tail := by
  have hopen : ∀ rest, typeofMatcher before ('(' :: rest) = none := fun rest =>
    typeofMatcher_opensOn.eq_none_of_not_isWord List.not_mem_nil (by decide)
  rw [group, List.cons_append, withoutBlocks_cons (hopen _), List.append_assoc,
    List.singleton_append, h.withoutBlocks_append, group, List.cons_append, List.append_assoc]
  rfl

end SelectList

end QueryGate
