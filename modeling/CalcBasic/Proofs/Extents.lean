import CalcBasic.Proofs.Nesting
import CalcBasic.Reader.Extent
import Mathlib.Data.List.TakeWhile

/-! How far statements reach when what follows them is cut off. A statement reaches
as far in every part of the token list that still holds all of it. -/
namespace CalcBasic
open List
open Brackets (closing? leveled length_leveled whole_of_closing? close)
open Token (isTerminator)
namespace Extent

variable {α : Type} {code rest tail : List Token} {head bracket first : Token} {opener closer : Tag} {nested count : Nat}
  {cut : Cut}

/-! ### Equations -/

theorem statement_nil : statement [] = 0 := by rw [statement]

theorem body_eq (code : List Token) :
    body code = (code.takeWhile isTerminator).length + statement (code.dropWhile isTerminator) := by
  rw [body]
  split
  · rename_i none
    rw [none,statement_nil]
    rfl
  · rename_i first rest found
    rw [found]

theorem body_nil : body [] = 0 := by rw [body_eq,dropWhile_nil,statement_nil]; rfl

theorem not_terminator_of_isCompound (compound : isCompound (first :: rest) = true) :
    first.tag ≠ .blockOpen ∧ first.isTerminator = false := by
  rw [isCompound] at compound
  split at compound
  · rename_i keyword
    rw [isTerminator,keyword]
    exact ⟨by decide, rfl⟩
  · rw [Bool.and_eq_true,Token.isInline,Bool.and_eq_true,beq_iff_eq] at compound
    rw [isTerminator,compound.1.1]
    exact ⟨by decide, rfl⟩

theorem statement_of_isCompound (reaches : isCompound (first :: rest) = true) :
    statement (first :: rest) = compound first rest := by
  rw [statement,if_neg (not_terminator_of_isCompound reaches).1,if_pos reaches]

theorem body_of_isCompound (reaches : isCompound (first :: rest) = true) : body (first :: rest) = compound first rest := by
  have present := (not_terminator_of_isCompound reaches).2
  rw [body_eq,takeWhile_cons_of_neg (by simp [present]),dropWhile_cons_of_neg (by simp [present]),
    statement_of_isCompound reaches,length_nil,Nat.zero_add]

/-- Header, body and all tokens before them. -/
def trunk (tail : List Token) : Nat :=
  1 + (tail.takeWhile (!endsHeader ·)).length + body (tail.dropWhile (!endsHeader ·))

/-- What a branch after the body adds. -/
def branches (rest : List Token) : Nat :=
  match rest.dropWhile isTerminator with
  | word :: branch =>
    if word.isKeyword "else" then (rest.takeWhile isTerminator).length + 1 + body branch else 0
  | [] => 0

theorem compound_eq (head : Token) (tail : List Token) :
    compound head tail =
      trunk tail + if startsConditional head then branches ((head :: tail).drop (trunk tail)) else 0 := by
  rw [compound]
  change (if startsConditional head then _ else trunk tail) = _
  split
  · split
    · rename_i word branch found
      have added : branches ((head :: tail).drop (trunk tail)) = if word.isKeyword "else" then
          (((head :: tail).drop (trunk tail)).takeWhile isTerminator).length + 1 + body branch else 0 := by
        unfold branches
        unfold trunk
        rw [found]
      rw [added]
      split
      · -- a branch with a body of its own has no gap before it, so `body` measures it alike
        cases branch with
        | nil =>
          rw [body_nil]
          unfold trunk
          dsimp only
          omega
        | cons next more =>
          unfold trunk
          dsimp only
          split
          · rename_i reaches
            rw [body_of_isCompound reaches]
            omega
          · omega
      · rfl
    · rename_i none
      unfold branches trunk
      rw [none]
      rfl
  · rfl

theorem statement_of_block (opens : first.tag = .blockOpen) (rest : List Token) : statement (first :: rest) =
      match closing? first rest with
      | some cut => cut.before.length + 2
      | none => rest.length + 1 := by
  rw [statement]
  exact if_pos opens

/-- Passed over in the search for the end of a plain statement. -/
def inside (entry : Nat × Token) : Bool := !(entry.1 == 0 && entry.2.isTerminator)

theorem statement_of_plain (opens : first.tag ≠ .blockOpen) (reaches : isCompound (first :: rest) = false) :
    statement (first :: rest) = ((leveled 0 (first :: rest)).takeWhile inside).length := by
  have parts := takeWhile_append_dropWhile (p := inside) (l := leveled 0 (first :: rest))
  have passed : (fun entry : Nat × Token => !(entry.1 == 0 && entry.2.isTerminator)) = inside := rfl
  rw [statement,if_neg opens,if_neg (by simp [reaches]),Brackets.cutFirst]
  simp only [passed]
  cases found : (leveled 0 (first :: rest)).dropWhile inside with
  | nil =>
    rw [found,append_nil] at parts
    rw [parts,length_leveled,length_cons]
  | cons entry after => simp

/-! ### Bounds -/

theorem length_parts (p : Token → Bool) (tokens : List Token) :
    (tokens.takeWhile p).length + (tokens.dropWhile p).length = tokens.length := by
  rw [← length_append,takeWhile_append_dropWhile]

theorem drop_takeWhile (p : α → Bool) (items : List α) : items.drop (items.takeWhile p).length = items.dropWhile p := by
  have parts := takeWhile_append_dropWhile (p := p) (l := items)
  calc items.drop (items.takeWhile p).length
      = (items.takeWhile p ++ items.dropWhile p).drop (items.takeWhile p).length := by rw [parts]
    _ = items.dropWhile p := drop_left

section Bounded

variable {size : Nat} (lower : ∀ tokens : List Token, tokens.length ≤ size → statement tokens ≤ tokens.length)
include lower

theorem body_le (short : code.length ≤ size) : body code ≤ code.length := by
  have parts := length_parts isTerminator code
  have bound := lower (code.dropWhile isTerminator) (by omega)
  rw [body_eq]
  omega

theorem trunk_le (short : tail.length ≤ size) : trunk tail ≤ tail.length + 1 := by
  have parts := length_parts (!endsHeader ·) tail
  have code : (tail.dropWhile (!endsHeader ·)).length ≤ size := by omega
  have bound := body_le lower code
  unfold trunk
  omega

theorem branches_le (short : rest.length ≤ size) : branches rest ≤ rest.length := by
  have parts := length_parts isTerminator rest
  unfold branches
  split
  · rename_i word branch found
    rw [found,length_cons] at parts
    have bound := body_le lower (show branch.length ≤ size by omega)
    split
    · omega
    · exact Nat.zero_le _
  · exact Nat.zero_le _

theorem compound_le (short : tail.length ≤ size) : compound head tail ≤ tail.length + 1 := by
  have first := trunk_le lower short
  have positive : 1 ≤ trunk tail := by unfold trunk; omega
  have remaining : ((head :: tail).drop (trunk tail)).length = tail.length + 1 - trunk tail := length_drop
  have others := branches_le lower (show ((head :: tail).drop (trunk tail)).length ≤ size by omega)
  rw [compound_eq]
  split <;> omega

end Bounded

theorem statement_le (tokens : List Token) : statement tokens ≤ tokens.length := by
  suffices bounded : ∀ size, ∀ tokens : List Token, tokens.length ≤ size → statement tokens ≤ tokens.length from
    bounded _ tokens (Nat.le_refl _)
  intro size
  induction size with
  | zero =>
    intro tokens short
    rw [length_eq_zero_iff.mp (Nat.le_zero.mp short),statement_nil]
    exact Nat.le_refl 0
  | succ size lower =>
    intro tokens short
    cases tokens with
    | nil => exact Nat.le_of_eq statement_nil
    | cons first rest =>
      rw [length_cons] at short ⊢
      by_cases opens : first.tag = .blockOpen
      · rw [statement_of_block opens]
        split
        · rename_i cut closed
          have whole := congrArg List.length (whole_of_closing? closed)
          rw [Cut.length_whole] at whole
          show cut.before.length + 2 ≤ rest.length + 1
          omega
        · exact Nat.le_refl _
      · cases reaches : isCompound (first :: rest) with
        | true =>
          rw [statement_of_isCompound reaches]
          exact compound_le lower (by omega)
        | false =>
          rw [statement_of_plain opens reaches]
          have shorter := (takeWhile_sublist inside (l := leveled 0 (first :: rest))).length_le
          rwa [length_leveled] at shorter

theorem compound_pos (head : Token) (tail : List Token) : 1 ≤ compound head tail := by
  rw [compound_eq]
  unfold trunk
  omega

/-! ### Cutting off what follows -/

theorem dropWhile_take (p : Token → Bool) (tokens : List Token) (count : Nat) :
    (tokens.take count).dropWhile p = (tokens.dropWhile p).take (count - (tokens.takeWhile p).length) := by
  induction tokens generalizing count with
  | nil => simp
  | cons token rest ih =>
    cases count with
    | zero => simp
    | succ count =>
      rw [take_succ_cons]
      cases passed : p token with
      | true =>
        rw [dropWhile_cons_of_pos passed,dropWhile_cons_of_pos passed,
          takeWhile_cons_of_pos passed,ih,length_cons,Nat.add_sub_add_right]
      | false =>
        rw [dropWhile_cons_of_neg (by simp [passed]),dropWhile_cons_of_neg (by simp [passed]),
          takeWhile_cons_of_neg (by simp [passed]),length_nil,Nat.sub_zero,take_succ_cons]

theorem takeWhile_take {p : α → Bool} {items : List α}
    (short : (items.takeWhile p).length ≤ count) : (items.take count).takeWhile p = items.takeWhile p := by
  rw [← take_takeWhile,take_of_length_le short]

theorem leveled_take (depth : Nat) (tokens : List Token) (count : Nat) :
    leveled depth (tokens.take count) = (leveled depth tokens).take count := by
  induction tokens generalizing depth count with
  | nil => simp [leveled]
  | cons token rest ih =>
    cases count with
    | zero => rfl
    | succ count =>
      rw [take_succ_cons,leveled,leveled,take_succ_cons,ih]

theorem close_take_cons {token : Token} (found : (close opener closer nested rest).map (Cut.cons token) = some cut)
    (room : cut.before.length < count)
    (inner : ∀ {cut : Cut} {count : Nat}, close opener closer nested rest = some cut →
      cut.before.length < count →
      ∃ after, close opener closer nested (rest.take count) = some ⟨cut.before,cut.token,after⟩) :
    ∃ fewer after, count = fewer + 1 ∧
      (close opener closer nested (rest.take fewer)).map (Cut.cons token) =
        some ⟨cut.before,cut.token,after⟩ := by
  obtain ⟨part,partFound,rfl⟩ := Option.map_eq_some_iff.mp found
  obtain ⟨fewer,rfl⟩ := Nat.exists_eq_add_one.mpr (Nat.zero_lt_of_lt room)
  obtain ⟨after,kept⟩ := inner partFound (Nat.lt_of_succ_lt_succ room)
  exact ⟨fewer, after, rfl, by rw [kept]; rfl⟩

/-- A bracket closes where it did if the closing one is still there. -/
theorem close_take {tokens : List Token} (closed : close opener closer nested tokens = some cut)
    (room : cut.before.length < count) :
    ∃ after, close opener closer nested (tokens.take count) = some ⟨cut.before,cut.token,after⟩ := by
  fun_induction close opener closer nested tokens generalizing cut count with
  | case1 => cases closed
  | case2 nested token rest opens ih =>
    obtain ⟨fewer,after,rfl,kept⟩ := close_take_cons closed room ih
    exact ⟨after, by rw [take_succ_cons,Brackets.close_opener nested _ opens,kept]⟩
  | case3 token rest opens closes =>
    cases closed
    obtain ⟨fewer,rfl⟩ := Nat.exists_eq_add_one.mpr (Nat.zero_lt_of_lt room)
    exact ⟨rest.take fewer, by rw [take_succ_cons,Brackets.close_here _ opens closes]⟩
  | case4 token rest opens closes nested ih =>
    obtain ⟨fewer,after,rfl,kept⟩ := close_take_cons closed room ih
    exact ⟨after, by rw [take_succ_cons,Brackets.close_inner nested _ opens closes,kept]⟩
  | case5 nested token rest opens closes ih =>
    obtain ⟨fewer,after,rfl,kept⟩ := close_take_cons closed room ih
    exact ⟨after, by rw [take_succ_cons,Brackets.close_other nested _ opens closes,kept]⟩

theorem closing?_take (closed : closing? bracket rest = some cut) (room : cut.before.length < count) :
    ∃ after, closing? bracket (rest.take count) = some ⟨cut.before,cut.token,after⟩ := by
  obtain ⟨closer,isCloser,closedAt⟩ := Option.bind_eq_some_iff.mp closed
  obtain ⟨after,found⟩ := close_take closedAt room
  exact ⟨after, by rw [closing?,isCloser,Option.bind_some,found]⟩

theorem closing?_alone (closed : closing? bracket rest = some cut) :
    closing? bracket (rest.take (cut.before.length + 1)) = some ⟨cut.before,cut.token,[]⟩ := by
  obtain ⟨after,again⟩ := closing?_take closed (Nat.lt_succ_self _)
  have whole := congrArg List.length (whole_of_closing? again)
  have same := congrArg List.length (whole_of_closing? closed)
  rw [Cut.length_whole,length_take] at whole
  rw [Cut.length_whole] at same
  have none : after = [] := length_eq_zero_iff.mp (by dsimp only at whole; omega)
  rwa [none] at again

theorem isCompound_take_of_false (plain : isCompound (first :: rest) = false)
    (count : Nat) : isCompound (first :: rest.take count) = false := by
  cases count with
  | zero =>
    rw [isCompound] at plain ⊢
    split
    · rename_i keyword
      rwa [if_pos keyword] at plain
    · exact Bool.and_false _
  | succ count =>
    cases rest with
    | nil => exact plain
    | cons next more => exact plain

/-- Where a keyword follows `inline`, it stands in the header. -/
theorem isCompound_take (reaches : isCompound (first :: rest) = true)
    (room : trunk rest ≤ count + 1) : isCompound (first :: rest.take count) = true := by
  cases rest with
  | nil => rwa [take_nil]
  | cons next more =>
    cases count with
    | succ count => exact reaches
    | zero =>
      rw [isCompound] at reaches ⊢
      split
      · rename_i keyword
        rwa [if_pos keyword] at reaches
      · rename_i plain
        rw [if_neg plain,Bool.and_eq_true] at reaches
        have function : next.isKeyword "function" = true := reaches.2
        rw [Token.isKeyword,Bool.and_eq_true,beq_iff_eq] at function
        have passed : (!endsHeader next) = true := by rw [endsHeader,function.1]; rfl
        have held : (next :: more).takeWhile (!endsHeader ·) = next :: more.takeWhile (!endsHeader ·) :=
          takeWhile_cons_of_pos passed
        rw [trunk,held,length_cons] at room
        omega

section Kept

variable {size : Nat} (kept : ∀ tokens : List Token, tokens.length ≤ size → ∀ count,
  statement tokens ≤ count → statement (tokens.take count) = statement tokens)
include kept

theorem body_take (short : code.length ≤ size) (room : body code ≤ count) : body (code.take count) = body code := by
  have parts := length_parts isTerminator code
  rw [body_eq] at room
  have gap : (code.takeWhile isTerminator).length ≤ count := by omega
  have inner := kept (code.dropWhile isTerminator) (by omega)
    (count - (code.takeWhile isTerminator).length) (by omega)
  rw [body_eq,body_eq code,takeWhile_take gap,dropWhile_take,inner]

theorem trunk_take (short : tail.length ≤ size) (room : trunk tail ≤ count + 1) : trunk (tail.take count) = trunk tail := by
  have parts := length_parts (!endsHeader ·) tail
  have code : (tail.dropWhile (!endsHeader ·)).length ≤ size := by omega
  unfold trunk at room ⊢
  have header : (tail.takeWhile (!endsHeader ·)).length ≤ count := by omega
  have inner := body_take kept code
    (show body (tail.dropWhile (!endsHeader ·)) ≤ count - (tail.takeWhile (!endsHeader ·)).length by omega)
  rw [takeWhile_take header,dropWhile_take,inner]

theorem branches_take (short : rest.length ≤ size)
    (room : branches rest ≤ count) : branches (rest.take count) = branches rest := by
  have parts := length_parts isTerminator rest
  unfold branches at room ⊢
  rw [dropWhile_take]
  cases found : rest.dropWhile isTerminator with
  | nil => rw [take_nil]
  | cons word branch =>
    rw [found,length_cons] at parts
    rw [found] at room
    cases isElse : word.isKeyword "else" with
    | true =>
      have fits : (rest.takeWhile isTerminator).length + 1 + body branch ≤ count := by
        simpa only [isElse,if_true] using room
      have gap : (rest.takeWhile isTerminator).length ≤ count := by omega
      obtain ⟨fewer,left⟩ : ∃ fewer, count - (rest.takeWhile isTerminator).length = fewer + 1 :=
        Nat.exists_eq_add_one.mpr (by omega)
      have inner := body_take kept (show branch.length ≤ size by omega) (show body branch ≤ fewer by omega)
      rw [left,take_succ_cons,takeWhile_take gap]
      simp only [isElse,if_true,inner]
    | false =>
      cases count - (rest.takeWhile isTerminator).length with
      | zero => simp only [take_zero,isElse,Bool.false_eq_true,if_false]
      | succ fewer => simp only [take_succ_cons,isElse,Bool.false_eq_true,if_false]

theorem compound_take (short : tail.length ≤ size)
    (room : compound head tail ≤ count + 1) : compound head (tail.take count) = compound head tail := by
  rw [compound_eq] at room
  have first := trunk_take kept short (show trunk tail ≤ count + 1 by omega)
  have positive : 1 ≤ trunk tail := by unfold trunk; omega
  have cut : (head :: tail.take count).drop (trunk tail) =
      ((head :: tail).drop (trunk tail)).take (count + 1 - trunk tail) := by
    rw [← take_succ_cons,drop_take]
  have remaining : ((head :: tail).drop (trunk tail)).length = tail.length + 1 - trunk tail := length_drop
  rw [compound_eq,compound_eq head tail,first,cut]
  split
  · rename_i conditional
    rw [if_pos conditional] at room
    have bound := trunk_le (fun tokens _ => statement_le tokens) (Nat.le_refl tail.length)
    rw [branches_take kept (show ((head :: tail).drop (trunk tail)).length ≤ size by omega)
      (show branches _ ≤ count + 1 - trunk tail by omega)]
  · rfl

end Kept

/-- The tokens of a statement decide how far it reaches. -/
theorem statement_take (tokens : List Token) (room : statement tokens ≤ count) :
    statement (tokens.take count) = statement tokens := by
  -- the statements inside are shorter, so the induction is on a bound for the length
  suffices bounded : ∀ size, ∀ tokens : List Token, tokens.length ≤ size → ∀ count, statement tokens ≤ count →
      statement (tokens.take count) = statement tokens from bounded _ tokens (Nat.le_refl _) count room
  intro size
  induction size with
  | zero =>
    intro tokens short count _
    rw [length_eq_zero_iff.mp (Nat.le_zero.mp short),take_nil]
  | succ size kept =>
    intro tokens short count room
    cases tokens with
    | nil => rw [take_nil]
    | cons first rest =>
      cases count with
      | zero => rw [take_zero,statement_nil,Nat.le_zero.mp room]
      | succ count =>
        rw [length_cons] at short
        rw [take_succ_cons]
        by_cases opens : first.tag = .blockOpen
        · rw [statement_of_block opens] at room ⊢
          rw [statement_of_block opens]
          cases closed : closing? first rest with
          | none =>
            rw [closed] at room
            rw [take_of_length_le (Nat.le_of_succ_le_succ room),closed]
          | some cut =>
            rw [closed] at room
            obtain ⟨after,again⟩ := closing?_take closed (Nat.lt_of_succ_le (Nat.le_of_succ_le_succ room))
            rw [again]
        · cases reaches : isCompound (first :: rest) with
          | true =>
            rw [statement_of_isCompound reaches] at room ⊢
            have header : trunk rest ≤ count + 1 := by rw [compound_eq] at room; omega
            rw [statement_of_isCompound (isCompound_take reaches header)]
            exact compound_take kept (by omega) room
          | false =>
            rw [statement_of_plain opens reaches] at room ⊢
            rw [statement_of_plain opens (isCompound_take_of_false reaches count),← take_succ_cons,
              leveled_take,takeWhile_take room]

end Extent
end CalcBasic
