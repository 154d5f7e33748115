import CalcBasic.Proofs.BareCalls
import CalcBasic.Proofs.PairedReading
import CalcBasic.Proofs.Relining

/-! The statements that a program is made of. Reading it reads them one after the other, and
no definition lies across the border between two of them. -/
namespace CalcBasic
open List
open Brackets (close closing? whole_of_closing? leveled)

/-! ### Where statements end -/

namespace Extent

variable {tokens rest tail : List Token} {cut : Cut} {first : Token}

/-- What is cut off here ends with a closing brace, or a terminator or nothing follows. -/
def Ends (tokens : List Token) (size : Nat) : Prop :=
  (∀ next ∈ (tokens.drop size).head?, next.isTerminator = true) ∨
    ∃ last ∈ (tokens.take size).getLast?, last.tag = .blockClose

theorem Ends.behind {skipped size : Nat} (ends : Ends (tokens.drop skipped) size) : Ends tokens (skipped + size) := by
  rcases ends with stops | ⟨last,isLast,closes⟩
  · left
    rwa [drop_drop] at stops
  · right
    refine ⟨last, ?_, closes⟩
    rw [take_add,getLast?_append,Option.mem_def.mp isLast]
    rfl

theorem ends_all (tokens : List Token) {size : Nat} (reaches : tokens.length ≤ size) : Ends tokens size := by
  left
  rw [drop_of_length_le reaches]
  exact fun next isNext => by cases isNext

theorem tag_of_close {opener closer : Tag} {nested : Nat}
    (closed : close opener closer nested tokens = some cut) : cut.token.tag = closer := by
  fun_induction close opener closer nested tokens generalizing cut with
  | case1 => cases closed
  | case3 token rest opens closes =>
    cases closed
    exact closes
  | case2 nested token rest _ ih | case4 token rest _ _ nested ih | case5 nested token rest _ _ ih =>
    obtain ⟨inner,found,rfl⟩ := Option.map_eq_some_iff.mp closed
    exact (ih found : inner.token.tag = closer)

theorem tag_of_closing? {bracket : Token} {inside : List Token} (opens : bracket.tag = .blockOpen)
    (closed : closing? bracket inside = some cut) : cut.token.tag = .blockClose := by
  obtain ⟨closer,isCloser,closedAt⟩ := Option.bind_eq_some_iff.mp closed
  rw [opens] at isCloser
  cases isCloser
  exact tag_of_close closedAt

theorem ends_block (opens : first.tag = .blockOpen) (rest : List Token) : Ends (first :: rest) (statement (first :: rest)) := by
  rw [statement_of_block opens]
  split
  · rename_i cut closed
    right
    refine ⟨cut.token, ?_, tag_of_closing? opens closed⟩
    have front : (first :: rest).take (cut.before.length + 2) = first :: cut.before ++ [cut.token] := by
      rw [← whole_of_closing? closed,Cut.whole]
      simp [take_append]
    rw [front,getLast?_concat]
    rfl
  · exact ends_all _ (Nat.le_refl _)

theorem ends_plain (opens : first.tag ≠ .blockOpen)
    (reaches : isCompound (first :: rest) = false) : Ends (first :: rest) (statement (first :: rest)) := by
  left
  have stopped := head?_dropWhile_not inside (leveled 0 (first :: rest))
  have behind := congrArg (List.map (·.2)) (drop_takeWhile inside (leveled 0 (first :: rest)))
  rw [map_drop,Brackets.map_snd_leveled,← statement_of_plain opens reaches] at behind
  rw [behind]
  intro next isNext
  cases found : (leveled 0 (first :: rest)).dropWhile inside with
  | nil =>
    rw [found] at isNext
    cases isNext
  | cons entry more =>
    rw [found] at isNext stopped
    cases isNext
    simp [inside] at stopped
    exact stopped.2

section Inner

variable {size : Nat} (lower : ∀ tokens : List Token, tokens.length ≤ size → Ends tokens (statement tokens))
include lower

theorem ends_body {code : List Token} (short : code.length ≤ size) : Ends code (body code) := by
  have parts := length_parts Token.isTerminator code
  rw [body_eq]
  refine Ends.behind ?_
  rw [drop_takeWhile]
  exact lower _ (by omega)

theorem ends_trunk (head : Token) (short : tail.length ≤ size) : Ends (head :: tail) (trunk tail) := by
  have parts := length_parts (!endsHeader ·) tail
  refine Ends.behind ?_
  rw [Nat.add_comm,drop_succ_cons,drop_takeWhile]
  exact ends_body lower (by omega)

theorem ends_branches (short : rest.length ≤ size) (some : branches rest ≠ 0) : Ends rest (branches rest) := by
  have parts := length_parts Token.isTerminator rest
  unfold branches at some ⊢
  split
  · rename_i word branch found
    rw [found,length_cons] at parts
    simp only [found] at some
    split
    · refine Ends.behind ?_
      have behind : rest.drop ((rest.takeWhile Token.isTerminator).length + 1) = branch := by
        rw [← drop_drop,drop_takeWhile,found]
        rfl
      rw [behind]
      exact ends_body lower (by omega)
    · rename_i plain
      exact absurd (if_neg plain) some
  · rename_i none
    simp only [none] at some
    exact absurd rfl some

theorem ends_compound (head : Token) (short : tail.length ≤ size) : Ends (head :: tail) (compound head tail) := by
  have first := ends_trunk lower head short
  have positive : 1 ≤ trunk tail := by unfold trunk; omega
  have remaining : ((head :: tail).drop (trunk tail)).length = tail.length + 1 - trunk tail := length_drop
  rw [compound_eq]
  split
  · by_cases none : branches ((head :: tail).drop (trunk tail)) = 0
    · rwa [none]
    · exact Ends.behind (ends_branches lower (by omega) none)
  · exact first

end Inner

theorem ends_statement (tokens : List Token) : Ends tokens (statement tokens) := by
  -- the statements inside are shorter, so the induction is on a bound for the length
  suffices bounded : ∀ size, ∀ tokens : List Token, tokens.length ≤ size → Ends tokens (statement tokens) from
    bounded _ tokens (Nat.le_refl _)
  intro size
  induction size with
  | zero =>
    intro tokens short
    exact ends_all tokens (Nat.le_trans short (Nat.zero_le _))
  | succ size lower =>
    intro tokens short
    cases tokens with
    | nil => exact ends_all [] (Nat.zero_le _)
    | cons first rest =>
      rw [length_cons] at short
      by_cases opens : first.tag = .blockOpen
      · exact ends_block opens rest
      · cases reaches : isCompound (first :: rest) with
        | true =>
          rw [statement_of_isCompound reaches]
          exact ends_compound lower first (by omega)
        | false => exact ends_plain opens reaches

end Extent

/-! ### Definitions across borders -/

namespace Token

theorem definedNames_cons_cons (first second : Token) (rest : List Token) :
    definedNames (first :: second :: rest) = (definedName? (first, second)).toList ++ definedNames (second :: rest) := by
  simp only [definedNames,neighbours,tail_cons,zip_cons_cons,filterMap_cons]
  cases definedName? (first, second) <;> rfl

theorem definedNames_cons_of_not_keyword {first : Token} (plain : first.tag ≠ .keyword) (rest : List Token) :
    definedNames (first :: rest) = definedNames rest := by
  cases rest with
  | nil => rfl
  | cons second more => simp [definedNames_cons_cons,definedName?,isKeyword,plain]

/-- No definition lies across a border where a name does not follow or a keyword does not
come before. -/
theorem definedNames_append {front back : List Token}
    (border : ∀ last ∈ front.getLast?, ∀ next ∈ back.head?, last.tag ≠ .keyword ∨ next.tag ≠ .identifier) :
    definedNames (front ++ back) = definedNames front ++ definedNames back := by
  induction front with
  | nil => rfl
  | cons first rest ih =>
    cases rest with
    | nil =>
      cases back with
      | nil => rfl
      | cons next more =>
        have apart := border first rfl next rfl
        have none : definedName? (first, next) = none := by
          rcases apart with plain | plain
          · simp [definedName?,isKeyword,plain]
          · simp [definedName?,plain]
        rw [cons_append,nil_append,definedNames_cons_cons,none]
        rfl
    | cons second more =>
      have inner := ih (by simpa using border)
      rw [cons_append] at inner
      rw [cons_append,cons_append,definedNames_cons_cons,definedNames_cons_cons,inner,append_assoc]

theorem definedNames_of_ends {tokens : List Token} {size : Nat} (ends : Extent.Ends tokens size) :
    definedNames tokens = definedNames (tokens.take size) ++ definedNames (tokens.drop size) := by
  conv_lhs => rw [← take_append_drop size tokens]
  refine definedNames_append fun last isLast next isNext => ?_
  rcases ends with stops | ⟨closing,isClosing,closes⟩
  · right
    rw [beq_iff_eq.mp (stops next isNext)]
    decide
  · left
    rw [Option.mem_def] at isLast isClosing
    rw [isLast] at isClosing
    cases isClosing
    rw [closes]
    decide

end Token

namespace Read
open CalcBasic.Action

variable {names : String → Prop} {symbols : Symbols}

/-! ### The statements of a token list -/

/-- The statements of a token list, without the terminators between them. -/
def pieces : List Token → List (List Token)
  | [] => []
  | first :: rest =>
    if first.isTerminator then pieces rest
    else
      let size := Extent.statement (first :: rest) - 1
      (first :: rest.take size) :: pieces (rest.drop size)
termination_by tokens => tokens.length
decreasing_by all_goals simp only [length_cons,length_drop]; omega

theorem definedNames_pieces (tokens : List Token) : (pieces tokens).flatMap Token.definedNames = Token.definedNames tokens := by
  fun_induction pieces tokens with
  | case1 => rfl
  | case2 first rest isTerminator ih =>
    have plain : first.tag ≠ .keyword := by rw [beq_iff_eq.mp isTerminator]; decide
    rw [ih,Token.definedNames_cons_of_not_keyword plain]
  | case3 first rest notTerminator size ih =>
    have solid : first.isTerminator = false := by simpa using notTerminator
    have whole : size + 1 = Extent.statement (first :: rest) := Nat.sub_add_cancel (Extent.statement_pos solid rest)
    have border := Token.definedNames_of_ends (Extent.ends_statement (first :: rest))
    rw [← whole,take_succ_cons,drop_succ_cons] at border
    rw [flatMap_cons,ih,border]

/-- The tokens without a brace around all of them, which nothing need close. -/
def unbraced : List Token → List Token
  | [] => []
  | first :: rest =>
    if first.tag = .blockOpen then
      match closing? first rest with
      | none => rest
      | some cut => if cut.after.isEmpty then cut.before else first :: rest
    else first :: rest

theorem definedNames_unbraced (tokens : List Token) : Token.definedNames (unbraced tokens) = Token.definedNames tokens := by
  unfold unbraced
  split
  · rfl
  · rename_i first rest
    split
    · rename_i opens
      have plain : first.tag ≠ .keyword := by rw [opens]; decide
      rw [Token.definedNames_cons_of_not_keyword plain]
      split
      · rfl
      · rename_i cut closed
        split
        · rename_i alone
          have closes := Extent.tag_of_closing? opens closed
          rw [← whole_of_closing? closed,Cut.whole,isEmpty_iff.mp alone,Token.definedNames_append]
          · exact (append_nil _).symm
          · intro last _ next isNext
            cases isNext
            exact .inr (by rw [closes]; decide)
        · rw [Token.definedNames_cons_of_not_keyword plain]
    · rfl

variable (markUnknown : Bool)

theorem statements_eq_pieces (tokens : List Token) :
    statements markUnknown tokens =
      (pieces tokens).mapM (statement markUnknown) >>= fun trees => pure (trees.flatMap Option.toList) := by
  fun_induction pieces tokens with
  | case1 => rw [statements]; rfl
  | case2 first rest isTerminator ih => rw [statements,if_pos isTerminator,ih]
  | case3 first rest notTerminator size ih =>
    rw [statements,if_neg notTerminator,mapM_cons]
    simp only [bind_assoc,pure_bind,flatMap_cons]
    refine bind_congr fun tree => ?_
    rw [show rest.drop (Extent.statement (first :: rest) - 1) = rest.drop size from rfl,ih]
    simp only [bind_assoc,pure_bind]

theorem block_eq_unbraced (tokens : List Token) : block markUnknown tokens = statements markUnknown (unbraced tokens) := by
  unfold unbraced
  split
  · rw [block,statements]
  · rename_i first rest
    rw [block]
    split
    · rename_i opens
      rw [braced_eq]
      cases closed : closing? first rest with
      | none => rfl
      | some cut =>
        dsimp only
        split
        · rfl
        · rename_i filled
          -- the statement that the brace starts ends where it closes
          have size : Extent.statement (first :: rest) - 1 = cut.before.length + 1 := by
            rw [Extent.statement_of_block opens,closed]
            rfl
          have solid : first.isTerminator = false := by rw [Token.isTerminator,opens]; rfl
          have outline (inside : List Token) : Outline.of (first :: inside) = .braces first inside := by
            simp [Outline.of,opens]
          have after : rest.drop (cut.before.length + 1) = cut.after := by
            rw [← whole_of_closing? closed,Cut.whole]
            simp [drop_append]
          have inner : statement markUnknown (first :: rest.take (cut.before.length + 1)) =
              statements markUnknown cut.before >>= fun trees => pure (some (.block trees)) := by
            rw [statement_eq,outline,ofOutline,braced_eq,Extent.closing?_alone closed]
            rfl
          rw [statements,if_neg (by simp [solid]),size]
          simp only [inner,after,bind_assoc,pure_bind]
          rfl
    · rfl

/-- The statements of a program, with their lines put elsewhere. -/
def rootStatements (place : Nat → Nat) (tokens : List Token) : List (List Token) :=
  (pieces (unbraced (tokens.filter (·.tag != .whitespace)))).map (List.map (Token.relined place))

theorem program_eq_pieces (tokens : List Token) :
    program markUnknown tokens = declareFunctions none (tokens.filter (·.tag != .whitespace)) >>= fun _ =>
      (pieces (unbraced (tokens.filter (·.tag != .whitespace)))).mapM (statement markUnknown) >>= fun trees =>
        pure (.block (trees.flatMap Option.toList)) := by
  unfold program
  simp only [block_eq_unbraced,statements_eq_pieces,bind_assoc,pure_bind]

theorem definedNames_relined (place : Nat → Nat) (tokens : List Token) :
    Token.definedNames (tokens.map (Token.relined place)) = Token.definedNames tokens := by
  rw [Token.definedNames,Token.neighbours,← map_tail,zip_map,filterMap_map]
  rfl

theorem definedNames_rootStatements (place : Nat → Nat) (tokens : List Token) :
    (rootStatements place tokens).flatMap Token.definedNames =
      Token.definedNames (tokens.filter (·.tag != .whitespace)) := by
  rw [rootStatements,flatMap_map,← definedNames_unbraced,← definedNames_pieces]
  simp only [definedNames_relined]

/-! ### Declarations -/

/-- Of the functions of the program these are known, and their parameters are not. -/
structure Declared (names : String → Prop) (symbols : Symbols) : Prop where
  own : ∀ name, names name.toLower → ∃ f, symbols.functions.find? name = some (.user f) ∧ f.params = []
  others : ∀ name, ¬ names name.toLower → symbols.functions.find? name = (Builtin.find? name).map .builtin

theorem Declared.mono {wider : String → Prop} (declared : Declared names symbols)
    (same : ∀ name, wider name ↔ names name) : Declared wider symbols :=
  ⟨fun name isOwn => declared.own name ((same _).mp isOwn), fun name other => declared.others name (mt (same _).mpr other)⟩

theorem Declared.declare (declared : Declared names symbols) (name : String)
    (inline : Bool) : Declared (fun other => names other ∨ other = name.toLower) (symbols.declare name inline).2 := by
  have apart {callee : String} (other : callee.toLower ≠ name.toLower) :
      (symbols.declare name inline).2.functions.find? callee = symbols.functions.find? callee := by
    have users : (symbols.functions.declare name inline).2.user? callee = symbols.functions.user? callee := by
      unfold FunctionTable.declare
      split
      · rfl
      · simp [FunctionTable.user?,find?_append,other.symm]
    rw [Symbols.declare,FunctionTable.find?,users,FunctionTable.find?]
  constructor
  · intro callee isOwn
    by_cases same : callee.toLower = name.toLower
    · rw [FunctionTable.find?_of_lower same]
      cases found : symbols.functions.user? name with
      | some f =>
        -- a name that was known before was known from an earlier declaration
        have before : symbols.functions.find? name = some (.user f) := by rw [FunctionTable.find?,found]; rfl
        have kept : (symbols.declare name inline).2.functions = symbols.functions := by
          rw [Symbols.declare,FunctionTable.declare,found]
        rw [kept]
        by_cases known : names name.toLower
        · exact declared.own name known
        · rw [declared.others name known] at before
          obtain ⟨_,_,impossible⟩ := Option.map_eq_some_iff.mp before
          cases impossible
      | none =>
        have absent : symbols.functions.users.find? (·.name == name.toLower) = none := found
        refine ⟨⟨name.toLower, symbols.functions.users.length, inline, [], 0, none⟩, ?_, rfl⟩
        rw [Symbols.declare,FunctionTable.declare,found]
        simp [FunctionTable.find?,FunctionTable.user?,find?_append,absent]
    · rw [apart same]
      exact declared.own callee (isOwn.resolve_right same)
  · intro callee isOther
    rw [apart fun same => isOther (.inr same)]
    exact declared.others callee fun isOwn => isOther (.inl isOwn)

theorem declares (previous : Option Token) (tokens : List Token) (declared : Declared names symbols) :
    ∃ after, outcome (declareFunctions previous tokens) symbols = (.ok (), after) ∧
      Declared (fun name => names name ∨ name ∈ Token.definedNames tokens) after := by
  induction tokens generalizing previous names symbols with
  | nil => exact ⟨symbols, rfl, declared.mono (by simp [Token.definedNames,Token.neighbours])⟩
  | cons token rest ih =>
    cases rest with
    | nil =>
      refine ⟨symbols, ?_, declared.mono (by simp [Token.definedNames,Token.neighbours])⟩
      unfold declareFunctions
      split <;> rfl
    | cons name more =>
      by_cases defines : token.isKeyword "function" = true ∧ name.tag = .identifier
      · obtain ⟨after,done,result⟩ := ih (some token) (declared.declare name.text (previous.any Token.isInline))
        refine ⟨after, ?_, result.mono fun other => ?_⟩
        · rw [declareFunctions]
          simp only [defines.1,defines.2,if_true]
          rw [outcome_bind_ok (outcome_modify _ _),done]
        · rw [Token.definedNames_cons_cons]
          simp [Token.definedName?,defines.1,defines.2]
          tauto
      · obtain ⟨after,done,result⟩ := ih (some token) declared
        refine ⟨after, ?_, result.mono fun other => ?_⟩
        · rw [declareFunctions]
          cases keyword : token.isKeyword "function" with
          | false => exact done
          | true =>
            have plain : name.tag ≠ .identifier := fun identifier => defines ⟨keyword, identifier⟩
            simp only [if_true,if_neg plain]
            exact done
        · rw [Token.definedNames_cons_cons]
          have none : Token.definedName? (token, name) = none := by
            simp only [Token.definedName?]
            exact if_neg (by simpa using defines)
          simp [none]

theorem declared_nothing : Declared (fun _ => False) {} :=
  ⟨fun _ impossible => impossible.elim, fun _ _ => rfl⟩

/-! ### Definitions among the statements -/

/-- The statement defines a function, perhaps behind labels or `const`. -/
def isDefinition (tokens : List Token) : Bool :=
  match _outline : Outline.of tokens with
  | .function .. => true
  | .label _ rest | .constant rest => isDefinition rest
  | _ => false
termination_by tokens.length
decreasing_by
  all_goals
    have below := Outline.of_below tokens
    simp only [_outline,Outline.Below] at below
    exact below

end Read

def Tree.isFunction : Tree → Bool
  | .function .. => true
  | _ => false

namespace Read
open CalcBasic.Action

variable (markUnknown : Bool)

theorem plain_last {α : Type} {first : Read α} {next : α → Tree} (plain : ∀ value, (next value).isFunction = false) :
    Returns (fun _ => True) (first >>= fun value => pure (next value)) (·.isFunction = false) :=
  returns_bind (returns_any first) fun value _ => returns_pure (plain value)

theorem plain_unknown (tokens : List Token) :
    Returns (fun _ => True) (unknown markUnknown tokens) (·.isFunction = false) :=
  plain_last fun _ => by split <;> rfl

theorem plain_callTree (name : Token) (arguments : List Tree) :
    Returns (fun _ => True) (callTree name arguments) (·.isFunction = false) := by
  unfold callTree
  refine returns_bind returns_get fun symbols _ => ?_
  split
  · split
    · exact returns_pure rfl
    · exact plain_last fun _ => rfl
  · exact returns_pure rfl

/-- Expressions are no functions. No second reading is looked at. -/
theorem pairs_plain : PairsExpressions markUnknown id id (fun _ => True) (fun tree _ => tree.isFunction = false) (fun _ _ => True)
    fun related action _ => Returns (fun _ => True) action fun value => ∃ other, related value other where
  rewording := ⟨fun _ => rfl, fun _ => rfl, fun _ _ _ => rfl⟩
  verbatim _ := ⟨rfl, rfl⟩
  part _ _ := trivial
  pure known := returns_pure ⟨_, known⟩
  bind first next := returns_bind first fun value ⟨other,known⟩ => next value other known
  remark _ _ _ _ := (returns_any _).mono fun _ _ => ⟨(), trivial⟩
  fail _ _ _ _ _ := returns_throw _
  unknown _ _ := (plain_unknown markUnknown _).mono fun tree known => ⟨tree, known⟩
  number _ := by
    unfold number
    split
    · exact returns_pure ⟨.number 0, rfl⟩
    · exact returns_throw _
  reference _ := (returns_any _).mono fun key _ => ⟨key, rfl⟩
  listType _ := (returns_any _).mono fun _ _ => ⟨(), trivial⟩
  callTree _ _ := (plain_callTree _ _).mono fun tree known => ⟨tree, known⟩
  shape _ each := by
    rw [expression_eq]
    exact returns_bind returns_get fun symbols _ => each symbols.functions
  nil := trivial
  cons _ _ := trivial
  leaf {one} _ childless := by cases one <;> first | rfl | cases childless
  item {one _} known := by unfold listItem; split <;> first | rfl | exact known
  items _ := rfl
  membership _ _ := rfl
  range _ _ _ _ := rfl
  operation op _ _ := by cases op <;> rfl
  element _ _ := rfl
  complement _ _ := rfl

theorem plain_expression (tokens : List Token) :
    Returns (fun _ => True) (expression markUnknown tokens) (·.isFunction = false) :=
  ((pairs_plain markUnknown).expression trivial).mono fun _ ⟨_,known⟩ => known

theorem plain_conditional (head : Token) (tail : List Token) :
    Returns (fun _ => True) (conditional markUnknown head tail) (·.isFunction = false) := by
  rw [conditional_eq]
  exact returns_bind (returns_any _) fun _ _ => returns_bind (returns_any _) fun _ _ =>
    returns_bind (returns_any _) fun _ _ => plain_last fun _ => rfl

theorem isDefinition_eq (tokens : List Token) : isDefinition tokens =
    match Outline.of tokens with
    | .function .. => true
    | .label _ rest | .constant rest => isDefinition rest
    | _ => false := by
  rw [isDefinition]
  split <;> simp only [*]

/-- What is read of a statement is a function just if the statement is a definition. -/
theorem returns_statement (tokens : List Token) :
    Returns (fun _ => True) (statement markUnknown tokens) fun value => ∀ tree ∈ value, tree.isFunction = isDefinition tokens := by
  have one {result : Bool} {action : Read Tree} (read : Returns (fun _ => True) action (·.isFunction = result)) :
      Returns (fun _ => True) (action >>= fun tree => pure (some tree)) fun value => ∀ tree ∈ value, tree.isFunction = result :=
    returns_bind read fun tree known => returns_pure (by simpa using known)
  have last {α : Type} {result : Bool} {action : Read α} {form : α → Tree} (known : ∀ value, (form value).isFunction = result) :
      Returns (fun _ => True) (action >>= fun value => pure (some (form value))) fun value =>
        ∀ tree ∈ value, tree.isFunction = result :=
    returns_bind (returns_any action) fun value _ => returns_pure (by simpa using known value)
  have nothing {result : Bool} :
      Returns (fun _ => True) (pure none : Read (Option Tree)) fun value => ∀ tree ∈ value, tree.isFunction = result :=
    returns_pure (by simp)
  induction size : tokens.length using Nat.strongRecOn generalizing tokens with
  | _ size ih =>
    subst size
    have below := Outline.of_below tokens
    rw [statement_eq,isDefinition_eq]
    cases outline : Outline.of tokens with
    | empty => exact nothing
    | label name rest =>
      rw [outline] at below
      exact returns_bind (returns_any _) fun _ _ => ih rest.length below rest rfl
    | constant rest =>
      rw [outline] at below
      exact ih rest.length below rest rfl
    | braces bracket inside => exact last fun _ => rfl
    | conditional head tail => exact one (plain_conditional markUnknown head tail)
    | forEach head tail => exact returns_bind (returns_any _) fun _ _ => last fun _ => rfl
    | loop head tail => exact returns_bind (returns_any _) fun _ _ => last fun _ => rfl
    | function name rest inline =>
      refine returns_bind (returns_any _) fun parameters _ => returns_bind (returns_any _) fun _ _ =>
        returns_bind (returns_any _) fun trees _ => one ?_
      unfold functionTree
      dsimp only
      split
      · exact returns_bind (returns_any _) fun _ _ => returns_pure rfl
      · exact returns_bind (returns_any _) fun _ _ => returns_bind (returns_any _) fun _ _ => returns_pure rfl
    | nameless head => exact returns_throw _
    | strayInline word next => exact returns_throw _
    | giveBack value =>
      rw [ofOutline]
      split
      · exact returns_pure (by simp [Tree.isFunction])
      · exact last fun _ => rfl
    | leave word rest =>
      have called : Returns (fun _ => True) (call? markUnknown word rest) fun value => ∀ tree ∈ value, tree.isFunction = false := by
        unfold call?
        refine returns_bind returns_get fun symbols _ => ?_
        split
        · exact returns_bind (returns_any _) fun trees _ => one (plain_callTree _ trees)
        · exact returns_throw _
        · exact nothing
      refine returns_bind called fun value known => ?_
      cases value with
      | some tree => exact returns_pure known
      | none => exact one (plain_unknown markUnknown _)
    | danglingElse word => exact returns_bind (returns_any _) fun _ _ => nothing
    | unsupported word => exact returns_bind (returns_any _) fun _ _ => nothing
    | assign cut =>
      exact one (returns_bind (returns_any _) fun _ _ => plain_last fun _ => rfl)
    | expression line => exact one (plain_expression markUnknown line)

end Read
end CalcBasic
