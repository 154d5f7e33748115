import CalcBasic.Proofs.LoweredCalls
import CalcBasic.Proofs.ParameterDefaults
import CalcBasic.Proofs.TokenParts

/-! Calls without parentheses. For them alone the reader asks whether a function has
parameters, so tables that know the same functions and agree on this for the names that
stand before operands read a statement alike. -/
namespace CalcBasic

/-! ### Names before operands and names of definitions -/

namespace Token

/-- The tokens that stand side by side. -/
def neighbours (tokens : List Token) : List (Token × Token) := tokens.zip tokens.tail

/-- A name, or a word that leaves the program, which is read like a call. -/
def isCallable (token : Token) : Bool :=
  token.tag == .identifier || token.spells "exit" || token.spells "die"

def bareName? (pair : Token × Token) : Option String :=
  if pair.1.isCallable && Shape.startsOperand pair.2 then some pair.1.text.toLower else none

def definedName? (pair : Token × Token) : Option String :=
  if pair.1.isKeyword "function" && pair.2.tag == .identifier then some pair.2.text.toLower else none

/-- The names that stand right before an operand, as in `f 2`, in lower case. -/
def bareNames (tokens : List Token) : List String := (neighbours tokens).filterMap bareName?

/-- The names of the functions that are defined anywhere in a token list, in lower case. -/
def definedNames (tokens : List Token) : List String := (neighbours tokens).filterMap definedName?

variable {tokens part : List Token} {first second : Token}

theorem mem_neighbours_iff : (first, second) ∈ neighbours tokens ↔ [first, second] <:+: tokens := by
  induction tokens with
  | nil => simp [neighbours]
  | cons token rest ih =>
    rw [List.infix_cons_iff,← ih]
    cases rest with
    | nil => simp [neighbours]
    | cons next more =>
      simp only [neighbours,List.tail_cons,List.zip_cons_cons,List.mem_cons,Prod.mk.injEq,List.cons_prefix_cons,
        List.nil_prefix,and_true]

theorem neighbours_subset (inside : part <:+: tokens) : neighbours part ⊆ neighbours tokens :=
  fun _ member => mem_neighbours_iff.mpr ((mem_neighbours_iff.mp member).trans inside)

theorem bareNames_subset (inside : part <:+: tokens) : bareNames part ⊆ bareNames tokens :=
  List.filterMap_subset _ (neighbours_subset inside)

theorem definedNames_subset (inside : part <:+: tokens) : definedNames part ⊆ definedNames tokens :=
  List.filterMap_subset _ (neighbours_subset inside)

theorem bareNames_cons_cons (first second : Token) (rest : List Token) :
    bareNames (first :: second :: rest) = (bareName? (first, second)).toList ++ bareNames (second :: rest) := by
  simp only [bareNames,neighbours,List.tail_cons,List.zip_cons_cons,List.filterMap_cons]
  cases bareName? (first, second) <;> rfl

theorem bareNames_cons_of_not_callable (plain : first.isCallable = false) (rest : List Token) :
    bareNames (first :: rest) = bareNames rest := by
  cases rest with
  | nil => rfl
  | cons second more => simp [bareNames_cons_cons,bareName?,plain]

theorem bareNames_concat_of_not_operand {last : Token} (ends : Shape.startsOperand last = false) (tokens : List Token) :
    bareNames (tokens ++ [last]) = bareNames tokens := by
  induction tokens with
  | nil => rfl
  | cons first rest ih =>
    cases rest with
    | nil => simp [bareName?,ends,bareNames,neighbours]
    | cons second more =>
      rw [List.cons_append] at ih
      rw [List.cons_append,List.cons_append,bareNames_cons_cons,bareNames_cons_cons,ih]

/-- The membership that stands for `from` has no further names before operands. -/
theorem bareNames_fromAsMembership (tokens : List Token) : bareNames (Read.fromAsMembership tokens) ⊆ bareNames tokens := by
  unfold Read.fromAsMembership
  split
  · rename_i first second rest
    split
    · have word : (⟨.keyword, "in", first.line⟩ : Token).isCallable = false := by
        simp only [isCallable,spells]
        decide +kernel
      have bracket : (⟨.listOpen, "[", first.line⟩ : Token).isCallable = false := by
        simp only [isCallable,spells]
        decide +kernel
      have unbare : bareName? (first, ⟨.keyword, "in", first.line⟩) = none := by simp [bareName?,Shape.startsOperand]
      rw [List.cons_append,List.cons_append,List.cons_append,bareNames_cons_cons,unbare,
        bareNames_cons_of_not_callable word,bareNames_cons_of_not_callable bracket,
        bareNames_concat_of_not_operand (by rfl)]
      exact bareNames_subset (List.infix_cons (List.infix_cons List.infix_rfl))
    · exact List.Subset.refl _
  · exact List.Subset.refl _

end Token

theorem Outline.defined_of_function {tokens rest : List Token} {name : Token} {inline : Bool}
    (outline : of tokens = .function name rest inline) : name.text.toLower ∈ Token.definedNames tokens := by
  have ofFunction {head : Token} {tail : List Token} {isInline : Bool} (keyword : head.isKeyword "function" = true)
      (found : ofFunction head tail isInline = .function name rest inline) :
      name.text.toLower ∈ Token.definedNames (head :: tail) := by
    unfold Outline.ofFunction at found
    split at found
    · split at found
      · rename_i next more identifier
        cases found
        have pair : (head, name) ∈ Token.neighbours (head :: name :: rest) :=
          Token.mem_neighbours_iff.mpr (List.prefix_append [head, name] rest).isInfix
        exact List.mem_filterMap.mpr ⟨_, pair, by simp [Token.definedName?,keyword,identifier]⟩
      · cases found
    · cases found
  have plain (list : List Token) : ofPlain list ≠ .function name rest inline := by
    simp only [ofPlain]
    split
    · intro isFunction
      cases isFunction
    · intro isFunction
      cases isFunction
  unfold of at outline
  split at outline
  · cases outline
  split at outline
  · cases outline
  split at outline
  · rename_i isKeyword
    unfold ofKeyword at outline
    split at outline
    case h_7 spelled => exact ofFunction (by simp [Token.isKeyword,Token.spells,isKeyword,spelled]) outline
    all_goals cases outline
  split at outline
  · cases outline
  split at outline
  · split at outline
    · split at outline
      · rename_i keyword
        exact Token.definedNames_subset (List.suffix_cons _ _).isInfix (ofFunction keyword outline)
      · cases outline
    · exact absurd outline (plain _)
  · exact absurd outline (plain _)

theorem Outline.callable_of_leave {tokens rest : List Token} {word : Token} (outline : of tokens = .leave word rest) :
    word.isCallable = true := by
  have function (head : Token) (tail : List Token) (inline : Bool) : ofFunction head tail inline ≠ .leave word rest := by
    unfold ofFunction
    split
    · split
      · intro isLeave
        cases isLeave
      · intro isLeave
        cases isLeave
    · intro isLeave
      cases isLeave
  have plain (list : List Token) : ofPlain list ≠ .leave word rest := by
    simp only [ofPlain]
    split
    · intro isLeave
      cases isLeave
    · intro isLeave
      cases isLeave
  unfold of at outline
  split at outline
  · cases outline
  split at outline
  · cases outline
  split at outline
  · unfold ofKeyword at outline
    split at outline
    case h_7 => exact absurd outline (function _ _ _)
    case h_9 spelled =>
      cases outline
      simp [Token.isCallable,Token.spells,spelled]
    case h_10 spelled =>
      cases outline
      simp [Token.isCallable,Token.spells,spelled]
    all_goals cases outline
  split at outline
  · cases outline
  split at outline
  · split at outline
    · split at outline
      · exact absurd outline (function _ _ _)
      · cases outline
    · exact absurd outline (plain _)
  · exact absurd outline (plain _)

/-! ### Tables -/

namespace FunctionTable

variable {table other : FunctionTable} {name callee : String}

theorem find?_define_own (table : FunctionTable) (own : callee.toLower = name.toLower) (inline : Bool)
    (params : List String) (required : Nat) (body : Tree) :
    ∃ f, (table.define name inline params required body).2.find? callee = some (.user f) ∧ f.params = params := by
  obtain ⟨f,found,kept⟩ := Option.map_eq_some_iff.mp (table.user?_define name inline params required body)
  cases kept
  exact ⟨f, by rw [find?_of_lower own,find?,found]; rfl, rfl⟩

theorem takesArguments_define (table : FunctionTable) (name callee : String) (inline : Bool) (params : List String)
    (required : Nat) (body : Tree) :
    Shape.takesArguments (table.define name inline params required body).2 callee =
      if callee.toLower = name.toLower then !params.isEmpty else Shape.takesArguments table callee := by
  by_cases own : callee.toLower = name.toLower
  · obtain ⟨f,found,kept⟩ := table.find?_define_own own inline params required body
    rw [if_pos own,Shape.takesArguments,found]
    exact congrArg (fun names : List String => !names.isEmpty) kept
  · rw [if_neg own,Shape.takesArguments,find?_define table own,Shape.takesArguments]

theorem isSome_find?_define (table : FunctionTable) (name callee : String) (inline : Bool) (params : List String)
    (required : Nat) (body : Tree) :
    ((table.define name inline params required body).2.find? callee).isSome =
      (decide (callee.toLower = name.toLower) || (table.find? callee).isSome) := by
  by_cases own : callee.toLower = name.toLower
  · obtain ⟨f,found,-⟩ := table.find?_define_own own inline params required body
    simp [found,own]
  · simp [find?_define table own,own]

theorem takesArguments_of_find? (same : other.find? name = table.find? name) :
    Shape.takesArguments other name = Shape.takesArguments table name := by
  rw [Shape.takesArguments,same,Shape.takesArguments]

end FunctionTable

namespace Read
open CalcBasic.Action

/-- The tables know the same functions and agree on which of the given names take
arguments without parentheses. -/
structure Agree (names : String → Prop) (symbols other : Symbols) : Prop where
  known : ∀ name, (symbols.functions.find? name).isSome = (other.functions.find? name).isSome
  takes : ∀ name, names name.toLower →
    Shape.takesArguments symbols.functions name = Shape.takesArguments other.functions name

/-- Functions that are known stay known, and but for those that are defined nothing
changes. -/
structure Kept (defined : String → Prop) (before after : Symbols) : Prop where
  known : ∀ name, (before.functions.find? name).isSome = true → (after.functions.find? name).isSome = true
  others : ∀ name, ¬ defined name.toLower → after.functions.find? name = before.functions.find? name

section Tables

variable {names defined : String → Prop} {before after symbols other : Symbols}

theorem Agree.refl (names : String → Prop) (symbols : Symbols) : Agree names symbols symbols :=
  ⟨fun _ => rfl, fun _ _ => rfl⟩

theorem Agree.of_functions (agree : Agree names symbols other) {symbols' other' : Symbols}
    (first : symbols'.functions = symbols.functions) (second : other'.functions = other.functions) :
    Agree names symbols' other' :=
  ⟨by rw [first,second]; exact agree.known, by rw [first,second]; exact agree.takes⟩

theorem Kept.of_functions (same : after.functions = before.functions) : Kept defined before after :=
  ⟨by rw [same]; exact fun _ known => known, by rw [same]; exact fun _ _ => rfl⟩

theorem Kept.trans {middle : Symbols} (first : Kept defined before middle) (second : Kept defined middle after) :
    Kept defined before after :=
  ⟨fun name known => second.known name (first.known name known),
    fun name apart => (second.others name apart).trans (first.others name apart)⟩

/-- Where a definition is read from agreeing tables, only its parameters matter. -/
theorem Agree.define (agree : Agree names symbols other) (name : String) (inline : Bool) (params : List String)
    {required required' : Nat} {body body' : Tree} :
    Agree names (symbols.define name inline params required body).2 (other.define name inline params required' body').2 := by
  constructor
  · intro callee
    simp only [Symbols.define,FunctionTable.isSome_find?_define,agree.known]
  · intro callee isNamed
    simp only [Symbols.define,FunctionTable.takesArguments_define,agree.takes callee isNamed]

theorem Kept.define (symbols : Symbols) {name : String} (isDefined : defined name.toLower) (inline : Bool)
    (params : List String) (required : Nat) (body : Tree) :
    Kept defined symbols (symbols.define name inline params required body).2 := by
  constructor
  · intro callee known
    simp only [Symbols.define,FunctionTable.isSome_find?_define,known,Bool.or_true]
  · intro callee apart
    have other : callee.toLower ≠ name.toLower := fun own => apart (own ▸ isDefined)
    exact FunctionTable.find?_define symbols.functions other inline params required body

/-- Tables that agree on its bare names give a token list one shape. -/
theorem Agree.called? (agree : Agree names symbols other) {first : Token} {rest : List Token}
    (callable : first.isCallable = true) (bare : ∀ name ∈ Token.bareNames (first :: rest), names name) :
    Shape.called? symbols.functions first rest = Shape.called? other.functions first rest := by
  cases rest with
  | nil => rfl
  | cons next more =>
    have same : (Shape.startsOperand next && Shape.takesArguments symbols.functions first.text) =
        (Shape.startsOperand next && Shape.takesArguments other.functions first.text) := by
      cases starts : Shape.startsOperand next with
      | false => rfl
      | true =>
        have isBare : first.text.toLower ∈ Token.bareNames (first :: next :: more) := by
          rw [Token.bareNames_cons_cons]
          simp [Token.bareName?,callable,starts]
        rw [agree.takes first.text (bare _ isBare)]
    rw [Shape.called?,Shape.called?,same]

theorem Agree.shape (agree : Agree names symbols other) {tokens : List Token} (bare : ∀ name ∈ Token.bareNames tokens, names name) :
    Shape.of symbols.functions tokens = Shape.of other.functions tokens := by
  cases tokens with
  | nil => rfl
  | cons first rest =>
    have same : Shape.namedCall? symbols.functions first rest = Shape.namedCall? other.functions first rest := by
      unfold Shape.namedCall?
      rw [agree.known]
      split
      · rename_i found
        have identifier : first.tag = .identifier := by simp at found; exact found.1
        exact agree.called? (by simp [Token.isCallable,identifier]) bare
      · rfl
    simp only [Shape.of,same]

end Tables

end Read
end CalcBasic
