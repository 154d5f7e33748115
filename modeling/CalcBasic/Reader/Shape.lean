import CalcBasic.Brackets
import CalcBasic.Function

/-! How a token list reads as an expression: the shape is found without reading
its parts, and every part is shorter than the list. -/
namespace CalcBasic

inductive Shape where
  | nothing
  /-- A parenthesis around everything; an unclosed one reaches to the end. -/
  | group (bracket : Token) (closed : Bool) (inside : List Token)
  | list (bracket : Token) (closed : Bool) (items : List (List Token))
  | call (name : Token) (arguments : List (List Token))
  | unclosedCall (name bracket : Token)
  | membership (value collection : List Token)
  | range (start : List Token) (inclusive : Bool) (stop : List Token) (step : Option (List Token))
  | operation (left : List Token) (op : Operator) (right : List Token)
  | negative (operand : List Token)
  | positive (operand : List Token)
  | complement (mark : Token) (operand : List Token)
  | word (name : Token)
  | element (name bracket : Token) (closed : Bool) (index : List Token)
  /-- A literal, and whether it is all there is. -/
  | literal (token : Token) (alone : Bool)
  | unknown
  deriving Repr

namespace Shape

variable {part tokens rest : List Token} {first : Token} {functions : FunctionTable} {shape : Shape}

/-- The parts that are expressions themselves. -/
@[simp] def parts : Shape → List (List Token)
  | .group _ _ inside => [inside]
  | .list _ _ items => items
  | .call _ arguments => arguments
  | .membership value collection => [value, collection]
  | .range start _ stop step => start :: stop :: step.toList
  | .operation left _ right => [left, right]
  | .negative operand | .positive operand | .complement _ operand => [operand]
  | .element _ _ _ index => [index]
  | _ => []

def endsOperand (token : Token) : Bool :=
  match token.tag with
  | .identifier | .number | .text | .native | .parenClose | .listClose => true
  | _ => false

def startsOperand (token : Token) : Bool :=
  match token.tag with
  | .identifier | .number | .text | .native | .listOpen => true
  | .math => token.text == "-" || token.text == "+"
  | .literal => token.text == "!"
  | _ => false

/-- The operator a token stands for, if it binds with the given strength. -/
def operatorOf? (strength : Nat) (token : Token) : Option Operator :=
  if token.tag == .math || token.tag == .compare then
    (Operator.ofSymbol? token.text).filter (·.strength == strength)
  else none

/-! ### The forms, each tried on a first token and the rest -/

/-- Brackets around the whole. -/
def enclosed? (first : Token) (rest : List Token) : Option Shape :=
  let shape := fun (closed : Bool) (inside : List Token) =>
    if first.tag = .parenOpen then group first closed inside
    else list first closed ((Brackets.split .delimiter inside).filter fun item => !item.isEmpty)
  if first.tag = .parenOpen || first.tag = .listOpen then
    match Brackets.closing? first rest with
    | none => some (shape false rest)
    | some cut => if cut.after.isEmpty then some (shape true cut.before) else none
  else none

/-- Arguments between commas; nothing at all is no argument. -/
def argumentsOf (tokens : List Token) : List (List Token) :=
  if tokens.isEmpty then [] else Brackets.split .delimiter tokens

/-- Whether a function can be called without parentheses around its arguments. -/
def takesArguments (functions : FunctionTable) (name : String) : Bool :=
  match functions.find? name with
  | some (.builtin f) => f.arity != .exactly [0]
  | some (.user f) => !f.params.isEmpty
  | none => false

/-- A call that is the whole expression: `f`, `f(x, y)` or `f x, y`. -/
def called? (functions : FunctionTable) (name : Token) : List Token → Option Shape
  | [] => some (call name [])
  | next :: rest =>
    if next.tag = .parenOpen then
      match Brackets.closing? next rest with
      | none => some (unclosedCall name next)
      | some cut => if cut.after.isEmpty then some (call name (argumentsOf cut.before)) else none
    else if startsOperand next && takesArguments functions name.text then
      some (call name (argumentsOf (next :: rest)))
    else none

/-- A call of a function that is known by name. -/
def namedCall? (functions : FunctionTable) (first : Token) (rest : List Token) : Option Shape :=
  if first.tag = .identifier && (functions.find? first.text).isSome then
    called? functions first rest
  else none

def membership? (tokens : List Token) : Option Shape :=
  (Brackets.cutFirst (·.isKeyword "in") tokens).map fun cut => membership cut.before cut.after

def range? (tokens : List Token) : Option Shape :=
  (Brackets.cutFirst (·.tag == .range) tokens).map fun cut =>
    let inclusive := cut.token.text == "to"
    match Brackets.cutFirst (·.tag == .rangeStep) cut.after with
    | some inner => range cut.before inclusive inner.before (some inner.after)
    | none => range cut.before inclusive cut.after none

/-- The last operator of a strength splits the expression, so that operators of
one strength group to the left. -/
def operation? (strength : Nat) (tokens : List Token) : Option Shape :=
  (Brackets.cutLast (fun previous token => endsOperand previous && (operatorOf? strength token).isSome)
    tokens).bind fun cut =>
      (operatorOf? strength cut.token).map fun op => operation cut.before op cut.after

def sign? (first : Token) (rest : List Token) : Option Shape :=
  if first.tag = .math && first.text == "-" then some (negative rest)
  else if first.tag = .math && first.text == "+" then some (positive rest)
  else none

/-- What is left when no operator applies. -/
def atom (first : Token) (rest : List Token) : Shape :=
  match first.tag, rest with
  | .literal, _ => if first.text == "!" then complement first rest else unknown
  | .identifier, [] => word first
  | .identifier, bracket :: inside =>
    if bracket.tag = .listOpen then
      match Brackets.closing? bracket inside with
      | none => element first bracket false inside
      | some cut => if cut.after.isEmpty then element first bracket true cut.before else unknown
    else unknown
  | .number, _ | .text, _ | .native, _ => literal first rest.isEmpty
  | _, _ => unknown

/-- The shape of a token list. A leading sign binds looser than a product. -/
def of (functions : FunctionTable) : List Token → Shape
  | [] => nothing
  | first :: rest =>
    let tokens := first :: rest
    (enclosed? first rest <|> namedCall? functions first rest <|> membership? tokens <|>
      range? tokens <|> operation? 0 tokens <|> operation? 1 tokens <|> operation? 2 tokens <|>
      operation? 3 tokens <|> sign? first rest <|> operation? 4 tokens <|>
      operation? 5 tokens).getD (atom first rest)

/-! ### Parts are shorter -/

/-- All parts are shorter than `size`. -/
def Below (size : Nat) (shape : Shape) : Prop := ∀ part ∈ shape.parts, part.length < size

attribute [local simp] Below parts

theorem length_le_of_mem_argumentsOf (isPart : part ∈ argumentsOf tokens) : part.length ≤ tokens.length := by
  unfold argumentsOf at isPart
  split at isPart
  · contradiction
  · exact Brackets.length_le_of_mem_split isPart

theorem enclosed?_below (found : enclosed? first rest = some shape) : shape.Below (rest.length + 1) := by
  have inside : ∀ closed tokens, tokens.length ≤ rest.length →
      (if first.tag = .parenOpen then group first closed tokens
        else list first closed
          ((Brackets.split .delimiter tokens).filter fun item => !item.isEmpty)).Below
        (rest.length + 1) := by
    intro closed tokens short part isPart
    split at isPart
    · simp only [parts, List.mem_singleton] at isPart
      subst isPart; omega
    · simp only [parts, List.mem_filter] at isPart
      have := Brackets.length_le_of_mem_split isPart.1
      omega
  simp only [enclosed?] at found
  split at found
  · split at found
    · simp only [Option.some.injEq] at found; subst found; exact inside _ _ (Nat.le_refl _)
    · rename_i cut closed
      split at found
      · simp only [Option.some.injEq] at found; subst found
        exact inside _ _ (Nat.le_of_lt (Cut.sides_shorter (Brackets.whole_of_closing? closed)).1)
      · contradiction
  · contradiction

theorem called?_below {name : Token} (found : called? functions name rest = some shape) : shape.Below (rest.length + 1) := by
  unfold called? at found
  split at found
  · simp only [Option.some.injEq] at found; subst found; intro part isPart; contradiction
  · rename_i next rest
    split at found
    · split at found
      · simp only [Option.some.injEq] at found; subst found; intro part isPart; contradiction
      · rename_i cut closed
        split at found
        · simp only [Option.some.injEq] at found; subst found
          intro part isPart
          have short := length_le_of_mem_argumentsOf isPart
          have := Cut.sides_shorter (Brackets.whole_of_closing? closed)
          simp only [List.length_cons]; omega
        · contradiction
    · split at found
      · simp only [Option.some.injEq] at found; subst found
        intro part isPart
        have := length_le_of_mem_argumentsOf isPart
        omega
      · contradiction

theorem membership?_below (found : membership? tokens = some shape) : shape.Below tokens.length := by
  obtain ⟨cut, isCut, rfl⟩ := Option.map_eq_some_iff.mp found
  have short := Cut.sides_shorter (Brackets.whole_of_cutFirst isCut)
  simp [short]

theorem range?_below (found : range? tokens = some shape) : shape.Below tokens.length := by
  obtain ⟨cut, isCut, rfl⟩ := Option.map_eq_some_iff.mp found
  have short := Cut.sides_shorter (Brackets.whole_of_cutFirst isCut)
  split
  · rename_i inner isInner
    have shorter := Cut.sides_shorter (Brackets.whole_of_cutFirst isInner)
    simp; omega
  · simp [short]

theorem operation?_below {strength : Nat} (found : operation? strength tokens = some shape) : shape.Below tokens.length := by
  obtain ⟨cut, isCut, isShape⟩ := Option.bind_eq_some_iff.mp found
  obtain ⟨op, _, rfl⟩ := Option.map_eq_some_iff.mp isShape
  have short := Cut.sides_shorter (Brackets.whole_of_cutLast isCut)
  simp [short]

theorem sign?_below (found : sign? first rest = some shape) : shape.Below (rest.length + 1) := by
  unfold sign? at found
  split at found
  · simp only [Option.some.injEq] at found; subst found; simp
  · split at found
    · simp only [Option.some.injEq] at found; subst found; simp
    · contradiction

theorem atom_below (first : Token) (rest : List Token) : (atom first rest).Below (rest.length + 1) := by
  unfold atom
  split
  · split <;> simp
  · simp
  · split
    · split
      · simp only [Below, parts, List.mem_singleton, forall_eq, List.length_cons]; omega
      · rename_i cut closed
        have short := Cut.sides_shorter (Brackets.whole_of_closing? closed)
        split
        · simp; omega
        · simp
    · simp
  all_goals simp

theorem of_cases {holds : Shape → Prop}
    (enclosed : ∀ {shape}, enclosed? first rest = some shape → holds shape)
    (called : ∀ {shape}, called? functions first rest = some shape → holds shape)
    (membership : ∀ {shape}, membership? (first :: rest) = some shape → holds shape)
    (range : ∀ {shape}, range? (first :: rest) = some shape → holds shape)
    (operation : ∀ {level shape}, operation? level (first :: rest) = some shape → holds shape)
    (sign : ∀ {shape}, sign? first rest = some shape → holds shape) (other : holds (atom first rest)) :
    holds (of functions (first :: rest)) := by
  simp only [of]
  cases found : (enclosed? first rest <|> namedCall? functions first rest <|>
      membership? (first :: rest) <|> range? (first :: rest) <|> operation? 0 (first :: rest) <|>
      operation? 1 (first :: rest) <|> operation? 2 (first :: rest) <|>
      operation? 3 (first :: rest) <|> sign? first rest <|> operation? 4 (first :: rest) <|>
      operation? 5 (first :: rest)) with
  | none => exact other
  | some shape =>
    simp only [Option.orElse_eq_orElse, Option.orElse_eq_or, Option.or_eq_some_iff] at found
    rcases found with found | ⟨_, found | ⟨_, found | ⟨_, found | ⟨_, found | ⟨_, found |
      ⟨_, found | ⟨_, found | ⟨_, found | ⟨_, found | ⟨_, found⟩⟩⟩⟩⟩⟩⟩⟩⟩⟩
    · exact enclosed found
    · unfold namedCall? at found
      split at found
      · exact called found
      · contradiction
    · exact membership found
    · exact range found
    · exact operation found
    · exact operation found
    · exact operation found
    · exact operation found
    · exact sign found
    · exact operation found
    · exact operation found

theorem length_lt_of_mem_parts (isPart : part ∈ (of functions tokens).parts) : part.length < tokens.length := by
  cases tokens with
  | nil => contradiction
  | cons first rest =>
    suffices below : (of functions (first :: rest)).Below (rest.length + 1) from below part isPart
    exact of_cases enclosed?_below called?_below membership?_below range?_below operation?_below sign?_below
      (atom_below first rest)

end Shape
end CalcBasic
