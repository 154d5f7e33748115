import CalcBasic.Proofs.Nesting
import CalcBasic.Proofs.ShapeReading
import CalcBasic.Token.Lexeme
import Mathlib

/-! Expressions as they are written, and that they are read back. A written form
has parentheses where the grouping needs them, and any number of others. -/
namespace CalcBasic
open List
open Shape (range? of)

def Operator.symbol : Operator → String
  | .arith op => op.symbol
  | .compare op => op.symbol

/-- Groups of tokens with a delimiter between any two of them. -/
inductive Delimited : List (List Token) → List Token → Prop
  | nil : Delimited [] []
  | last (group : List Token) : Delimited [group] group
  | cons (group : List Token) {comma : Token} {next : List Token} {groups : List (List Token)}
      {tokens : List Token} (isComma : comma.tag = .delimiter)
      (others : Delimited (next :: groups) tokens) :
      Delimited (group :: next :: groups) (group ++ comma :: tokens)

/-- `Written functions bound tokens tree`: the tokens write the tree, and every
operator outside brackets binds at least as tightly as `bound`. A left operand
may be of the strength of its operator, a right operand binds more tightly. -/
inductive Written (functions : FunctionTable) : Nat → List Token → Tree → Prop
  | variable {bound : Nat} {name : Token} (isWord : name.tag = .identifier)
      (free : functions.find? name.text = none) (notTrue : name.spells "true" = false)
      (notFalse : name.spells "false" = false) :
      Written functions bound [name] (.var name.text.toLower)
  | boolean {bound : Nat} {name : Token} (value : Bool) (isWord : name.tag = .identifier)
      (free : functions.find? name.text = none)
      (spelled : name.spells (if value then "true" else "false") = true) :
      Written functions bound [name] (.boolean value)
  | number {bound : Nat} {token : Token} {value : Float} (isNumber : token.tag = .number)
      (denotes : Number.ofLiteral token.text = .ok value) :
      Written functions bound [token] (.number value)
  | text {bound : Nat} {token : Token} (isText : token.tag = .text) :
      Written functions bound [token] (.text (Read.unquoted token.text))
  | native {bound : Nat} {token : Token} (isNative : token.tag = .native) :
      Written functions bound [token] (.native token.text)
  | list {bound : Nat} {opening closing : Token} {items : List (List Token × Tree)}
      {inside : List Token} (opens : opening.tag = .listOpen) (closes : closing.tag = .listClose)
      (joined : Delimited (items.map Prod.fst) inside)
      (each : ∀ item ∈ items, Written functions 0 item.1 item.2) :
      Written functions bound (opening :: (inside ++ [closing])) (.list (items.map Prod.snd))
  | complement {bound : Nat} {mark : Token} {operand : List Token} {tree : Tree}
      (isMark : mark.tag = .literal) (spelled : mark.text = "!")
      (inner : Written functions atomStrength operand tree) :
      Written functions bound (mark :: operand) (Tree.callOf "not" [tree] mark.line)
  | element {bound : Nat} {name opening closing : Token} {index : List Token} {tree : Tree}
      (isWord : name.tag = .identifier) (free : functions.find? name.text = none)
      (opens : opening.tag = .listOpen) (closes : closing.tag = .listClose)
      (inner : Written functions 0 index tree) :
      Written functions bound (name :: opening :: (index ++ [closing]))
        (.element (.var name.text.toLower) tree)
  | call {bound : Nat} {name opening closing : Token} {arguments : List (List Token × Tree)}
      {inside : List Token} (isWord : name.tag = .identifier)
      (known : (functions.find? name.text).isSome = true)
      (opens : opening.tag = .parenOpen) (closes : closing.tag = .parenClose)
      (joined : Delimited (arguments.map Prod.fst) inside)
      (each : ∀ argument ∈ arguments, Written functions 0 argument.1 argument.2) :
      Written functions bound (name :: opening :: (inside ++ [closing]))
        (Tree.callOf name.text (arguments.map Prod.snd) name.line)
  | operation {bound : Nat} {sign : Token} {left right : List Token} {first second : Tree}
      (op : Operator) (fits : bound ≤ op.strength)
      (isSign : sign.tag = .math ∨ sign.tag = .compare) (spelled : sign.text = op.symbol)
      (before : Written functions op.strength left first)
      (after : Written functions (op.strength + 1) right second) :
      Written functions bound (left ++ sign :: right) (Read.operationTree first op second)
  | group {bound : Nat} {opening closing : Token} {inside : List Token} {tree : Tree}
      (opens : opening.tag = .parenOpen) (closes : closing.tag = .parenClose)
      (inner : Written functions 0 inside tree) :
      Written functions bound (opening :: (inside ++ [closing])) tree

namespace Written
open Brackets Shape

variable {strength : Nat} {mark opening closing name token sign : Token} {operand left right tokens inside : List Token}
  {β α : Type} {groups : List (List Token)} {tree : Tree}

/-- What finding the shape of a written form depends on. -/
structure Facts (functions : FunctionTable) (bound : Nat) (tokens : List Token) : Prop where
  nested : Nested tokens
  tags : ∀ token ∈ tokens, token.tag ≠ .keyword ∧ token.tag ≠ .range ∧ token.tag ≠ .terminator
  outside : ∀ token ∈ outer tokens, token.tag ≠ .delimiter ∧
    ∀ strength < bound, operatorOf? strength token = none
  ends : ∃ front last, tokens = front ++ [last] ∧ endsOperand last = true
  /-- No form that takes the first token for the start of a whole fits a list that goes on. -/
  starts : ∃ first rest, tokens = first :: rest ∧ first.tag ≠ .math ∧
    ∀ more, more ≠ [] → enclosed? first (rest ++ more) = none ∧
      namedCall? functions first (rest ++ more) = none

variable {functions : FunctionTable} {bound : Nat}

theorem operatorOf?_symbol (op : Operator) (isSign : sign.tag = .math ∨ sign.tag = .compare) (spelled : sign.text = op.symbol)
    (strength : Nat) :
    operatorOf? strength sign = if op.strength = strength then some op else none := by
  have marked : (sign.tag == .math || sign.tag == .compare) = true := by
    rcases isSign with tag | tag <;> simp [tag]
  have symbol : Operator.ofSymbol? op.symbol = some op := by
    rcases op with op | op <;> cases op <;> decide
  simp only [operatorOf?,marked,if_true,spelled,symbol,Option.filter_some]
  by_cases same : op.strength = strength <;> simp [same]

theorem operatorOf?_tag (notMath : token.tag ≠ .math) (notCompare : token.tag ≠ .compare)
    (strength : Nat) : operatorOf? strength token = none := by
  simp [operatorOf?,notMath,notCompare]

/-- No operator binds as tightly as what needs no parentheses. -/
theorem operatorOf?_atom (tight : atomStrength ≤ strength) (token : Token) : operatorOf? strength token = none := by
  have below (op : Operator) : op.strength < atomStrength := by
    rcases op with op | op <;> cases op <;> decide
  unfold operatorOf?
  split
  · rw [Option.filter_eq_none_iff]
    intro op _
    have := below op
    simp only [beq_iff_eq]
    omega
  · rfl

/-! ### Facts of the forms -/

theorem facts_single (tag : token.tag = .identifier ∧ functions.find? token.text = none ∨ token.tag = .number ∨
      token.tag = .text ∨ token.tag = .native) : Facts functions bound [token] := by
  have opens : token.tag.isOpen = false := by rcases tag with ⟨tag,_⟩ | tag | tag | tag <;> rw [tag] <;> rfl
  have closes : token.tag.isClose = false := by rcases tag with ⟨tag,_⟩ | tag | tag | tag <;> rw [tag] <;> rfl
  refine ⟨.single opens closes,?_,?_,⟨[],token,rfl,?_⟩,⟨token,[],rfl,?_,?_⟩⟩
  · rintro other member
    rw [mem_singleton.mp member]
    rcases tag with ⟨tag,_⟩ | tag | tag | tag <;> simp [tag]
  · intro other member
    rw [outer_single,mem_singleton] at member
    subst member
    refine ⟨?_,fun strength _ => operatorOf?_tag ?_ ?_ strength⟩ <;>
      rcases tag with ⟨tag,_⟩ | tag | tag | tag <;> simp [tag]
  · rcases tag with ⟨tag,_⟩ | tag | tag | tag <;> simp [endsOperand,tag]
  · rcases tag with ⟨tag,_⟩ | tag | tag | tag <;> simp [tag]
  · intro more _
    rcases tag with ⟨tag,free⟩ | tag | tag | tag
    · simp [enclosed?,namedCall?,tag,free]
    · simp [enclosed?,namedCall?,tag]
    · simp [enclosed?,namedCall?,tag]
    · simp [enclosed?,namedCall?,tag]

theorem facts_enclosed (kind : opening.tag = .parenOpen ∨ opening.tag = .listOpen)
    (matched : opening.tag.closer? = some closing.tag) (nested : Nested inside)
    (tags : ∀ token ∈ inside, token.tag ≠ .keyword ∧ token.tag ≠ .range ∧ token.tag ≠ .terminator) :
    Facts functions bound (opening :: (inside ++ [closing])) := by
  have closes : closing.tag = .parenClose ∨ closing.tag = .listClose := by
    rcases kinds matched with ⟨_,last⟩ | ⟨first,_⟩ | ⟨_,last⟩
    · exact .inl last
    · rcases kind with tag | tag <;> simp [tag] at first
    · exact .inr last
  refine ⟨.enclosed matched nested,?_,?_,⟨opening :: inside,closing,rfl,?_⟩,⟨opening,_,rfl,?_,?_⟩⟩
  · intro token member
    simp only [mem_cons,mem_append,not_mem_nil,or_false] at member
    rcases member with rfl | member | rfl
    · rcases kind with tag | tag <;> simp [tag]
    · exact tags token member
    · rcases closes with tag | tag <;> simp [tag]
  · intro token member
    rw [outer_enclosed matched nested] at member
    simp only [mem_cons,not_mem_nil,or_false] at member
    rcases member with rfl | rfl
    · refine ⟨?_,fun strength _ => operatorOf?_tag ?_ ?_ strength⟩ <;>
        rcases kind with tag | tag <;> simp [tag]
    · refine ⟨?_,fun strength _ => operatorOf?_tag ?_ ?_ strength⟩ <;>
        rcases closes with tag | tag <;> simp [tag]
  · rcases closes with tag | tag <;> simp [endsOperand,tag]
  · rcases kind with tag | tag <;> simp [tag]
  · intro more goesOn
    have cut := closing?_nested more matched nested
    constructor
    · rw [append_assoc,singleton_append]
      rcases kind with tag | tag <;> simp [enclosed?,tag,cut,goesOn]
    · rcases kind with tag | tag <;> simp [namedCall?,tag]

theorem facts_named (isWord : name.tag = .identifier) (kind : opening.tag = .parenOpen ∧ closing.tag = .parenClose ∨
      opening.tag = .listOpen ∧ closing.tag = .listClose ∧ functions.find? name.text = none) (nested : Nested inside)
    (tags : ∀ token ∈ inside, token.tag ≠ .keyword ∧ token.tag ≠ .range ∧ token.tag ≠ .terminator) :
    Facts functions bound (name :: opening :: (inside ++ [closing])) := by
  have opens : opening.tag = .parenOpen ∨ opening.tag = .listOpen := by
    rcases kind with ⟨tag,_⟩ | ⟨tag,_⟩ <;> simp [tag]
  have matched : opening.tag.closer? = some closing.tag := by
    rcases kind with ⟨first,last⟩ | ⟨first,last,_⟩ <;> rw [first,last] <;> rfl
  have inner : Facts functions bound (opening :: (inside ++ [closing])) :=
    facts_enclosed opens matched nested tags
  have notOpen : name.tag.isOpen = false := by rw [isWord]; rfl
  have notClose : name.tag.isClose = false := by rw [isWord]; rfl
  obtain ⟨front,last,whole,ends⟩ := inner.ends
  refine ⟨.token notOpen notClose inner.nested,?_,?_,⟨name :: front,last,by rw [whole]; rfl,ends⟩,
    ⟨name,_,rfl,by simp [isWord],?_⟩⟩
  · intro token member
    rcases mem_cons.mp member with rfl | member
    · simp [isWord]
    · exact inner.tags token member
  · intro token member
    rw [outer_cons notOpen] at member
    rcases mem_cons.mp member with rfl | member
    · exact ⟨by simp [isWord],fun strength _ => operatorOf?_tag (by simp [isWord]) (by simp [isWord]) strength⟩
    · exact inner.outside token member
  · intro more goesOn
    have cut := closing?_nested more matched nested
    refine ⟨by simp [enclosed?,isWord],?_⟩
    simp only [cons_append,append_assoc]
    rcases kind with ⟨first,_⟩ | ⟨_,_,free⟩
    · simp [namedCall?,called?,first,cut,goesOn]
    · simp [namedCall?,free]

theorem facts_complement (isMark : mark.tag = .literal) (inner : Facts functions atomStrength operand) :
    Facts functions bound (mark :: operand) := by
  have notOpen : mark.tag.isOpen = false := by rw [isMark]; rfl
  obtain ⟨front,last,whole,ends⟩ := inner.ends
  refine ⟨.token notOpen (by rw [isMark]; rfl) inner.nested,?_,?_,
    ⟨mark :: front,last,by rw [whole]; rfl,ends⟩,⟨mark,operand,rfl,by simp [isMark],?_⟩⟩
  · intro token member
    rcases mem_cons.mp member with rfl | member
    · simp [isMark]
    · exact inner.tags token member
  · intro token member
    rw [outer_cons notOpen] at member
    rcases mem_cons.mp member with rfl | member
    · exact ⟨by simp [isMark],fun strength _ => operatorOf?_tag (by simp [isMark]) (by simp [isMark]) strength⟩
    · obtain ⟨tag,free⟩ := inner.outside token member
      refine ⟨tag,fun strength _ => ?_⟩
      rcases Nat.lt_or_ge strength atomStrength with loose | tight
      · exact free strength loose
      · exact operatorOf?_atom tight token
  · intro more _
    simp [enclosed?,namedCall?,isMark]

theorem facts_operation (op : Operator) (fits : bound ≤ op.strength) (isSign : sign.tag = .math ∨ sign.tag = .compare)
    (spelled : sign.text = op.symbol) (before : Facts functions op.strength left)
    (after : Facts functions (op.strength + 1) right) :
    Facts functions bound (left ++ sign :: right) := by
  have notOpen : sign.tag.isOpen = false := by rcases isSign with tag | tag <;> rw [tag] <;> rfl
  have notClose : sign.tag.isClose = false := by rcases isSign with tag | tag <;> rw [tag] <;> rfl
  obtain ⟨front,last,whole,ends⟩ := after.ends
  obtain ⟨first,rest,starts,notMath,unfit⟩ := before.starts
  refine ⟨before.nested.append (.token notOpen notClose after.nested),?_,?_,
    ⟨left ++ sign :: front,last,by rw [whole]; simp,ends⟩,
    ⟨first,rest ++ sign :: right,by rw [starts]; rfl,notMath,?_⟩⟩
  · intro token member
    rcases mem_append.mp member with member | member
    · exact before.tags token member
    · rcases mem_cons.mp member with rfl | member
      · rcases isSign with tag | tag <;> simp [tag]
      · exact after.tags token member
  · intro token member
    rw [outer_append before.nested,outer_cons notOpen] at member
    rcases mem_append.mp member with member | member
    · obtain ⟨tag,free⟩ := before.outside token member
      exact ⟨tag,fun strength less => free strength (Nat.lt_of_lt_of_le less fits)⟩
    · rcases mem_cons.mp member with rfl | member
      · refine ⟨by rcases isSign with tag | tag <;> simp [tag],fun strength less => ?_⟩
        have tighter : op.strength ≠ strength := by omega
        rw [operatorOf?_symbol op isSign spelled,if_neg tighter]
      · obtain ⟨tag,free⟩ := after.outside token member
        exact ⟨tag,fun strength less => free strength (by omega)⟩
  · intro more _
    have unfit := unfit (sign :: right ++ more) (by simp)
    simpa using unfit

/-! ### Groups between delimiters -/

theorem delimited_facts (joined : Delimited groups tokens) (each : ∀ group ∈ groups, Facts functions 0 group) : Nested tokens ∧
      ∀ token ∈ tokens, token.tag ≠ .keyword ∧ token.tag ≠ .range ∧ token.tag ≠ .terminator := by
  induction joined with
  | nil => exact ⟨.nil,by simp⟩
  | last group =>
    have facts := each group (by simp)
    exact ⟨facts.nested,facts.tags⟩
  | @cons group comma next groups tokens isComma _ ih =>
    have facts := each group (by simp)
    obtain ⟨nested,tags⟩ := ih fun other member => each other (by simp [member])
    refine ⟨facts.nested.append (.token (by rw [isComma]; rfl) (by rw [isComma]; rfl) nested),?_⟩
    intro token member
    rcases mem_append.mp member with member | member
    · exact facts.tags token member
    · rcases mem_cons.mp member with rfl | member
      · simp [isComma]
      · exact tags token member

/-- Splitting gives the groups back; nothing at all is one empty group. -/
theorem split_delimited (joined : Delimited groups tokens) (each : ∀ group ∈ groups, Facts functions 0 group) :
    split .delimiter tokens = if groups = [] then [[]] else groups := by
  induction joined with
  | nil => rfl
  | last group =>
    have facts := each group (by simp)
    simpa using split_single fun token member => (facts.outside token member).1
  | @cons group comma next groups tokens isComma _ ih =>
    have facts := each group (by simp)
    have rest := ih fun other member => each other (by simp [member])
    rw [split_cons facts.nested (fun token member => (facts.outside token member).1) isComma
      (by rw [isComma]; rfl) (by rw [isComma]; rfl),rest]
    simp

theorem Facts.ne_nil (facts : Facts functions bound tokens) : tokens ≠ [] := by
  obtain ⟨first,rest,whole,_⟩ := facts.starts
  simp [whole]

theorem listItems_delimited (joined : Delimited groups tokens) (each : ∀ group ∈ groups, Facts functions 0 group) :
    ((split .delimiter tokens).filter fun item => !item.isEmpty) = groups := by
  rw [split_delimited joined each]
  split
  · rename_i none
    simp [none]
  · rw [filter_eq_self]
    intro group member
    simpa using (each group member).ne_nil

theorem argumentsOf_delimited (joined : Delimited groups tokens) (each : ∀ group ∈ groups, Facts functions 0 group) :
    argumentsOf tokens = groups := by
  cases joined with
  | nil => rfl
  | last =>
    have filled := (each tokens (by simp)).ne_nil
    have groups := split_delimited (.last tokens) each
    simpa [argumentsOf,filled] using groups
  | cons group isComma others =>
    have groups := split_delimited (.cons group isComma others) each
    simpa [argumentsOf] using groups

/-! ### Shapes of the forms -/

theorem no_membership (tags : ∀ token ∈ tokens, token.tag ≠ .keyword ∧ token.tag ≠ .range ∧ token.tag ≠ .terminator) :
    membership? tokens = none := by
  rw [membership?,cutFirst_eq_none]
  · rfl
  · intro token member
    simp [Token.isKeyword,(tags token (mem_of_mem_outer member)).1]

theorem no_range (tags : ∀ token ∈ tokens, token.tag ≠ .keyword ∧ token.tag ≠ .range ∧ token.tag ≠ .terminator) :
    range? tokens = none := by
  rw [range?,cutFirst_eq_none]
  · rfl
  · intro token member
    simp [(tags token (mem_of_mem_outer member)).2.1]

theorem no_operation (outside : ∀ token ∈ outer tokens, operatorOf? strength token = none) :
    operation? strength tokens = none := by
  rw [operation?,cutLast_eq_none]
  · rfl
  · intro token member previous
    simp [outside token member]

theorem of_atom {first : Token} {rest : List Token} (whole : enclosed? first rest = none)
    (named : namedCall? functions first rest = none) (notMath : first.tag ≠ .math)
    (facts : Facts functions atomStrength (first :: rest)) :
    of functions (first :: rest) = atom first rest := by
  have noOperation : ∀ strength < atomStrength, operation? strength (first :: rest) = none :=
    fun strength loose => no_operation fun token member => (facts.outside token member).2 strength loose
  have noSign : sign? first rest = none := by simp [sign?,notMath]
  simp [of,whole,named,no_membership facts.tags,no_range facts.tags,noSign,
    noOperation 0 (by decide),noOperation 1 (by decide),noOperation 2 (by decide),
    noOperation 3 (by decide),noOperation 4 (by decide),noOperation 5 (by decide)]

/-- The last operator of the loosest strength is the root, whatever brackets and
tighter operators stand around it. -/
theorem of_operation (op : Operator) (isSign : sign.tag = .math ∨ sign.tag = .compare) (spelled : sign.text = op.symbol)
    (before : Facts functions op.strength left) (after : Facts functions (op.strength + 1) right) :
    of functions (left ++ sign :: right) = .operation left op right := by
  have facts : Facts functions op.strength (left ++ sign :: right) :=
    facts_operation op (Nat.le_refl _) isSign spelled before after
  obtain ⟨front,previous,isLeft,ends⟩ := before.ends
  obtain ⟨first,rest,starts,notMath,unfit⟩ := before.starts
  obtain ⟨whole,named⟩ := unfit (sign :: right) (by simp)
  have operator (strength : Nat) := operatorOf?_symbol op isSign spelled strength
  have looser : ∀ strength < op.strength, operation? strength (left ++ sign :: right) = none :=
    fun strength loose => no_operation fun token member => (facts.outside token member).2 strength loose
  have found : operation? op.strength (left ++ sign :: right) = some (.operation left op right) := by
    have cut : cutLast (fun previous token => endsOperand previous && (operatorOf? op.strength token).isSome)
        (front ++ [previous] ++ sign :: right) = some ⟨front ++ [previous], sign, right⟩ := by
      apply cutLast_eq_some (isLeft ▸ before.nested)
      · rcases isSign with tag | tag <;> rw [tag] <;> rfl
      · rcases isSign with tag | tag <;> rw [tag] <;> rfl
      · simp [ends,operator]
      · intro token member _
        simp [(after.outside token member).2 op.strength (by omega)]
    rw [operation?,isLeft,cut]
    simp [operator]
  have noSign : sign? first (rest ++ sign :: right) = none := by simp [sign?,notMath]
  have below : op.strength < atomStrength := by rcases op with op | op <;> cases op <;> decide
  -- All that is left is to try the strengths in turn.
  generalize op.strength = strength at looser found below
  rw [starts,cons_append] at looser found facts ⊢
  rcases strength with _ | _ | _ | _ | _ | _ | strength
  rotate_left 6
  · simp only [atomStrength] at below
    omega
  all_goals
    simp [of,whole,named,no_membership facts.tags,no_range facts.tags,noSign,looser,found]

theorem of_word (isWord : name.tag = .identifier) (free : functions.find? name.text = none) :
    of functions [name] = .word name := by
  have facts : Facts functions atomStrength [name] := facts_single (.inl ⟨isWord,free⟩)
  rw [of_atom (by simp [enclosed?,isWord]) (by simp [namedCall?,free]) (by simp [isWord]) facts]
  simp [atom,isWord]

theorem of_literal (tag : token.tag = .number ∨ token.tag = .text ∨ token.tag = .native) :
    of functions [token] = .literal token true := by
  have facts : Facts functions atomStrength [token] := facts_single (.inr tag)
  rcases tag with tag | tag | tag
  all_goals
    rw [of_atom (by simp [enclosed?,tag]) (by simp [namedCall?,tag]) (by simp [tag]) facts]
    simp [atom,tag]

theorem of_list (opens : opening.tag = .listOpen) (closes : closing.tag = .listClose) (joined : Delimited groups inside)
    (each : ∀ group ∈ groups, Facts functions 0 group) :
    of functions (opening :: (inside ++ [closing])) = .list opening true groups := by
  have matched : opening.tag.closer? = some closing.tag := by rw [opens,closes]; rfl
  have cut := closing?_nested [] matched (delimited_facts joined each).1
  simp [of,enclosed?,opens,cut,listItems_delimited joined each]

theorem of_complement (isMark : mark.tag = .literal) (spelled : mark.text = "!")
    (facts : Facts functions atomStrength operand) :
    of functions (mark :: operand) = .complement mark operand := by
  rw [of_atom (by simp [enclosed?,isMark]) (by simp [namedCall?,isMark]) (by simp [isMark])
    (facts_complement isMark facts)]
  simp [atom,isMark,spelled]

theorem of_element {index : List Token} (isWord : name.tag = .identifier) (free : functions.find? name.text = none)
    (opens : opening.tag = .listOpen) (closes : closing.tag = .listClose) (facts : Facts functions 0 index) :
    of functions (name :: opening :: (index ++ [closing])) = .element name opening true index := by
  have matched : opening.tag.closer? = some closing.tag := by rw [opens,closes]; rfl
  have cut := closing?_nested [] matched facts.nested
  rw [of_atom (by simp [enclosed?,isWord]) (by simp [namedCall?,free]) (by simp [isWord])
    (facts_named isWord (.inr ⟨opens,closes,free⟩) facts.nested facts.tags)]
  simp [atom,isWord,opens,cut]

theorem of_call (isWord : name.tag = .identifier) (known : (functions.find? name.text).isSome = true)
    (opens : opening.tag = .parenOpen) (closes : closing.tag = .parenClose) (joined : Delimited groups inside)
    (each : ∀ group ∈ groups, Facts functions 0 group) :
    of functions (name :: opening :: (inside ++ [closing])) = .call name groups := by
  have matched : opening.tag.closer? = some closing.tag := by rw [opens,closes]; rfl
  have cut := closing?_nested [] matched (delimited_facts joined each).1
  simp [of,enclosed?,namedCall?,called?,isWord,known,opens,cut,argumentsOf_delimited joined each]

theorem of_group (opens : opening.tag = .parenOpen) (closes : closing.tag = .parenClose) (facts : Facts functions 0 inside) :
    of functions (opening :: (inside ++ [closing])) = .group opening true inside := by
  have matched : opening.tag.closer? = some closing.tag := by rw [opens,closes]; rfl
  have cut := closing?_nested [] matched facts.nested
  simp [of,enclosed?,opens,cut]

theorem facts_of_written (written : Written functions bound tokens tree) : Facts functions bound tokens := by
  induction written with
  | «variable» isWord free => exact facts_single (.inl ⟨isWord,free⟩)
  | boolean _ isWord free => exact facts_single (.inl ⟨isWord,free⟩)
  | number isNumber => exact facts_single (.inr (.inl isNumber))
  | text isText => exact facts_single (.inr (.inr (.inl isText)))
  | native isNative => exact facts_single (.inr (.inr (.inr isNative)))
  | list opens closes joined _ ih =>
    obtain ⟨nested,tags⟩ := delimited_facts joined (forall_mem_map.mpr ih)
    exact facts_enclosed (.inr opens) (by rw [opens,closes]; rfl) nested tags
  | complement isMark _ _ ih => exact facts_complement isMark ih
  | element isWord free opens closes _ ih =>
    exact facts_named isWord (.inr ⟨opens,closes,free⟩) ih.nested ih.tags
  | call isWord _ opens closes joined _ ih =>
    obtain ⟨nested,tags⟩ := delimited_facts joined (forall_mem_map.mpr ih)
    exact facts_named isWord (.inl ⟨opens,closes⟩) nested tags
  | operation op fits isSign spelled _ _ before after =>
    exact facts_operation op fits isSign spelled before after
  | group opens closes _ ih =>
    exact facts_enclosed (.inl opens) (by rw [opens,closes]; rfl) ih.nested ih.tags

theorem facts_of_each {items : List (List Token × Tree)}
    (each : ∀ item ∈ items, Written functions 0 item.1 item.2) :
    ∀ group ∈ items.map Prod.fst, Facts functions 0 group :=
  forall_mem_map.mpr fun item member => facts_of_written (each item member)

/-! ### Reading the forms -/

/-- The action returns the value, leaves the functions alone and makes no remark. -/
def Gives {α : Type} (functions : FunctionTable) (action : Read α) (value : α) : Prop :=
  ∀ symbols : Symbols, symbols.functions = functions → ∃ after,
    Action.outcome action symbols = (.ok value, after) ∧ after.functions = functions ∧
      after.diagnostics = symbols.diagnostics

theorem gives_pure (value : α) : Gives functions (pure value) value :=
  fun symbols same => ⟨symbols,Action.outcome_pure value symbols,same,rfl⟩

theorem gives_bind {first : Read α} {next : α → Read β} {value : α} {result : β} (start : Gives functions first value)
    (continued : Gives functions (next value) result) :
    Gives functions (first >>= next) result := by
  intro symbols same
  obtain ⟨middle,done,known,quiet⟩ := start symbols same
  obtain ⟨after,finished,unchanged,silent⟩ := continued middle known
  exact ⟨after,by rw [Action.outcome_bind_ok done,finished],unchanged,silent.trans quiet⟩

theorem gives_modify {change : Symbols → Symbols}
    (functions_same : ∀ symbols, (change symbols).functions = symbols.functions)
    (diagnostics_same : ∀ symbols, (change symbols).diagnostics = symbols.diagnostics) :
    Gives functions (modify change : Read Unit) () :=
  fun symbols same => ⟨change symbols,Action.outcome_modify change symbols,by rw [functions_same,same],
    diagnostics_same symbols⟩

theorem gives_mapM {step : α → Read β} (items : List (α × β)) (each : ∀ item ∈ items, Gives functions (step item.1) item.2) :
    Gives functions ((items.map Prod.fst).mapM step) (items.map Prod.snd) := by
  induction items with
  | nil => exact gives_pure []
  | cons item rest ih =>
    rw [map_cons,map_cons,mapM_cons]
    exact gives_bind (each item (by simp))
      (gives_bind (ih fun other member => each other (by simp [member])) (gives_pure _))

theorem functions_reference (symbols : Symbols) (name : String) :
    (symbols.reference name).functions = symbols.functions := by
  unfold Symbols.reference
  split <;> rfl

theorem diagnostics_reference (symbols : Symbols) (name : String) :
    (symbols.reference name).diagnostics = symbols.diagnostics := by
  unfold Symbols.reference
  split <;> rfl

theorem gives_reference (name : String) : Gives functions (Read.reference name) name.toLower :=
  gives_bind (gives_modify (functions_reference · name) (diagnostics_reference · name)) (gives_pure _)

theorem gives_callTree (name : Token) (arguments : List Tree) :
    Gives functions (Read.callTree name arguments) (Tree.callOf name.text arguments name.line) := by
  have select : Gives functions (modify fun symbols => symbols.reference selector : Read Unit) () :=
    gives_modify (functions_reference · selector) (diagnostics_reference · selector)
  intro symbols same
  rw [Read.callTree,Action.outcome_bind_ok (Action.outcome_get symbols)]
  cases symbols.functions.user? name.text with
  | none => exact gives_pure _ symbols same
  | some f =>
    cases inlined : f.inline with
    | true =>
      simp only [inlined,if_true]
      exact gives_pure _ symbols same
    | false =>
      simp only [inlined,Bool.false_eq_true,if_false]
      exact gives_bind select (gives_pure (Tree.callOf name.text arguments name.line)) symbols same

variable (markUnknown : Bool)

theorem gives_expression_of_shape {shape : Shape} (facts : Facts functions bound tokens)
    (isShape : of functions tokens = shape) (given : Gives functions (Read.ofShape markUnknown tokens shape) tree) :
    Gives functions (Read.expression markUnknown tokens) tree := by
  have all : Read.upToTerminator tokens = tokens := by
    rw [Read.upToTerminator,takeWhile_eq_self_iff]
    intro token member
    simp [Token.isTerminator,(facts.tags token member).2.2]
  intro symbols same
  rw [Read.outcome_expression,all,same,isShape]
  exact given symbols same

theorem gives_literal
    (value : token.tag = .number ∧ (∃ number, tree = .number number ∧ Number.ofLiteral token.text = .ok number) ∨
      token.tag = .text ∧ tree = .text (Read.unquoted token.text) ∨
      token.tag = .native ∧ tree = .native token.text) :
    Gives functions (Read.literal token true) tree := by
  rcases value with ⟨tag,number,rfl,denotes⟩ | ⟨tag,rfl⟩ | ⟨tag,rfl⟩
  · simp only [Read.literal,tag,Read.number,denotes,if_true]
    exact gives_bind (gives_pure _) (gives_pure _)
  · simp only [Read.literal,tag,if_true]
    exact gives_bind (gives_pure _) (gives_pure _)
  · simp only [Read.literal,tag,if_true]
    exact gives_bind (gives_pure _) (gives_pure _)

theorem gives_boolean {value : Bool} (spelled : name.spells (if value then "true" else "false") = true) :
    Gives functions (Read.word name) (.boolean value) := by
  have word : Read.word name = pure (.boolean value) := by
    cases value with
    | true => simp_all [Read.word]
    | false =>
      have other : name.spells "true" = false := by
        simp only [Token.spells,Bool.false_eq_true,if_false,beq_iff_eq] at spelled ⊢
        simp [spelled]
      simp_all [Read.word]
  rw [word]
  exact gives_pure _

theorem listItem_written (written : Written functions bound tokens tree) : Read.listItem tree = tree := by
  induction written with
  | operation op => cases op <;> rfl
  | group _ _ _ ih => exact ih
  | _ => rfl

theorem gives_expression (written : Written functions bound tokens tree) :
    Gives functions (Read.expression markUnknown tokens) tree := by
  -- each form has a shape of its own, and the shape says which parts are read next
  have facts := facts_of_written written
  induction written with
  | @«variable» bound name isWord free notTrue notFalse =>
    apply gives_expression_of_shape markUnknown facts (of_word isWord free)
    simp only [Read.ofShape,Read.word,notTrue,notFalse,Bool.false_eq_true,if_false]
    exact gives_bind (gives_reference name.text) (gives_pure _)
  | boolean value isWord free spelled =>
    exact gives_expression_of_shape markUnknown facts (of_word isWord free) (gives_boolean spelled)
  | @number bound token value isNumber denotes =>
    exact gives_expression_of_shape markUnknown facts (of_literal (.inl isNumber))
      (gives_literal (.inl ⟨isNumber,value,rfl,denotes⟩))
  | text isText =>
    exact gives_expression_of_shape markUnknown facts (of_literal (.inr (.inl isText)))
      (gives_literal (.inr (.inl ⟨isText,rfl⟩)))
  | native isNative =>
    exact gives_expression_of_shape markUnknown facts (of_literal (.inr (.inr isNative)))
      (gives_literal (.inr (.inr ⟨isNative,rfl⟩)))
  | @list bound opening closing items inside opens closes joined each ih =>
    apply gives_expression_of_shape markUnknown facts (of_list opens closes joined (facts_of_each each))
    refine gives_bind (gives_pure ()) (gives_bind (gives_mapM items fun item member => ?_) (gives_pure _))
    have read := ih item member (facts_of_written (each item member))
    have kept : Gives functions (pure (Read.listItem item.2)) item.2 := by
      rw [listItem_written (each item member)]
      exact gives_pure _
    exact gives_bind read kept
  | @complement bound mark operand tree isMark spelled inner ih =>
    apply gives_expression_of_shape markUnknown facts (of_complement isMark spelled (facts_of_written inner))
    exact gives_bind (ih (facts_of_written inner)) (gives_pure _)
  | @element bound name opening closing index tree isWord free opens closes inner ih =>
    have within := facts_of_written inner
    apply gives_expression_of_shape markUnknown facts (of_element isWord free opens closes within)
    exact gives_bind (gives_pure ()) (gives_bind (gives_reference name.text)
      (gives_bind (gives_modify (fun _ => rfl) (fun _ => rfl)) (gives_bind (ih within) (gives_pure _))))
  | @call bound name opening closing arguments inside isWord known opens closes joined each ih =>
    apply gives_expression_of_shape markUnknown facts (of_call isWord known opens closes joined (facts_of_each each))
    exact gives_bind (gives_mapM arguments fun argument member =>
      ih argument member (facts_of_written (each argument member))) (gives_callTree _ _)
  | @operation bound sign left right first second op fits isSign spelled before after leftRead rightRead =>
    have shape := of_operation op isSign spelled (facts_of_written before) (facts_of_written after)
    apply gives_expression_of_shape markUnknown facts shape
    exact gives_bind (leftRead (facts_of_written before))
      (gives_bind (rightRead (facts_of_written after)) (gives_pure _))
  | @group bound opening closing inside tree opens closes inner ih =>
    apply gives_expression_of_shape markUnknown facts (of_group opens closes (facts_of_written inner))
    exact gives_bind (gives_pure ()) (ih (facts_of_written inner))

end Written

/-- A function hides the word of a truth value, so that the word is a call. -/
theorem truth_hidden_by_function :
    (Action.outcome (Read.expression false (Token.scan false "true"))
      (Symbols.declare {} "true" false).2).1 = .ok (.call "true" [] 1) ∧
      Tree.call "true" [] 1 ≠ .boolean true := by
  have scanned : Token.scan false "true" = [⟨.identifier, "true", 1⟩] := by decide +kernel
  have lower : "true".toLower = "true" := by cbv
  have shape : of (Symbols.declare {} "true" false).2.functions
      (Read.upToTerminator [⟨.identifier, "true", 1⟩]) = .call ⟨.identifier, "true", 1⟩ [] := by
    simp [Read.upToTerminator,Token.isTerminator,of,Shape.enclosed?,Shape.namedCall?,Shape.called?,
      Symbols.declare,FunctionTable.declare,FunctionTable.find?,FunctionTable.user?,lower]
  obtain ⟨after,read,_⟩ := Written.gives_callTree ⟨.identifier, "true", 1⟩ []
    (Symbols.declare {} "true" false).2 rfl
  refine ⟨?_,by simp⟩
  rw [scanned,Read.outcome_expression,shape,Read.ofShape,mapM_nil,pure_bind,read,Tree.callOf,lower]

/-- Every written form of an expression is read as that expression, names in
lower case, and no remark is made on it. -/
theorem expression_of_written (markUnknown : Bool) (symbols : Symbols) {bound : Nat} {tokens : List Token}
    {tree : Tree} (written : Written symbols.functions bound tokens tree) :
    ∃ after, Action.outcome (Read.expression markUnknown tokens) symbols = (.ok tree, after) ∧
      after.diagnostics = symbols.diagnostics := by
  obtain ⟨after,read,_,quiet⟩ := Written.gives_expression markUnknown written symbols rfl
  exact ⟨after,read,quiet⟩

theorem expression_of_written_difference :
    ∃ after, Action.outcome (Read.expression false (Token.scan false "((A)) - (b - !c)")) {} =
      (.ok (.arith (.var "a") .sub (.arith (.var "b") .sub (.call "not" [.var "c"] 1))), after) ∧
      after.diagnostics = [] := by
  have word (bound : Nat) (text : String) (free : FunctionTable.find? {} text = none)
      (notTrue : Token.spells ⟨.identifier, text, 1⟩ "true" = false)
      (notFalse : Token.spells ⟨.identifier, text, 1⟩ "false" = false) :
      Written {} bound [⟨.identifier, text, 1⟩] (.var text.toLower) := .variable rfl free notTrue notFalse
  have right : Written {} 0 ([⟨.identifier, "b", 1⟩] ++ ⟨.math, "-", 1⟩ :: ⟨.literal, "!", 1⟩ ::
        [⟨.identifier, "c", 1⟩])
      (Read.operationTree (.var "b".toLower) (.arith .sub) (Tree.callOf "not" [.var "c".toLower] 1)) :=
    .operation (.arith .sub) (by decide) (.inl rfl) rfl
      (word 3 "b" (by cbv) (by decide +kernel) (by decide +kernel))
      (.complement rfl rfl (word 6 "c" (by cbv) (by decide +kernel) (by decide +kernel)))
  have whole : Written {} 0 ((⟨.parenOpen, "(", 1⟩ :: ((⟨.parenOpen, "(", 1⟩ :: ([⟨.identifier, "A", 1⟩] ++
        [⟨.parenClose, ")", 1⟩])) ++ [⟨.parenClose, ")", 1⟩])) ++ ⟨.math, "-", 1⟩ ::
        (⟨.parenOpen, "(", 1⟩ :: (([⟨.identifier, "b", 1⟩] ++ ⟨.math, "-", 1⟩ :: ⟨.literal, "!", 1⟩ ::
          [⟨.identifier, "c", 1⟩]) ++ [⟨.parenClose, ")", 1⟩])))
      (Read.operationTree (.var "A".toLower) (.arith .sub)
        (Read.operationTree (.var "b".toLower) (.arith .sub) (Tree.callOf "not" [.var "c".toLower] 1))) :=
    .operation (.arith .sub) (by decide) (.inl rfl) rfl
      (.group rfl rfl (.group rfl rfl (word 0 "A" (by cbv) (by decide +kernel) (by decide +kernel))))
      (.group rfl rfl right)
  have read := expression_of_written false {} whole
  have scanned : Token.scan false "((A)) - (b - !c)" =
      [⟨.parenOpen, "(", 1⟩, ⟨.parenOpen, "(", 1⟩, ⟨.identifier, "A", 1⟩, ⟨.parenClose, ")", 1⟩,
        ⟨.parenClose, ")", 1⟩, ⟨.math, "-", 1⟩, ⟨.parenOpen, "(", 1⟩, ⟨.identifier, "b", 1⟩,
        ⟨.math, "-", 1⟩, ⟨.literal, "!", 1⟩, ⟨.identifier, "c", 1⟩, ⟨.parenClose, ")", 1⟩] := by
    decide +kernel
  have lower : "A".toLower = "a" ∧ "b".toLower = "b" ∧ "c".toLower = "c" ∧ "not".toLower = "not" := by
    decide +kernel
  rw [scanned]
  simpa [Read.operationTree,Tree.callOf,lower] using read

end CalcBasic
