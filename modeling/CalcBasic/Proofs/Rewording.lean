import CalcBasic.Proofs.AlikeReading
import CalcBasic.Proofs.ShapeReading

/-! Tokens written anew. What a token list stands for is found from the tags of its tokens,
from words compared in lower case and from other texts, so writing its tokens anew with all
of these kept writes the parts that are found anew and changes nothing else. -/
namespace CalcBasic

/-- Keeps the tags of tokens, words up to their case, and all other texts. -/
structure Rewording (write : Token → Token) : Prop where
  tag (token : Token) : (write token).tag = token.tag
  lower (token : Token) : (write token).text.toLower = token.text.toLower
  text (token : Token) : token.tag ≠ .identifier → token.tag ≠ .keyword → (write token).text = token.text

namespace Rewording

variable {write : Token → Token} (rewording : Rewording write)
include rewording

theorem spells (token : Token) (word : String) : (write token).spells word = token.spells word := by
  rw [Token.spells,Token.spells,rewording.lower]

theorem isKeyword (token : Token) (word : String) : (write token).isKeyword word = token.isKeyword word := by
  rw [Token.isKeyword,Token.isKeyword,rewording.tag,rewording.spells]

theorem isInline (token : Token) : (write token).isInline = token.isInline := by
  rw [Token.isInline,Token.isInline,rewording.tag,rewording.spells]

theorem isTerminator (token : Token) : (write token).isTerminator = token.isTerminator := by
  rw [Token.isTerminator,Token.isTerminator,rewording.tag]

theorem word_or_text (token : Token) :
    token.tag = .identifier ∨ token.tag = .keyword ∨ (write token).text = token.text := by
  by_cases identifier : token.tag = .identifier
  · exact .inl identifier
  · by_cases keyword : token.tag = .keyword
    · exact .inr (.inl keyword)
    · exact .inr (.inr (rewording.text token identifier keyword))

end Rewording

/-! ### Brackets and groups -/

/-- The cut with its tokens written anew. -/
def Cut.map (write : Token → Token) (cut : Cut) : Cut := ⟨cut.before.map write, write cut.token, cut.after.map write⟩

theorem Groups.split_map {α β : Type} (write : α → β) (separates : β → Bool) (items : List α) :
    split separates (items.map write) = (split (separates ∘ write) items).map (List.map write) := by
  induction items with
  | nil => rfl
  | cons item rest ih =>
    simp only [split,List.map_cons,List.cons.injEq] at ih
    simp only [split,cut,List.map_cons,ih,Function.comp_apply]
    split <;> simp

namespace Brackets

variable {write : Token → Token} (rewording : Rewording write)
include rewording

theorem close_map (opener closer : Tag) (nested : Nat) (tokens : List Token) :
    close opener closer nested (tokens.map write) = (close opener closer nested tokens).map (Cut.map write) := by
  induction tokens generalizing nested with
  | nil => rfl
  | cons token rest ih =>
    have passed (nested : Nat) : (close opener closer nested (rest.map write)).map (Cut.cons (write token)) =
        ((close opener closer nested rest).map (Cut.cons token)).map (Cut.map write) := by
      rw [ih,Option.map_map,Option.map_map]
      rfl
    rw [List.map_cons]
    unfold close
    rw [rewording.tag]
    split
    · exact passed _
    · split
      · cases nested with
        | zero => rfl
        | succ nested => exact passed nested
      · exact passed nested

theorem closing?_map (bracket : Token) (rest : List Token) :
    closing? (write bracket) (rest.map write) = (closing? bracket rest).map (Cut.map write) := by
  rw [closing?,closing?,rewording.tag]
  cases bracket.tag.closer? with
  | none => rfl
  | some closer => exact close_map rewording bracket.tag closer 0 rest

theorem leveled_map (depth : Nat) (tokens : List Token) :
    leveled depth (tokens.map write) = (leveled depth tokens).map (Prod.map id write) := by
  induction tokens generalizing depth with
  | nil => rfl
  | cons token rest ih => simp [leveled,rewording.tag,ih]

theorem cutFirst_map {wanted : Token → Bool} (agrees : ∀ token, wanted (write token) = wanted token) (tokens : List Token) :
    cutFirst wanted (tokens.map write) = (cutFirst wanted tokens).map (Cut.map write) := by
  simp only [cutFirst,leveled_map rewording,List.dropWhile_map,List.takeWhile_map]
  have same : (fun entry : Nat × Token => !(entry.1 == 0 && wanted entry.2)) ∘ Prod.map id write =
      fun entry => !(entry.1 == 0 && wanted entry.2) := by
    funext entry
    simp [agrees]
  rw [same]
  cases (leveled 0 tokens).dropWhile fun entry => !(entry.1 == 0 && wanted entry.2) with
  | nil => rfl
  | cons entry after => simp [Cut.map]

theorem cutFirst_tag_map (tag : Tag) (tokens : List Token) :
    cutFirst (·.tag == tag) (tokens.map write) = (cutFirst (·.tag == tag) tokens).map (Cut.map write) :=
  cutFirst_map rewording (fun token => by rw [rewording.tag]) tokens

omit rewording in
theorem wanted_of_cutFirst {wanted : Token → Bool} {tokens : List Token} {cut : Cut}
    (found : cutFirst wanted tokens = some cut) : wanted cut.token = true := by
  simp only [cutFirst] at found
  split at found
  · contradiction
  · rename_i level token after rest
    cases found
    have stopped := List.head?_dropWhile_not (fun entry : Nat × Token => !(entry.1 == 0 && wanted entry.2)) (leveled 0 tokens)
    rw [rest] at stopped
    simp at stopped
    exact stopped.2

theorem cutLast_map {wanted : Token → Token → Bool}
    (agrees : ∀ previous token, wanted (write previous) (write token) = wanted previous token) (tokens : List Token) :
    cutLast wanted (tokens.map write) = (cutLast wanted tokens).map (Cut.map write) := by
  have previous : none :: (tokens.map write).map some = (none :: tokens.map some).map (Option.map write) := by simp
  simp only [cutLast,leveled_map rewording,previous,List.zip_map,← List.map_reverse,List.dropWhile_map,List.takeWhile_map]
  have same : (fun entry : (Nat × Token) × Option Token => !(entry.1.1 == 0 && entry.2.any (wanted · entry.1.2))) ∘
      Prod.map (Prod.map id write) (Option.map write) =
        fun entry => !(entry.1.1 == 0 && entry.2.any (wanted · entry.1.2)) := by
    funext entry
    cases before : entry.2 <;> simp [before,agrees]
  rw [same]
  cases ((leveled 0 tokens).zip (none :: tokens.map some)).reverse.dropWhile
    fun entry => !(entry.1.1 == 0 && entry.2.any (wanted · entry.1.2)) with
  | nil => rfl
  | cons entry before => simp [Cut.map]

theorem split_map (separator : Tag) (tokens : List Token) :
    split separator (tokens.map write) = (split separator tokens).map (List.map write) := by
  rw [split,leveled_map rewording,Groups.split_map,split,List.map_map,List.map_map]
  have same : (fun entry : Nat × Token => entry.1 == 0 && entry.2.tag == separator) ∘ Prod.map id write =
      fun entry => entry.1 == 0 && entry.2.tag == separator := by
    funext entry
    simp [rewording.tag]
  rw [same]
  exact List.map_congr_left fun group _ => by simp

end Brackets

/-! ### Shapes -/
namespace Shape

/-- The shape with its tokens written anew, literals in their own way. -/
def rewrite (write literal : Token → Token) : Shape → Shape
  | .nothing => .nothing
  | .group bracket closed inside => .group (write bracket) closed (inside.map write)
  | .list bracket closed items => .list (write bracket) closed (items.map (List.map write))
  | .call name arguments => .call (write name) (arguments.map (List.map write))
  | .unclosedCall name bracket => .unclosedCall (write name) (write bracket)
  | .membership value collection => .membership (value.map write) (collection.map write)
  | .range start inclusive stop step =>
    .range (start.map write) inclusive (stop.map write) (step.map (List.map write))
  | .operation left op right => .operation (left.map write) op (right.map write)
  | .negative operand => .negative (operand.map write)
  | .positive operand => .positive (operand.map write)
  | .complement mark operand => .complement (write mark) (operand.map write)
  | .word name => .word (write name)
  | .element name bracket closed index => .element (write name) (write bracket) closed (index.map write)
  | .literal token alone => .literal (literal token) alone
  | .unknown => .unknown

variable {write : Token → Token} (rewording : Rewording write) (literal : Token → Token)
include rewording

theorem startsOperand_write (token : Token) : startsOperand (write token) = startsOperand token := by
  rcases rewording.word_or_text token with word | word | same
  · simp [startsOperand,rewording.tag,word]
  · simp [startsOperand,rewording.tag,word]
  · simp only [startsOperand,rewording.tag,same]

theorem operatorOf?_write (strength : Nat) (token : Token) :
    operatorOf? strength (write token) = operatorOf? strength token := by
  rcases rewording.word_or_text token with word | word | same
  · simp [operatorOf?,rewording.tag,word]
  · simp [operatorOf?,rewording.tag,word]
  · simp only [operatorOf?,rewording.tag,same]

theorem enclosed?_map (first : Token) (rest : List Token) :
    enclosed? (write first) (rest.map write) = (enclosed? first rest).map (rewrite write literal) := by
  have items (inside : List Token) : ((Brackets.split .delimiter (inside.map write)).filter fun item => !item.isEmpty) =
      ((Brackets.split .delimiter inside).filter fun item => !item.isEmpty).map (List.map write) := by
    rw [Brackets.split_map rewording,List.filter_map]
    simp [Function.comp_def]
  have shaped (closed : Bool) (inside : List Token) :
      (if first.tag = .parenOpen then group (write first) closed (inside.map write)
        else list (write first) closed
          ((Brackets.split .delimiter (inside.map write)).filter fun item => !item.isEmpty)) =
      rewrite write literal (if first.tag = .parenOpen then group first closed inside
        else list first closed ((Brackets.split .delimiter inside).filter fun item => !item.isEmpty)) := by
    rw [items]
    split <;> rfl
  simp only [enclosed?,rewording.tag,Brackets.closing?_map rewording]
  split
  · cases Brackets.closing? first rest with
    | none => exact congrArg some (shaped false rest)
    | some cut =>
      simp only [Option.map_some,Cut.map,List.isEmpty_map]
      cases cut.after.isEmpty with
      | false => rfl
      | true => exact congrArg some (shaped true cut.before)
  · rfl

theorem argumentsOf_map (tokens : List Token) :
    argumentsOf (tokens.map write) = (argumentsOf tokens).map (List.map write) := by
  cases tokens with
  | nil => rfl
  | cons token rest => exact Brackets.split_map rewording .delimiter (token :: rest)

theorem called?_map (functions : FunctionTable) (name : Token) (rest : List Token) :
    called? functions (write name) (rest.map write) = (called? functions name rest).map (rewrite write literal) := by
  cases rest with
  | nil => rfl
  | cons next rest =>
    have named : takesArguments functions (write name).text = takesArguments functions name.text := by
      rw [takesArguments,takesArguments,functions.find?_of_lower (rewording.lower name)]
    have listed := argumentsOf_map rewording (next :: rest)
    rw [List.map_cons] at listed
    simp only [List.map_cons,called?,rewording.tag,startsOperand_write rewording,named,listed,
      Brackets.closing?_map rewording]
    split
    · cases Brackets.closing? next rest with
      | none => rfl
      | some cut => cases ended : cut.after.isEmpty <;> simp_all [Cut.map,rewrite,argumentsOf_map rewording]
    · split <;> rfl

theorem namedCall?_map (functions : FunctionTable) (first : Token) (rest : List Token) :
    namedCall? functions (write first) (rest.map write) = (namedCall? functions first rest).map (rewrite write literal) := by
  rw [namedCall?,namedCall?,rewording.tag,functions.find?_of_lower (rewording.lower first),called?_map rewording literal]
  split <;> rfl

theorem membership?_map (tokens : List Token) : membership? (tokens.map write) = (membership? tokens).map (rewrite write literal) := by
  rw [membership?,Brackets.cutFirst_map rewording fun token => rewording.isKeyword token "in",membership?,
    Option.map_map,Option.map_map]
  rfl

theorem range?_map (tokens : List Token) : range? (tokens.map write) = (range? tokens).map (rewrite write literal) := by
  rw [range?,range?,Brackets.cutFirst_tag_map rewording]
  cases found : Brackets.cutFirst (·.tag == .range) tokens with
  | none => rfl
  | some cut =>
    have isRange : cut.token.tag = .range := beq_iff_eq.mp (Brackets.wanted_of_cutFirst found)
    have same := rewording.text cut.token (by simp [isRange]) (by simp [isRange])
    simp only [Option.map_some,Cut.map,same,Brackets.cutFirst_tag_map rewording]
    cases Brackets.cutFirst (·.tag == .rangeStep) cut.after <;> rfl

theorem operation?_map (strength : Nat) (tokens : List Token) :
    operation? strength (tokens.map write) = (operation? strength tokens).map (rewrite write literal) := by
  have agrees (previous token : Token) :
      (endsOperand (write previous) && (operatorOf? strength (write token)).isSome) =
        (endsOperand previous && (operatorOf? strength token).isSome) := by
    rw [operatorOf?_write rewording,endsOperand,endsOperand,rewording.tag]
  rw [operation?,operation?,Brackets.cutLast_map rewording agrees]
  cases Brackets.cutLast (fun previous token => endsOperand previous && (operatorOf? strength token).isSome) tokens with
  | none => rfl
  | some cut =>
    simp only [Option.map_some,Option.bind_some,Cut.map,operatorOf?_write rewording,Option.map_map]
    rfl

theorem sign?_map (first : Token) (rest : List Token) :
    sign? (write first) (rest.map write) = (sign? first rest).map (rewrite write literal) := by
  rcases rewording.word_or_text first with word | word | same
  · simp [sign?,rewording.tag,word]
  · simp [sign?,rewording.tag,word]
  · simp only [sign?,rewording.tag,same]
    split
    · rfl
    · split <;> rfl

variable (verbatim : ∀ token, token.tag ≠ .identifier → token.tag ≠ .keyword → write token = literal token)
include verbatim

theorem atom_map (first : Token) (rest : List Token) :
    atom (write first) (rest.map write) = (atom first rest).rewrite write literal := by
  by_cases identifier : first.tag = .identifier
  · cases rest with
    | nil => simp [atom,rewording.tag,identifier,rewrite]
    | cons bracket inside =>
      simp only [atom,List.map_cons,rewording.tag,identifier,Brackets.closing?_map rewording]
      split
      · cases Brackets.closing? bracket inside with
        | none => rfl
        | some cut => cases ended : cut.after.isEmpty <;> simp [Cut.map,ended,rewrite]
      · rfl
  · by_cases keyword : first.tag = .keyword
    · simp [atom,rewording.tag,keyword,rewrite]
    · have same := rewording.text first identifier keyword
      have own := verbatim first identifier keyword
      unfold atom
      rw [rewording.tag]
      split
      · rename_i isLiteral
        simp only [isLiteral,same]
        split <;> rfl
      all_goals simp_all [rewrite]

theorem of_rewrite (functions : FunctionTable) (tokens : List Token) :
    of functions (tokens.map write) = (of functions tokens).rewrite write literal := by
  cases tokens with
  | nil => rfl
  | cons first rest =>
    have inner := membership?_map rewording literal (first :: rest)
    have ranged := range?_map rewording literal (first :: rest)
    have joined := fun strength => operation?_map rewording literal strength (first :: rest)
    rw [List.map_cons] at inner ranged joined
    simp only [List.map_cons,of,enclosed?_map rewording literal,namedCall?_map rewording literal,inner,ranged,joined,
      sign?_map rewording literal,atom_map rewording literal verbatim,Option.orElse_eq_orElse,Option.orElse_eq_or,← Option.map_or,Option.getD_map]

end Shape

theorem Read.upToTerminator_map {write : Token → Token} (rewording : Rewording write) (tokens : List Token) :
    upToTerminator (tokens.map write) = (upToTerminator tokens).map write := by
  rw [upToTerminator,upToTerminator,List.takeWhile_map]
  congr 2
  funext token
  rw [Function.comp_apply,rewording.isTerminator]

end CalcBasic
