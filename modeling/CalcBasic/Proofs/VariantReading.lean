import CalcBasic.Proofs.PairedReading
import CalcBasic.Proofs.Respelling
import CalcBasic.Proofs.Variants
import Mathlib

/-! Reading token lists that say the same. Both are read alike: the trees are equal, or
the errors stand for each other, and the symbol tables differ in remarks alone. -/
namespace CalcBasic
open List
open Extent (not_keyword_of_terminator endsHeader)

/-! ### Bodies and branches -/

theorem Body.of_pieces (code : List Token) :
    (of code).tokens = (code.dropWhile Token.isTerminator).take (Extent.statement (code.dropWhile Token.isTerminator)) ∧
      (of code).rest = (code.dropWhile Token.isTerminator).drop (Extent.statement (code.dropWhile Token.isTerminator)) := by
  unfold of
  cases code.dropWhile Token.isTerminator with
  | nil => exact ⟨take_nil.symm, drop_nil.symm⟩
  | cons first rest =>
    by_cases opens : first.tag = .blockOpen
    · rw [Extent.statement_of_block opens]
      cases closed : Brackets.closing? first rest with
      | none => simp [opens,closed]
      | some cut =>
        simp only [opens,closed,if_true]
        rw [← Brackets.whole_of_closing? closed]
        simp [Cut.whole,take_length_add_append]
    · simp [opens]

theorem Body.of_variant {spell : Token → Token} (rewording : Rewording spell) {code others : List Token}
    (variant : Variant spell code others) :
    Variant spell (of code).tokens (of others).tokens ∧ Variant spell (of code).rest (of others).rest := by
  have splits := Extent.statement_variant rewording (variant.dropWhile_gap rewording)
  rw [(of_pieces code).1,(of_pieces code).2,(of_pieces others).1,(of_pieces others).2]
  exact ⟨splits.front, splits.back⟩

namespace Otherwise

/-- What follows the bodies of two conditionals says the same. -/
inductive Variant (spell : Token → Token) : Otherwise → Otherwise → Prop
  | absent : Variant spell .absent .absent
  | chain (head : Token) {tail others : List Token} (later : CalcBasic.Variant spell tail others) :
      Variant spell (.chain head tail) (.chain (spell head) others)
  | body {code others : List Token} (later : CalcBasic.Variant spell code others) : Variant spell (.body code) (.body others)

theorem of_variant {spell : Token → Token} (rewording : Rewording spell) {rest others : List Token}
    (variant : CalcBasic.Variant spell rest others) : Variant spell (of rest) (of others) := by
  unfold of
  obtain ⟨none,none'⟩ | ⟨word,branch,branch',_,found,found',later⟩ | ⟨_,_,_,_,first,second,found,found'⟩ :=
    (variant.dropWhile_gap rewording).start
  · rw [none,none']
    exact .absent
  · rw [found,found']
    simp only [rewording.isKeyword]
    split
    · obtain ⟨rfl,rfl⟩ | ⟨head,tail,tail',_,rfl,rfl,inner⟩ | ⟨head,_,other,_,first,second,rfl,rfl⟩ := later.start
      · exact .body .nil
      · simp only [Extent.startsConditional_spell rewording]
        split
        · exact .chain head inner
        · exact .body later
      · have plain {token : Token} (isTerminator : token.isTerminator = true) : Extent.startsConditional token = false := by
          simp [Extent.startsConditional,not_keyword_of_terminator isTerminator]
        simp only [plain first,plain second]
        exact .body later
    · exact .absent
  · rw [found,found']
    simp only [not_keyword_of_terminator first,not_keyword_of_terminator second]
    exact .absent

end Otherwise

/-! ### Outlines -/
namespace Outline

/-- Two outlines of the same kind, with pieces that say the same. -/
inductive Variant (spell : Token → Token) : Outline → Outline → Prop
  | empty : Variant spell .empty .empty
  | label (name : Token) {rest others : List Token} (later : CalcBasic.Variant spell rest others) :
      Variant spell (.label name rest) (.label (spell name) others)
  | braces (bracket : Token) {inside others : List Token} (later : CalcBasic.Variant spell inside others) :
      Variant spell (.braces bracket inside) (.braces (spell bracket) others)
  | conditional (head : Token) {tail others : List Token} (later : CalcBasic.Variant spell tail others) :
      Variant spell (.conditional head tail) (.conditional (spell head) others)
  | forEach (head : Token) {tail others : List Token} (later : CalcBasic.Variant spell tail others) :
      Variant spell (.forEach head tail) (.forEach (spell head) others)
  | loop (head : Token) {tail others : List Token} (later : CalcBasic.Variant spell tail others) :
      Variant spell (.loop head tail) (.loop (spell head) others)
  | function (name : Token) (inline : Bool) {rest others : List Token} (later : CalcBasic.Variant spell rest others) :
      Variant spell (.function name rest inline) (.function (spell name) others inline)
  | nameless (head : Token) : Variant spell (.nameless head) (.nameless (spell head))
  | strayInline (word next : Token) : Variant spell (.strayInline word next) (.strayInline (spell word) (spell next))
  | giveBack (value : List Token) : Variant spell (.giveBack value) (.giveBack (value.map spell))
  | leave (word : Token) {rest others : List Token} (later : CalcBasic.Variant spell rest others) :
      Variant spell (.leave word rest) (.leave (spell word) others)
  | constant {rest others : List Token} (later : CalcBasic.Variant spell rest others) :
      Variant spell (.constant rest) (.constant others)
  | danglingElse (word : Token) : Variant spell (.danglingElse word) (.danglingElse (spell word))
  | unsupported (word : Token) : Variant spell (.unsupported word) (.unsupported (spell word))
  | assign (cut : Cut) (isMark : isAssignment cut.token = true) : Variant spell (.assign cut) (.assign (cut.map spell))
  | expression (tokens : List Token) : Variant spell (.expression tokens) (.expression (tokens.map spell))

variable {spell : Token → Token} (rewording : Rewording spell) {tokens others : List Token}
  (variant : CalcBasic.Variant spell tokens others)
include rewording variant

theorem line_eq : others.takeWhile (!·.isTerminator) = (tokens.takeWhile (!·.isTerminator)).map spell := by
  refine variant.takeWhile_solid (fun token isTerminator => ?_) fun token => ?_
  · rw [isTerminator]
    rfl
  · rw [rewording.isTerminator]

theorem ofFunction_variant (head : Token) (inline : Bool) :
    Variant spell (ofFunction head tokens inline) (ofFunction (spell head) others inline) := by
  unfold ofFunction
  obtain ⟨rfl,rfl⟩ | ⟨name,_,_,_,rfl,rfl,later⟩ | ⟨_,_,_,_,first,second,rfl,rfl⟩ := variant.start
  · exact .nameless head
  · simp only [rewording.tag]
    split
    · exact .function name inline later
    · exact .nameless head
  · simp only [if_neg (Extent.not_identifier_of_terminator first),if_neg (Extent.not_identifier_of_terminator second)]
    exact .nameless head

theorem ofKeyword_variant (head : Token) : Variant spell (ofKeyword head tokens) (ofKeyword (spell head) others) := by
  unfold ofKeyword
  rw [rewording.lower,line_eq rewording variant]
  split
  · exact .conditional head variant
  · exact .conditional head variant
  · exact .forEach head variant
  · exact .forEach head variant
  · exact .loop head variant
  · exact .loop head variant
  · exact ofFunction_variant rewording variant head false
  · exact .giveBack _
  · exact .leave head variant
  · exact .leave head variant
  · exact .constant variant
  · exact .danglingElse head
  · exact .unsupported head

theorem ofPlain_variant : Variant spell (ofPlain tokens) (ofPlain others) := by
  have agrees (token : Token) : isAssignment (spell token) = isAssignment token := by
    rw [isAssignment,isAssignment,rewording.tag]
  simp only [ofPlain,line_eq rewording variant,Brackets.cutFirst_map rewording agrees]
  cases found : Brackets.cutFirst isAssignment (tokens.takeWhile (!·.isTerminator)) with
  | none => exact .expression _
  | some cut => exact .assign cut (Brackets.wanted_of_cutFirst found)

theorem of_variant : Variant spell (of tokens) (of others) := by
  have plain := ofPlain_variant rewording variant
  obtain ⟨rfl,rfl⟩ | ⟨first,rest,rest',_,rfl,rfl,later⟩ | ⟨first,_,other,_,isTerminator,isTerminator',rfl,rfl⟩ := variant.start
  · exact .empty
  · unfold of
    dsimp only
    rw [rewording.tag,rewording.isInline]
    split
    · exact .label first later
    split
    · exact ofKeyword_variant rewording later first
    split
    · exact .braces first later
    cases first.isInline with
    | false => exact plain
    | true =>
      obtain ⟨rfl,rfl⟩ | ⟨next,more,more',_,rfl,rfl,inner⟩ | ⟨next,_,other,_,notWord,notWord',rfl,rfl⟩ := later.start
      · exact plain
      · simp only [rewording.tag,rewording.isKeyword]
        split
        · split
          · exact ofFunction_variant rewording inner next true
          · exact .strayInline first next
        · exact plain
      · simp only [beq_iff_eq.mp notWord,beq_iff_eq.mp notWord']
        exact plain
  · simp only [of,Token.isInline,beq_iff_eq.mp isTerminator,beq_iff_eq.mp isTerminator']
    exact plain

end Outline

/-! ### Calls and parameters -/

namespace Shape

/-- Calls of the same function, with arguments that say the same. -/
inductive Called (spell : Token → Token) : Option Shape → Option Shape → Prop
  | none : Called spell none none
  | call (name : Token) {arguments others : List (List Token)} (each : List.Forall₂ (Variant spell) arguments others) :
      Called spell (some (.call name arguments)) (some (.call (spell name) others))
  | unclosed (name bracket : Token) :
      Called spell (some (.unclosedCall name bracket)) (some (.unclosedCall (spell name) (spell bracket)))

variable {spell : Token → Token} (rewording : Rewording spell) {rest others : List Token}
  (variant : Variant spell rest others)
include rewording variant

theorem argumentsOf_variant : List.Forall₂ (Variant spell) (argumentsOf rest) (argumentsOf others) := by
  rw [argumentsOf,argumentsOf,variant.isEmpty_eq]
  split
  · exact .nil
  · exact variant.split rewording (by decide)

theorem called?_variant (functions : FunctionTable) (name : Token) :
    Called spell (called? functions name rest) (called? functions (spell name) others) := by
  have listed := argumentsOf_variant rewording variant
  obtain ⟨rfl,rfl⟩ | ⟨next,more,more',_,rfl,rfl,later⟩ | ⟨next,_,other,_,isTerminator,isTerminator',rfl,rfl⟩ := variant.start
  · exact .call name .nil
  · have named : takesArguments functions (spell name).text = takesArguments functions name.text := by
      rw [takesArguments,takesArguments,functions.find?_of_lower (rewording.lower name)]
    simp only [called?,rewording.tag,startsOperand_write rewording,named]
    split
    · have related := later.closing? rewording next
      generalize Brackets.closing? next more = found at related
      generalize Brackets.closing? (spell next) more' = found' at related
      cases related with
      | none => exact .unclosed name next
      | some same =>
        simp only [same.after.isEmpty_eq]
        split
        · exact .call name (argumentsOf_variant rewording same.before)
        · exact .none
    · split
      · exact .call name listed
      · exact .none
  · simp only [called?,startsOperand,beq_iff_eq.mp isTerminator,beq_iff_eq.mp isTerminator']
    exact .none

end Shape

namespace ParameterList

variable {spell : Token → Token} (rewording : Rewording spell) (name : Token) (header : List Token)
include rewording

theorem tokens_of_map : (of (spell name) (header.map spell)).tokens = (of name header).tokens.map spell := by
  cases header with
  | nil => rfl
  | cons first rest =>
    simp only [map_cons,of,rewording.tag,Brackets.closing?_map rewording]
    split
    · cases Brackets.closing? first rest <;> rfl
    · split <;> rfl

theorem groups_of_map : (of (spell name) (header.map spell)).groups = (of name header).groups.map (List.map spell) := by
  have same : (fun token : Token => token.tag == .delimiter) ∘ spell = fun token => token.tag == .delimiter := by
    funext token
    rw [Function.comp_apply,rewording.tag]
  rw [groups,groups,tokens_of_map rewording,isEmpty_map,Groups.split_map,same]
  split <;> rfl

end ParameterList

namespace Read
open CalcBasic.Action

section Alike

variable {spell : Token → Token} {errors : CompileError → CompileError → Prop} (respelling : Respelling spell)

include respelling in
theorem fromAsMembership_map (tokens : List Token) :
    fromAsMembership (tokens.map spell) = (fromAsMembership tokens).map spell := by
  match tokens with
  | [] => rfl
  | [_] => rfl
  | first :: second :: rest =>
    have lower : "in".toLower = "in" := by cbv
    have word : spell ⟨.keyword, "in", first.line⟩ = ⟨.keyword, "in", first.line⟩ := respelling.plain _ lower
    simp only [map_cons,fromAsMembership,respelling.tag,respelling.line]
    split
    · simp [word,respelling.verbatim]
    · rfl

section Header

variable (rewording : Rewording spell) {tokens others : List Token} (variant : Variant spell tokens others)
include rewording variant

theorem header_eq : others.takeWhile (!endsHeader ·) = (tokens.takeWhile (!endsHeader ·)).map spell :=
  variant.takeWhile_solid Extent.endsHeader_of_terminator (Extent.endsHeader_spell rewording)

theorem code_variant :
    Variant spell (tokens.dropWhile (!endsHeader ·)) (others.dropWhile (!endsHeader ·)) :=
  variant.dropWhile_solid Extent.endsHeader_of_terminator (Extent.endsHeader_spell rewording)

end Header

end Alike

/-! ### Statements -/

theorem statements_gap (markUnknown : Bool) {gap : List Token} (all : ∀ token ∈ gap, token.isTerminator = true)
    (rest : List Token) : statements markUnknown (gap ++ rest) = statements markUnknown rest := by
  induction gap with
  | nil => rfl
  | cons token more ih =>
    rw [cons_append,statements,if_pos (all token (by simp))]
    exact ih fun other member => all other (by simp [member])

/-- Parameters with the same names, and with defaults that have to do with each other. -/
structure PairedParameters (list : List Tree → List Tree → Prop) (parameters others : Parameters) : Prop where
  names : others.names = parameters.names
  required : others.required = parameters.required
  guards : list parameters.guards others.guards

/-- Goes on after the look at what a word at the start of a statement calls. -/
def ofCalled (markUnknown : Bool) (tokens : List Token) : Option Shape → Read (Option Tree)
  | some (.call name arguments) => do return some (← callTree name (← arguments.mapM (expression markUnknown)))
  | some (.unclosedCall name bracket) => fail (.unclosedArguments name.text) bracket.line
  | _ => do return some (← unknown markUnknown tokens)

theorem ofOutline_leave (markUnknown : Bool) (word : Token) (rest : List Token) :
    ofOutline markUnknown (.leave word rest) = get >>= fun symbols =>
      ofCalled markUnknown (word :: rest) (Shape.called? symbols.functions word rest) := by
  rw [ofOutline,call?,bind_assoc]
  congr 1
  funext symbols
  generalize Shape.called? symbols.functions word rest = found
  rcases found with _ | shape
  · rfl
  · cases shape <;> simp [ofCalled,fail]

/-- A relation between readings of token lists that say the same, by what the values that they
give have to do with each other. It holds of the parts that statements are read through. -/
structure Pairs (markUnknown : Bool) (write literal : Token → Token) (covers : List Token → Prop) (tree : Tree → Tree → Prop)
    (list : List Tree → List Tree → Prop) (option : Option Tree → Option Tree → Prop)
    (rel : {α : Type} → (α → α → Prop) → Read α → Read α → Prop) : Prop
    extends PairsExpressions markUnknown write literal covers tree list @rel where
  append {first first' later later' : List Tree} : list first first' → list later later' → list (first ++ later) (first' ++ later')
  none : option .none .none
  some {one other : Tree} : tree one other → option (.some one) (.some other)
  toList {one other : Option Tree} : option one other → list one.toList other.toList
  block {trees others : List Tree} : list trees others → tree (.block trees) (.block others)
  assign {target target' value value' : Tree} (store : Store) {mark : Token} : covers [mark] → tree target target' →
    tree value value' → tree (.assign target store value mark.line) (.assign target' store value' (write mark).line)
  loop {condition condition' code code' : Tree} (untilTrue : Bool) : tree condition condition' → tree code code' →
    tree (.loop condition code untilTrue) (.loop condition' code' untilTrue)
  branch {condition condition' code code' : Tree} {last last' : Option Tree} (negative : Bool) :
    tree condition condition' → tree code code' → option last last' →
      tree (.branch (if negative then condition.negated else condition) code last)
        (.branch (if negative then condition'.negated else condition') code' last')
  checkBody {code : List Token} (others : List Token) : covers code →
    rel (fun _ _ => True) (Read.checkBody (Body.of code)) (Read.checkBody (Body.of others))
  remarks {name : Token} {header : List Token} : covers (name :: header) →
    let notes := (ParameterList.of name header).remarks
    let others := (ParameterList.of (write name) (header.map write)).remarks
    rel (fun _ _ => True) (forIn notes () fun note _ => do Read.remark note.remark note.line; return .yield ())
      (forIn others () fun note _ => do Read.remark note.remark note.line; return .yield ())
  loopHeader {head : Token} {condition : List Token} : covers (head :: condition) →
    rel (fun read other => ∀ code code', tree code code' → tree (.forEach read.1 read.2 code) (.forEach other.1 other.2 code'))
      (Read.loopHeader markUnknown head condition) (Read.loopHeader markUnknown (write head) (condition.map write))
  functionTree {tokens rest : List Token} {name : Token} {inline : Bool} {parameters others : Parameters}
    {statements statements' : List Tree} : covers tokens → Outline.of tokens = .function name rest inline →
    PairedParameters list parameters others → list statements statements' →
      rel tree (Read.functionTree name inline parameters statements) (Read.functionTree (write name) inline others statements')
  leave {tokens rest others : List Token} {word : Token} : covers tokens → Outline.of tokens = .leave word rest →
    (∀ functions, rel option (ofCalled markUnknown (word :: rest) (Shape.called? functions word rest))
      (ofCalled markUnknown (write word :: others) (Shape.called? functions (write word) others))) →
    rel option (ofOutline markUnknown (.leave word rest)) (ofOutline markUnknown (.leave (write word) others))

/-- Variants of the same tokens are read to values that have to do with each other. -/
def paired (markUnknown : Bool) (write : Token → Token) (covers : List Token → Prop) (tree : Tree → Tree → Prop)
    (list : List Tree → List Tree → Prop) (option : Option Tree → Option Tree → Prop)
    (rel : {α : Type} → (α → α → Prop) → Read α → Read α → Prop) : Invariant where
  statements tokens := covers tokens → ∀ others, Variant write tokens others →
    rel list (statements markUnknown tokens) (statements markUnknown others)
  statement tokens := covers tokens → ∀ others, Variant write tokens others →
    rel option (statement markUnknown tokens) (statement markUnknown others)
  block tokens := covers tokens → ∀ others, Variant write tokens others →
    rel list (block markUnknown tokens) (block markUnknown others)
  braced bracket inside := covers inside → ∀ others, Variant write inside others →
    rel list (braced markUnknown bracket inside) (braced markUnknown (write bracket) others)
  body code := covers code → ∀ others, Variant write code others → rel tree (body markUnknown code) (body markUnknown others)
  conditional head tail := covers tail → ∀ others, Variant write tail others →
    rel tree (conditional markUnknown head tail) (conditional markUnknown (write head) others)

namespace Pairs

variable {markUnknown : Bool} {write literal : Token → Token} {covers : List Token → Prop} {tree : Tree → Tree → Prop}
  {list : List Tree → List Tree → Prop} {option : Option Tree → Option Tree → Prop}
  {rel : {α : Type} → (α → α → Prop) → Read α → Read α → Prop}
  (pairs : Pairs markUnknown write literal covers tree list option @rel)
include pairs

theorem expression_variant {tokens others : List Token} (covered : covers tokens) (variant : Variant write tokens others) :
    rel tree (Read.expression markUnknown tokens) (Read.expression markUnknown others) := by
  have same : upToTerminator others = upToTerminator (tokens.map write) := by
    rw [upToTerminator_map pairs.rewording]
    exact Outline.line_eq pairs.rewording variant
  rw [expression_eq markUnknown others,same,← expression_eq]
  exact pairs.expression covered

theorem ofCalled {word : Token} {rest others : List Token} (covered : covers (word :: rest)) (variant : Variant write rest others)
    (functions : FunctionTable) : rel option (Read.ofCalled markUnknown (word :: rest) (Shape.called? functions word rest))
      (Read.ofCalled markUnknown (write word :: others) (Shape.called? functions (write word) others)) := by
  have related := Shape.called?_variant pairs.rewording variant functions word
  generalize Shape.called? functions (write word) others = found' at related ⊢
  cases found : Shape.called? functions word rest with
  | none =>
    rw [found] at related
    cases related
    exact pairs.bind (pairs.unknown _ covered) fun _ _ known => pairs.pure (pairs.some known)
  | some shape =>
    rw [found] at related
    obtain ⟨marks,parts⟩ := Shape.called?_within found
    cases related with
    | call name each =>
      have members := (forall₂_and_left ..).mpr ⟨parts, each⟩
      refine pairs.bind (pairs.mapM (members.imp fun argument _ both =>
        pairs.expression_variant (pairs.part covered both.1) both.2)) fun _ _ known => ?_
      refine pairs.bind (pairs.callTree (pairs.mark covered (marks (by simp))) known) fun _ _ known => ?_
      exact pairs.pure (pairs.some known)
    | unclosed name bracket => exact pairs.fail .unclosedArguments (fun _ _ => rfl) name (pairs.mark covered (marks (by simp)))

/-! ### Parameters -/

theorem defaultGuard (param : Token) {value other : Tree} (known : tree value other) {mark : Token} (covered : covers [mark]) :
    rel tree (Read.defaultGuard param.text value mark.line) (Read.defaultGuard (write param).text other (write mark).line) := by
  refine pairs.bind (pairs.reference param) fun test _ same => pairs.bind (pairs.reference param) fun target _ same' => ?_
  rw [same,same']
  have assigned := pairs.cons (pairs.assign .set covered (pairs.var target) known) pairs.nil
  exact pairs.pure (pairs.branch false (pairs.complement covered (pairs.var test)) (pairs.block assigned) pairs.none)

theorem parameter {name : Token} (named : covers [name]) {before before' : Parameters} (earlier : PairedParameters list before before')
    {group : List Token} (covered : covers group) :
    rel (PairedParameters list) (Read.parameter markUnknown name before group)
      (Read.parameter markUnknown (write name) before' (group.map write)) := by
  have refused : rel (PairedParameters list)
      (Read.remark (.badParameter name.text) (.some name.line) >>= fun _ => Pure.pure before)
      (Read.remark (.badParameter (write name).text) (.some (write name).line) >>= fun _ => Pure.pure before') :=
    pairs.bind (pairs.remark _ _ _ named) fun _ _ _ => pairs.pure earlier
  obtain ⟨names,required,guards⟩ := earlier
  cases group with
  | nil => exact refused
  | cons param rest =>
    simp only [map_cons,Read.parameter,pairs.rewording.tag]
    split
    · refine pairs.bind (pairs.reference param) fun key _ same => ?_
      rw [same,names]
      cases rest with
      | nil => exact pairs.pure ⟨rfl, rfl, guards⟩
      | cons mark value =>
        have marked : covers [mark] := pairs.mark covered (by simp)
        have inside : value <:+: param :: mark :: value := (suffix_append [param, mark] value).isInfix
        simp only [map_cons,pairs.rewording.tag]
        split
        · refine pairs.bind (pairs.expression (pairs.part covered inside)) fun _ _ known => ?_
          refine pairs.bind (pairs.defaultGuard param known marked) fun _ _ guarded => pairs.pure ⟨rfl, required, ?_⟩
          exact pairs.append guards (pairs.cons guarded pairs.nil)
        · split
          · rename_i compound
            rw [pairs.rewording.text mark (by simp [compound]) (by simp [compound])]
            exact pairs.fail (.compoundDefault · mark.text) (fun _ _ => rfl) param marked
          · exact pairs.bind (pairs.remark _ _ _ marked) fun _ _ _ => pairs.pure ⟨rfl, required, guards⟩
    · exact refused

theorem foldlM {α : Type} {related : α → α → Prop} {step step' : α → List Token → Read α} {groups : List (List Token)}
    (covered : ∀ group ∈ groups, covers group)
    (each : ∀ value other group, related value other → covers group → rel related (step value group) (step' other (group.map write)))
    {start start' : α} (initial : related start start') :
    rel related (groups.foldlM step start) ((groups.map (List.map write)).foldlM step' start') := by
  induction groups generalizing start start' with
  | nil => exact pairs.pure initial
  | cons group rest ih =>
    rw [map_cons,foldlM_cons,foldlM_cons]
    refine pairs.bind (each start start' group initial (covered group mem_cons_self)) fun _ _ known => ?_
    exact ih (fun other member => covered other (mem_cons_of_mem _ member)) known

theorem parameters {name : Token} {header : List Token} (covered : covers (name :: header)) :
    rel (PairedParameters list) (Read.parameters markUnknown name header)
      (Read.parameters markUnknown (write name) (header.map write)) := by
  have named : covers [name] := pairs.mark covered (by simp)
  have inside := (ParameterList.of_within name header).1
  have groups : ∀ group ∈ (ParameterList.of name header).groups, covers group := fun group isGroup =>
    pairs.part covered (infix_cons ((ParameterList.groups_within isGroup).trans inside))
  unfold Read.parameters
  dsimp only
  rw [ParameterList.groups_of_map pairs.rewording]
  refine pairs.bind (pairs.remarks covered) fun _ _ _ => ?_
  exact pairs.foldlM groups (fun _ _ _ earlier => pairs.parameter named earlier) ⟨rfl, rfl, pairs.nil⟩

theorem assignment {cut : Cut} (covered : covers cut.whole) (isMark : Outline.isAssignment cut.token = true) :
    rel tree (Read.assignment markUnknown cut) (Read.assignment markUnknown (cut.map write)) := by
  have same : (write cut.token).text = cut.token.text := by
    rw [Outline.isAssignment,Bool.or_eq_true,beq_iff_eq,beq_iff_eq] at isMark
    rcases isMark with isMark | isMark <;> exact pairs.rewording.text cut.token (by simp [isMark]) (by simp [isMark])
  obtain ⟨before,token,after⟩ := Cut.within (rfl : cut.whole = cut.whole)
  refine pairs.bind (pairs.expression (pairs.part covered before)) fun _ _ target => ?_
  refine pairs.bind (pairs.expression (pairs.part covered after)) fun _ _ value => ?_
  simp only [Cut.map,same]
  exact pairs.pure (pairs.assign _ (pairs.mark covered token) target value)

/-! ### Statements -/

theorem optional {action other : Read Tree} (read : rel tree action other) :
    rel option (action >>= fun one => Pure.pure (.some one)) (other >>= fun one => Pure.pure (.some one)) :=
  pairs.bind read fun _ _ known => pairs.pure (pairs.some known)

theorem header {tail others : List Token} (covered : covers tail) (variant : Variant write tail others) :
    rel tree (Read.expression markUnknown (tail.takeWhile (!endsHeader ·)))
      (Read.expression markUnknown (others.takeWhile (!endsHeader ·))) := by
  rw [header_eq pairs.rewording variant]
  exact pairs.expression (pairs.part covered (List.takeWhile_prefix _).isInfix)

section Outlines

variable {tokens : List Token} (covered : covers tokens)
include covered

/-- What the pieces of an outline are read through is given, so that one case is left for each kind of outline. -/
theorem ofOutline {outline other : Outline} (found : Outline.of tokens = outline) (variant : outline.Variant write other)
    (within : (paired markUnknown write covers tree list option @rel).Within outline) :
    rel option (Read.ofOutline markUnknown outline) (Read.ofOutline markUnknown other) := by
  have behind {tail : List Token} : tail.dropWhile (!endsHeader ·) <:+: tail := (dropWhile_suffix _).isInfix
  have later (head : Token) (tail : List Token) : tail <:+: head :: tail := (suffix_cons head tail).isInfix
  have headed (head : Token) (tail : List Token) : head :: tail.takeWhile (!endsHeader ·) <:+: head :: tail :=
    ((prefix_cons_inj head).mpr (List.takeWhile_prefix _)).isInfix
  have first (head : Token) (tail : List Token) : [head] <:+: head :: tail := (prefix_append [head] tail).isInfix
  have marker : tree (.native Tree.returnMarker) (.native Tree.returnMarker) := pairs.leaf (by simp) rfl
  have inside : covers outline.tokens := found ▸ pairs.part covered (Outline.of_within tokens)
  cases variant with
  | empty => exact pairs.pure pairs.none
  | label name same =>
    refine pairs.bind (pairs.remark _ _ _ (pairs.part inside (first _ _))) fun _ _ _ => ?_
    exact within (pairs.part inside (later _ _)) _ same
  | braces bracket same =>
    refine pairs.bind (within (pairs.part inside (later _ _)) _ same) fun _ _ known => ?_
    exact pairs.pure (pairs.some (pairs.block known))
  | conditional head same => exact pairs.optional (within (pairs.part inside (later _ _)) _ same)
  | @forEach head tail others same =>
    rw [Read.ofOutline,Read.ofOutline,header_eq pairs.rewording same]
    refine pairs.bind (pairs.loopHeader (pairs.part inside (headed head tail))) fun _ _ read => ?_
    refine pairs.bind (within (pairs.part inside (behind.trans (later _ _))) _ (code_variant pairs.rewording same)) ?_
    exact fun _ _ code => pairs.pure (pairs.some (read _ _ code))
  | @loop head tail others same =>
    have rest := pairs.part inside (later head tail)
    rw [Read.ofOutline,Read.ofOutline,pairs.rewording.isKeyword]
    refine pairs.bind (pairs.header rest same) fun _ _ condition => ?_
    refine pairs.bind (within (pairs.part rest behind) _ (code_variant pairs.rewording same)) fun _ _ code => ?_
    exact pairs.pure (pairs.some (pairs.loop _ condition code))
  | @function name inline rest others same =>
    have tail := pairs.part (pairs.part inside (later name rest)) behind
    have kept := (Body.of_within (rest.dropWhile (!endsHeader ·))).1
    have code := (Body.of_variant pairs.rewording (code_variant pairs.rewording same)).1
    rw [Read.ofOutline,Read.ofOutline,header_eq pairs.rewording same]
    refine pairs.bind (pairs.parameters (pairs.part inside (headed name rest))) fun _ _ parameters => ?_
    refine pairs.bind (pairs.checkBody _ tail) fun _ _ _ => pairs.bind (within (pairs.part tail kept) _ code) fun _ _ trees => ?_
    exact pairs.optional (pairs.functionTree covered found parameters trees)
  | nameless head => exact pairs.fail (fun _ => .namelessFunction) (fun _ _ => rfl) head inside
  | strayInline word next =>
    exact pairs.fail .inlineWithoutFunction (fun _ _ => rfl) next (pairs.part inside (first word [next]))
  | giveBack value =>
    rw [Read.ofOutline,Read.ofOutline,isEmpty_map]
    split
    · exact pairs.pure (pairs.some (pairs.block (pairs.cons marker pairs.nil)))
    · refine pairs.bind (pairs.expression inside) fun _ _ known => pairs.pure (pairs.some (pairs.block ?_))
      exact pairs.cons known (pairs.cons marker pairs.nil)
  | leave word same => exact pairs.leave covered found (pairs.ofCalled inside same)
  | constant same => exact within inside _ same
  | danglingElse word => exact pairs.bind (pairs.remark _ _ _ inside) fun _ _ _ => pairs.pure pairs.none
  | unsupported word => exact pairs.bind (pairs.remark _ _ _ inside) fun _ _ _ => pairs.pure pairs.none
  | assign cut isMark => exact pairs.optional (pairs.assignment inside isMark)
  | expression line => exact pairs.optional (pairs.expression inside)

end Outlines

theorem ofOtherwise {otherwise other : Otherwise} (variant : otherwise.Variant write other) (covered : covers otherwise.tokens)
    (behind : (paired markUnknown write covers tree list option @rel).Behind otherwise) :
    rel option (Read.ofOtherwise markUnknown otherwise) (Read.ofOtherwise markUnknown other) := by
  cases variant with
  | absent => exact pairs.pure pairs.none
  | chain next same =>
    refine pairs.bind (behind (pairs.part covered (suffix_cons next _).isInfix) _ same) fun _ _ one => ?_
    exact pairs.pure (pairs.some (pairs.block (pairs.cons one pairs.nil)))
  | body same => exact pairs.optional (behind covered _ same)

theorem readings : (paired markUnknown write covers tree list option @rel).Everywhere := by
  have later (head : Token) (tail : List Token) : tail <:+: head :: tail := (suffix_cons head tail).isInfix
  apply Invariant.Inherited.everywhere
  constructor <;> dsimp only [paired]
  case nil =>
    intro _ others variant
    rw [variant.of_nil,statements]
    exact pairs.pure pairs.nil
  case gap =>
    intro first rest isTerminator inner covered others variant
    obtain ⟨gap,rest',rfl,all,same⟩ := variant.behind isTerminator
    rw [statements,if_pos isTerminator,statements_gap markUnknown all]
    exact inner (pairs.part covered (later _ _)) rest' same
  case cons =>
    intro first rest solid one more covered others variant
    have taken : first :: rest.take (Extent.statement (first :: rest) - 1) <:+: first :: rest :=
      ((prefix_cons_inj first).mpr (List.take_prefix _ rest)).isInfix
    have dropped : rest.drop (Extent.statement (first :: rest) - 1) <:+: first :: rest :=
      (drop_suffix _ rest).isInfix.trans (later _ _)
    obtain ⟨rest',rfl,same⟩ := variant.of_solid solid
    obtain ⟨front,back⟩ := Extent.first_variant pairs.rewording solid same
    rw [statements,statements,pairs.rewording.isTerminator,if_neg (by simp [solid]),if_neg (by simp [solid])]
    refine pairs.bind (one (pairs.part covered taken) _ front) fun _ _ known => ?_
    exact pairs.bind (more (pairs.part covered dropped) _ back) fun _ _ known' => pairs.pure (pairs.append (pairs.toList known) known')
  case statement =>
    intro tokens within covered others variant
    rw [statement_eq,statement_eq]
    exact pairs.ofOutline covered rfl (Outline.of_variant pairs.rewording variant) within
  case empty =>
    intro _ others variant
    rw [variant.of_nil,Read.block]
    exact pairs.pure pairs.nil
  case opened =>
    intro first rest opens inner covered others variant
    have solid : first.isTerminator = false := by rw [Token.isTerminator,opens]; rfl
    obtain ⟨rest',rfl,same⟩ := variant.of_solid solid
    rw [Read.block,Read.block,pairs.rewording.tag,if_pos opens,if_pos opens]
    exact inner (pairs.part covered (later _ _)) rest' same
  case plain =>
    intro first rest opens inner covered others variant
    have plain : Read.block markUnknown others = statements markUnknown others := by
      obtain ⟨no,_⟩ | ⟨_,_,_,_,same,rfl,_⟩ | ⟨_,_,_,_,_,isTerminator,_,rfl⟩ := variant.start
      · cases no
      · cases same
        rw [Read.block,pairs.rewording.tag,if_neg opens]
      · rw [Read.block,beq_iff_eq.mp isTerminator]
        exact if_neg (by decide)
    rw [Read.block,if_neg opens,plain]
    exact inner covered others variant
  case unclosed =>
    intro bracket inside missing inner covered others variant
    rw [braced_eq,braced_eq,missing,variant.closing?_none pairs.rewording missing]
    exact inner covered others variant
  case closed =>
    intro bracket inside cut closed inner more covered others variant
    obtain ⟨before,-,after⟩ := Cut.within (Brackets.whole_of_closing? closed)
    obtain ⟨other,closed',same⟩ := variant.closing?_some pairs.rewording closed
    rw [braced_eq,braced_eq,closed,closed']
    simp only [same.after.isEmpty_eq]
    split
    · exact inner (pairs.part covered before) _ same.before
    · refine pairs.bind (inner (pairs.part covered before) _ same.before) fun _ _ front => ?_
      refine pairs.bind (more (pairs.part covered after) _ same.after) fun _ _ back => pairs.pure ?_
      exact pairs.cons (pairs.block front) back
  case body =>
    intro code inner covered others variant
    have inside := (Body.of_variant pairs.rewording variant).1
    rw [body,body]
    refine pairs.bind (pairs.checkBody _ covered) fun _ _ _ => ?_
    exact pairs.bind (inner (pairs.part covered (Body.of_within code).1) _ inside) fun _ _ known =>
      pairs.pure (pairs.block known)
  case conditional =>
    intro head tail inner behind covered others variant
    have code := pairs.part covered (dropWhile_suffix (!endsHeader ·)).isInfix
    obtain ⟨kept,rest,-⟩ := Body.of_within (tail.dropWhile (!endsHeader ·))
    obtain ⟨inside,following⟩ := Body.of_variant pairs.rewording (code_variant pairs.rewording variant)
    have otherwise := pairs.ofOtherwise (Otherwise.of_variant pairs.rewording following)
      (pairs.part code ((Otherwise.of_within _).trans rest)) behind
    rw [conditional_eq,conditional_eq,pairs.rewording.isKeyword]
    refine pairs.bind (pairs.header covered variant) fun _ _ test => pairs.bind (pairs.checkBody _ code) fun _ _ _ => ?_
    refine pairs.bind (inner (pairs.part code kept) _ inside) fun _ _ known => pairs.bind otherwise fun _ _ final => ?_
    exact pairs.pure (pairs.branch _ test (pairs.block known) final)

end Pairs

/-! ### Readings side by side -/

/-- Two runs end alike, with values that have to do with each other. -/
inductive Joined (errors : CompileError → CompileError → Prop) {α : Type} (related : α → α → Prop) :
    Except CompileError α × Symbols → Except CompileError α × Symbols → Prop
  | ok {value other : α} (known : related value other) (symbols : Symbols) (notes : List Diagnostic) :
      Joined errors related (.ok value, symbols) (.ok other, symbols.noting notes)
  | error {error other : CompileError} (reported : errors error other) (symbols : Symbols) (notes : List Diagnostic) :
      Joined errors related (.error error, symbols) (.error other, symbols.noting notes)

def Linked (errors : CompileError → CompileError → Prop) {α : Type} (related : α → α → Prop) (action other : Read α) : Prop :=
  ∀ symbols notes, Joined errors related (outcome action symbols) (outcome other (symbols.noting notes))

section Linked

variable {spell : Token → Token} {errors : CompileError → CompileError → Prop} {α β : Type} {related : α → α → Prop}

theorem linked_of_alike {action other : Read α} (alike : Alike errors action other) (same : ∀ value, related value value) :
    Linked errors related action other := by
  intro symbols notes
  have reached := alike symbols notes
  generalize outcome action symbols = ended, outcome other (symbols.noting notes) = ended' at reached ⊢
  cases reached with
  | ok value => exact .ok (same value) _ _
  | error reported => exact .error reported _ _

theorem alike_of_linked {action other : Read α} (linked : Linked errors Eq action other) : Alike errors action other := by
  intro symbols notes
  have reached := linked symbols notes
  generalize outcome action symbols = ended, outcome other (symbols.noting notes) = ended' at reached ⊢
  cases reached with
  | ok known =>
    cases known
    exact .ok _ _ _
  | error reported => exact .error reported _ _

theorem linked_bind {last : β → β → Prop} {first first' : Read α} {next next' : α → Read β}
    (start : Linked errors related first first')
    (continued : ∀ value other, related value other → Linked errors last (next value) (next' other)) :
    Linked errors last (first >>= next) (first' >>= next') := by
  intro symbols notes
  have reached := start symbols notes
  rw [outcome_bind,outcome_bind]
  generalize outcome first symbols = ended, outcome first' (symbols.noting notes) = ended' at reached
  cases reached with
  | ok known after notes => exact continued _ _ known after notes
  | error reported after notes => exact .error reported after notes

theorem linked_look {next next' : Symbols → Read α}
    (each : ∀ symbols notes, Linked errors related (next symbols) (next' (symbols.noting notes))) :
    Linked errors related (get >>= next) (get >>= next') := by
  intro symbols notes
  rw [outcome_bind_ok (outcome_get _),outcome_bind_ok (outcome_get _)]
  exact each symbols notes symbols notes

variable (respelling : Respelling spell) (reports : Reports spell errors) (markUnknown : Bool)
include respelling reports

theorem pairs_alike_expressions : PairsExpressions markUnknown spell id (fun _ => True) Eq Eq (Linked errors) where
  rewording := respelling.rewording
  verbatim _ := ⟨rfl, rfl⟩
  part _ _ := trivial
  pure known symbols notes := .ok known symbols notes
  bind := linked_bind
  remark _ _ _ _ := linked_of_alike (alike_remark _ _ _ _) fun _ => trivial
  fail fault stage token mark _ := by
    rw [respelling.line]
    exact fun symbols notes => .error (reports.quoted fault token mark.line stage) symbols notes
  unknown _ _ := linked_of_alike (alike_unknown markUnknown _ _) fun _ => rfl
  number _ := linked_of_alike (alike_number reports _) fun _ => rfl
  reference name := linked_of_alike (alike_reference (respelling.lower name)) fun _ => rfl
  listType _ := linked_of_alike (alike_modify fun _ notes => ⟨notes, rfl⟩) fun _ => trivial
  callTree {name arguments _} _ same :=
    same ▸ linked_of_alike (alike_callTree (respelling.lower name) (respelling.line name) arguments) fun _ => rfl
  shape _ each := by
    rw [expression_eq,expression_eq,upToTerminator_map respelling.rewording]
    refine linked_look fun symbols notes => ?_
    rw [Shape.of_rewrite respelling.rewording id respelling.verbatim]
    exact each symbols.functions
  nil := rfl
  cons := by rintro _ _ _ _ rfl rfl; rfl
  leaf _ _ := rfl
  item := congrArg _
  items := congrArg _
  membership := by rintro _ _ _ _ rfl rfl; rfl
  range := by rintro _ _ _ _ _ _ _ rfl rfl rfl; rfl
  operation := by rintro _ _ _ _ _ rfl rfl; rfl
  element := by rintro _ _ _ _ rfl rfl; rfl
  complement {_ _ mark} _ same := by rw [same,respelling.line mark]

theorem pairs_alike : Pairs markUnknown spell id (fun _ => True) Eq Eq Eq (Linked errors) where
  toPairsExpressions := pairs_alike_expressions respelling reports markUnknown
  append := by rintro _ _ _ _ rfl rfl; rfl
  none := rfl
  some := congrArg _
  toList := congrArg _
  block := congrArg _
  assign {_ _ _ _} _ mark _ target value := by rw [target,value,respelling.line mark]
  loop := by rintro _ _ _ _ _ rfl rfl; rfl
  branch := by rintro _ _ _ _ _ _ _ rfl rfl rfl; rfl
  checkBody _ _ := linked_of_alike (alike_checkBody _ _) fun _ => trivial
  remarks _ := linked_of_alike (alike_of_quiet (quiet_remarks _) (quiet_remarks _)) fun _ => trivial
  loopHeader {head condition} _ := by
    have read : Linked errors Eq (expression markUnknown (fromAsMembership condition)) _ :=
      (pairs_alike_expressions respelling reports markUnknown).expression trivial
    unfold loopHeader
    rw [fromAsMembership_map respelling,respelling.line]
    refine linked_bind read ?_
    rintro tree _ rfl
    split
    · exact fun symbols notes => .ok (by rintro _ _ rfl; rfl) symbols notes
    · exact fun symbols notes => .error (reports.same _) symbols notes
  functionTree {_ _ name inline parameters others statements _} _ _ same trees := by
    obtain rfl : others = parameters := by
      cases others
      exact congr (congr (congrArg Parameters.mk same.names) same.guards.symm) same.required
    exact trees ▸ linked_of_alike (alike_functionTree (respelling.lower name) inline others statements) fun _ => rfl
  leave _ _ each := by
    rw [ofOutline_leave,ofOutline_leave]
    exact linked_look fun symbols _ => each symbols.functions

end Linked

/-! ### Programs -/

theorem declareFunctions_gap {gap : List Token} (isGap : IsGap gap) (previous : Option Token) (rest : List Token) :
    ∃ last, last.isTerminator = true ∧ declareFunctions previous (gap ++ rest) = declareFunctions (some last) rest := by
  have step {token : Token} (isTerminator : token.isTerminator = true) (previous : Option Token) (more : List Token) :
      declareFunctions previous (token :: more) = declareFunctions (some token) more := by
    rw [declareFunctions.eq_def]
    simp [not_keyword_of_terminator isTerminator]
  obtain ⟨first,more,rfl,isTerminator⟩ := isGap.exists_cons
  have all := isGap.all
  clear isGap
  induction more generalizing first previous with
  | nil => exact ⟨first, isTerminator, step isTerminator previous rest⟩
  | cons next more ih =>
    rw [cons_append,step isTerminator]
    exact ih (some first) next (all next (by simp)) fun token member => all token (by simp at member ⊢; tauto)

variable {spell : Token → Token} {errors : CompileError → CompileError → Prop} (respelling : Respelling spell)
include respelling

theorem alike_declareFunctions {tokens others : List Token} (variant : Variant spell tokens others)
    {previous previous' : Option Token} (same : previous'.any Token.isInline = previous.any Token.isInline) :
    Alike errors (declareFunctions previous tokens) (declareFunctions previous' others) := by
  have unmarked {token : Token} (isTerminator : token.isTerminator = true) : (some token).any Token.isInline = false := by
    rw [Option.any_some,Token.isInline,beq_iff_eq.mp isTerminator]
    rfl
  induction variant generalizing previous previous' with
  | nil => exact alike_pure ()
  | @token token solid rest others later ih =>
    have onwards : Alike errors (declareFunctions (some token) rest) (declareFunctions (some (spell token)) others) :=
      ih (respelling.rewording.isInline token)
    unfold declareFunctions
    simp only [respelling.rewording.isKeyword]
    split
    · obtain ⟨rfl,rfl⟩ | ⟨name,_,_,_,rfl,rfl,_⟩ | ⟨_,_,_,_,first,second,rfl,rfl⟩ := later.start
      · exact alike_bind (alike_pure ()) fun _ => onwards
      · have declared : Alike errors
            (modify fun symbols => (symbols.declare name.text (previous.any Token.isInline)).2)
            (modify fun symbols => (symbols.declare (spell name).text (previous'.any Token.isInline)).2) := by
          refine alike_modify fun symbols notes => ⟨notes, ?_⟩
          simp only [Symbols.declare,FunctionTable.declare_of_lower (respelling.lower name),same]
          rfl
        simp only [respelling.tag]
        split
        · exact alike_bind declared fun _ => onwards
        · exact onwards
      · simp only [if_neg (Extent.not_identifier_of_terminator first),if_neg (Extent.not_identifier_of_terminator second)]
        exact onwards
    · exact onwards
  | @gap gap other rest others first second later ih =>
    obtain ⟨last,isTerminator,passed⟩ := declareFunctions_gap first previous rest
    obtain ⟨last',isTerminator',passed'⟩ := declareFunctions_gap second previous' others
    rw [passed,passed']
    exact ih ((unmarked isTerminator').trans (unmarked isTerminator).symm)

theorem alike_program (reports : Reports spell errors) (markUnknown : Bool) {tokens others : List Token}
    (variant : Variant spell (tokens.filter (·.tag != .whitespace)) (others.filter (·.tag != .whitespace))) :
    Alike errors (program markUnknown tokens) (program markUnknown others) :=
  alike_bind (alike_declareFunctions respelling variant rfl) fun _ =>
    alike_bind (alike_of_linked ((pairs_alike respelling reports markUnknown).readings.block _ trivial _ variant))
      fun _ => alike_pure _

end Read
end CalcBasic
