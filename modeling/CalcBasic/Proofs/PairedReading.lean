import CalcBasic.Proofs.Rewording
import CalcBasic.Proofs.TokenParts

/-! Expressions read side by side, from tokens written in two ways. What is known of the steps
of both readings and of the trees they put together is known of whole expressions. -/
namespace CalcBasic.Read
open CalcBasic.Action

/-- A relation between readings, by what the values that they give have to do with each other.
It holds of the steps that expressions are read in, and putting actions together keeps it. -/
structure PairsExpressions (markUnknown : Bool) (write literal : Token → Token) (covers : List Token → Prop)
    (tree : Tree → Tree → Prop) (list : List Tree → List Tree → Prop)
    (rel : {α : Type} → (α → α → Prop) → Read α → Read α → Prop) : Prop where
  rewording : Rewording write
  verbatim (token : Token) : (literal token).tag = token.tag ∧ (literal token).text = token.text
  part {tokens part : List Token} : covers tokens → part <:+: tokens → covers part
  pure {α : Type} {related : α → α → Prop} {value other : α} :
    related value other → rel related (Pure.pure value) (Pure.pure other)
  bind {α β : Type} {related : α → α → Prop} {last : β → β → Prop} {first first' : Read α} {next next' : α → Read β} :
    rel related first first' → (∀ value other, related value other → rel last (next value) (next' other)) →
      rel last (first >>= next) (first' >>= next')
  remark {token : Token} (note other : Remark) (line : Option Nat) : covers [token] →
    rel (fun _ _ => True) (Read.remark note (some token.line)) (Read.remark other line)
  fail {α : Type} {related : α → α → Prop} (fault : String → Fault) (stage : ∀ text other, (fault text).stage = (fault other).stage)
    (token : Token) {mark : Token} : covers [mark] →
      rel related (Read.fail (fault token.text) mark.line) (Read.fail (fault (write token).text) (write mark).line)
  unknown {tokens : List Token} (others : List Token) : covers tokens →
    rel tree (Read.unknown markUnknown tokens) (Read.unknown markUnknown others)
  number {token : Token} : covers [token] → rel tree (Read.number token) (Read.number (literal token))
  reference (name : Token) : rel (fun key other => other = key) (Read.reference name.text) (Read.reference (write name).text)
  listType (key : String) : rel (fun _ _ => True) (modify fun symbols => symbols.setType key .list)
    (modify fun symbols => symbols.setType key .list)
  callTree {name : Token} {arguments others : List Tree} : covers [name] → list arguments others →
    rel tree (Read.callTree name arguments) (Read.callTree (write name) others)
  shape {tokens : List Token} : covers tokens →
    (∀ functions, rel tree (ofShape markUnknown (upToTerminator tokens) (Shape.of functions (upToTerminator tokens)))
      (ofShape markUnknown ((upToTerminator tokens).map write)
        ((Shape.of functions (upToTerminator tokens)).rewrite write literal))) →
    rel tree (Read.expression markUnknown tokens) (Read.expression markUnknown (tokens.map write))
  nil : list [] []
  cons {one other : Tree} {rest rest' : List Tree} : tree one other → list rest rest' → list (one :: rest) (other :: rest')
  leaf {one : Tree} : one.kind ≠ .call → one.children = [] → tree one one
  item {one other : Tree} : tree one other → tree (listItem one) (listItem other)
  items {ones others : List Tree} : list ones others → tree (.list ones) (.list others)
  membership {value value' collection collection' : Tree} : tree value value' → tree collection collection' →
    tree (.membership value collection) (.membership value' collection')
  range {start start' stop stop' step step' : Tree} (inclusive : Bool) : tree start start' → tree stop stop' → tree step step' →
    tree (.range start stop step inclusive true) (.range start' stop' step' inclusive true)
  operation {left left' right right' : Tree} (op : Operator) : tree left left' → tree right right' →
    tree (operationTree left op right) (operationTree left' op right')
  element {base base' index index' : Tree} : tree base base' → tree index index' → tree (.element base index) (.element base' index')
  complement {operand other : Tree} {mark : Token} : covers [mark] → tree operand other →
    tree (Tree.callOf "not" [operand] mark.line) (Tree.callOf "not" [other] (write mark).line)

namespace PairsExpressions

variable {tokens : List Token} {markUnknown : Bool} {write literal : Token → Token} {covers : List Token → Prop}
  {tree : Tree → Tree → Prop}
  {list : List Tree → List Tree → Prop} {rel : {α : Type} → (α → α → Prop) → Read α → Read α → Prop}
  (pairs : PairsExpressions markUnknown write literal covers tree list @rel)
include pairs

theorem mark (covered : covers tokens) {token : Token} (member : token ∈ tokens) : covers [token] := by
  obtain ⟨before,after,rfl⟩ := List.append_of_mem member
  exact pairs.part covered ⟨before, after, by simp⟩

theorem mapM {ι κ : Type} {step : ι → Read Tree} {step' : κ → Read Tree} {items : List ι} {others : List κ}
    (each : List.Forall₂ (fun item other => rel tree (step item) (step' other)) items others) :
    rel list (items.mapM step) (others.mapM step') := by
  induction each with
  | nil => exact pairs.pure pairs.nil
  | cons first _ ih =>
    rw [List.mapM_cons,List.mapM_cons]
    exact pairs.bind first fun _ _ known => pairs.bind ih fun _ _ more => pairs.pure (pairs.cons known more)

theorem checkClosed (closed : Bool) {bracket : Token} (covered : covers [bracket]) :
    rel (fun _ _ => True) (Read.checkClosed closed bracket) (Read.checkClosed closed (write bracket)) := by
  cases closed with
  | true => exact pairs.pure trivial
  | false => exact pairs.remark _ _ _ covered

theorem var (key : String) : tree (.var key) (.var key) := pairs.leaf (by simp) rfl

theorem word (name : Token) : rel tree (Read.word name) (Read.word (write name)) := by
  unfold Read.word
  rw [pairs.rewording.spells,pairs.rewording.spells]
  split
  · exact pairs.pure (pairs.leaf (by simp) rfl)
  · split
    · exact pairs.pure (pairs.leaf (by simp) rfl)
    · refine pairs.bind (pairs.reference name) fun key _ same => ?_
      rw [same]
      exact pairs.pure (pairs.var key)

theorem literalTree {token : Token} (covered : covers [token]) (alone : Bool) :
    rel tree (Read.literal token alone) (Read.literal (literal token) alone) := by
  have finish (one other : Tree) (known : tree one other) : rel tree
      (if alone then Pure.pure one else Read.remark (.afterLiteral token.text) (some token.line) >>= fun _ => Pure.pure one)
      (if alone then Pure.pure other else
        Read.remark (.afterLiteral (literal token).text) (some (literal token).line) >>= fun _ => Pure.pure other) := by
    split
    · exact pairs.pure known
    · exact pairs.bind (pairs.remark _ _ _ covered) fun _ _ _ => pairs.pure known
  have leaf (make : String → Tree) (bare : ∀ text, (make text).kind ≠ .call ∧ (make text).children = []) :
      rel tree (Pure.pure (make token.text)) (Pure.pure (make (literal token).text)) := by
    rw [(pairs.verbatim token).2]
    exact pairs.pure (pairs.leaf (bare _).1 (bare _).2)
  unfold Read.literal
  dsimp only
  rw [(pairs.verbatim token).1]
  split
  · exact pairs.bind (pairs.number covered) finish
  · exact pairs.bind (leaf (.text <| unquoted ·) fun _ => ⟨by simp, rfl⟩) finish
  · exact pairs.bind (leaf .native fun _ => ⟨by simp, rfl⟩) finish

theorem ofShape (covered : covers tokens) (others : List Token) {shape : Shape} (marks : ∀ token ∈ shape.marks, covers [token])
    (parts : ∀ part ∈ shape.parts, rel tree (Read.expression markUnknown part) (Read.expression markUnknown (part.map write))) :
    rel tree (Read.ofShape markUnknown tokens shape) (Read.ofShape markUnknown others (shape.rewrite write literal)) := by
  have all {step step' : List Token → Read Tree} (lists : List (List Token))
      (each : ∀ list ∈ lists, rel tree (step list) (step' (list.map write))) :
      rel list (lists.mapM step) ((lists.map (List.map write)).mapM step') :=
    pairs.mapM (List.forall₂_map_right_iff.mpr (List.forall₂_same.mpr each))
  have pair {left right : List Token} (first : left ∈ shape.parts) (second : right ∈ shape.parts) {make : Tree → Tree → Tree}
      (made : ∀ {one one' two two'}, tree one one' → tree two two' → tree (make one two) (make one' two')) :
      rel tree (Read.expression markUnknown left >>= fun one => Read.expression markUnknown right >>= fun two => Pure.pure (make one two))
        (Read.expression markUnknown (left.map write) >>= fun one =>
          Read.expression markUnknown (right.map write) >>= fun two => Pure.pure (make one two)) :=
    pairs.bind (parts left first) fun _ _ one => pairs.bind (parts right second) fun _ _ two => pairs.pure (made one two)
  have literalNumber (value : Float) : tree (.number value) (.number value) := pairs.leaf (by simp) rfl
  cases shape with
  | nothing | unknown => exact pairs.unknown others covered
  | group bracket closed inside =>
    exact pairs.bind (pairs.checkClosed closed (marks bracket (by simp))) fun _ _ _ => parts inside (by simp)
  | list bracket closed items =>
    refine pairs.bind (pairs.checkClosed closed (marks bracket (by simp))) fun _ _ _ => ?_
    refine pairs.bind (all items fun item member => ?_) fun _ _ known => pairs.pure (pairs.items known)
    exact pairs.bind (parts item member) fun _ _ known => pairs.pure (pairs.item known)
  | call name arguments =>
    exact pairs.bind (all arguments parts) fun _ _ known => pairs.callTree (marks name (by simp)) known
  | unclosedCall name bracket => exact pairs.fail .unclosedArguments (fun _ _ => rfl) name (marks bracket (by simp))
  | membership value collection => exact pair (by simp) (by simp) pairs.membership
  | range start inclusive stop step =>
    cases step with
    | none =>
      exact pair (by simp) (by simp) fun one two => pairs.range inclusive one two (literalNumber 1)
    | some step =>
      refine pairs.bind (parts start (by simp)) fun _ _ one => ?_
      refine pairs.bind (parts stop (by simp)) fun _ _ two => ?_
      exact pairs.bind (parts step (by simp)) fun _ _ three => pairs.pure (pairs.range inclusive one two three)
  | operation left op right => exact pair (by simp) (by simp) (pairs.operation op)
  | negative operand =>
    exact pairs.bind (parts operand (by simp)) fun _ _ known =>
      pairs.pure (pairs.operation (.arith .sub) (literalNumber 0) known)
  | positive operand => exact parts operand (by simp)
  | complement mark operand =>
    exact pairs.bind (parts operand (by simp)) fun _ _ known =>
      pairs.pure (pairs.complement (marks mark (by simp)) known)
  | word name => exact pairs.word name
  | element name bracket closed index =>
    refine pairs.bind (pairs.checkClosed closed (marks bracket (by simp))) fun _ _ _ => ?_
    refine pairs.bind (pairs.reference name) fun key _ same => ?_
    rw [same]
    refine pairs.bind (pairs.listType key) fun _ _ _ => ?_
    exact pairs.bind (parts index (by simp)) fun _ _ known => pairs.pure (pairs.element (pairs.var key) known)
  | literal token alone => exact pairs.literalTree (marks token (by simp)) alone

theorem expression (covered : covers tokens) :
    rel tree (Read.expression markUnknown tokens) (Read.expression markUnknown (tokens.map write)) := by
  induction size : tokens.length using Nat.strongRecOn generalizing tokens with
  | _ size ih =>
    subst size
    refine pairs.shape covered fun functions => ?_
    have line : covers (upToTerminator tokens) := pairs.part covered (List.takeWhile_prefix _).isInfix
    obtain ⟨marks,parts⟩ := Shape.of_within functions (upToTerminator tokens)
    refine pairs.ofShape line _ (fun token member => pairs.mark line (marks member)) fun part isPart => ?_
    exact ih part.length (part_shorter rfl isPart) (pairs.part line (parts part isPart)) rfl

end PairsExpressions
end CalcBasic.Read
