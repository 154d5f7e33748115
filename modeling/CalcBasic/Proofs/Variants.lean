import CalcBasic.Proofs.Rewording
import CalcBasic.Proofs.StatementPieces

/-! Token lists that say the same: words stand in another case, and a run of terminators
is longer or shorter but never gone. Whatever cuts one of them cuts the other at the
same place, into parts that say the same again. -/
namespace CalcBasic
open List
open Brackets (Nested close_append leveled map_snd_leveled leveled_append cut_append)

/-- A run of terminators. -/
structure IsGap (gap : List Token) : Prop where
  filled : gap ≠ []
  all : ∀ token ∈ gap, token.isTerminator = true

inductive Variant (spell : Token → Token) : List Token → List Token → Prop
  | nil : Variant spell [] []
  | token (token : Token) (solid : token.isTerminator = false) {rest others : List Token}
      (later : Variant spell rest others) : Variant spell (token :: rest) (spell token :: others)
  | gap {gap other rest others : List Token} (first : IsGap gap) (second : IsGap other)
      (later : Variant spell rest others) : Variant spell (gap ++ rest) (other ++ others)

namespace IsGap

variable {gap : List Token} (isGap : IsGap gap)
include isGap

theorem exists_cons : ∃ first rest, gap = first :: rest ∧ first.isTerminator = true := by
  cases gap with
  | nil => exact absurd rfl isGap.filled
  | cons first rest => exact ⟨first, rest, rfl, isGap.all first (by simp)⟩

theorem takeWhile_append (rest : List Token) :
    (gap ++ rest).takeWhile Token.isTerminator = gap ++ rest.takeWhile Token.isTerminator :=
  takeWhile_append_of_pos isGap.all

theorem dropWhile_append (rest : List Token) :
    (gap ++ rest).dropWhile Token.isTerminator = rest.dropWhile Token.isTerminator :=
  dropWhile_append_of_pos isGap.all

theorem stops {p : Token → Bool} (stops : ∀ token, token.isTerminator = true → p token = false) (rest : List Token) :
    (gap ++ rest).takeWhile p = [] ∧ (gap ++ rest).dropWhile p = gap ++ rest := by
  obtain ⟨first,more,rfl,isTerminator⟩ := isGap.exists_cons
  have stopped := stops first isTerminator
  exact ⟨takeWhile_cons_of_neg (by simp [stopped]), dropWhile_cons_of_neg (by simp [stopped])⟩

end IsGap

namespace Variant

variable {spell : Token → Token} {tokens others : List Token}

theorem of_map (rewording : Rewording spell) (tokens : List Token) : Variant spell tokens (tokens.map spell) := by
  induction tokens with
  | nil => exact .nil
  | cons token rest ih =>
    cases terminator : token.isTerminator with
    | false => exact .token token terminator ih
    | true =>
      have first : IsGap [token] := ⟨by simp, by simp [terminator]⟩
      have second : IsGap [spell token] := ⟨by simp, by simp [rewording.isTerminator,terminator]⟩
      exact .gap first second ih

theorem append (front : Variant spell tokens others) {rest rest' : List Token} (back : Variant spell rest rest') :
    Variant spell (tokens ++ rest) (others ++ rest') := by
  induction front with
  | nil => exact back
  | token token solid _ ih => exact .token token solid ih
  | gap first second _ ih =>
    rw [append_assoc,append_assoc]
    exact .gap first second ih

theorem start (variant : Variant spell tokens others) :
    (tokens = [] ∧ others = []) ∨
    (∃ token rest rest', token.isTerminator = false ∧ tokens = token :: rest ∧ others = spell token :: rest' ∧
      Variant spell rest rest') ∨
    (∃ token rest other rest', token.isTerminator = true ∧ other.isTerminator = true ∧ tokens = token :: rest ∧
      others = other :: rest') := by
  cases variant with
  | nil => exact .inl ⟨rfl, rfl⟩
  | token token solid later => exact .inr (.inl ⟨token, _, _, solid, rfl, rfl, later⟩)
  | gap first second later =>
    obtain ⟨token,more,rfl,isTerminator⟩ := first.exists_cons
    obtain ⟨other,more',rfl,isTerminator'⟩ := second.exists_cons
    exact .inr (.inr ⟨token, _, other, _, isTerminator, isTerminator', rfl, rfl⟩)

theorem of_nil (variant : Variant spell [] others) : others = [] := by
  obtain ⟨_,rfl⟩ | ⟨_,_,_,_,no,_⟩ | ⟨_,_,_,_,_,_,no,_⟩ := variant.start
  · rfl
  · cases no
  · cases no

theorem of_solid {token : Token} {rest : List Token} (variant : Variant spell (token :: rest) others)
    (solid : token.isTerminator = false) : ∃ rest', others = spell token :: rest' ∧ Variant spell rest rest' := by
  obtain ⟨no,_⟩ | ⟨_,_,rest',_,same,rfl,later⟩ | ⟨_,_,_,_,isTerminator,_,same,_⟩ := variant.start
  · cases no
  · cases same
    exact ⟨rest', rfl, later⟩
  · cases same
    rw [isTerminator] at solid
    cases solid

/-- Behind one terminator the lists say the same once more terminators are passed over. -/
theorem behind {token : Token} {rest : List Token} (variant : Variant spell (token :: rest) others)
    (isTerminator : token.isTerminator = true) :
    ∃ gap rest', others = gap ++ rest' ∧ (∀ token ∈ gap, token.isTerminator = true) ∧ Variant spell rest rest' := by
  generalize whole : token :: rest = tokens at variant
  cases variant with
  | nil => cases whole
  | token token solid later =>
    cases whole
    rw [isTerminator] at solid
    cases solid
  | @gap gap other rest' others first second later =>
    obtain ⟨head,more,rfl,_⟩ := first.exists_cons
    cases whole
    cases more with
    | nil => exact ⟨other, others, rfl, second.all, later⟩
    | cons next more =>
      have shorter : IsGap (next :: more) := ⟨by simp, fun token member => first.all token (by simp [member])⟩
      exact ⟨[], other ++ others, rfl, by simp, .gap shorter second later⟩

theorem isEmpty_eq (variant : Variant spell tokens others) : others.isEmpty = tokens.isEmpty := by
  obtain ⟨rfl,rfl⟩ | ⟨_,_,_,_,rfl,rfl,_⟩ | ⟨_,_,_,_,_,_,rfl,rfl⟩ := variant.start <;> rfl

/-! ### Searches -/

theorem takeWhile_gap (variant : Variant spell tokens others) (rewording : Rewording spell) :
    Variant spell (tokens.takeWhile Token.isTerminator) (others.takeWhile Token.isTerminator) := by
  induction variant with
  | nil => exact .nil
  | token token solid _ _ =>
    rw [takeWhile_cons_of_neg (by simp [solid]),takeWhile_cons_of_neg (by simp [rewording.isTerminator,solid])]
    exact .nil
  | gap first second _ ih =>
    rw [first.takeWhile_append,second.takeWhile_append]
    exact .gap first second ih

theorem dropWhile_gap (variant : Variant spell tokens others) (rewording : Rewording spell) :
    Variant spell (tokens.dropWhile Token.isTerminator) (others.dropWhile Token.isTerminator) := by
  induction variant with
  | nil => exact .nil
  | token token solid later _ =>
    rw [dropWhile_cons_of_neg (by simp [solid]),dropWhile_cons_of_neg (by simp [rewording.isTerminator,solid])]
    exact .token token solid later
  | gap first second _ ih =>
    rw [first.dropWhile_append,second.dropWhile_append]
    exact ih

section Solid

variable {p : Token → Bool} (stops : ∀ token, token.isTerminator = true → p token = false)
  (agrees : ∀ token, p (spell token) = p token) (variant : Variant spell tokens others)
include stops agrees variant

/-- A search that ends at terminators sees no gap, so it finds the same in both lists. -/
theorem takeWhile_solid : others.takeWhile p = (tokens.takeWhile p).map spell := by
  induction variant with
  | nil => rfl
  | token token solid _ ih =>
    rw [takeWhile_cons,takeWhile_cons,agrees]
    split
    · rw [ih,map_cons]
    · rfl
  | gap first second _ _ => rw [(first.stops stops _).1,(second.stops stops _).1,map_nil]

theorem dropWhile_solid : Variant spell (tokens.dropWhile p) (others.dropWhile p) := by
  induction variant with
  | nil => exact .nil
  | token token solid later ih =>
    rw [dropWhile_cons,dropWhile_cons,agrees]
    split
    · exact ih
    · exact .token token solid later
  | gap first second later _ =>
    rw [(first.stops stops _).2,(second.stops stops _).2]
    exact .gap first second later

end Solid

end Variant

/-! ### Brackets -/

/-- Two cuts at the same place. -/
structure Cut.Variant (spell : Token → Token) (cut other : Cut) : Prop where
  before : CalcBasic.Variant spell cut.before other.before
  token : other.token = spell cut.token
  solid : cut.token.isTerminator = false
  after : CalcBasic.Variant spell cut.after other.after

theorem Cut.rel_map {spell : Token → Token} {found found' : Option Cut} {change change' : Cut → Cut}
    (related : Option.Rel (Cut.Variant spell) found found')
    (each : ∀ cut other, cut.Variant spell other → (change cut).Variant spell (change' other)) :
    Option.Rel (Cut.Variant spell) (found.map change) (found'.map change') := by
  cases related with
  | none => exact .none
  | some related => exact .some (each _ _ related)

theorem IsGap.nested {gap : List Token} (isGap : IsGap gap) : Nested gap := by
  have all := isGap.all
  clear isGap
  induction gap with
  | nil => exact .nil
  | cons token rest ih =>
    have isTerminator : token.tag = .terminator := beq_iff_eq.mp (all token (by simp))
    exact .token (by rw [isTerminator]; rfl) (by rw [isTerminator]; rfl) (ih fun other member => all other (by simp [member]))

namespace Variant

variable {spell : Token → Token} {tokens others : List Token}

variable (variant : Variant spell tokens others) (rewording : Rewording spell)
include variant rewording

theorem close {opener closer : Tag}
    (matched : opener.closer? = some closer) (nested : Nat) :
    Option.Rel (Cut.Variant spell) (Brackets.close opener closer nested tokens)
      (Brackets.close opener closer nested others) := by
  induction variant generalizing nested with
  | nil => exact .none
  | @token token solid rest others later ih =>
    have passed (nested : Nat) : Option.Rel (Cut.Variant spell)
        ((Brackets.close opener closer nested rest).map (Cut.cons token))
        ((Brackets.close opener closer nested others).map (Cut.cons (spell token))) :=
      Cut.rel_map (ih nested) fun _ _ related => ⟨.token token solid related.before, related.token, related.solid, related.after⟩
    unfold Brackets.close
    rw [rewording.tag]
    split
    · exact passed _
    · split
      · cases nested with
        | zero => exact .some ⟨.nil, rfl, solid, later⟩
        | succ nested => exact passed nested
      · exact passed nested
  | gap first second _ ih =>
    rw [close_append matched first.nested,close_append matched second.nested]
    exact Cut.rel_map (ih nested) fun _ _ related => ⟨.gap first second related.before, related.token, related.solid, related.after⟩

theorem closing? (bracket : Token) :
    Option.Rel (Cut.Variant spell) (Brackets.closing? bracket tokens) (Brackets.closing? (spell bracket) others) := by
  rw [Brackets.closing?,Brackets.closing?,rewording.tag]
  cases matched : bracket.tag.closer? with
  | none => exact .none
  | some closer => exact variant.close rewording matched 0

theorem closing?_none {bracket : Token}
    (unclosed : Brackets.closing? bracket tokens = none) : Brackets.closing? (spell bracket) others = none := by
  have related := variant.closing? rewording bracket
  rw [unclosed] at related
  generalize Brackets.closing? (spell bracket) others = found at related
  cases related
  rfl

theorem closing?_some {bracket : Token} {cut : Cut}
    (closed : Brackets.closing? bracket tokens = some cut) :
    ∃ other, Brackets.closing? (spell bracket) others = some other ∧ cut.Variant spell other := by
  have related := variant.closing? rewording bracket
  rw [closed] at related
  generalize Brackets.closing? (spell bracket) others = found at related
  cases related with
  | some same => exact ⟨_, rfl, same⟩

theorem split {separator : Tag}
    (solid : separator ≠ .terminator) :
    List.Forall₂ (Variant spell) (Brackets.split separator tokens) (Brackets.split separator others) := by
  -- the groups at any depth, the first of them apart
  suffices parts : ∀ depth,
      let groups := Groups.cut (fun entry => entry.1 == 0 && entry.2.tag == separator) (leveled depth tokens)
      let groups' := Groups.cut (fun entry => entry.1 == 0 && entry.2.tag == separator) (leveled depth others)
      Variant spell (groups.1.map (·.2)) (groups'.1.map (·.2)) ∧
        List.Forall₂ (Variant spell) (groups.2.map (·.map (·.2))) (groups'.2.map (·.map (·.2))) from
    .cons (parts 0).1 (parts 0).2
  have absent {gap : List Token} (isGap : IsGap gap) (depth : Nat) :
      ∀ entry ∈ leveled depth gap, (entry.1 == 0 && entry.2.tag == separator) = false := by
    intro entry member
    have inside : entry.2 ∈ gap := by
      rw [← map_snd_leveled depth gap]
      exact mem_map_of_mem member
    have isTerminator : entry.2.tag = .terminator := beq_iff_eq.mp (isGap.all entry.2 inside)
    simp [isTerminator,solid.symm]
  induction variant with
  | nil => exact fun _ => ⟨.nil, .nil⟩
  | token token notTerminator _ ih =>
    intro depth
    simp only [leveled,Groups.cut,rewording.tag]
    generalize (if token.tag.isClose = true then depth - 1 else depth) = level
    have inner := ih (if token.tag.isOpen = true then level + 1 else level)
    split
    · exact ⟨.nil, .cons inner.1 inner.2⟩
    · exact ⟨.token token notTerminator inner.1, inner.2⟩
  | gap first second _ ih =>
    intro depth
    have inner := ih depth
    simp only [leveled_append first.nested,leveled_append second.nested,
      cut_append (absent first depth),cut_append (absent second depth),map_append,
      map_snd_leveled]
    exact ⟨.gap first second inner.1, inner.2⟩

end Variant

/-! ### Extents -/

/-- Both lists are cut, behind so many tokens each, into parts that say the same. -/
structure Splits (spell : Token → Token) (tokens others : List Token) (size size' : Nat) : Prop where
  front : Variant spell (tokens.take size) (others.take size')
  back : Variant spell (tokens.drop size) (others.drop size')

namespace Splits

variable {spell : Token → Token} {tokens others : List Token} {size size' : Nat}

theorem none (variant : Variant spell tokens others) : Splits spell tokens others 0 0 := ⟨.nil, variant⟩

theorem all (variant : Variant spell tokens others) : Splits spell tokens others tokens.length others.length := by
  constructor
  · rw [take_length,take_length]
    exact variant
  · rw [drop_length,drop_length]
    exact .nil

theorem whole (splits : Splits spell tokens others size size') : Variant spell tokens others := by
  have joined := splits.front.append splits.back
  rwa [take_append_drop,take_append_drop] at joined

theorem andThen (first : Splits spell tokens others size size') {more more' : Nat}
    (second : Splits spell (tokens.drop size) (others.drop size') more more') :
    Splits spell tokens others (size + more) (size' + more') := by
  constructor
  · rw [take_add,take_add]
    exact first.front.append second.front
  · rw [← drop_drop,← drop_drop]
    exact second.back

theorem behind {front front' : List Token} (first : Variant spell front front')
    (splits : Splits spell tokens others size size') :
    Splits spell (front ++ tokens) (front' ++ others) (front.length + size) (front'.length + size') := by
  refine andThen ⟨?_, ?_⟩ ?_
  · rw [take_left,take_left]
    exact first
  · rw [drop_left,drop_left]
    exact splits.whole
  · rw [drop_left,drop_left]
    exact splits

end Splits

namespace Extent

variable {others rest : List Token} {token first : Token}

variable {spell : Token → Token} (rewording : Rewording spell)
include rewording

theorem endsHeader_spell (token : Token) : (!endsHeader (spell token)) = !endsHeader token := by
  rw [endsHeader,endsHeader,rewording.tag]

theorem startsConditional_spell (token : Token) : startsConditional (spell token) = startsConditional token := by
  rw [startsConditional,startsConditional,rewording.isKeyword,rewording.isKeyword]

omit rewording in
theorem endsHeader_of_terminator (token : Token) (isTerminator : token.isTerminator = true) : (!endsHeader token) = false := by
  rw [endsHeader,beq_iff_eq.mp isTerminator]
  rfl

omit rewording in
theorem not_keyword_of_terminator (isTerminator : token.isTerminator = true) (word : String) :
    token.isKeyword word = false := by
  rw [Token.isKeyword,beq_iff_eq.mp isTerminator]
  rfl

omit rewording in
theorem not_identifier_of_terminator (isTerminator : token.isTerminator = true) : token.tag ≠ .identifier := by
  rw [beq_iff_eq.mp isTerminator]
  decide

theorem isCompound_variant (token : Token) (variant : Variant spell rest others) :
    isCompound (spell token :: others) = isCompound (token :: rest) := by
  have next : others.head?.any (·.isKeyword "function") = rest.head?.any (·.isKeyword "function") := by
    obtain ⟨rfl,rfl⟩ | ⟨next,_,_,_,rfl,rfl,_⟩ | ⟨next,_,other,_,first,second,rfl,rfl⟩ := variant.start
    · rfl
    · exact rewording.isKeyword next "function"
    · exact (not_keyword_of_terminator second _).trans (not_keyword_of_terminator first _).symm
  have words : (spell token).spells = token.spells := funext (rewording.spells token)
  rw [isCompound,isCompound,rewording.tag,rewording.isInline,next,words]

omit rewording in
theorem takeWhile_gap_outside {gap : List Token} (isGap : IsGap gap) (rest : List Token) :
    ((leveled 0 (gap ++ rest)).takeWhile inside).length = 0 := by
  obtain ⟨first,more,rfl,isTerminator⟩ := isGap.exists_cons
  rw [cons_append,leveled,takeWhile_cons_of_neg (by simp [inside,isTerminator])]
  rfl

omit rewording in
theorem takeWhile_gap_inside {gap : List Token} (isGap : IsGap gap) (depth : Nat) (rest : List Token) :
    ((leveled (depth + 1) (gap ++ rest)).takeWhile inside).length =
      gap.length + ((leveled (depth + 1) rest).takeWhile inside).length := by
  have passed : ∀ entry ∈ leveled (depth + 1) gap, inside entry = true := by
    intro entry member
    have deep := Brackets.level_ge isGap.nested (depth + 1) entry member
    simp [inside,show entry.1 ≠ 0 by omega]
  rw [leveled_append isGap.nested,takeWhile_append_of_pos passed,length_append,Brackets.length_leveled]

theorem inside_variant {tokens : List Token} (variant : Variant spell tokens others) (depth : Nat) :
    Splits spell tokens others ((leveled depth tokens).takeWhile inside).length
      ((leveled depth others).takeWhile inside).length := by
  induction variant generalizing depth with
  | nil => exact .none .nil
  | token token solid later ih =>
    have same : (spell token).isTerminator = false := (rewording.isTerminator token).trans solid
    rw [leveled,leveled,rewording.tag,takeWhile_cons_of_pos (by simp [inside,solid]),
      takeWhile_cons_of_pos (by simp [inside,same]),length_cons,length_cons]
    generalize (if token.tag.isOpen = true then _ else _) = next
    have splits := Splits.behind (.token token solid .nil) (ih next)
    rw [length_singleton,length_singleton,Nat.add_comm 1,Nat.add_comm 1] at splits
    exact splits
  | @gap gap other rest others first second later ih =>
    have whole : Variant spell (gap ++ rest) (other ++ others) := .gap first second later
    cases depth with
    | zero =>
      rw [takeWhile_gap_outside first,takeWhile_gap_outside second]
      exact .none whole
    | succ depth =>
      have front : Variant spell (gap ++ []) (other ++ []) := .gap first second .nil
      rw [append_nil,append_nil] at front
      rw [takeWhile_gap_inside first,takeWhile_gap_inside second]
      exact Splits.behind front (ih _)

theorem block_variant (opens : first.tag = .blockOpen) (solid : first.isTerminator = false)
    (variant : Variant spell rest others) :
    Splits spell (first :: rest) (spell first :: others) (statement (first :: rest)) (statement (spell first :: others)) := by
  rw [statement_of_block opens,statement_of_block (by rwa [rewording.tag])]
  cases closed : Brackets.closing? first rest with
  | none =>
    rw [variant.closing?_none rewording closed]
    exact .all (.token first solid variant)
  | some cut =>
    obtain ⟨other,closed',same⟩ := variant.closing?_some rewording closed
    have splits := Splits.behind (.token first solid (same.before.append (.token cut.token same.solid .nil))) (.none same.after)
    rw [← same.token] at splits
    have whole := Brackets.whole_of_closing? closed
    have whole' := Brackets.whole_of_closing? closed'
    rw [closed']
    simpa [← whole,← whole',Cut.whole] using splits

omit rewording in
theorem statement_of_terminator (isTerminator : token.isTerminator = true) (rest : List Token) :
    statement (token :: rest) = 0 := by
  have tag : token.tag = .terminator := beq_iff_eq.mp isTerminator
  have plain : isCompound (token :: rest) = false := by simp [isCompound,Token.isInline,tag]
  have gap : IsGap [token] := ⟨by simp, by simp [isTerminator]⟩
  rw [statement_of_plain (by simp [tag]) plain]
  exact takeWhile_gap_outside gap rest

variable {size : Nat} (lower : ∀ tokens others : List Token, tokens.length ≤ size → Variant spell tokens others →
  Splits spell tokens others (statement tokens) (statement others))
include lower

theorem body_variant {code : List Token} (short : code.length ≤ size) (variant : Variant spell code others) :
    Splits spell code others (body code) (body others) := by
  have bound := length_parts Token.isTerminator code
  have splits := Splits.behind (variant.takeWhile_gap rewording)
    (lower _ _ (by omega) (variant.dropWhile_gap rewording))
  rw [takeWhile_append_dropWhile,takeWhile_append_dropWhile,← body_eq,← body_eq] at splits
  exact splits

theorem trunk_variant {head : Token} (solid : head.isTerminator = false) {tail : List Token} (short : tail.length ≤ size)
    (variant : Variant spell tail others) :
    Splits spell (head :: tail) (spell head :: others) (trunk tail) (trunk others) := by
  have bound := length_parts (!endsHeader ·) tail
  have header : Variant spell (tail.takeWhile (!endsHeader ·)) (others.takeWhile (!endsHeader ·)) := by
    rw [variant.takeWhile_solid endsHeader_of_terminator (endsHeader_spell rewording)]
    exact .of_map rewording _
  have splits := Splits.behind (.token head solid header) (body_variant rewording lower (by omega)
    (variant.dropWhile_solid endsHeader_of_terminator (endsHeader_spell rewording)))
  rw [cons_append,cons_append,takeWhile_append_dropWhile,takeWhile_append_dropWhile,
    length_cons,length_cons,Nat.add_comm _ 1,Nat.add_comm _ 1] at splits
  exact splits

theorem branches_variant (short : rest.length ≤ size) (variant : Variant spell rest others) :
    Splits spell rest others (branches rest) (branches others) := by
  have bound := length_parts Token.isTerminator rest
  have gap := variant.takeWhile_gap rewording
  unfold branches
  obtain ⟨none,none'⟩ | ⟨word,branch,branch',solid,found,found',later⟩ | ⟨_,_,_,_,first,second,found,found'⟩ :=
    (variant.dropWhile_gap rewording).start
  · rw [none,none']
    exact .none variant
  · rw [found,found']
    rw [found,length_cons] at bound
    simp only [rewording.isKeyword]
    split
    · have splits := Splits.behind (gap.append (.token word solid .nil)) (body_variant rewording lower (by omega) later)
      rw [append_assoc,append_assoc,singleton_append,singleton_append,← found,← found',
        takeWhile_append_dropWhile,takeWhile_append_dropWhile,length_append,length_append] at splits
      exact splits
    · exact .none variant
  · rw [found,found']
    simp only [not_keyword_of_terminator first,not_keyword_of_terminator second]
    exact .none variant

theorem compound_variant {head : Token} (solid : head.isTerminator = false) {tail : List Token} (short : tail.length ≤ size)
    (variant : Variant spell tail others) :
    Splits spell (head :: tail) (spell head :: others) (compound head tail) (compound (spell head) others) := by
  have first := trunk_variant rewording lower solid short variant
  rw [compound_eq,compound_eq,startsConditional_spell rewording]
  split
  · have positive : 1 ≤ trunk tail := by unfold trunk; omega
    have remaining : ((head :: tail).drop (trunk tail)).length = tail.length + 1 - trunk tail := length_drop
    exact first.andThen (branches_variant rewording lower (by omega) first.back)
  · exact first

omit lower in
theorem statement_variant {tokens : List Token} (variant : Variant spell tokens others) :
    Splits spell tokens others (statement tokens) (statement others) := by
  suffices bounded : ∀ size, ∀ tokens others : List Token, tokens.length ≤ size → Variant spell tokens others →
      Splits spell tokens others (statement tokens) (statement others) from bounded _ _ _ (Nat.le_refl _) variant
  intro size
  induction size with
  | zero =>
    intro tokens others short variant
    rw [length_eq_zero_iff.mp (Nat.le_zero.mp short)] at variant ⊢
    rw [variant.of_nil,statement_nil]
    exact .none .nil
  | succ size lower =>
    intro tokens others short variant
    obtain ⟨rfl,rfl⟩ | ⟨first,rest,rest',solid,rfl,rfl,later⟩ | ⟨first,rest,other,rest',isTerminator,isTerminator',rfl,rfl⟩ :=
      variant.start
    · rw [statement_nil]
      exact .none .nil
    · rw [length_cons] at short
      by_cases opens : first.tag = .blockOpen
      · exact block_variant rewording opens solid later
      · have reaches := isCompound_variant rewording first later
        cases starts : isCompound (first :: rest) with
        | true =>
          rw [statement_of_isCompound starts,statement_of_isCompound (reaches.trans starts)]
          exact compound_variant rewording lower solid (by omega) later
        | false =>
          rw [statement_of_plain opens starts,statement_of_plain (by rwa [rewording.tag]) (reaches.trans starts)]
          exact inside_variant rewording variant 0
    · rw [statement_of_terminator isTerminator,statement_of_terminator isTerminator']
      exact .none variant

omit rewording lower in
theorem statement_pos (solid : first.isTerminator = false) (rest : List Token) : 1 ≤ statement (first :: rest) := by
  by_cases opens : first.tag = .blockOpen
  · rw [statement_of_block opens]
    cases Brackets.closing? first rest with
    | none => exact Nat.le_add_left 1 rest.length
    | some cut => exact Nat.le_add_left 1 (cut.before.length + 1)
  · cases starts : isCompound (first :: rest) with
    | true =>
      rw [statement_of_isCompound starts]
      exact compound_pos first rest
    | false =>
      rw [statement_of_plain opens starts,leveled,takeWhile_cons_of_pos (by simp [inside,solid])]
      exact Nat.le_add_left 1 _

omit lower in
theorem first_variant (solid : first.isTerminator = false) (variant : Variant spell rest others) :
    Variant spell (first :: rest.take (statement (first :: rest) - 1))
        (spell first :: others.take (statement (spell first :: others) - 1)) ∧
      Variant spell (rest.drop (statement (first :: rest) - 1)) (others.drop (statement (spell first :: others) - 1)) := by
  have same : (spell first).isTerminator = false := (rewording.isTerminator first).trans solid
  obtain ⟨front,back⟩ := statement_variant rewording (.token first solid variant)
  obtain ⟨size,isSize⟩ := Nat.exists_eq_add_one.mpr (statement_pos solid rest)
  obtain ⟨size',isSize'⟩ := Nat.exists_eq_add_one.mpr (statement_pos same others)
  rw [isSize,isSize'] at front back ⊢
  exact ⟨front, back⟩

end Extent
end CalcBasic
