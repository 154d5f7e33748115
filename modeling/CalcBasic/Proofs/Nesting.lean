import CalcBasic.Brackets
import Mathlib.Data.List.TakeWhile

/-! Properly nested token lists: a nested list is passed over as a whole by
everything that looks for brackets, levels or separators. -/
namespace CalcBasic.Brackets
open List

variable (depth : Nat) (rest : List Token)

variable {left right inside tokens : List Token} {opening closing token : Token} {wanted : Token → Token → Bool}
  {opener closer separator : Tag}

/-- Every bracket is closed by one of its own kind. -/
inductive Nested : List Token → Prop
  | nil : Nested []
  | token {token : Token} {rest : List Token} (opens : token.tag.isOpen = false)
      (closes : token.tag.isClose = false) (after : Nested rest) : Nested (token :: rest)
  | pair {opening closing : Token} {inside rest : List Token}
      (matched : opening.tag.closer? = some closing.tag) (within : Nested inside)
      (after : Nested rest) : Nested (opening :: (inside ++ closing :: rest))

/-- The tokens outside all brackets, the outermost brackets among them. -/
def outer (tokens : List Token) : List Token :=
  ((leveled 0 tokens).filter (·.1 == 0)).map (·.2)

theorem Nested.append (first : Nested left) (second : Nested right) : Nested (left ++ right) := by
  induction first with
  | nil => exact second
  | token opens closes _ ih => exact .token opens closes ih
  | @pair opening closing inside rest matched within _ _ ih =>
    have joined := Nested.pair matched within ih
    simpa using joined

theorem Nested.single (opens : token.tag.isOpen = false)
    (closes : token.tag.isClose = false) : Nested [token] := .token opens closes .nil

theorem Nested.enclosed {opening closing : Token} {inside : List Token}
    (matched : opening.tag.closer? = some closing.tag) (within : Nested inside) :
    Nested (opening :: (inside ++ [closing])) := .pair matched within .nil

/-! ### Closing brackets -/

theorem kinds (matched : opener.closer? = some closer) :
    opener = .parenOpen ∧ closer = .parenClose ∨ opener = .blockOpen ∧ closer = .blockClose ∨
      opener = .listOpen ∧ closer = .listClose := by
  revert matched
  cases opener <;> simp [Tag.closer?,eq_comm]

theorem sides_of_matched (matched : opener.closer? = some closer) :
    opener.isOpen = true ∧ opener.isClose = false ∧ closer.isOpen = false ∧ closer.isClose = true := by
  rcases kinds matched with ⟨rfl,rfl⟩ | ⟨rfl,rfl⟩ | ⟨rfl,rfl⟩ <;> decide

theorem opener_unique {other : Tag} (matched : opener.closer? = some closer)
    (alike : other.closer? = some closer) : other = opener := by
  rcases kinds matched with ⟨rfl,rfl⟩ | ⟨rfl,rfl⟩ | ⟨rfl,rfl⟩ <;>
    rcases kinds alike with ⟨rfl,equal⟩ | ⟨rfl,equal⟩ | ⟨rfl,equal⟩ <;> first | rfl | contradiction

theorem close_opener (opens : token.tag = opener) : close opener closer depth (token :: rest) =
      (close opener closer (depth + 1) rest).map (Cut.cons token) := by
  rw [close.eq_def]
  simp [opens]

theorem close_other (opens : token.tag ≠ opener) (closes : token.tag ≠ closer) : close opener closer depth (token :: rest) =
      (close opener closer depth rest).map (Cut.cons token) := by
  rw [close.eq_def]
  simp [opens,closes]

theorem close_inner (opens : token.tag ≠ opener) (closes : token.tag = closer) :
    close opener closer (depth + 1) (token :: rest) =
      (close opener closer depth rest).map (Cut.cons token) := by
  subst closes
  rw [close.eq_def]
  simp [opens]

theorem close_here (opens : token.tag ≠ opener) (closes : token.tag = closer) :
    close opener closer 0 (token :: rest) = some ⟨[], token, rest⟩ := by
  subst closes
  rw [close.eq_def]
  simp [opens]

theorem close_append (kind : opener.closer? = some closer) (nested : Nested tokens) (depth : Nat) (rest : List Token) :
    close opener closer depth (tokens ++ rest) =
      (close opener closer depth rest).map fun cut => { cut with before := tokens ++ cut.before } := by
  obtain ⟨isOpen,_,notOpen,isClose⟩ := sides_of_matched kind
  induction nested generalizing depth rest with
  | nil => simp
  | @token token tail opens closes _ ih =>
    have notOpener : token.tag ≠ opener := by rintro equal; simp [equal,isOpen] at opens
    have notCloser : token.tag ≠ closer := by rintro equal; simp [equal,isClose] at closes
    rw [cons_append,close_other _ _ notOpener notCloser,ih]
    simp [Function.comp_def,Cut.cons]
  | @pair opening closing inside tail matched _ _ inner outer =>
    -- The pair either is of the wanted kind at both ends or at neither.
    have sides := sides_of_matched matched
    by_cases same : opening.tag = opener
    · have closes : closing.tag = closer := by rw [same,kind] at matched; exact (Option.some.inj matched).symm
      have notOpener : closing.tag ≠ opener := by
        rintro equal
        simp [equal,isOpen] at sides
      simp only [cons_append,append_assoc]
      rw [close_opener _ _ same,inner,close_inner _ _ notOpener closes,outer]
      simp [Function.comp_def,Cut.cons]
    · have notCloser : opening.tag ≠ closer := by
        rintro equal
        simp [equal,isClose] at sides
      have notOpener : closing.tag ≠ opener := by
        rintro equal
        simp [equal,isOpen] at sides
      have noCloser : closing.tag ≠ closer := by
        rintro equal
        rw [equal] at matched
        exact same (opener_unique kind matched)
      simp only [cons_append,append_assoc]
      rw [close_other _ _ same notCloser,inner,close_other _ _ notOpener noCloser,outer]
      simp [Function.comp_def,Cut.cons]

theorem closing?_nested (matched : opening.tag.closer? = some closing.tag) (within : Nested inside) :
    closing? opening (inside ++ closing :: rest) = some ⟨inside, closing, rest⟩ := by
  have sides := sides_of_matched matched
  have differ : closing.tag ≠ opening.tag := by
    rintro equal
    simp [equal] at sides
    simp [sides] at sides
  rw [closing?,matched,Option.bind_some,close_append matched within,close_here _ differ rfl]
  simp

/-! ### Levels -/

theorem leveled_append (nested : Nested tokens) (depth : Nat) (rest : List Token) :
    leveled depth (tokens ++ rest) = leveled depth tokens ++ leveled depth rest := by
  induction nested generalizing depth rest with
  | nil => rfl
  | token opens closes _ ih => simp [leveled,opens,closes,ih]
  | @pair opening closing inside tail matched _ _ inner outer =>
    have sides := sides_of_matched matched
    simp [leveled,sides,inner,outer]

/-- Nothing inside a nested list lies outside the brackets around it. -/
theorem level_ge (nested : Nested tokens) (depth : Nat) : ∀ entry ∈ leveled depth tokens, depth ≤ entry.1 := by
  induction nested generalizing depth with
  | nil => simp [leveled]
  | token opens closes _ ih => simpa [leveled,opens,closes] using ih depth
  | @pair opening closing inside tail matched within _ inner outer =>
    have sides := sides_of_matched matched
    intro entry member
    simp only [leveled,sides,leveled_append within,mem_cons,mem_append,Bool.false_eq_true,
      if_false,if_true,Nat.add_sub_cancel] at member
    rcases member with rfl | member | rfl | member
    · exact Nat.le_refl depth
    · have := inner (depth + 1) entry member
      omega
    · exact Nat.le_refl depth
    · exact outer depth entry member

theorem outer_append (nested : Nested left) (right : List Token) : outer (left ++ right) = outer left ++ outer right := by
  simp [outer,leveled_append nested]

theorem outer_single : outer [token] = [token] := by
  simp [outer,leveled]

theorem outer_cons (opens : token.tag.isOpen = false) (rest : List Token) : outer (token :: rest) = token :: outer rest := by
  simp [outer,leveled,opens]

theorem outer_enclosed (matched : opening.tag.closer? = some closing.tag) (within : Nested inside) :
    outer (opening :: (inside ++ [closing])) = [opening, closing] := by
  have sides := sides_of_matched matched
  have deep : (leveled 1 inside).filter (fun entry => entry.1 == 0) = [] := by
    rw [filter_eq_nil_iff]
    intro entry member
    have := level_ge within 1 entry member
    simp only [beq_iff_eq]
    omega
  simp [outer,leveled,sides,leveled_append within,deep]

/-! ### Cuts -/

theorem mem_outer (place : (0, token) ∈ leveled 0 tokens) : token ∈ outer tokens :=
  mem_map.mpr ⟨(0, token), mem_filter.mpr ⟨place, rfl⟩, rfl⟩

theorem mem_of_mem_outer (member : token ∈ outer tokens) : token ∈ tokens := by
  obtain ⟨entry,place,rfl⟩ := mem_map.mp member
  rw [← map_snd_leveled 0 tokens]
  exact mem_map_of_mem (mem_filter.mp place).1

theorem cutFirst_eq_none {wanted : Token → Bool}
    (absent : ∀ token ∈ outer tokens, wanted token = false) : cutFirst wanted tokens = none := by
  have all : (leveled 0 tokens).dropWhile (fun entry => !(entry.1 == 0 && wanted entry.2)) = [] := by
    rw [dropWhile_eq_nil_iff]
    rintro ⟨level,token⟩ member
    cases level with
    | zero => simp [absent token (mem_outer member)]
    | succ level => rfl
  simp only [cutFirst,all]

theorem cutLast_eq_none (absent : ∀ token ∈ outer tokens, ∀ previous, wanted previous token = false) :
    cutLast wanted tokens = none := by
  have all : (((leveled 0 tokens).zip (none :: tokens.map some)).reverse).dropWhile
      (fun entry => !(entry.1.1 == 0 && entry.2.any (wanted · entry.1.2))) = [] := by
    rw [dropWhile_eq_nil_iff]
    rintro ⟨⟨level,token⟩,previous⟩ member
    have place := (of_mem_zip (mem_reverse.mp member)).1
    cases level with
    | zero => cases previous <;> simp [absent token (mem_outer place)]
    | succ level => rfl
  simp only [cutLast,all]

theorem map_zip_leveled (tokens : List Token) (others : List (Option Token)) (enough : tokens.length ≤ others.length) :
    ((leveled depth tokens).zip others).map (·.1.2) = tokens := by
  calc ((leveled depth tokens).zip others).map (·.1.2)
      = (((leveled depth tokens).zip others).map Prod.fst).map (·.2) := by rw [map_map]; rfl
    _ = tokens := by
      rw [map_fst_zip (by rwa [length_leveled]),map_snd_leveled]

theorem cutLast_eq_some {front : List Token} {previous : Token} (nested : Nested (front ++ [previous]))
    (opens : token.tag.isOpen = false) (closes : token.tag.isClose = false) (found : wanted previous token = true)
    (absent : ∀ token ∈ outer right, ∀ previous, wanted previous token = false) :
    cutLast wanted (front ++ [previous] ++ token :: right) =
      some ⟨front ++ [previous], token, right⟩ := by
  have levels : leveled 0 (front ++ [previous] ++ token :: right) =
      leveled 0 (front ++ [previous]) ++ (0, token) :: leveled 0 right := by
    rw [leveled_append nested]
    simp [leveled,opens,closes]
  have entries : (leveled 0 (front ++ [previous] ++ token :: right)).zip
      (none :: (front ++ [previous] ++ token :: right).map some) =
      (leveled 0 (front ++ [previous])).zip (none :: front.map some) ++
        ((0, token), some previous) :: (leveled 0 right).zip (some token :: right.map some) := by
    rw [levels]
    have shifted : none :: (front ++ [previous] ++ token :: right).map some =
        (none :: front.map some) ++ some previous :: some token :: right.map some := by simp
    rw [shifted,zip_append (by simp [length_leveled]),zip_cons_cons]
  have skipped : ∀ entry ∈ ((leveled 0 right).zip (some token :: right.map some)).reverse,
      (!(entry.1.1 == 0 && entry.2.any (wanted · entry.1.2))) = true := by
    rintro ⟨⟨level,other⟩,before⟩ member
    have place := (of_mem_zip (mem_reverse.mp member)).1
    cases level with
    | zero => cases before <;> simp [absent other (mem_outer place)]
    | succ level => rfl
  have lefts := map_zip_leveled 0 (front ++ [previous]) (none :: front.map some) (by simp)
  have rights := map_zip_leveled 0 right (some token :: right.map some) (by simp)
  simp only [cutLast,entries]
  simp only [reverse_append,reverse_cons,append_assoc,singleton_append]
  rw [dropWhile_append_of_pos skipped,takeWhile_append_of_pos skipped]
  simp only [dropWhile_cons,takeWhile_cons,found,Option.any_some,beq_self_eq_true,
    Bool.and_self,Bool.not_true,Bool.false_eq_true,if_false,append_nil,map_reverse,
    reverse_reverse]
  rw [lefts,rights]

/-! ### Separators -/

theorem cut_append {separates : Nat × Token → Bool} {left : List (Nat × Token)}
    (absent : ∀ entry ∈ left, separates entry = false) (right : List (Nat × Token)) :
    Groups.cut separates (left ++ right) =
      (left ++ (Groups.cut separates right).1, (Groups.cut separates right).2) := by
  induction left with
  | nil => rfl
  | cons entry rest ih =>
    have here := absent entry (by simp)
    have others := ih fun other member => absent other (by simp [member])
    simp [Groups.cut,here,others]

theorem absent_entries (absent : ∀ token ∈ outer tokens, token.tag ≠ separator) :
    ∀ entry ∈ leveled 0 tokens, (entry.1 == 0 && entry.2.tag == separator) = false := by
  rintro ⟨level,token⟩ member
  cases level with
  | zero => simpa using absent token (mem_outer member)
  | succ level => rfl

theorem split_single (absent : ∀ token ∈ outer tokens, token.tag ≠ separator) : split separator tokens = [tokens] := by
  have parts := cut_append (absent_entries absent) []
  rw [append_nil] at parts
  simp [split,Groups.split,parts,Groups.cut,map_snd_leveled]

theorem split_cons {group rest : List Token} {comma : Token} (nested : Nested group)
    (absent : ∀ token ∈ outer group, token.tag ≠ separator) (isComma : comma.tag = separator) (opens : comma.tag.isOpen = false)
    (closes : comma.tag.isClose = false) :
    split separator (group ++ comma :: rest) = group :: split separator rest := by
  have levels : leveled 0 (group ++ comma :: rest) = leveled 0 group ++ (0, comma) :: leveled 0 rest := by
    rw [leveled_append nested]
    simp [leveled,opens,closes]
  have parts := cut_append (absent_entries absent) ((0, comma) :: leveled 0 rest)
  simp [split,Groups.split,levels,parts,Groups.cut,isComma,map_snd_leveled]

end CalcBasic.Brackets
