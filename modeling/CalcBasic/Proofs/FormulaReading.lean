import CalcBasic.Proofs.Formula
import Mathlib.Tactic.IntervalCases
import Mathlib.Tactic.Ring

/-! How the calculator reads texts put together from texts it can read. A part that
binds tightly enough keeps its value inside a longer chain. -/
namespace CalcBasic.Formula
open List

variable {tier count : Nat} {more right items : List Item} {others rest : List (Sign × Formula)} {text : String}
  {first next : Formula} {glyph : Glyph} {glyphs : List Glyph} {c name : Char}

section Joining

variable {α β : Type} (combine : Sign → α → α → α)

/-! ### Chains of one sign after the other -/

theorem joinTier_append {sign : Sign} (other : sign.tier ≠ tier) (first next : α) (left right : List (Sign × α)) :
    joinTier combine tier first (left ++ (sign,next) :: right) =
      ((joinTier combine tier first left).1,
        (joinTier combine tier first left).2 ++
          (sign,(joinTier combine tier next right).1) :: (joinTier combine tier next right).2) := by
  induction left generalizing first with
  | nil =>
    simp only [nil_append,joinTier,if_neg other]
  | cons entry left ih =>
    obtain ⟨earlier,operand⟩ := entry
    rw [cons_append,joinTier,joinTier]
    split
    · exact ih _
    · rw [ih]
      rfl

theorem joinTiers_append {sign : Sign} (looser : count ≤ sign.tier) (first next : α) (left right : List (Sign × α)) :
    joinTiers combine count first (left ++ (sign,next) :: right) =
      ((joinTiers combine count first left).1,
        (joinTiers combine count first left).2 ++
          (sign,(joinTiers combine count next right).1) :: (joinTiers combine count next right).2) := by
  induction count with
  | zero => rfl
  | succ count ih =>
    have other : sign.tier ≠ count := by omega
    simp only [joinTiers]
    rw [ih (by omega)]
    exact joinTier_append combine other _ _ _ _

theorem joinTier_signs (tier : Nat) (first : α) (rest : List (Sign × α)) :
    (joinTier combine tier first rest).2.map Prod.fst =
      (rest.map Prod.fst).filter fun sign => sign.tier ≠ tier := by
  induction rest generalizing first with
  | nil => rfl
  | cons entry rest ih =>
    obtain ⟨sign,next⟩ := entry
    rw [joinTier]
    split
    · rename_i same
      rw [ih,map_cons,filter_cons_of_neg (by simpa using same)]
    · rename_i other
      rw [map_cons,map_cons,filter_cons_of_pos (by simpa using other),← ih next]

theorem joinTiers_signs (count : Nat) (first : α) (rest : List (Sign × α)) :
    (joinTiers combine count first rest).2.map Prod.fst =
      (rest.map Prod.fst).filter fun sign => count ≤ sign.tier := by
  induction count with
  | zero => exact (filter_eq_self.mpr (by simp)).symm
  | succ count ih =>
    simp only [joinTiers]
    rw [joinTier_signs,ih,filter_filter]
    apply filter_congr
    intro sign _
    rw [Bool.eq_iff_iff]
    simp only [Bool.and_eq_true,decide_eq_true_eq]
    omega

theorem joinTiers_of_tight {first : α} {rest : List (Sign × α)} (tight : ∀ sign ∈ rest.map Prod.fst, sign.tier < count) :
    (joinTiers combine count first rest).2 = [] := by
  have none : (rest.map Prod.fst).filter (fun sign => count ≤ sign.tier) = [] := by
    rw [filter_eq_nil_iff]
    intro sign member
    have := tight sign member
    simp only [decide_eq_true_eq]
    omega
  rw [← joinTiers_signs combine count first rest] at none
  exact map_eq_nil_iff.mp none

theorem joinTiers_add (more : Nat) {first joined : α} {rest : List (Sign × α)}
    (done : joinTiers combine count first rest = (joined,[])) :
    joinTiers combine (count + more) first rest = (joined,[]) := by
  induction more with
  | zero => exact done
  | succ more ih =>
    rw [← Nat.add_assoc]
    simp only [joinTiers]
    rw [ih]
    rfl

theorem join_eq_joinTiers (bounded : count ≤ tiers) {first : α} {rest : List (Sign × α)}
    (tight : ∀ sign ∈ rest.map Prod.fst, sign.tier < count) :
    join combine first rest = (joinTiers combine count first rest).1 := by
  have done : joinTiers combine count first rest = ((joinTiers combine count first rest).1,[]) :=
    Prod.ext rfl (joinTiers_of_tight combine tight)
  have all := joinTiers_add combine (tiers - count) done
  rw [Nat.add_sub_cancel' bounded] at all
  rw [join,all]

theorem joinTier_of_same (first : α) {rest : List (Sign × α)} (same : ∀ sign ∈ rest.map Prod.fst, sign.tier = tier) :
    joinTier combine tier first rest = (rest.foldl (fun joined entry => combine entry.1 joined entry.2) first,[]) := by
  induction rest generalizing first with
  | nil => rfl
  | cons entry rest ih =>
    obtain ⟨sign,next⟩ := entry
    rw [joinTier,if_pos (same sign (by simp))]
    exact ih _ fun later member => same later (by simp [member])

/-- A sign that can be taken out of the operand to its right. -/
def Regroups (outer inner : Sign) : Prop :=
  ∀ x y z, combine inner (combine outer x y) z = combine outer x (combine inner y z)

theorem foldl_regroup {outer : Sign} (operand first : α) {rest : List (Sign × α)}
    (regroups : ∀ sign ∈ rest.map Prod.fst, Regroups combine outer sign) :
    rest.foldl (fun joined entry => combine entry.1 joined entry.2) (combine outer operand first) =
      combine outer operand (rest.foldl (fun joined entry => combine entry.1 joined entry.2) first) := by
  induction rest generalizing first with
  | nil => rfl
  | cons entry rest ih =>
    obtain ⟨sign,next⟩ := entry
    rw [foldl_cons,foldl_cons,regroups sign (by simp)]
    exact ih _ fun later member => regroups later (by simp [member])

/-- A sign joins the values of its two sides if nothing on either side binds
looser, and if signs of its own tier on the right can be taken out. -/
theorem join_binary {sign : Sign} (first next : α) {left right : List (Sign × α)}
    (tightLeft : ∀ inner ∈ left.map Prod.fst, inner.tier ≤ sign.tier)
    (tightRight : ∀ inner ∈ right.map Prod.fst, inner.tier ≤ sign.tier)
    (regroups : ∀ inner ∈ right.map Prod.fst, inner.tier = sign.tier → Regroups combine sign inner) :
    join combine first (left ++ (sign,next) :: right) =
      combine sign (join combine first left) (join combine next right) := by
  have bounded : sign.tier + 1 ≤ tiers := by cases sign <;> decide
  -- Below the tier of the sign nothing crosses it; what is left then has its tier throughout.
  have remaining {start : α} {rest : List (Sign × α)} (tight : ∀ inner ∈ rest.map Prod.fst, inner.tier ≤ sign.tier) :
      ∀ inner ∈ (joinTiers combine sign.tier start rest).2.map Prod.fst,
        inner ∈ rest.map Prod.fst ∧ inner.tier = sign.tier := by
    intro inner member
    rw [joinTiers_signs,mem_filter,decide_eq_true_eq] at member
    exact ⟨member.1, Nat.le_antisymm (tight inner member.1) member.2⟩
  have side {start : α} {rest : List (Sign × α)} (tight : ∀ inner ∈ rest.map Prod.fst, inner.tier ≤ sign.tier) :
      join combine start rest = (joinTiers combine sign.tier start rest).2.foldl
        (fun joined entry => combine entry.1 joined entry.2) (joinTiers combine sign.tier start rest).1 := by
    rw [join_eq_joinTiers combine bounded fun inner member => Nat.lt_succ_of_le (tight inner member)]
    simp only [joinTiers]
    rw [joinTier_of_same combine _ fun inner member => (remaining tight inner member).2]
  have whole : ∀ inner ∈ (left ++ (sign,next) :: right).map Prod.fst, inner.tier ≤ sign.tier := by
    intro inner member
    rw [map_append,map_cons,mem_append,mem_cons] at member
    rcases member with inLeft | rfl | inRight
    · exact tightLeft inner inLeft
    · exact Nat.le_refl _
    · exact tightRight inner inRight
  rw [side whole,side tightLeft,side tightRight,joinTiers_append combine (Nat.le_refl _),foldl_append,
    foldl_cons]
  apply foldl_regroup
  intro inner member
  obtain ⟨present,same⟩ := remaining tightRight inner member
  exact regroups inner present same

theorem joinTier_map {combined : Sign → β → β → β} {view : α → β}
    (commutes : ∀ sign x y, view (combine sign x y) = combined sign (view x) (view y)) (tier : Nat)
    (first : α) (rest : List (Sign × α)) :
    joinTier combined tier (view first) (rest.map fun entry => (entry.1,view entry.2)) =
      (view (joinTier combine tier first rest).1,
        (joinTier combine tier first rest).2.map fun entry => (entry.1,view entry.2)) := by
  induction rest generalizing first with
  | nil => rfl
  | cons entry rest ih =>
    obtain ⟨sign,next⟩ := entry
    rw [map_cons,joinTier,joinTier]
    split
    · rw [← commutes]
      exact ih _
    · rw [ih]
      rfl

theorem join_map {combined : Sign → β → β → β} {view : α → β}
    (commutes : ∀ sign x y, view (combine sign x y) = combined sign (view x) (view y))
    (first : α) (rest : List (Sign × α)) :
    join combined (view first) (rest.map fun entry => (entry.1,view entry.2)) =
      view (join combine first rest) := by
  have each (count : Nat) : joinTiers combined count (view first) (rest.map fun entry => (entry.1,view entry.2)) =
      (view (joinTiers combine count first rest).1,
        (joinTiers combine count first rest).2.map fun entry => (entry.1,view entry.2)) := by
    induction count with
    | zero => rfl
    | succ count ih =>
      simp only [joinTiers]
      rw [ih]
      exact joinTier_map combine commutes count _ _
  rw [join,each]
  rfl

end Joining

/-- What follows a chain is told by what would follow a single operand. -/
theorem chain?_append {left : List Item} {ends : List (Sign × Formula)}
    (continued : ∀ only, chain? (.operand only :: more) = some (only,ends))
    (chained : chain? left = some (first,rest)) : chain? (left ++ more) = some (first,rest ++ ends) := by
  induction left using chain?.induct generalizing first rest with
  | case1 only =>
    cases chained
    exact continued only
  | case2 operand neighbour later ih =>
    rw [chain?,Option.map_eq_some_iff] at chained
    obtain ⟨⟨start,further⟩,found,same⟩ := chained
    cases same
    have inner := ih found
    rw [cons_append] at inner
    rw [cons_append,cons_append,chain?,inner]
    rfl
  | case3 operand between later ih =>
    rw [chain?,Option.map_eq_some_iff] at chained
    obtain ⟨⟨start,further⟩,found,same⟩ := chained
    cases same
    rw [cons_append,cons_append,chain?,ih found]
    rfl
  | case4 items notOne notBeside notSign =>
    rw [chain?] at chained
    · cases chained
    · exact notOne
    · exact notBeside
    · exact notSign

theorem chain?_sign (sign : Sign) (chained : chain? right = some (next,others)) (only : Formula) :
    chain? (.operand only :: .sign sign :: right) = some (only,(sign,next) :: others) := by
  rw [chain?,chained]
  rfl

theorem chain?_beside (chained : chain? right = some (next,others)) (only : Formula) :
    chain? (.operand only :: right) = some (only,(.times,next) :: others) := by
  cases right with
  | nil => cases chained
  | cons item right =>
    cases item with
    | sign sign => cases chained
    | operand formula =>
      rw [chain?,chained]
      rfl

/-! ### Texts and the chains they show -/

/-- A numeral before this text ends there. -/
def Bounded (text : List Char) : Prop := ∀ digits glyphs, scan text ≠ some (.numeral digits :: glyphs)

/-- The text is cut into these glyphs whatever follows that is no numeral. -/
def Spells (text : List Char) (glyphs : List Glyph) : Prop :=
  ∀ rest, Bounded rest → scan (text ++ rest) = (scan rest).map (glyphs ++ ·)

/-- The glyphs add these items wherever they stand. -/
def Yields (glyphs : List Glyph) (items : List Item) : Prop :=
  ∀ rest before arguments outer,
    parse (glyphs ++ rest) before arguments outer = parse rest (before ++ items) arguments outer

/-- The text is read as this chain, alone or as part of a longer text. -/
def Shows (text : String) (first : Formula) (rest : List (Sign × Formula)) : Prop :=
  ∃ glyphs items, Spells text.toList glyphs ∧ Yields glyphs items ∧ chain? items = some (first,rest)

/-- The text is always cut off as this glyph. -/
def Marks (text : String) (glyph : Glyph) : Prop :=
  ∀ rest, scan (text.toList ++ rest) = (scan rest).map (glyph :: ·)

theorem bounded_nil : Bounded [] := by
  intro digits glyphs same
  exact absurd (Option.some.inj same) (cons_ne_nil _ _).symm

theorem Marks.bounded (marks : Marks text glyph) (other : ∀ digits, glyph ≠ .numeral digits)
    (rest : List Char) : Bounded (text.toList ++ rest) := by
  intro digits glyphs scanned
  rw [marks,Option.map_eq_some_iff] at scanned
  obtain ⟨later,_,same⟩ := scanned
  exact other digits (List.cons.inj same).1

theorem Marks.append (marks : Marks text glyph) {more : List Char}
    (spells : Spells more glyphs) : Spells (text.toList ++ more) (glyph :: glyphs) := by
  intro rest bounded
  rw [append_assoc,marks,spells rest bounded,Option.map_map]
  rfl

theorem Spells.append {text more : List Char} {others : List Glyph} (spells : Spells text glyphs) (next : Spells more others)
    (bounded : ∀ rest, Bounded (more ++ rest)) :
    Spells (text ++ more) (glyphs ++ others) := by
  intro rest ends
  rw [append_assoc,spells _ (bounded rest),next rest ends,Option.map_map]
  congr 1
  funext later
  exact (append_assoc ..).symm

theorem Marks.spells (marks : Marks text glyph) : Spells text.toList [glyph] := fun rest _ => marks rest

theorem Yields.append {others : List Glyph} (yields : Yields glyphs items)
    (next : Yields others more) : Yields (glyphs ++ others) (items ++ more) := by
  intro rest before arguments outer
  rw [append_assoc,yields,next,append_assoc]

theorem yields_sign (sign : Sign) : Yields [.sign sign] [.sign sign] := fun _ _ _ _ => rfl

theorem yields_letter (name : Char) : Yields [.letter name] [.operand (.letter name)] := fun _ _ _ _ => rfl

/-! ### Atoms -/

theorem mem_of_isNumeric (numeric : isNumeric c = true) : c ∈ ['0','1','2','3','4','5','6','7','8','9','.'] := by
  simp only [isNumeric,Char.isDigit,Bool.or_eq_true,Bool.and_eq_true,decide_eq_true_eq,beq_iff_eq] at numeric
  rcases numeric with ⟨low,high⟩ | rfl
  · have lower : 48 ≤ c.toNat := low
    have upper : c.toNat ≤ 57 := high
    rw [← Char.ofNat_toNat c]
    interval_cases c.toNat <;> decide
  · decide

theorem scan_numeric (numeric : isNumeric c = true) (rest : List Char) :
    scan (c :: rest) = (scan rest).map (Glyph.joinNumeral c) := by
  have listed := mem_of_isNumeric numeric
  simp only [mem_cons,not_mem_nil,or_false] at listed
  rcases listed with rfl | rfl | rfl | rfl | rfl | rfl | rfl | rfl | rfl | rfl | rfl <;> rfl

theorem joinNumeral_of_bounded {text : List Char} (bounded : Bounded text) (c : Char) :
    (scan text).map (Glyph.joinNumeral c) = (scan text).map (.numeral [c] :: ·) := by
  cases scanned : scan text with
  | none => rfl
  | some glyphs =>
    cases glyphs with
    | nil => rfl
    | cons glyph glyphs =>
      cases glyph with
      | numeral digits => exact absurd scanned (bounded digits glyphs)
      | letter name => rfl
      | sign sign => rfl
      | opening form => rfl
      | comma => rfl
      | close => rfl

theorem spells_numeral {digits : List Char} (numeric : ∀ d ∈ c :: digits, isNumeric d = true) :
    Spells (c :: digits) [.numeral (c :: digits)] := by
  intro rest bounded
  induction digits generalizing c with
  | nil =>
    rw [cons_append,nil_append,scan_numeric (numeric c (by simp)),joinNumeral_of_bounded bounded]
    rfl
  | cons d digits ih =>
    rw [cons_append,scan_numeric (numeric c (by simp)),
      ih fun later member => numeric later (mem_cons_of_mem c member),Option.map_map]
    rfl

theorem shows_numeral {written : String} (nonempty : written ≠ "")
    (numeric : ∀ c ∈ written.toList, isNumeric c = true) : Shows written (.numeral written) [] := by
  cases digits : written.toList with
  | nil => exact absurd (String.toList_eq_nil_iff.mp digits) nonempty
  | cons c rest =>
    rw [digits] at numeric
    have same : String.ofList (c :: rest) = written := by rw [← digits,String.ofList_toList]
    refine ⟨[.numeral (c :: rest)], [.operand (.numeral written)], digits ▸ spells_numeral numeric, ?_, rfl⟩
    intro others before arguments outer
    rw [← same]
    rfl

theorem marks_letter (member : name ∈ alphabet) : Marks name.toString (.letter name) := by
  intro rest
  simp only [alphabet,mem_cons,not_mem_nil,or_false] at member
  rcases member with rfl | rfl | rfl | rfl | rfl | rfl | rfl | rfl | rfl | rfl | rfl | rfl | rfl | rfl | rfl |
    rfl | rfl | rfl | rfl | rfl | rfl | rfl | rfl | rfl | rfl | rfl | rfl <;> rfl

theorem shows_letter (member : name ∈ alphabet) : Shows name.toString (.letter name) [] :=
  ⟨_, _, (marks_letter member).spells, yields_letter name, rfl⟩

/-! ### Composition -/

theorem Shows.sign {text mark more : String} {sign : Sign} {first next : Formula}
    {left right : List (Sign × Formula)} (shown : Shows text first left) (marks : Marks mark (.sign sign))
    (others : Shows more next right) : Shows (text ++ mark ++ more) first (left ++ (sign,next) :: right) := by
  obtain ⟨glyphs,items,spells,yields,chained⟩ := shown
  obtain ⟨later,added,spellsMore,yieldsMore,chainedMore⟩ := others
  refine ⟨glyphs ++ ([.sign sign] ++ later), items ++ ([.sign sign] ++ added), ?_, ?_, ?_⟩
  · rw [String.append_assoc,String.toList_append,String.toList_append]
    apply spells.append (marks.append spellsMore)
    intro rest
    rw [append_assoc]
    exact marks.bounded (fun _ => nofun) _
  · exact yields.append ((yields_sign sign).append yieldsMore)
  · exact chain?_append (chain?_sign sign chainedMore) chained

theorem Shows.letter {text : String} {name : Char} {first : Formula} {left : List (Sign × Formula)}
    (shown : Shows text first left) (member : name ∈ alphabet) :
    Shows (text ++ name.toString) first (left ++ [(.times,.letter name)]) := by
  obtain ⟨glyphs,items,spells,yields,chained⟩ := shown
  refine ⟨glyphs ++ [.letter name], items ++ [.operand (.letter name)], ?_, ?_, ?_⟩
  · rw [String.toList_append]
    exact spells.append (marks_letter member).spells ((marks_letter member).bounded fun _ => nofun)
  · exact yields.append (yields_letter name)
  · exact chain?_append (chain?_beside rfl) chained

theorem Shows.afterLetter {right : List (Sign × Formula)} (member : name ∈ alphabet) (shown : Shows text next right) :
    Shows (name.toString ++ text) (.letter name) ((.times,next) :: right) := by
  obtain ⟨glyphs,items,spells,yields,chained⟩ := shown
  refine ⟨[.letter name] ++ glyphs, [.operand (.letter name)] ++ items, ?_, ?_, ?_⟩
  · rw [String.toList_append]
    exact (marks_letter member).append spells
  · exact (yields_letter name).append yields
  · exact chain?_beside chained _

/-! ### Brackets -/

theorem marks_close : Marks ")" .close := fun _ => rfl

theorem marks_comma : Marks "," .comma := fun _ => rfl

theorem assemble?_of_chain?
    (chained : chain? items = some (first,rest)) : assemble? items = some (join .binary first rest) := by
  rw [assemble?,chained]
  rfl

theorem Shows.bracket {lead : String} {form : Opening} {formula : Formula} (marks : Marks lead (.opening form))
    (shown : Shows text first rest) (formed : form.form? [join .binary first rest] = some formula) :
    Shows (lead ++ text ++ ")") formula [] := by
  obtain ⟨glyphs,items,spells,yields,chained⟩ := shown
  refine ⟨.opening form :: (glyphs ++ [.close]), [.operand formula], ?_, ?_, rfl⟩
  · rw [String.append_assoc,String.toList_append,String.toList_append]
    exact marks.append (spells.append marks_close.spells (marks_close.bounded fun _ => nofun))
  · intro others before arguments outer
    rw [cons_append,append_assoc,parse,yields,cons_append,nil_append,parse,nil_append,
      assemble?_of_chain? chained]
    simp only [Option.bind_some,nil_append,formed]

theorem Shows.remainder {text more : String} {first next : Formula} {rest others : List (Sign × Formula)}
    (shown : Shows text first rest) (second : Shows more next others) :
    Shows ("remainder(" ++ text ++ "," ++ more ++ ")")
      (.remainder (join .binary first rest) (join .binary next others)) [] := by
  obtain ⟨glyphs,items,spells,yields,chained⟩ := shown
  obtain ⟨later,added,spellsMore,yieldsMore,chainedMore⟩ := second
  have marks : Marks "remainder(" (.opening .remainder) := fun _ => rfl
  refine ⟨.opening .remainder :: (glyphs ++ (.comma :: (later ++ [.close]))), [.operand _], ?_, ?_, rfl⟩
  · rw [String.append_assoc,String.append_assoc,String.append_assoc,String.toList_append,
      String.toList_append,String.toList_append,String.toList_append]
    apply marks.append
    apply spells.append
    · exact marks_comma.append (spellsMore.append marks_close.spells (marks_close.bounded fun _ => nofun))
    · intro final
      rw [append_assoc]
      exact marks_comma.bounded (fun _ => nofun) _
  · intro final before arguments outer
    rw [cons_append,append_assoc,parse,yields,cons_append,parse,nil_append,
      assemble?_of_chain? chained,Option.bind_some,append_assoc,yieldsMore,cons_append,
      nil_append,parse,nil_append,assemble?_of_chain? chainedMore]
    rfl

theorem Shows.read? (shown : Shows text first rest) : Formula.read? text = some (join .binary first rest) := by
  obtain ⟨glyphs,items,spells,yields,chained⟩ := shown
  have scanned := spells [] bounded_nil
  have parsed := yields [] [] [] []
  rw [append_nil] at scanned parsed
  rw [Formula.read?,scanned]
  change parse (glyphs ++ []) [] [] [] = _
  rw [append_nil,parsed,parse,nil_append,assemble?_of_chain? chained]

end CalcBasic.Formula
