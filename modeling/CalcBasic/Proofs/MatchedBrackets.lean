import CalcBasic.Proofs.Nesting

/-! Matched brackets. The search for a closing bracket counts the brackets of one kind, the
levels count those of all kinds; in a nested list both find the same pairs, and cutting at
separators outside of all pairs leaves nested groups. -/
namespace CalcBasic.Brackets
open List

variable {tokens : List Token} {i j : Nat}

/-- The places of a bracket and of the one that closes it: what lies between them is nested. -/
def Matched (tokens : List Token) (i j : Nat) : Prop :=
  ∃ before opening inside closing after, tokens = before ++ opening :: (inside ++ closing :: after) ∧
    i = before.length ∧ j = i + 1 + inside.length ∧ opening.tag.closer? = some closing.tag ∧ Nested inside

/-- A matched pair lies around the place. -/
def Covered (tokens : List Token) (i : Nat) : Prop := ∃ a b, Matched tokens a b ∧ a < i ∧ i < b

/-! ### Pairs -/

theorem Matched.embed (pair : Matched tokens i j) (front back : List Token) :
    Matched (front ++ tokens ++ back) (front.length + i) (front.length + j) := by
  obtain ⟨before,opening,inside,closing,after,rfl,rfl,rfl,matched,within⟩ := pair
  exact ⟨front ++ before, opening, inside, closing, after ++ back, by simp, by simp, by omega, matched, within⟩

theorem Matched.lt_length (pair : Matched tokens i j) : i < j ∧ j < tokens.length := by
  obtain ⟨before,opening,inside,closing,after,rfl,rfl,rfl,_,_⟩ := pair
  simp only [length_append,length_cons]
  omega

theorem Matched.closing? (pair : Matched tokens i j) : ∃ opening cut, tokens[i]? = some opening ∧ opening.tag.isOpen = true ∧
      Brackets.closing? opening (tokens.drop (i + 1)) = some cut ∧ j = i + 1 + cut.before.length := by
  obtain ⟨before,opening,inside,closing,after,rfl,rfl,rfl,matched,within⟩ := pair
  refine ⟨opening, ⟨inside, closing, after⟩, by simp, (sides_of_matched matched).1, ?_, rfl⟩
  rw [drop_length_add_append,drop_succ_cons,drop_zero]
  exact closing?_nested after matched within

theorem Matched.unique {k : Nat} (first : Matched tokens i j) (second : Matched tokens i k) : j = k := by
  obtain ⟨opening,cut,place,_,closed,rfl⟩ := first.closing?
  obtain ⟨other,found,again,_,closes,rfl⟩ := second.closing?
  obtain rfl : opening = other := Option.some.inj (place.symm.trans again)
  rw [Option.some.inj (closed.symm.trans closes)]

theorem Nested.exists_matched (nested : Nested tokens) {opening : Token} (place : tokens[i]? = some opening)
    (opens : opening.tag.isOpen = true) : ∃ j, Matched tokens i j := by
  induction nested generalizing i with
  | nil => simp at place
  | @token token rest plain _ _ ih =>
    cases i with
    | zero =>
      simp only [getElem?_cons_zero,Option.some.injEq] at place
      simp [place,opens] at plain
    | succ i =>
      obtain ⟨j,pair⟩ := ih (by simpa using place)
      have moved := pair.embed [token] []
      exact ⟨1 + j, by simpa [Nat.add_comm] using moved⟩
  | @pair bracket closing inside rest matched within _ inner outer =>
    have sides := sides_of_matched matched
    cases i with
    | zero => exact ⟨1 + inside.length, [], bracket, inside, closing, rest, rfl, rfl, by simp, matched, within⟩
    | succ i =>
      rw [getElem?_cons_succ] at place
      rcases Nat.lt_trichotomy i inside.length with early | rfl | late
      · rw [getElem?_append_left early] at place
        obtain ⟨j,pair⟩ := inner place
        have moved := pair.embed [bracket] (closing :: rest)
        exact ⟨1 + j, by simpa [Nat.add_comm] using moved⟩
      · rw [getElem?_append_right (Nat.le_refl _),Nat.sub_self,getElem?_cons_zero] at place
        rw [Option.some.inj place,opens] at sides
        simp at sides
      · obtain ⟨k,rfl⟩ := Nat.exists_eq_add_of_lt late
        rw [getElem?_append_right (by omega),Nat.add_assoc,Nat.add_sub_cancel_left,getElem?_cons_succ] at place
        obtain ⟨j,pair⟩ := outer place
        have moved := pair.embed (bracket :: (inside ++ [closing])) []
        simp only [length_cons,length_append,length_nil,append_nil,cons_append,
          append_assoc,nil_append] at moved
        exact ⟨_, by convert moved using 1; omega⟩

/-- A pair of a list that starts with a nested one lies in one of the two parts. -/
theorem matched_append_iff {left : List Token} (nested : Nested left) {right : List Token} : Matched (left ++ right) i j ↔
      Matched left i j ∨ ∃ a b, Matched right a b ∧ i = left.length + a ∧ j = left.length + b := by
  constructor
  · intro pair
    rcases Nat.lt_or_ge i left.length with early | late
    · obtain ⟨opening,_,place,opens,_,_⟩ := pair.closing?
      rw [getElem?_append_left early] at place
      obtain ⟨k,own⟩ := nested.exists_matched place opens
      have moved := own.embed [] right
      simp only [nil_append,length_nil,Nat.zero_add] at moved
      rw [pair.unique moved]
      exact .inl own
    · obtain ⟨before,opening,inside,closing,after,whole,rfl,rfl,matched,within⟩ := pair
      obtain ⟨front,rfl⟩ : left <+: before := prefix_of_prefix_length_le ⟨right, whole⟩ ⟨_, rfl⟩ late
      rw [append_assoc,append_cancel_left_eq] at whole
      refine .inr ⟨front.length, front.length + 1 + inside.length, ?_, by simp, by simp; omega⟩
      exact ⟨front, opening, inside, closing, after, whole, rfl, rfl, matched, within⟩
  · rintro (pair | ⟨a,b,pair,rfl,rfl⟩)
    · simpa using pair.embed [] right
    · simpa using pair.embed left []

/-! ### Levels -/

theorem Covered.lt_length (covered : Covered tokens i) : 0 < i ∧ i + 1 < tokens.length := by
  obtain ⟨a,b,pair,first,second⟩ := covered
  have bounds := pair.lt_length
  omega

theorem not_covered_zero : ¬Covered tokens 0 :=
  fun covered => absurd covered.lt_length.1 (Nat.lt_irrefl 0)

theorem covered_append_iff {left : List Token} (nested : Nested left) {right : List Token} {i : Nat} :
    Covered (left ++ right) i ↔ Covered left i ∨ ∃ k, Covered right k ∧ i = left.length + k := by
  constructor
  · rintro ⟨a,b,pair,first,second⟩
    rcases (matched_append_iff nested).mp pair with own | ⟨c,d,later,rfl,rfl⟩
    · exact .inl ⟨a, b, own, first, second⟩
    · refine .inr ⟨i - left.length, ⟨c, d, later, ?_, ?_⟩, ?_⟩ <;> omega
  · rintro (⟨a,b,pair,first,second⟩ | ⟨k,⟨a,b,pair,first,second⟩,rfl⟩)
    · exact ⟨a, b, (matched_append_iff nested).mpr (.inl pair), first, second⟩
    · exact ⟨_, _, (matched_append_iff nested).mpr (.inr ⟨a, b, pair, rfl, rfl⟩), by omega, by omega⟩

theorem covered_enclosed_iff {opening closing : Token} {inside : List Token} (matched : opening.tag.closer? = some closing.tag)
    (within : Nested inside) :
    Covered (opening :: (inside ++ [closing])) i ↔ 0 < i ∧ i ≤ inside.length := by
  constructor
  · intro covered
    have bounds := covered.lt_length
    simp only [length_cons,length_append,length_nil] at bounds
    omega
  · intro bounds
    exact ⟨0, 0 + 1 + inside.length, ⟨[], opening, inside, closing, [], rfl, rfl, rfl, matched, within⟩, by omega, by omega⟩

/-- What lies on the level of a nested list is what no pair of it lies around. -/
theorem level_eq_iff (nested : Nested tokens) (depth : Nat) {level : Nat} {token : Token}
    (place : (leveled depth tokens)[i]? = some (level, token)) : level = depth ↔ ¬Covered tokens i := by
  induction nested generalizing depth i with
  | nil => simp [leveled] at place
  | @token first rest opens closes _ ih =>
    have alone : ¬Covered [first] i := fun covered => absurd covered.lt_length.2 (by simp)
    have parts := @covered_append_iff [first] (.single opens closes) rest i
    rw [singleton_append] at parts
    simp only [leveled,opens,closes,Bool.false_eq_true,if_false] at place
    cases i with
    | zero =>
      obtain ⟨rfl,_⟩ := Prod.mk.inj (Option.some.inj place)
      exact iff_of_true rfl not_covered_zero
    | succ i =>
      rw [ih depth (by simpa using place),parts,or_iff_right alone]
      simp [Nat.add_comm]
  | @pair opening closing inside rest matched within _ inner outer =>
    have sides := sides_of_matched matched
    have parts := @covered_append_iff (opening :: (inside ++ [closing])) (.enclosed matched within) rest i
    rw [covered_enclosed_iff matched within] at parts
    simp only [cons_append,append_assoc,nil_append,length_cons,length_append,length_nil] at parts
    simp only [leveled,sides,leveled_append within,Bool.false_eq_true,if_false,if_true,Nat.add_sub_cancel] at place
    cases i with
    | zero =>
      obtain ⟨rfl,_⟩ := Prod.mk.inj (Option.some.inj place)
      exact iff_of_true rfl not_covered_zero
    | succ i =>
      rw [getElem?_cons_succ] at place
      rcases Nat.lt_trichotomy i inside.length with early | rfl | late
      · rw [getElem?_append_left (by rwa [length_leveled])] at place
        have deep := level_ge within (depth + 1) _ (mem_of_getElem? place)
        refine iff_of_false (by omega) (not_not_intro (parts.mpr (.inl ?_)))
        omega
      · rw [getElem?_append_right (by rw [length_leveled]),length_leveled,Nat.sub_self] at place
        obtain ⟨rfl,_⟩ := Prod.mk.inj (Option.some.inj place)
        refine iff_of_true rfl fun covered => ?_
        rcases parts.mp covered with bounds | ⟨k,_,same⟩
        · omega
        · omega
      · obtain ⟨k,rfl⟩ := Nat.exists_eq_add_of_lt late
        rw [getElem?_append_right (by rw [length_leveled]; omega),length_leveled,Nat.add_assoc,
          Nat.add_sub_cancel_left,getElem?_cons_succ] at place
        rw [outer depth place,parts,not_iff_not]
        constructor
        · exact fun covered => .inr ⟨k, covered, by omega⟩
        · rintro (bounds | ⟨k',covered,same⟩)
          · omega
          · rwa [show k = k' by omega]

/-! ### Separators -/

/-- The groups, with a mark between every two of them. -/
def rejoin : List (List Token) → List Token → List Token
  | group :: groups, mark :: marks => group ++ mark :: rejoin groups marks
  | groups, _ => groups.flatten

/-- A nested list without separators outside its brackets, or one cut at the first of them. -/
theorem Nested.parting {separator : Tag} (opens : separator.isOpen = false) (closes : separator.isClose = false)
    (nested : Nested tokens) :
    (∀ token ∈ outer tokens, token.tag ≠ separator) ∨
    ∃ group mark rest, tokens = group ++ mark :: rest ∧ Nested group ∧ (∀ token ∈ outer group, token.tag ≠ separator) ∧
      mark.tag = separator ∧ Nested rest := by
  induction nested with
  | nil => exact .inl (by simp [outer,leveled])
  | @token first rest plain inner after ih =>
    by_cases here : first.tag = separator
    · exact .inr ⟨[], first, rest, rfl, .nil, by simp [outer,leveled], here, after⟩
    · rcases ih with absent | ⟨group,mark,others,rfl,within,absent,isMark,later⟩
      · exact .inl (by simpa [outer_cons plain,here] using absent)
      · exact .inr ⟨first :: group, mark, others, rfl, .token plain inner within,
          by simpa [outer_cons plain,here] using absent, isMark, later⟩
  | @pair opening closing inside rest matched within after _ ih =>
    have sides := sides_of_matched matched
    have brackets : ∀ token ∈ [opening, closing], token.tag ≠ separator := by
      rintro token member rfl
      simp only [mem_cons,not_mem_nil,or_false] at member
      rcases member with rfl | rfl <;> simp_all
    have whole (tail : List Token) : outer (opening :: (inside ++ closing :: tail)) = [opening, closing] ++ outer tail := by
      rw [← outer_enclosed matched within,← outer_append (.enclosed matched within)]
      simp
    have more {tail : List Token} (absent : ∀ token ∈ outer tail, token.tag ≠ separator) :
        ∀ token ∈ outer (opening :: (inside ++ closing :: tail)), token.tag ≠ separator := by
      intro token member
      rw [whole] at member
      exact (mem_append.mp member).elim (brackets token) (absent token)
    rcases ih with absent | ⟨group,mark,others,rfl,grouped,absent,isMark,later⟩
    · exact .inl (more absent)
    · exact .inr ⟨opening :: (inside ++ closing :: group), mark, others, by simp, .pair matched within grouped,
        more absent, isMark, later⟩

theorem split_nested {separator : Tag} (opens : separator.isOpen = false) (closes : separator.isClose = false)
    (nested : Nested tokens) : ∃ marks : List Token,
      (split separator tokens).length = marks.length + 1 ∧ (∀ mark ∈ marks, mark.tag = separator) ∧
      rejoin (split separator tokens) marks = tokens ∧
      ∀ group ∈ split separator tokens, Nested group ∧ ∀ token ∈ outer group, token.tag ≠ separator := by
  induction size : tokens.length using Nat.strong_induction_on generalizing tokens with
  | _ size ih =>
    rcases nested.parting opens closes with absent | ⟨group,mark,rest,rfl,within,absent,isMark,later⟩
    · rw [split_single absent]
      exact ⟨[], rfl, by simp, by simp [rejoin], by simpa using ⟨nested, absent⟩⟩
    · obtain ⟨marks,count,tagged,joined,groups⟩ := ih rest.length (by simp at size; omega) later rfl
      rw [split_cons within absent isMark (isMark ▸ opens) (isMark ▸ closes)]
      refine ⟨mark :: marks, by simp [count], by simpa [isMark] using tagged, by simp [rejoin,joined], ?_⟩
      simpa using ⟨⟨within, absent⟩, groups⟩

/-- In a nested list the search for a closing bracket and the levels agree: the search finds the
matching bracket, a token is outside all brackets if no matched pair lies around it, and
cutting at such tokens leaves nested groups without separators, which give the list again. -/
theorem scanners_agree {tokens : List Token} (nested : Nested tokens) :
    (∀ i opening, tokens[i]? = some opening → opening.tag.isOpen = true →
      ∃ cut, closing? opening (tokens.drop (i + 1)) = some cut ∧ ∀ j, Matched tokens i j ↔ j = i + 1 + cut.before.length) ∧
    (∀ i level token, (leveled 0 tokens)[i]? = some (level, token) →
      (level = 0 ↔ ¬∃ a b, Matched tokens a b ∧ a < i ∧ i < b)) ∧
    ∀ separator : Tag, separator.isOpen = false → separator.isClose = false → ∃ marks : List Token,
      (split separator tokens).length = marks.length + 1 ∧ (∀ mark ∈ marks, mark.tag = separator) ∧
      rejoin (split separator tokens) marks = tokens ∧
      ∀ group ∈ split separator tokens, Nested group ∧ ∀ token ∈ outer group, token.tag ≠ separator := by
  refine ⟨fun i opening place opens => ?_, fun i level token place => level_eq_iff nested 0 place,
    fun separator opens closes => split_nested opens closes nested⟩
  obtain ⟨j,pair⟩ := nested.exists_matched place opens
  obtain ⟨found,cut,again,_,closed,rfl⟩ := pair.closing?
  obtain rfl : opening = found := Option.some.inj (place.symm.trans again)
  refine ⟨cut, closed, fun k => ⟨fun other => other.unique pair, ?_⟩⟩
  rintro rfl
  exact pair

/-- `([a, b]), c` -/
def bracketedItems : List Token :=
  [⟨.parenOpen, "(", 1⟩, ⟨.listOpen, "[", 1⟩, ⟨.identifier, "a", 1⟩, ⟨.delimiter, ",", 1⟩, ⟨.identifier, "b", 1⟩,
    ⟨.listClose, "]", 1⟩, ⟨.parenClose, ")", 1⟩, ⟨.delimiter, ",", 1⟩, ⟨.identifier, "c", 1⟩]

theorem scanners_agree_items : Nested bracketedItems ∧ (∀ j, Matched bracketedItems 0 j ↔ j = 6) ∧
    (∃ a b, Matched bracketedItems a b ∧ a < 3 ∧ 3 < b) ∧ (¬∃ a b, Matched bracketedItems a b ∧ a < 7 ∧ 7 < b) ∧
    ∃ marks : List Token, 2 = marks.length + 1 ∧ (∀ mark ∈ marks, mark.tag = .delimiter) ∧
      rejoin (split .delimiter bracketedItems) marks = bracketedItems ∧
      ∀ group ∈ split .delimiter bracketedItems, Nested group ∧ ∀ token ∈ outer group, token.tag ≠ .delimiter := by
  have items : Nested [⟨.identifier, "a", 1⟩, ⟨.delimiter, ",", 1⟩, ⟨.identifier, "b", 1⟩] :=
    .token rfl rfl (.token rfl rfl (.single rfl rfl))
  have list := @Nested.enclosed ⟨.listOpen, "[", 1⟩ ⟨.listClose, "]", 1⟩ _ rfl items
  have nested : Nested bracketedItems :=
    @Nested.pair ⟨.parenOpen, "(", 1⟩ ⟨.parenClose, ")", 1⟩ _ _ rfl list (.token rfl rfl (.single rfl rfl))
  obtain ⟨closes,levels,parts⟩ := scanners_agree nested
  obtain ⟨cut,closed,only⟩ := closes 0 ⟨.parenOpen, "(", 1⟩ rfl rfl
  have size : cut.before.length = 5 := by
    have computed : (closing? ⟨.parenOpen, "(", 1⟩ (bracketedItems.drop (0 + 1))).map (·.before.length) = some 5 := by decide
    rw [closed] at computed
    exact Option.some.inj computed
  refine ⟨nested, fun j => ?_, ?_, (levels 7 0 ⟨.delimiter, ",", 1⟩ rfl).mp rfl, parts .delimiter rfl rfl⟩
  · rw [only,size]
  · exact not_not.mp (mt (levels 3 2 ⟨.delimiter, ",", 1⟩ rfl).mpr (by decide))

end CalcBasic.Brackets
