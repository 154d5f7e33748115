import CalcBasic.Proofs.Lasting
import Mathlib

/-! The order in which scalars get their places. The first query ranks the names that have been
referred to, the most used first; a name that comes later takes the next place when it is
asked for. -/
namespace CalcBasic
open List

/-- How far a slot is from the first letter. The overflow list follows the letters. -/
def Slot.position : Slot → Nat
  | .letter name => alphabet.idxOf name
  | .overflow index => alphabet.length + index - 1

theorem Slot.position_ofRank (rank : Nat) : (ofRank rank).position = rank := by
  have distinct : alphabet.Nodup := by decide
  unfold ofRank
  cases found : alphabet[rank]? with
  | none =>
    have past := getElem?_eq_none_iff.mp found
    change alphabet.length + (rank - alphabet.length + 1) - 1 = rank
    omega
  | some letter =>
    obtain ⟨bound,here⟩ := List.getElem?_eq_some_iff.mp found
    change alphabet.idxOf letter = rank
    rw [← here]
    exact distinct.idxOf_getElem rank bound

/-! ### Histories -/

/-- What is done to the scalars of a table. -/
inductive Access where
  | reference (name : String)
  | temporary
  | query (name : String)

namespace Access

def request : Access → Request
  | .reference name => .reference name
  | .temporary => .temporary
  | .query name => .slot name

def isQuery : Access → Bool
  | .query _ => true
  | _ => false

/-- The keys referred to, in order. So many temporaries have been made before. -/
def referred (temporaries : Nat) : List Access → List String
  | [] => []
  | .reference name :: rest => name.toLower :: referred temporaries rest
  | .temporary :: rest => Symbols.temporaryName temporaries :: referred (temporaries + 1) rest
  | .query _ :: rest => referred temporaries rest

/-- The keys asked for, in order. -/
def asked : List Access → List String
  | [] => []
  | .query name :: rest => name.toLower :: asked rest
  | _ :: rest => asked rest

/-- What happens before the first query. -/
def early (history : List Access) : List Access := history.takeWhile (!·.isQuery)

/-- The keys referred to before the first query. -/
def registered (history : List Access) : List String := referred 0 (early history)

/-- Where a scalar lives, if it is asked for after this history. -/
def home (history : List Access) (name : String) : Slot := ((Symbols.session {} (history.map request)).slot name).1

end Access

/-- The first name has been referred to more often, or as often and for the first time earlier. -/
def Precedes (keys : List String) (a b : String) : Prop :=
  keys.count b < keys.count a ∨ keys.count a = keys.count b ∧ keys.idxOf a < keys.idxOf b

instance (keys : List String) (a b : String) : Decidable (Precedes keys a b) := inferInstanceAs (Decidable (_ ∨ _))

theorem Precedes.asymm {keys : List String} {a b : String} (first : Precedes keys a b) : ¬Precedes keys b a := by
  unfold Precedes at *
  omega

/-! ### Counting -/

namespace Symbols

variable {keys : List String} {symbols : Symbols}

/-- The table has an entry for each of the keys, in the order of first reference and with the
number of references. Nothing has been asked for yet. -/
structure Tallies (keys : List String) (symbols : Symbols) : Prop where
  ordered : (symbols.entries.map Variable.name).Pairwise (keys.idxOf · < keys.idxOf ·)
  named : ∀ key, key ∈ symbols.entries.map Variable.name ↔ key ∈ keys
  uses : ∀ v ∈ symbols.entries, v.uses = keys.count v.name
  unranked : symbols.ranking = none

theorem tallies_empty : Tallies [] {} :=
  ⟨.nil, fun _ => Iff.rfl, fun _ member => absurd member not_mem_nil, rfl⟩

/-- One more reference leaves the names that have been seen in their order. -/
theorem Tallies.ordered_append (tallies : Tallies keys symbols) (key : String) :
    (symbols.entries.map Variable.name).Pairwise ((keys ++ [key]).idxOf · < (keys ++ [key]).idxOf ·) := by
  refine tallies.ordered.imp_of_mem fun {a b} first second less => ?_
  rwa [idxOf_append_of_mem ((tallies.named a).mp first),idxOf_append_of_mem ((tallies.named b).mp second)]

theorem tallies_known (tallies : Tallies keys symbols) {name : String} (known : name.toLower ∈ keys) :
    Tallies (keys ++ [name.toLower]) (symbols.update name fun v => { v with uses := v.uses + 1 }) := by
  have names : ((symbols.update name fun v => { v with uses := v.uses + 1 }).entries.map Variable.name) =
      symbols.entries.map Variable.name := by
    simp only [update,map_map]
    refine map_congr_left fun v _ => ?_
    simp only [Function.comp_apply]
    split <;> rfl
  refine ⟨?_, fun key => ?_, fun v member => ?_, tallies.unranked⟩
  · rw [names]
    exact tallies.ordered_append name.toLower
  · rw [names,tallies.named,mem_append,mem_singleton]
    exact ⟨.inl, fun either => either.elim id (· ▸ known)⟩
  · obtain ⟨w,inside,rfl⟩ := mem_map.mp member
    have count := tallies.uses w inside
    by_cases same : w.name = name.toLower
    · simp [same,count]
    · simp [same,count,Ne.symm same]

theorem tallies_fresh (tallies : Tallies keys symbols) {key : String} (fresh : key ∉ keys) :
    Tallies (keys ++ [key]) { symbols with entries := symbols.entries ++ [⟨key, 1, .number⟩] } := by
  refine ⟨?_, fun other => ?_, fun v member => ?_, tallies.unranked⟩
  · rw [map_append,pairwise_append]
    refine ⟨tallies.ordered_append key, pairwise_singleton _ _, fun a first b last => ?_⟩
    have inside := (tallies.named a).mp first
    rw [mem_singleton.mp last,idxOf_append_of_mem inside,idxOf_append_of_notMem fresh]
    exact Nat.lt_of_lt_of_le (idxOf_lt_length_of_mem inside) (Nat.le_add_right _ _)
  · rw [map_append,mem_append,mem_append,tallies.named]
    rfl
  · rcases mem_append.mp member with old | new
    · have other : key ≠ v.name := fun same =>
        fresh (same ▸ (tallies.named _).mp (mem_map.mpr ⟨v, old, rfl⟩))
      simp [tallies.uses v old,other]
    · rw [mem_singleton.mp new]
      simp [count_eq_zero_of_not_mem fresh]

theorem tallies_reference (tallies : Tallies keys symbols) (name : String) :
    Tallies (keys ++ [name.toLower]) (symbols.reference name) := by
  unfold reference
  split
  · rename_i entry found
    refine tallies_known tallies ((tallies.named _).mp (mem_map.mpr ⟨entry, mem_of_find?_eq_some found, ?_⟩))
    simpa using find?_some found
  · rename_i absent
    refine tallies_fresh tallies ?_
    rw [← tallies.named,mem_map]
    rintro ⟨v,member,same⟩
    exact absurd (find?_eq_none.mp absent v member) (by simp [same])

theorem temporaries_reference (symbols : Symbols) (name : String) :
    (symbols.reference name).temporaries = symbols.temporaries := by
  unfold reference
  split <;> rfl

theorem tallies_session (tallies : Tallies keys symbols) {early : List Access}
    (unasked : ∀ access ∈ early, access.isQuery = false) :
    Tallies (keys ++ Access.referred symbols.temporaries early) (symbols.session (early.map Access.request)) := by
  induction early generalizing keys symbols with
  | nil =>
    rw [Access.referred,append_nil]
    exact tallies
  | cons access rest ih =>
    have others : ∀ access ∈ rest, access.isQuery = false := fun other member => unasked other (by simp [member])
    cases access with
    | reference name =>
      have more := ih (tallies_reference tallies name) others
      rw [temporaries_reference,append_assoc] at more
      exact more
    | temporary =>
      have tallied : Tallies keys { symbols with temporaries := symbols.temporaries + 1 } := { tallies with }
      have more := ih (tallies_reference tallied (temporaryName symbols.temporaries)) others
      rw [temporaries_reference,toLower_temporaryName,append_assoc] at more
      exact more
    | query name => cases unasked _ mem_cons_self

/-! ### Ranking -/

section Ranking

variable {first : Variable → Variable → Prop}

/-- More uses come first, and of equally many those made earlier. -/
def Outranks (first : Variable → Variable → Prop) (v w : Variable) : Prop :=
  w.uses < v.uses ∨ v.uses = w.uses ∧ first v w

theorem perm_insertByUses (v : Variable) (sorted : List Variable) : (insertByUses v sorted).Perm (v :: sorted) := by
  induction sorted with
  | nil => exact .refl _
  | cons w rest ih =>
    unfold insertByUses
    split
    · exact (ih.cons w).trans (.swap v w rest)
    · exact .refl _

theorem pairwise_insertByUses {v : Variable} {sorted : List Variable} (order : sorted.Pairwise (Outranks first))
    (last : ∀ w ∈ sorted, first w v) : (insertByUses v sorted).Pairwise (Outranks first) := by
  induction sorted with
  | nil => exact pairwise_singleton _ _
  | cons w rest ih =>
    obtain ⟨head,order⟩ := pairwise_cons.mp order
    unfold insertByUses
    split
    · rename_i fewer
      refine pairwise_cons.mpr ⟨fun x member => ?_, ih order fun x member => last x (by simp [member])⟩
      rcases mem_cons.mp ((perm_insertByUses v rest).mem_iff.mp member) with rfl | member
      · rcases Nat.lt_or_eq_of_le fewer with less | same
        · exact .inl less
        · exact .inr ⟨same.symm, last w mem_cons_self⟩
      · exact head x member
    · rename_i more
      refine pairwise_cons.mpr ⟨fun x member => .inl ?_, pairwise_cons.mpr ⟨head, order⟩⟩
      rcases mem_cons.mp member with rfl | member
      · omega
      · rcases head x member with less | ⟨same,_⟩ <;> omega

/-- Inserting one after the other sorts by uses and keeps the order otherwise. -/
theorem pairwise_inserted {entries sorted : List Variable} (order : sorted.Pairwise (Outranks first))
    (across : ∀ w ∈ sorted, ∀ v ∈ entries, first w v) (given : entries.Pairwise first) :
    (entries.foldl (fun sorted v => insertByUses v sorted) sorted).Pairwise (Outranks first) ∧
      (entries.foldl (fun sorted v => insertByUses v sorted) sorted).Perm (sorted ++ entries) := by
  induction entries generalizing sorted with
  | nil =>
    rw [append_nil]
    exact ⟨order, .refl _⟩
  | cons v rest ih =>
    obtain ⟨head,given⟩ := pairwise_cons.mp given
    have moved := perm_insertByUses v sorted
    have next := ih (pairwise_insertByUses order fun w member => across w member v mem_cons_self) ?_ given
    · exact ⟨next.1, next.2.trans ((moved.append_right rest).trans perm_middle.symm)⟩
    · intro w member other isOther
      rcases mem_cons.mp (moved.mem_iff.mp member) with rfl | member
      · exact head other isOther
      · exact across w member other (mem_cons_of_mem _ isOther)

end Ranking

/-- The ranking has the keys and no others, each before those that it precedes. -/
theorem pairwise_ranked (tallies : Tallies keys symbols) :
    (ranked symbols.entries).Pairwise (Precedes keys) ∧ ∀ key, key ∈ ranked symbols.entries ↔ key ∈ keys := by
  have seen : symbols.entries.Pairwise fun v w => keys.idxOf v.name < keys.idxOf w.name := by
    simpa only [pairwise_map] using tallies.ordered
  obtain ⟨sorted,moved⟩ := pairwise_inserted .nil (fun _ member => absurd member not_mem_nil) seen
  rw [nil_append] at moved
  refine ⟨pairwise_map.mpr (sorted.imp_of_mem fun {v w} first second => ?_), fun key => ?_⟩
  · rw [Outranks,tallies.uses v (moved.mem_iff.mp first),tallies.uses w (moved.mem_iff.mp second)]
    exact id
  · rw [← tallies.named key]
    exact (moved.map Variable.name).mem_iff

end Symbols

theorem Precedes.idxOf_lt_iff {keys names : List String} (order : names.Pairwise (Precedes keys)) {a b : String}
    (first : a ∈ names) (second : b ∈ names) : names.idxOf a < names.idxOf b ↔ Precedes keys a b := by
  have early {a b : String} (first : a ∈ names) (second : b ∈ names) (less : names.idxOf a < names.idxOf b) :
      Precedes keys a b := by
    have related := pairwise_iff_getElem.mp order _ _ (idxOf_lt_length_of_mem first)
      (idxOf_lt_length_of_mem second) less
    rwa [getElem_idxOf,getElem_idxOf] at related
  refine ⟨early first second, fun precedes => ?_⟩
  rcases Nat.lt_trichotomy (names.idxOf a) (names.idxOf b) with less | same | more
  · exact less
  · rw [(idxOf_inj first).mp same] at precedes
    exact absurd precedes precedes.asymm
  · exact absurd precedes (early second first more).asymm

/-! ### Queries -/

namespace Numbering

variable {numbering : Numbering} {key : String}

/-- The numbering after these keys have been asked for. -/
def extend (numbering : Numbering) (keys : List String) : Numbering :=
  keys.foldl (fun numbering key => (numbering.number key).2) numbering

theorem extend_cons (numbering : Numbering) (key : String) (keys : List String) :
    numbering.extend (key :: keys) = (numbering.number key).2.extend keys := rfl

theorem extend_grows (numbering : Numbering) (keys : List String) : numbering <+: numbering.extend keys := by
  induction keys generalizing numbering with
  | nil => exact prefix_rfl
  | cons key rest ih => exact (number_grows numbering key).trans (ih _)

theorem extend_append (numbering : Numbering) (keys more : List String) :
    numbering.extend (keys ++ more) = (numbering.extend keys).extend more := foldl_append

theorem mem_number_iff {other : String} : other ∈ (numbering.number key).2 ↔ other ∈ numbering ∨ other = key := by
  by_cases known : key ∈ numbering
  · rw [number_of_mem known]
    exact ⟨.inl, fun either => either.elim id (· ▸ known)⟩
  · rw [number_of_not_mem known,mem_append,mem_singleton]

theorem mem_extend_iff {keys : List String} : key ∈ numbering.extend keys ↔ key ∈ numbering ∨ key ∈ keys := by
  induction keys generalizing numbering with
  | nil => simp [extend]
  | cons other rest ih => rw [extend_cons,ih,mem_number_iff,mem_cons,or_assoc]

theorem nodup_number (distinct : numbering.Nodup) (key : String) : (numbering.number key).2.Nodup := by
  by_cases known : key ∈ numbering
  · rwa [number_of_mem known]
  · rw [number_of_not_mem known]
    simpa using distinct.concat known

/-- A new key gets the number of keys that were there when it was first asked for. -/
theorem idxOf_extend (distinct : numbering.Nodup) (absent : key ∉ numbering) (keys : List String) :
    (numbering.extend keys).idxOf key = (numbering ++ keys.takeWhile (· != key)).toFinset.card := by
  induction keys generalizing numbering with
  | nil =>
    rw [takeWhile_nil,append_nil,toFinset_card_of_nodup distinct]
    exact idxOf_of_notMem absent
  | cons other rest ih =>
    by_cases same : other = key
    · subst same
      have added := number_of_not_mem absent
      rw [takeWhile_cons_of_neg (by simp),append_nil,toFinset_card_of_nodup distinct,extend_cons,
        ← (extend_grows (numbering.number other).2 rest).idxOf_eq_of_mem (mem_number numbering other),added,
        idxOf_append_of_notMem absent]
      simp
    · have still : key ∉ (numbering.number other).2 := by
        rw [mem_number_iff]
        exact fun either => either.elim absent (Ne.symm same)
      rw [takeWhile_cons_of_pos (by simpa using same)]
      refine (ih (nodup_number distinct other) still).trans (congrArg Finset.card ?_)
      ext x
      simp only [toFinset_append,Finset.mem_union,mem_toFinset,mem_number_iff,toFinset_cons,
        Finset.mem_insert]
      exact or_assoc

end Numbering

namespace Symbols

/-- Once the ranking is settled only queries add to it. -/
theorem ranking_session {symbols : Symbols} {ranks : Numbering} (settled : symbols.ranking = some ranks)
    (history : List Access) :
    (symbols.session (history.map Access.request)).ranking = some (ranks.extend (Access.asked history)) := by
  have reference (symbols : Symbols) (name : String) : (symbols.reference name).ranking = symbols.ranking := by
    unfold Symbols.reference
    split <;> rfl
  induction history generalizing symbols ranks with
  | nil => exact settled
  | cons access rest ih =>
    cases access with
    | reference name => exact ih ((reference symbols name).trans settled)
    | temporary => exact ih ((reference { symbols with temporaries := symbols.temporaries + 1 } _).trans settled)
    | query name =>
      have added : (symbols.slot name).2.ranking = some (ranks.number name.toLower).2 := by
        rw [Symbols.slot,settled]
        rfl
      exact ih added

/-- The first query settles the ranking; without a query it is still open. -/
theorem getD_ranking_session {symbols : Symbols} (unranked : symbols.ranking = none) {rest : List Access}
    (asks : ∀ access ∈ rest.head?, access.isQuery = true) :
    (symbols.session (rest.map Access.request)).ranking.getD (ranked (symbols.session (rest.map Access.request)).entries) =
      (ranked symbols.entries).extend (Access.asked rest) := by
  cases rest with
  | nil =>
    change symbols.ranking.getD (ranked symbols.entries) = ranked symbols.entries
    rw [unranked]
    rfl
  | cons access rest =>
    cases access with
    | query name =>
      have settled : (symbols.slot name).2.ranking = some ((ranked symbols.entries).number name.toLower).2 := by
        rw [Symbols.slot,unranked]
        rfl
      have later := ranking_session settled rest
      change ((symbols.slot name).2.session (rest.map Access.request)).ranking.getD _ = _
      rw [later]
      rfl
    | reference name | temporary => cases asks _ rfl

end Symbols

namespace Access
open Symbols

variable {history : List Access}

theorem asked_append (history more : List Access) : asked (history ++ more) = asked history ++ asked more := by
  induction history with
  | nil => rfl
  | cons access rest ih =>
    cases access with
    | query name => exact congrArg (name.toLower :: ·) ih
    | reference name | temporary => exact ih

theorem asked_of_unasked {early : List Access} (unasked : ∀ access ∈ early, access.isQuery = false) : asked early = [] := by
  induction early with
  | nil => rfl
  | cons access rest ih =>
    cases access with
    | query name => cases unasked _ mem_cons_self
    | reference name | temporary => exact ih fun other member => unasked other (by simp [member])

theorem toLower_of_referred {temporaries : Nat} {key : String}
    (member : key ∈ referred temporaries history) : key.toLower = key := by
  fun_induction referred temporaries history with
  | case1 => cases member
  | case2 temporaries name rest ih =>
    rcases mem_cons.mp member with rfl | member
    · exact Text.toLower_toLower name
    · exact ih member
  | case3 temporaries rest ih =>
    rcases mem_cons.mp member with rfl | member
    · exact toLower_temporaryName temporaries
    · exact ih member
  | case4 temporaries name rest ih => exact ih member

theorem unasked_early (history : List Access) : ∀ access ∈ early history, access.isQuery = false := by
  intro access member
  simpa using mem_takeWhile_imp member

/-- The ranking that the first query settles. -/
def ranking (history : List Access) : Numbering := ranked (session {} ((early history).map request)).entries

theorem pairwise_ranking (history : List Access) : (ranking history).Pairwise (Precedes (registered history)) ∧
    ∀ key, key ∈ ranking history ↔ key ∈ registered history :=
  pairwise_ranked (tallies_session tallies_empty (unasked_early history))

theorem home_eq (history : List Access) (name : String) :
    home history name = Slot.ofRank (((ranking history).extend (asked history)).idxOf name.toLower) := by
  have whole : early history ++ history.dropWhile (!·.isQuery) = history := takeWhile_append_dropWhile
  have queries : asked history = asked (history.dropWhile (!·.isQuery)) := by
    have parts := asked_append (early history) (history.dropWhile (!·.isQuery))
    rwa [whole,asked_of_unasked (unasked_early history)] at parts
  have split : session {} (history.map request) =
      (session {} ((early history).map request)).session ((history.dropWhile (!·.isQuery)).map request) := by
    rw [session,session,session,← foldl_append,← map_append,whole]
  have asks : ∀ access ∈ (history.dropWhile (!·.isQuery)).head?, access.isQuery = true := by
    intro access isFirst
    have stopped := head?_dropWhile_not (fun access : Access => !access.isQuery) history
    rw [Option.mem_def.mp isFirst] at stopped
    simpa using stopped
  have unranked := (tallies_session tallies_empty (unasked_early history)).unranked
  rw [home,slot,split,getD_ranking_session unranked asks,queries]
  change Slot.ofRank (Numbering.number _ _).1 = _
  rw [Numbering.number_fst]
  rfl

theorem position_home (history : List Access) (name : String) :
    (home history name).position = ((ranking history).extend (asked history)).idxOf name.toLower := by
  rw [home_eq,Slot.position_ofRank]

/-- A name that the first query ranks keeps its rank. -/
theorem position_registered {name : String} (known : name.toLower ∈ registered history) :
    (home history name).position = (ranking history).idxOf name.toLower := by
  rw [position_home,← (Numbering.extend_grows _ _).idxOf_eq_of_mem (((pairwise_ranking history).2 _).mpr known)]

theorem nodup_ranking (history : List Access) : (ranking history).Nodup :=
  (pairwise_ranking history).1.imp fun {a b} precedes same => by
    subst same
    exact precedes.asymm precedes

theorem toFinset_ranking (history : List Access) : (ranking history).toFinset = (registered history).toFinset := by
  ext key
  rw [mem_toFinset,mem_toFinset,(pairwise_ranking history).2]

theorem length_ranking (history : List Access) : (ranking history).length = (registered history).toFinset.card := by
  rw [← toFinset_ranking,toFinset_card_of_nodup (nodup_ranking history)]

theorem early_append (settled : history.any isQuery = true) (more : List Access) : early (history ++ more) = early history := by
  induction history with
  | nil => cases settled
  | cons access rest ih =>
    cases access with
    | query name => rfl
    | reference name | temporary => exact congrArg (_ :: ·) (ih settled)

end Access

open Access in
/-- Places go by uses. The names referred to before the first query have the first places, the
more used before the less used and equally used ones by their first reference. Any other name
takes the next place when it is first asked for, and no name is ever moved. -/
theorem slots_follow_uses (history : List Access) :
    (∀ a b : String, a.toLower ∈ registered history → b.toLower ∈ registered history →
      ((home history a).position < (home history b).position ↔ Precedes (registered history) a.toLower b.toLower)) ∧
    (∀ place, place < (registered history).toFinset.card ↔
      ∃ name : String, name.toLower ∈ registered history ∧ (home history name).position = place) ∧
    (∀ name : String, name.toLower ∉ registered history → (home history name).position =
      (registered history ++ (asked history).takeWhile (· != name.toLower)).toFinset.card) ∧
    ∀ more, history.any isQuery = true → ∀ name : String, name.toLower ∈ registered history ++ asked history →
      home (history ++ more) name = home history name := by
  obtain ⟨order,members⟩ := pairwise_ranking history
  refine ⟨?_, ?_, ?_, ?_⟩
  · intro a b first second
    rw [position_registered first,position_registered second]
    exact Precedes.idxOf_lt_iff order ((members _).mpr first) ((members _).mpr second)
  · intro place
    rw [← length_ranking]
    constructor
    · intro bound
      have known := (members _).mp (getElem_mem bound)
      have lower := toLower_of_referred known
      refine ⟨(ranking history)[place], by rwa [lower], ?_⟩
      rw [position_registered (by rwa [lower]),lower]
      exact (nodup_ranking history).idxOf_getElem place bound
    · rintro ⟨name,known,rfl⟩
      rw [position_registered known]
      exact idxOf_lt_length_of_mem ((members _).mpr known)
  · intro name fresh
    rw [position_home,Numbering.idxOf_extend (nodup_ranking history) (fresh ∘ (members _).mp),toFinset_append,
      toFinset_ranking,toFinset_append]
  · intro more settled name known
    have same : ranking (history ++ more) = ranking history := by rw [ranking,ranking,early_append settled]
    have placed : name.toLower ∈ (ranking history).extend (asked history) := by
      rwa [Numbering.mem_extend_iff,members,← mem_append]
    rw [home_eq,home_eq,same,asked_append,Numbering.extend_append,
      ← (Numbering.extend_grows _ (asked more)).idxOf_eq_of_mem placed]

/-- The uses after the first query come too late for `b`, and `z` follows the temporary. -/
def lateUses : List Access :=
  [.reference "b", .reference "A", .temporary, .reference "a", .query "@0", .reference "b", .reference "b", .query "z"]

open Access in
theorem slots_follow_uses_late :
    registered lateUses = ["b", "a", "@0", "a"] ∧ (home lateUses "A").position < (home lateUses "b").position ∧
      (home lateUses "Z").position = 3 ∧ ∀ more, home (lateUses ++ more) "B" = home lateUses "B" := by
  have keys : registered lateUses = ["b", "a", "@0", "a"] := by decide +kernel
  obtain ⟨order,_,fresh,still⟩ := slots_follow_uses lateUses
  rw [keys] at order fresh still
  refine ⟨keys, (order "A" "b" ?_ ?_).mpr ?_, (fresh "Z" ?_).trans ?_, fun more => still more rfl "B" ?_⟩ <;> decide +kernel

end CalcBasic
