/-
Module: GrammarKit.Proofs.WalkDepth
Purpose: How many rules a walk over a tree has inside each other.  Between two steps down the tree a walk that comes
  to an end goes through no rule twice, so what any number of rules inside each other gives, the number that walks
  are given gives as well.
Main exports: Term.sites, collect_mono, ofRule_ended, ofRule_walkFuel
-/
import Mathlib.Data.Fintype.Card
import GrammarKit.Generic.OfTree
import GrammarKit.Proofs.ListSlots
import GrammarKit.Proofs.Results
import GrammarKit.Proofs.Tables

namespace GrammarKit

/-! ### The rules that a walk can enter -/

/-- The term of a rule and the scope in which it is read. -/
abbrev RuleSite := Scope × Term

namespace Term

mutual
/-- The rules that are defined inside a term. -/
def sites (scope : Scope) : Term → List RuleSite
  | rule _ => []
  | literal _ => []
  | regex _ => []
  | seq ts => sitesAll scope ts
  | choice ts => sitesAll scope ts
  | stack ts => sitesAll scope ts
  | list element separator _ => sites scope element ++ sites scope separator
  | quant t _ _ => sites scope t
  | capture _ t => sites scope t
  | backref _ default => sitesDefault scope default
  | cut t => sites scope t
  | withRules t rules => sites (rules :: scope) t ++ sitesTable (rules :: scope) rules

/-- The rules that are defined inside several terms. -/
def sitesAll (scope : Scope) : List Term → List RuleSite
  | [] => []
  | t :: ts => sites scope t ++ sitesAll scope ts

/-- The rules that are defined inside a default. -/
def sitesDefault (scope : Scope) : Option Term → List RuleSite
  | none => []
  | some t => sites scope t

/-- The rules of a table and those inside them. -/
def sitesTable (scope : Scope) : Table Term → List RuleSite
  | ⟨entries⟩ => sitesEntries scope entries

/-- The rules among some entries and those inside them. -/
def sitesEntries (scope : Scope) : List (String × Term) → List RuleSite
  | [] => []
  | (_, t) :: entries => (scope, t) :: (sites scope t ++ sitesEntries scope entries)
end

mutual
theorem length_sites : ∀ (t : Term) (scope : Scope), (sites scope t).length = ruleCount t
  | rule _, _ => rfl
  | literal _, _ => rfl
  | regex _, _ => rfl
  | seq ts, scope => length_sitesAll ts scope
  | choice ts, scope => length_sitesAll ts scope
  | stack ts, scope => length_sitesAll ts scope
  | list element separator _, scope => by
    rw [sites, ruleCount, List.length_append, length_sites element, length_sites separator]
  | quant t _ _, scope => length_sites t scope
  | capture _ t, scope => length_sites t scope
  | backref _ none, _ => rfl
  | backref _ (some t), scope => length_sites t scope
  | cut t, scope => length_sites t scope
  | withRules t ⟨entries⟩, scope => by
    rw [sites, ruleCount, List.length_append, length_sites t, sitesTable, ruleCountTable,
      length_sitesEntries entries]

theorem length_sitesAll : ∀ (ts : List Term) (scope : Scope), (sitesAll scope ts).length = ruleCountAll ts
  | [], _ => rfl
  | t :: ts, scope => by
    rw [sitesAll, ruleCountAll, List.length_append, length_sites t, length_sitesAll ts]

theorem length_sitesEntries : ∀ (entries : List (String × Term)) (scope : Scope),
    (sitesEntries scope entries).length = ruleCountEntries entries
  | [], _ => rfl
  | (_, t) :: entries, scope => by
    rw [sitesEntries, ruleCountEntries, List.length_cons, List.length_append, length_sites t,
      length_sitesEntries entries]
    omega
end

theorem mem_sitesEntries {scope : Scope} {entry : String × Term} {entries : List (String × Term)}
    (member : entry ∈ entries) : (scope, entry.2) ∈ sitesEntries scope entries ∧
      sites scope entry.2 ⊆ sitesEntries scope entries := by
  induction entries with
  | nil => cases member
  | cons first entries ih =>
    rw [sitesEntries]
    rcases List.mem_cons.mp member with rfl | later
    · exact ⟨List.mem_cons_self, fun site inside => List.mem_cons_of_mem _ (List.mem_append_left _ inside)⟩
    · obtain ⟨here, within⟩ := ih later
      refine ⟨List.mem_cons_of_mem _ (List.mem_append_right _ here), fun site inside => ?_⟩
      exact List.mem_cons_of_mem _ (List.mem_append_right _ (within inside))

end Term

/-! ### Steps down the tree -/

namespace Term

variable {t : Term} {tree : Tree}

theorem depth_lt_of_nodeChildren {children : List Tree} (opened : nodeChildren t tree = .ok children) {child : Tree}
    (member : child ∈ children) : child.depth < tree.depth := by
  cases tree with
  | node tag extra inner =>
    cases opened
    exact Tree.depth_lt_of_mem member
  | leaf _ => cases opened
  | elided => cases opened

theorem depth_lt_of_chosen {index : Nat} {child : Tree} (opened : chosen t tree = .ok (index, child)) :
    child.depth < tree.depth := by
  obtain ⟨children, inner, opened⟩ := Except.bind_eq_ok opened
  split at opened
  · cases opened
    exact depth_lt_of_nodeChildren inner List.mem_cons_self
  · cases opened

theorem depth_lt_of_listSlots {slots : List Tree} (opened : listSlots t tree = .ok slots) {slot : Tree}
    (member : slot ∈ slots) : slot.depth < tree.depth := by
  obtain ⟨_, -, opened⟩ := Except.bind_eq_ok opened
  split at opened
  · next inner found =>
    cases opened
    exact Tree.depth_lt_of_mem_slots found member
  · cases opened

end Term

/-! ### Places of a walk -/

/-- The rules of every grammar in a scope, and those inside them, are among some rules. -/
def Scope.Inside (all : List RuleSite) : Scope → Prop
  | [] => True
  | g :: outer => Term.sitesTable (g :: outer) g ⊆ all ∧ Inside all outer

/-- A walk that is at a term in a scope can enter no rules but some. -/
structure Stays (all : List RuleSite) (scope : Scope) (t : Term) : Prop where
  around : scope.Inside all
  inside : Term.sites scope t ⊆ all

/-- The rule that a name means is one of those that can be entered, and leads to no others. -/
theorem Scope.Inside.find {all : List RuleSite} {name : String} {body : Term} {inner : Scope} : ∀ {scope : Scope},
    scope.Inside all → scope.find? name = some (body, inner) → (inner, body) ∈ all ∧ Stays all inner body
  | ⟨entries⟩ :: outer, ⟨here, beyond⟩, found => by
    rw [Scope.find?] at found
    split at found
    · next t value =>
      cases found
      have member := Table.mem_of_lookup value
      obtain ⟨member, within⟩ := @Term.mem_sitesEntries (⟨entries⟩ :: outer) _ entries member
      exact ⟨here member, ⟨here, beyond⟩, fun site inside => here (within inside)⟩
    · exact Scope.Inside.find beyond found

namespace Term

variable {all : List RuleSite}

mutual
/-- A walk that enters a rule inside a term stays inside it. -/
theorem stays_of_mem_sites : ∀ (t : Term) {scope : Scope} {site : RuleSite}, Stays all scope t →
    site ∈ sites scope t → Stays all site.1 site.2
  | rule _, _, _, _, member => nomatch member
  | literal _, _, _, _, member => nomatch member
  | regex _, _, _, _, member => nomatch member
  | seq ts, _, _, stays, member => stays_of_mem_sitesAll ts stays.around stays.inside member
  | choice ts, _, _, stays, member => stays_of_mem_sitesAll ts stays.around stays.inside member
  | stack ts, _, _, stays, member => stays_of_mem_sitesAll ts stays.around stays.inside member
  | list element separator _, _, _, stays, member => by
    obtain ⟨first, second⟩ := List.append_subset.mp stays.inside
    rcases List.mem_append.mp member with here | there
    · exact stays_of_mem_sites element ⟨stays.around, first⟩ here
    · exact stays_of_mem_sites separator ⟨stays.around, second⟩ there
  | quant t _ _, _, _, stays, member => stays_of_mem_sites t ⟨stays.around, stays.inside⟩ member
  | capture _ t, _, _, stays, member => stays_of_mem_sites t ⟨stays.around, stays.inside⟩ member
  | backref _ none, _, _, _, member => nomatch member
  | backref _ (some t), _, _, stays, member => stays_of_mem_sites t ⟨stays.around, stays.inside⟩ member
  | cut t, _, _, stays, member => stays_of_mem_sites t ⟨stays.around, stays.inside⟩ member
  | withRules t ⟨entries⟩, scope, _, stays, member => by
    obtain ⟨inside, rules⟩ := List.append_subset.mp stays.inside
    have around : Scope.Inside all (⟨entries⟩ :: scope) := ⟨rules, stays.around⟩
    rcases List.mem_append.mp member with here | there
    · exact stays_of_mem_sites t ⟨around, inside⟩ here
    · exact stays_of_mem_sitesEntries entries around rules there

theorem stays_of_mem_sitesAll : ∀ (ts : List Term) {scope : Scope} {site : RuleSite}, scope.Inside all →
    sitesAll scope ts ⊆ all → site ∈ sitesAll scope ts → Stays all site.1 site.2
  | [], _, _, _, _, member => nomatch member
  | t :: ts, _, _, around, inside, member => by
    obtain ⟨first, others⟩ := List.append_subset.mp inside
    rcases List.mem_append.mp member with here | there
    · exact stays_of_mem_sites t ⟨around, first⟩ here
    · exact stays_of_mem_sitesAll ts around others there

theorem stays_of_mem_sitesEntries : ∀ (entries : List (String × Term)) {scope : Scope} {site : RuleSite},
    scope.Inside all → sitesEntries scope entries ⊆ all → site ∈ sitesEntries scope entries →
    Stays all site.1 site.2
  | [], _, _, _, _, member => nomatch member
  | (_, t) :: entries, _, _, around, inside, member => by
    obtain ⟨-, inside⟩ := List.cons_subset.mp inside
    obtain ⟨first, others⟩ := List.append_subset.mp inside
    rcases List.mem_cons.mp member with rfl | member
    · exact ⟨around, first⟩
    · rcases List.mem_append.mp member with here | there
      · exact stays_of_mem_sites t ⟨around, first⟩ here
      · exact stays_of_mem_sitesEntries entries around others there
end

end Term

namespace Generic

/-! ### Walks that enter rules alike -/

/-- Wherever a walk can enter a rule at a tree or below it, one way of entering gives what another one gives. -/
def Yields (all : List RuleSite) (enter enter' : Scope → Term → Tree → Except Error Branch) (tree : Tree) : Prop :=
  ∀ {scope body inner child}, (scope, body) ∈ all → Stays all scope body →
    inner = tree ∨ inner.depth < tree.depth → enter scope body inner = .ok child → enter' scope body inner = .ok child

section Mono

variable {all : List RuleSite} {enter enter' : Scope → Term → Tree → Except Error Branch}

theorem Yields.below {tree child : Tree} (h : Yields all enter enter' tree) (deeper : child.depth < tree.depth) :
    Yields all enter enter' child := by
  intro scope body inner made member stays place entered
  refine h member stays (.inr ?_) entered
  rcases place with rfl | lower
  · exact deeper
  · exact Nat.lt_trans lower deeper

theorem foldlM_mono {write write' : Tree → Branch → Except Error Branch} {trees : List Tree}
    (each : ∀ tree ∈ trees, ∀ {b b'}, write tree b = .ok b' → write' tree b = .ok b') {b b' : Branch}
    (walked : trees.foldlM (fun b child => write child b) b = .ok b') :
    trees.foldlM (fun b child => write' child b) b = .ok b' := by
  induction trees generalizing b with
  | nil => exact walked
  | cons tree trees ih =>
    rw [List.foldlM_cons] at walked ⊢
    obtain ⟨b₁, first, rest⟩ := Except.bind_eq_ok walked
    obtain ⟨here, others⟩ := List.forall_mem_cons.mp each
    rw [here first]
    exact ih others rest

theorem walkSlots_mono {element element' separator separator' : Tree → Branch → Except Error Branch}
    {slots : List Tree}
    (elements : ∀ slot ∈ slots, ∀ {b b'}, element slot b = .ok b' → element' slot b = .ok b')
    (separators : ∀ slot ∈ slots, ∀ {b b'}, separator slot b = .ok b' → separator' slot b = .ok b') {b b' : Branch}
    (walked : Term.walkSlots element separator slots b = .ok b') :
    Term.walkSlots element' separator' slots b = .ok b' := by
  induction slots generalizing b element element' separator separator' with
  | nil => exact walked
  | cons slot slots ih =>
    obtain ⟨here, others⟩ := List.forall_mem_cons.mp elements
    obtain ⟨-, others'⟩ := List.forall_mem_cons.mp separators
    by_cases skipped : slot = .elided
    · subst skipped
      rw [Tree.walkSlots_elided] at walked ⊢
      exact ih others' others walked
    · rw [Tree.walkSlots_present _ _ _ _ skipped] at walked ⊢
      obtain ⟨b₁, first, rest⟩ := Except.bind_eq_ok walked
      rw [here first]
      exact ih others' others rest

mutual
/-- A walk that succeeds goes the same way if the rules it enters give what they gave. -/
theorem collect_mono : ∀ (t : Term) {scope : Scope} {counters : Counters} {tree : Tree} {b b' : Branch},
    Stays all scope t → Yields all enter enter' tree → collect enter scope counters t tree b = .ok b' →
    collect enter' scope counters t tree b = .ok b'
  | .literal _, _, _, _, _, _, _, _, walked => by
    rw [collect] at walked ⊢
    exact walked
  | .regex _, _, _, _, _, _, _, _, walked => by
    rw [collect] at walked ⊢
    exact walked
  | .backref _ _, _, _, _, _, _, _, _, walked => by
    rw [collect] at walked ⊢
    exact walked
  | .rule name, scope, _, _, _, _, stays, yields, walked => by
    rw [collect] at walked ⊢
    cases found : scope.find? name with
    | none =>
      rw [found] at walked
      cases walked
    | some value =>
      obtain ⟨body, inner⟩ := value
      rw [found] at walked
      obtain ⟨child, entered, rest⟩ := Except.bind_eq_ok walked
      obtain ⟨member, stays⟩ := stays.around.find found
      show (enter' inner body _ >>= _) = _
      rw [yields member stays (.inl rfl) entered]
      exact rest
  | .capture _ t, _, _, _, _, _, stays, yields, walked => by
    rw [collect] at walked ⊢
    obtain ⟨child, entered, rest⟩ := Except.bind_eq_ok walked
    rw [collect_mono t ⟨stays.around, stays.inside⟩ yields entered]
    exact rest
  | .cut t, _, _, _, _, _, stays, yields, walked => by
    rw [collect] at walked ⊢
    exact collect_mono t ⟨stays.around, stays.inside⟩ yields walked
  | .withRules t ⟨entries⟩, _, _, _, _, _, stays, yields, walked => by
    rw [collect] at walked ⊢
    obtain ⟨inside, rules⟩ := List.append_subset.mp stays.inside
    exact collect_mono t ⟨⟨rules, stays.around⟩, inside⟩ yields walked
  | .seq ts, _, _, tree, _, _, stays, yields, walked => by
    rw [collect] at walked ⊢
    obtain ⟨children, opened, walked⟩ := Except.bind_eq_ok walked
    rw [opened]
    show (if _ then _ else _) = _
    split at walked
    · next length =>
      rw [if_pos length]
      refine collectItems_mono ts stays.around stays.inside (fun child member => yields.below ?_) walked
      exact Term.depth_lt_of_nodeChildren opened member
    · cases walked
  | .choice ts, _, _, tree, _, _, stays, yields, walked => by
    rw [collect] at walked ⊢
    cases opened : Term.chosen (.choice ts) tree with
    | error _ =>
      rw [opened] at walked
      cases walked
    | ok value =>
      obtain ⟨index, child⟩ := value
      rw [opened] at walked
      have below : Yields all enter enter' child := yields.below (Term.depth_lt_of_chosen opened)
      exact collectChosen_mono ts stays.around stays.inside below walked
  | .quant t _ _, _, _, _, _, _, stays, yields, walked => by
    rw [collect] at walked ⊢
    obtain ⟨children, opened, walked⟩ := Except.bind_eq_ok walked
    obtain ⟨b₁, marked, walked⟩ := Except.bind_eq_ok walked
    rw [opened]
    show (addMark _ _ _ >>= _) = _
    rw [marked]
    refine foldlM_mono (fun child member {_ _} => collect_mono t ⟨stays.around, stays.inside⟩ (yields.below ?_)) walked
    exact Term.depth_lt_of_nodeChildren opened member
  | .list element separator _, _, _, _, _, _, stays, yields, walked => by
    rw [collect] at walked ⊢
    obtain ⟨slots, opened, walked⟩ := Except.bind_eq_ok walked
    obtain ⟨b₁, marked, walked⟩ := Except.bind_eq_ok walked
    obtain ⟨first, second⟩ := List.append_subset.mp stays.inside
    rw [opened]
    show (addMark _ _ _ >>= _) = _
    rw [marked]
    refine walkSlots_mono (fun slot member {_ _} => collect_mono element ⟨stays.around, first⟩ (yields.below ?_))
      (fun slot member {_ _} => collect_mono separator ⟨stays.around, second⟩ (yields.below ?_)) walked
    · exact Term.depth_lt_of_listSlots opened member
    · exact Term.depth_lt_of_listSlots opened member
  | .stack _, _, _, _, _, _, _, _, walked => by
    rw [collect] at walked
    cases walked

theorem collectItems_mono : ∀ (ts : List Term) {scope : Scope} {counters : Counters} {trees : List Tree}
    {b b' : Branch}, scope.Inside all → Term.sitesAll scope ts ⊆ all →
    (∀ tree ∈ trees, Yields all enter enter' tree) → collectItems enter scope counters ts trees b = .ok b' →
    collectItems enter' scope counters ts trees b = .ok b'
  | [], _, _, _, _, _, _, _, _, walked => by
    rw [collectItems] at walked ⊢
    · exact walked
    · nofun
    · nofun
  | _ :: _, _, _, [], _, _, _, _, _, walked => by
    rw [collectItems] at walked ⊢
    · exact walked
    · nofun
    · nofun
  | t :: ts, _, _, tree :: trees, _, _, scope, within, yields, walked => by
    rw [collectItems] at walked ⊢
    obtain ⟨b₁, first, rest⟩ := Except.bind_eq_ok walked
    obtain ⟨here, others⟩ := List.append_subset.mp within
    obtain ⟨below, beyond⟩ := List.forall_mem_cons.mp yields
    rw [collect_mono t ⟨scope, here⟩ below first]
    exact collectItems_mono ts scope others beyond rest

theorem collectChosen_mono : ∀ (ts : List Term) {scope : Scope} {counters : Counters} {whole : Term} {node : Tree}
    {chosen index : Nat} {tree : Tree} {b b' : Branch}, scope.Inside all → Term.sitesAll scope ts ⊆ all →
    Yields all enter enter' tree → collectChosen enter scope counters whole node chosen ts index tree b = .ok b' →
    collectChosen enter' scope counters whole node chosen ts index tree b = .ok b'
  | [], _, _, _, _, _, _, _, _, _, _, _, _, walked => by
    rw [collectChosen] at walked ⊢
    exact walked
  | t :: ts, _, _, _, _, _, 0, _, _, _, scope, within, yields, walked => by
    rw [collectChosen] at walked ⊢
    obtain ⟨b₁, first, rest⟩ := Except.bind_eq_ok walked
    rw [first]
    exact collect_mono t ⟨scope, (List.append_subset.mp within).1⟩ yields rest
  | _ :: ts, _, _, _, _, _, index + 1, _, _, _, scope, within, yields, walked => by
    rw [collectChosen] at walked ⊢
    exact collectChosen_mono ts scope (List.append_subset.mp within).2 yields walked
end

end Mono

/-! ### Rules inside each other -/

section Ended

variable {all : List RuleSite}

theorem ofRule_mono {n m : Nat} (le : n ≤ m) {scope : Scope} {body : Term} {tree : Tree} {child : Branch}
    (stays : Stays all scope body) (ended : ofRule n scope body tree = .ok child) :
    ofRule m scope body tree = .ok child := by
  induction n generalizing m scope body tree child with
  | zero => cases ended
  | succ n ih =>
    obtain ⟨m, rfl⟩ : ∃ m', m = m' + 1 := ⟨m - 1, by omega⟩
    rw [ofRule] at ended ⊢
    exact collect_mono body stays (fun _ stays _ => ih (Nat.le_of_succ_le_succ le) stays) ended

/-- The rules whose walk over a tree ends within a number of rules inside each other. -/
def endedAt (all : List RuleSite) (tree : Tree) (n : Nat) : Finset (Fin all.length) :=
  Finset.univ.filter fun i => (ofRule n all[i].1 all[i].2 tree).isOk

theorem mem_endedAt {tree : Tree} {n : Nat} {i : Fin all.length} :
    i ∈ endedAt all tree n ↔ ∃ child, ofRule n all[i].1 all[i].2 tree = .ok child := by
  rw [endedAt, Finset.mem_filter]
  constructor
  · rintro ⟨-, ended⟩
    cases result : ofRule n all[i].1 all[i].2 tree with
    | ok child => exact ⟨child, rfl⟩
    | error _ =>
      rw [result] at ended
      cases ended
  · rintro ⟨child, ended⟩
    rw [ended]
    exact ⟨Finset.mem_univ i, rfl⟩

variable (known : ∀ site ∈ all, Stays all site.1 site.2)
include known

theorem endedAt_mono (tree : Tree) {n m : Nat} (le : n ≤ m) : endedAt all tree n ⊆ endedAt all tree m := by
  intro i member
  obtain ⟨child, ended⟩ := mem_endedAt.mp member
  exact mem_endedAt.mpr ⟨child, ofRule_mono le (known _ (List.getElem_mem i.isLt)) ended⟩

/-- A walk that ends is inside at most as many rules at the same tree as there are rules whose walk ends earlier,
and inside no more below it than suffice there. -/
theorem ofRule_ended {tree : Tree} {enough : Nat}
    (later : ∀ {scope body inner n child}, (scope, body) ∈ all → inner.depth < tree.depth →
      ofRule n scope body inner = .ok child → ofRule enough scope body inner = .ok child)
    (n : Nat) {scope : Scope} {body : Term} {child : Branch} (member : (scope, body) ∈ all)
    (ended : ofRule n scope body tree = .ok child) :
    ofRule (enough + (endedAt all tree n).card) scope body tree = .ok child := by
  induction n generalizing scope body child with
  | zero => cases ended
  | succ n ih =>
    have stays : Stays all scope body := known _ member
    have grows := endedAt_mono known tree (Nat.le_succ n)
    obtain ⟨i, bound, here⟩ := List.getElem_of_mem member
    by_cases earlier : ⟨i, bound⟩ ∈ endedAt all tree n
    · obtain ⟨child', before⟩ := mem_endedAt.mp earlier
      simp only [Fin.getElem_fin, here] at before
      obtain rfl := Except.ok.inj (ended.symm.trans (ofRule_mono (Nat.le_succ n) stays before))
      exact ofRule_mono (Nat.add_le_add_left (Finset.card_le_card grows) _) stays (ih member before)
    · have now : ⟨i, bound⟩ ∈ endedAt all tree (n + 1) := by
        refine mem_endedAt.mpr ⟨child, ?_⟩
        simp only [Fin.getElem_fin, here]
        exact ended
      have proper : endedAt all tree n ⊂ endedAt all tree (n + 1) := ⟨grows, fun subset => earlier (subset now)⟩
      have le : enough + (endedAt all tree n).card + 1 ≤ enough + (endedAt all tree (n + 1)).card := by
        have := Finset.card_lt_card proper
        omega
      apply ofRule_mono le stays
      rw [ofRule] at ended ⊢
      refine collect_mono body stays (fun member stays place entered => ?_) ended
      rcases place with rfl | lower
      · exact ih member entered
      · exact ofRule_mono (Nat.le_add_right _ _) stays (later member lower entered)

/-- From each tree on the way down, as many rules inside each other suffice as there are. -/
theorem ofRule_enough {depth : Nat} {tree : Tree} (low : tree.depth < depth) {n : Nat} {scope : Scope} {body : Term}
    {child : Branch} (member : (scope, body) ∈ all) (ended : ofRule n scope body tree = .ok child) :
    ofRule (all.length * depth) scope body tree = .ok child := by
  induction depth generalizing tree n scope body child with
  | zero => exact absurd low (Nat.not_lt_zero _)
  | succ depth ih =>
    have later : ∀ {scope body inner n child}, (scope, body) ∈ all → inner.depth < tree.depth →
        ofRule n scope body inner = .ok child → ofRule (all.length * depth) scope body inner = .ok child :=
      fun member lower => ih (Nat.lt_of_lt_of_le lower (Nat.le_of_lt_succ low)) member
    have few : (endedAt all tree n).card ≤ all.length := by
      have := Finset.card_le_univ (endedAt all tree n)
      rwa [Fintype.card_fin] at this
    apply ofRule_mono _ (known _ member) (ofRule_ended known later n member ended)
    rw [Nat.mul_succ]
    exact Nat.add_le_add_left few _

end Ended

/-- What the walk over a tree by a rule of a grammar gives through any number of rules inside each other, it gives
through the number that it is allowed. -/
theorem ofRule_walkFuel {g : Grammar} {rule : String} {body : Term} (value : g.get? rule = some body) {tree : Tree}
    {n : Nat} {child : Branch} (ended : ofRule n [g] body tree = .ok child) :
    ofRule (g.walkFuel tree) [g] body tree = .ok child := by
  obtain ⟨entries⟩ := g
  let all : List RuleSite := Term.sitesEntries [⟨entries⟩] entries
  have around : Scope.Inside all [⟨entries⟩] := ⟨fun _ member => member, trivial⟩
  have known : ∀ site ∈ all, Stays all site.1 site.2 :=
    fun site member => Term.stays_of_mem_sitesEntries entries around (fun _ inside => inside) member
  have member : (([⟨entries⟩], body) : RuleSite) ∈ all := (Term.mem_sitesEntries (Table.mem_of_lookup value)).1
  have count : all.length = Grammar.ruleCount ⟨entries⟩ := Term.length_sitesEntries entries [⟨entries⟩]
  have le : all.length * (tree.depth + 1) ≤ Grammar.walkFuel ⟨entries⟩ tree := by
    rw [Grammar.walkFuel, count]
    exact Nat.mul_le_mul_right _ (Nat.le_succ _)
  exact ofRule_mono le (known _ member) (ofRule_enough known (Nat.lt_succ_self _) member ended)

end Generic
end GrammarKit
