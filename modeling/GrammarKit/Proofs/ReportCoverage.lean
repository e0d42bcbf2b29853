/-
Module: GrammarKit.Proofs.ReportCoverage
Purpose: Which slots the report of circles names.  A search visits each number once, so where two circles share their
  ends only the first of them is noted.  A number is on a noted circle if a way leads from it back to the root through
  numbers that are visited later; so every group of rules that lead to each other is reported by one of them, and a
  rule is named where the rest of its circle is only reached through it, but not every rule that leads to itself is.
Main exports: Discovered, Names, exists_cycle_of_circle, Program.cycleViolations_cover,
  Program.cycleViolations_sharedPaths
-/
import GrammarKit.Proofs.ReportedCircles

namespace GrammarKit

open Relation (TransGen ReflTransGen)

variable {edges : List (List Nat)} {root : Nat}

/-! ### What is noted carries on the way of the search -/

/-- All circles that a part of a search notes begin with some way. -/
def CarriesOn (way : List Nat) (before after : CycleSearch) : Prop :=
  ∃ found, after.cycles = before.cycles ++ found ∧ ∀ cycle ∈ found, way <+: cycle

namespace CarriesOn

variable {way : List Nat} {before between after : CycleSearch}

theorem refl (way : List Nat) (search : CycleSearch) : CarriesOn way search search :=
  ⟨[], (List.append_nil _).symm, nofun⟩

theorem trans (h : CarriesOn way before between) (h' : CarriesOn way between after) : CarriesOn way before after := by
  obtain ⟨found, noted, begin⟩ := h
  obtain ⟨found', noted', begin'⟩ := h'
  refine ⟨found ++ found', ?_, List.forall_mem_append.mpr ⟨begin, begin'⟩⟩
  rw [noted', noted, List.append_assoc]

/-- Something has been noted, so there is a circle that begins with the way. -/
theorem exists_cycle (h : CarriesOn way before after) (noted : after.cycles ≠ before.cycles) :
    ∃ cycle ∈ after.cycles, way <+: cycle := by
  obtain ⟨found, same, begin⟩ := h
  obtain ⟨cycle, member⟩ : ∃ cycle, cycle ∈ found := by
    apply List.exists_mem_of_ne_nil
    rintro rfl
    exact noted (by rw [same, List.append_nil])
  exact ⟨cycle, same ▸ List.mem_append_right _ member, begin cycle member⟩

end CarriesOn

theorem carriesOn_searchCycles (fuel : Nat) (path : List Nat) (here : Nat) (before : CycleSearch) :
    CarriesOn path.reverse before (searchCycles edges root fuel path here before) := by
  induction fuel generalizing path here before with
  | zero => exact .refl _ before
  | succ fuel ih =>
    have follows : ∀ search next, CarriesOn path.reverse search (follow edges root fuel path search next) := by
      intro search next
      unfold follow
      split
      · refine ⟨_, rfl, List.forall_mem_singleton.mpr ?_⟩
        rw [List.reverse_cons]
        exact List.prefix_append _ _
      · split
        · obtain ⟨found, noted, begin⟩ := ih (next :: path) next { search with visited := next :: search.visited }
          refine ⟨found, noted, fun cycle member => List.IsPrefix.trans ?_ (begin cycle member)⟩
          rw [List.reverse_cons]
          exact List.prefix_append _ _
        · exact .refl _ search
    rw [searchCycles_succ]
    generalize edges[here]?.getD [] = nexts
    induction nexts generalizing before with
    | nil => exact .refl _ before
    | cons next nexts rest => exact (follows before next).trans (rest _)

/-! ### The order of visits -/

/-- Numbers in the order in which a search may visit them, the last one first: each of them is new, above the root, and
an earlier one leads to it. -/
inductive Discovered (edges : List (List Nat)) (root : Nat) : List Nat → Prop
  | root : Discovered edges root [root]
  | visit {earlier : List Nat} {v next : Nat} (before : Discovered edges root earlier) (seen : v ∈ earlier)
      (edge : Edge edges v next) (above : root < next) (new : next ∉ earlier) :
      Discovered edges root (next :: earlier)

theorem discovered_searchCycles (fuel : Nat) {path : List Nat} {here : Nat} {before : CycleSearch}
    (seen : here ∈ before.visited) (order : Discovered edges root before.visited) :
    Discovered edges root (searchCycles edges root fuel path here before).visited := by
  induction fuel generalizing path here before with
  | zero => exact order
  | succ fuel ih =>
    have follows : ∀ {search next}, Edge edges here next → here ∈ search.visited →
        Discovered edges root search.visited →
        Discovered edges root (follow edges root fuel path search next).visited := by
      intro search next edge seen order
      unfold follow
      split
      · exact order
      · split
        · next fresh => exact ih List.mem_cons_self (order.visit seen edge fresh.1 (by simpa using fresh.2))
        · exact order
    rw [searchCycles_succ]
    have leads : ∀ next ∈ edges[here]?.getD [], Edge edges here next := fun _ member => member
    generalize edges[here]?.getD [] = nexts at leads
    induction nexts generalizing before with
    | nil => exact order
    | cons next nexts rest =>
      obtain ⟨first, later⟩ := List.forall_mem_cons.mp leads
      have grows := (extends_follow edges root fuel path before next).visited.subset
      exact rest (grows seen) (follows first seen order) later

namespace Discovered

variable {visited earlier : List Nat} {i j : Nat}

/-- What was visited before a number above the root is in order without it. -/
theorem before (h : Discovered edges root visited) (split : i :: earlier <:+ visited) (above : root < i) :
    Discovered edges root earlier ∧ i ∉ earlier := by
  induction h with
  | root =>
    rcases List.suffix_cons_iff.mp split with same | none
    · exact absurd (List.cons.inj same).1 (Nat.ne_of_gt above)
    · cases List.eq_nil_of_suffix_nil none
  | visit order seen edge _ new ih =>
    rcases List.suffix_cons_iff.mp split with same | further
    · obtain ⟨rfl, rfl⟩ := List.cons.inj same
      exact ⟨order, new⟩
    · exact ih further

/-- The root leads to whatever is visited, past any number that is not. -/
theorem reached (h : Discovered edges root visited) (absent : i ∉ visited) (member : j ∈ visited) :
    ReflTransGen (fun a b => Edge edges a b ∧ root < b ∧ b ≠ i) root j := by
  induction h generalizing j with
  | root => exact List.mem_singleton.mp member ▸ .refl
  | visit _ seen edge above _ ih =>
    rw [List.mem_cons, not_or] at absent
    obtain ⟨other, absent⟩ := absent
    rcases List.mem_cons.mp member with rfl | member
    · exact (ih absent seen).tail ⟨edge, above, Ne.symm other⟩
    · exact ih absent member

end Discovered

/-! ### Numbers that are named -/

/-- Each number that a part of a search visits is on a circle that has been noted, if a way leads from it back to the
root through numbers that are visited later. -/
def Names (edges : List (List Nat)) (root : Nat) (before after : CycleSearch) : Prop :=
  ∀ v earlier, v :: earlier <:+ after.visited → before.visited <:+ earlier →
    LeadsBack edges root (v :: earlier) v → ∃ cycle ∈ after.cycles, v ∈ cycle

namespace Names

variable {before between after : CycleSearch}

/-- Where nothing is visited nothing is to be named. -/
theorem of_visited (same : after.visited = before.visited) : Names edges root before after := by
  intro v earlier split old
  have longer : (v :: earlier).length ≤ earlier.length := (same ▸ split.length_le).trans old.length_le
  exact absurd longer (Nat.not_succ_le_self _)

theorem trans (h : Names edges root before between) (h' : Names edges root between after)
    (grows : Extends between after) : Names edges root before after := by
  intro v earlier split old back
  have here (split : v :: earlier <:+ between.visited) : ∃ cycle ∈ after.cycles, v ∈ cycle := by
    obtain ⟨cycle, noted, member⟩ := h v earlier split old back
    exact ⟨cycle, grows.cycles.subset noted, member⟩
  rcases List.suffix_or_suffix_of_suffix split grows.visited with inside | outside
  · exact here inside
  · rcases List.suffix_cons_iff.mp outside with same | later
    · exact here (same ▸ List.suffix_refl _)
    · exact h' v earlier split later back

end Names

theorem names_searchCycles (fuel : Nat) {path : List Nat} {here : Nat} {before : CycleSearch}
    (enough : here < edges.length → (unvisited edges before.visited).card < fuel) :
    Names edges root before (searchCycles edges root fuel path here before) := by
  induction fuel generalizing path here before with
  | zero => exact .of_visited rfl
  | succ fuel ih =>
    have follows : ∀ {search next}, (unvisited edges search.visited).card ≤ fuel →
        Names edges root search (follow edges root fuel path search next) := by
      intro search next room
      unfold follow
      split
      · exact Names.of_visited rfl
      · split
        · next fresh =>
          have new : next ∉ search.visited := by simpa using fresh.2
          have smaller : next < edges.length → (unvisited edges (next :: search.visited)).card < fuel :=
            fun inside => Nat.lt_of_lt_of_le (unvisited_cons inside new) room
          have visits := extends_searchCycles edges root fuel (next :: path) next
            { search with visited := next :: search.visited }
          intro v earlier split old back
          -- the number that was visited first in this part is the one that the way was carried on to
          have first (same : v :: earlier = next :: search.visited) :
              ∃ cycle ∈ (searchCycles edges root fuel (next :: path) next
                { search with visited := next :: search.visited }).cycles, v ∈ cycle := by
            obtain ⟨rfl, rfl⟩ := List.cons.inj same
            have more : (searchCycles edges root fuel (v :: path) v
                { search with visited := v :: search.visited }).cycles ≠ search.cycles :=
              LeadsBack.noted smaller back
            obtain ⟨cycle, noted, begin⟩ := (carriesOn_searchCycles fuel (v :: path) v _).exists_cycle more
            exact ⟨cycle, noted, begin.subset (List.mem_reverse.mpr List.mem_cons_self)⟩
          rcases List.suffix_or_suffix_of_suffix split visits.visited with inside | outside
          · exact first (inside.eq_of_length_le (Nat.succ_le_succ old.length_le))
          · rcases List.suffix_cons_iff.mp outside with same | later
            · exact first same.symm
            · exact ih smaller v earlier split later back
        · exact Names.of_visited rfl
    rw [searchCycles_succ]
    by_cases inside : here < edges.length
    · have room := Nat.le_of_lt_succ (enough inside)
      clear enough
      generalize edges[here]?.getD [] = nexts
      induction nexts generalizing before with
      | nil => exact .of_visited rfl
      | cons next nexts rest =>
        have first := extends_follow edges root fuel path before next
        have less := Nat.le_trans (unvisited_mono edges first.visited.subset) room
        exact (follows room).trans (rest less) (extends_foldl (extends_follow edges root fuel path) nexts _)
    · rw [List.getElem?_eq_none (Nat.not_lt.mp inside)]
      exact .of_visited rfl

/-! ### Whole searches -/

theorem discovered_searchFrom (edges : List (List Nat)) (root : Nat) :
    Discovered edges root (searchFrom edges root).visited :=
  discovered_searchCycles edges.length (List.mem_singleton_self root) .root

/-- A whole search visits all numbers on ways from its root through numbers above it. -/
theorem subset_visited {others : List Nat} (inside : root < edges.length)
    (chain : List.IsChain (Edge edges) (root :: others)) (above : ∀ i ∈ others, root < i) :
    others ⊆ (searchFrom edges root).visited := by
  obtain ⟨explored, closed⟩ := closes_searchCycles edges root edges.length [root] root ⟨[root], []⟩
    fun _ => unvisited_root inside
  have goes : ∀ {v next}, v ∈ (searchFrom edges root).visited → Edge edges v next → root < next →
      next ∈ (searchFrom edges root).visited := by
    intro v next member edge
    by_cases same : v = root
    · exact (closed next (same ▸ edge)).2
    · exact (explored v member (by simpa using same) next edge).2
  have start : root ∈ (searchFrom edges root).visited :=
    (extends_searchCycles edges root edges.length [root] root ⟨[root], []⟩).visited.subset List.mem_cons_self
  have along : ∀ {others here}, here ∈ (searchFrom edges root).visited → List.IsChain (Edge edges) (here :: others) →
      (∀ i ∈ others, root < i) → others ⊆ (searchFrom edges root).visited := by
    intro others
    induction others with
    | nil => exact fun _ _ _ => List.nil_subset _
    | cons next others ih =>
      intro here start chain above
      obtain ⟨edge, rest⟩ := List.isChain_cons_cons.mp chain
      obtain ⟨high, above⟩ := List.forall_mem_cons.mp above
      have member := goes start edge high
      exact List.cons_subset.mpr ⟨member, ih member rest above⟩
  exact along start chain above

theorem leadsBack_of_chain {avoided after : List Nat} {i : Nat}
    (chain : List.IsChain (Edge edges) (i :: (after ++ [root]))) (above : ∀ j ∈ after, root < j)
    (new : ∀ j ∈ after, j ∉ avoided) : LeadsBack edges root avoided i := by
  induction after generalizing i with
  | nil =>
    rw [List.nil_append, List.isChain_pair] at chain
    exact .close chain
  | cons next after ih =>
    obtain ⟨edge, rest⟩ := List.isChain_cons_cons.mp chain
    obtain ⟨high, above⟩ := List.forall_mem_cons.mp above
    obtain ⟨fresh, new⟩ := List.forall_mem_cons.mp new
    exact .step edge high fresh (ih rest above new)

/-- A number from which a way leads back through greater ones is the first of a circle that is found. -/
theorem LeadsBack.exists_cycle (back : LeadsBack edges root [root] root) (inside : root < edges.length) :
    ∃ cycle ∈ findCycles edges, cycle.head? = some root := by
  obtain ⟨cycle, noted, rest, rfl⟩ :=
    (carriesOn_searchCycles edges.length [root] root ⟨[root], []⟩).exists_cycle
      (back.noted fun _ => unvisited_root inside)
  exact ⟨_, mem_findCycles.mpr ⟨root, inside, noted⟩, rfl⟩

theorem SimpleCircle.lt {others : List Nat} (circle : SimpleCircle (Edge edges) root others) :
    root < edges.length := by
  obtain ⟨next, edge, -⟩ := TransGen.head'_iff.mp circle.transGen
  exact edge.lt

/-- The least number of a circle is the first of one that is found. -/
theorem SimpleCircle.exists_cycle {others : List Nat} (circle : SimpleCircle (Edge edges) root others) :
    ∃ cycle ∈ findCycles edges, cycle.head? = some root := by
  refine LeadsBack.exists_cycle (leadsBack_of_chain circle.chain circle.above fun j member => ?_) circle.lt
  exact fun same => Nat.ne_of_gt (circle.above j member) (List.mem_singleton.mp same)

/-- A number on a circle is on one that is found, if what follows it on the circle is reached from the root only
through it. -/
theorem exists_cycle_of_circle {before after : List Nat} {i : Nat}
    (circle : SimpleCircle (Edge edges) root (before ++ i :: after))
    (only : ∀ j ∈ after, ¬ ReflTransGen (fun a b => Edge edges a b ∧ root < b ∧ b ≠ i) root j) :
    ∃ cycle ∈ findCycles edges, i ∈ cycle := by
  have high : root < i := circle.above i (List.mem_append_right _ List.mem_cons_self)
  have above : ∀ j ∈ after, root < j := fun j member =>
    circle.above j (List.mem_append_right _ (List.mem_cons_of_mem _ member))
  have chain : List.IsChain (Edge edges) ((root :: before) ++ i :: (after ++ [root])) := by
    have whole := circle.chain
    rwa [List.append_assoc, List.cons_append] at whole
  have inside := circle.lt
  have visited : i ∈ (searchFrom edges root).visited := by
    have whole : List.IsChain (Edge edges) (root :: (before ++ i :: after) ++ [root]) := circle.chain
    exact subset_visited inside whole.left_of_append circle.above (List.mem_append_right _ List.mem_cons_self)
  obtain ⟨later, earlier, split⟩ := List.append_of_mem visited
  have split : i :: earlier <:+ (searchFrom edges root).visited := ⟨later, split.symm⟩
  obtain ⟨order, absent⟩ := (discovered_searchFrom edges root).before split high
  have old : [root] <:+ earlier := by
    have start := (extends_searchCycles edges root edges.length [root] root ⟨[root], []⟩).visited
    rcases List.suffix_or_suffix_of_suffix start split with before | after
    · rcases List.suffix_cons_iff.mp before with same | before
      · exact absurd (List.cons.inj same).1 (Nat.ne_of_lt high)
      · exact before
    · exact absurd (List.mem_singleton.mp (after.subset List.mem_cons_self)) (Nat.ne_of_gt high)
  have back : LeadsBack edges root (i :: earlier) i := by
    apply leadsBack_of_chain (List.IsChain.right_of_append chain) above
    intro j member
    rw [List.mem_cons, not_or]
    constructor
    · rintro rfl
      have distinct := (List.nodup_append.mp circle.nodup).2.1
      exact (List.nodup_cons.mp distinct).1 member
    · exact fun seen => only j member (order.reached absent seen)
  have names : Names edges root ⟨[root], []⟩ (searchFrom edges root) :=
    names_searchCycles edges.length fun _ => unvisited_root inside
  obtain ⟨cycle, noted, member⟩ := names i earlier split old back
  exact ⟨cycle, mem_findCycles.mpr ⟨root, inside, noted⟩, member⟩

/-- Every number that leads back to itself is on a circle with one that is found. -/
theorem exists_cycle_beside {i : Nat} (circle : TransGen (Edge edges) i i) : ∃ cycle ∈ findCycles edges, ∃ j ∈ cycle,
    ReflTransGen (Edge edges) i j ∧ ReflTransGen (Edge edges) j i := by
  classical
  -- the least of the numbers that lead to this one and back
  have some : ∃ j, ReflTransGen (Edge edges) i j ∧ ReflTransGen (Edge edges) j i := ⟨i, .refl, .refl⟩
  obtain ⟨root, ⟨there, back⟩, least⟩ : ∃ root, (ReflTransGen (Edge edges) i root ∧ ReflTransGen (Edge edges) root i) ∧
      ∀ u, ReflTransGen (Edge edges) i u ∧ ReflTransGen (Edge edges) u i → root ≤ u :=
    ⟨Nat.find some, Nat.find_spec some, fun u => Nat.find_min' some⟩
  have around : TransGen (Edge edges) root root := (TransGen.trans_right back circle).trans_left there
  have inside : root < edges.length := by
    obtain ⟨next, edge, -⟩ := TransGen.head'_iff.mp around
    exact edge.lt
  have leads := leadsBack_of_least around fun u reached way =>
    least u ⟨there.trans reached, way.to_reflTransGen.trans back⟩
  obtain ⟨cycle, found, first⟩ := leads.exists_cycle inside
  exact ⟨cycle, found, root, List.mem_of_mem_head? first, there, back⟩

/-! ### Reports -/

namespace Program

variable {p : Program}

/-- A slot leads to another one, both given by their numbers, through slots above a root and past some slot. -/
def Bypasses (p : Program) (root past j : Nat) : Prop :=
  ReflTransGen (fun a b => p.LeadsTo a b ∧ root < b ∧ b ≠ past) root j

theorem edge_eq_leadsTo {g : Grammar} (made : ofGrammar g = .ok p) : Edge p.startEdges = p.LeadsTo := by
  funext i j
  exact propext (edge_iff_leadsTo (inOrder_ofGrammar made))

/-- **What a report of circles covers.**  The report of a compiled program has one entry for each circle that is found,
spelling the slots along it.  The least slot of every circle starts one that is found, so whichever slot leads back to
itself, a found circle passes through a slot that it leads to and that leads back to it.  A found circle passes through
the slot itself if what follows it on some circle, from the least slot on, can be reached from there only through it. -/
theorem cycleViolations_cover {g : Grammar} (made : ofGrammar g = .ok p) :
    p.cycleViolations = (findCycles p.startEdges).map (fun route =>
        { kind := .possibleCycleDetected, message := "possible cycle detected: " ++ p.route route }) ∧
      (∀ root others, SimpleCircle p.LeadsTo root others →
        ∃ route ∈ findCycles p.startEdges, route.head? = some root) ∧
      (∀ i, TransGen p.LeadsTo i i → ∃ route ∈ findCycles p.startEdges, ∃ j ∈ route,
        ReflTransGen p.LeadsTo i j ∧ ReflTransGen p.LeadsTo j i) ∧
      ∀ root before i after, SimpleCircle p.LeadsTo root (before ++ i :: after) →
        (∀ j ∈ after, ¬ p.Bypasses root i j) → ∃ route ∈ findCycles p.startEdges, i ∈ route := by
  simp only [Bypasses, ← edge_eq_leadsTo made]
  exact ⟨rfl, fun _ _ circle => circle.exists_cycle, fun _ circle => exists_cycle_beside circle,
    fun _ _ _ _ circle only => exists_cycle_of_circle circle only⟩

/-- An assignment begins with a binding or a call, both of which begin with a path, which begins with an assignment. -/
def sharedPaths : Grammar :=
  ⟨[("assignment", .choice [.rule "binding", .rule "call"]), ("binding", .rule "path"), ("call", .rule "path"),
    ("path", .seq [.rule "assignment", .literal "."])]⟩

theorem edges_sharedPaths : ∃ p, ofGrammar sharedPaths = .ok p ∧
    p.slots.map (·.2) = ["assignment", "binding", "call", "path"] ∧ p.startEdges = [[1, 2], [3], [3], [0]] := by
  have runs : (ofGrammar sharedPaths).toOption.map (fun p => (p.slots.map (·.2), p.startEdges))
      = some (["assignment", "binding", "call", "path"], [[1, 2], [3], [3], [0]]) := by decide +kernel
  cases made : ofGrammar sharedPaths with
  | error e =>
    rw [made] at runs
    cases runs
  | ok p =>
    rw [made] at runs
    exact ⟨p, rfl, Prod.mk.inj (Option.some.inj runs)⟩

/-- A call leads to a path, which leads to an assignment, which leads to a call. -/
theorem transGen_call : TransGen (Edge [[1, 2], [3], [3], [0]]) 2 2 :=
  .head (b := 3) (by decide) (.head (b := 0) (by decide) (.single (by decide)))

/-- The path is named, and so is some slot on a circle with the call. -/
theorem cycleViolations_cover_sharedPaths : ∃ p, ofGrammar sharedPaths = .ok p ∧
    SimpleCircle p.LeadsTo 0 ([1] ++ 3 :: []) ∧ TransGen p.LeadsTo 2 2 ∧
    (∃ route ∈ findCycles p.startEdges, 3 ∈ route) ∧
    ∃ route ∈ findCycles p.startEdges, ∃ j ∈ route, ReflTransGen p.LeadsTo 2 j ∧ ReflTransGen p.LeadsTo j 2 := by
  obtain ⟨p, made, -, edges⟩ := edges_sharedPaths
  have same := edge_eq_leadsTo made
  have circle : SimpleCircle p.LeadsTo 0 ([1] ++ 3 :: []) := by
    rw [← same, edges]
    exact ⟨by decide, by decide, by decide⟩
  have call : TransGen p.LeadsTo 2 2 := by
    rw [← same, edges]
    exact transGen_call
  obtain ⟨-, -, beside, through⟩ := cycleViolations_cover made
  exact ⟨p, made, circle, call, through 0 [1] 3 [] circle nofun, beside 2 call⟩

/-- **Not every slot on a circle is named.**  The call leads back to itself, but the path that it leads to has been
visited by way of the binding, so no circle through the call is found. -/
theorem cycleViolations_sharedPaths : ∃ p, ofGrammar sharedPaths = .ok p ∧
    p.slots[2]?.map (·.2) = some "call" ∧ TransGen p.LeadsTo 2 2 ∧
    (¬ ∃ route ∈ findCycles p.startEdges, 2 ∈ route) ∧
    p.cycleViolations.map (·.message)
      = ["possible cycle detected: assignment > binding > path > assignment"] := by
  obtain ⟨p, made, names, edges⟩ := edges_sharedPaths
  have found : findCycles p.startEdges = [[0, 1, 3, 0]] := by
    rw [edges]
    decide
  have name (i : Nat) : p.slots[i]?.map (·.2) = ["assignment", "binding", "call", "path"][i]? := by
    rw [← List.getElem?_map, names]
  refine ⟨p, made, name 2, ?_, ?_, ?_⟩
  · rw [← edge_eq_leadsTo made, edges]
    exact transGen_call
  · rw [found]
    decide
  · rw [cycleViolations, found, List.map_singleton, List.map_singleton, route]
    simp only [name]
    rfl

end Program
end GrammarKit
