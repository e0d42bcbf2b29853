/-
Module: GrammarKit.Proofs.CycleSearch
Purpose: The search for circles finds one if there is one: it notes a circle wherever a way leads back to its root
  through numbers that it has not visited before.  Where it finds none, the edges lead down a ranking: each number can
  be given a rank above those of the numbers that it leads to.
Main exports: Edge, LeadsBack, LeadsBack.noted, not_transGen_of_findCycles, exists_rank
-/
import Mathlib.Data.Finset.Card
import Mathlib.Data.Nat.Find
import Mathlib.Logic.Relation
import GrammarKit.Validation.Cycles

namespace GrammarKit

open Relation

/-- One number leads to another. -/
def Edge (edges : List (List Nat)) (a b : Nat) : Prop :=
  b ∈ edges[a]?.getD []

instance (edges : List (List Nat)) (a b : Nat) : Decidable (Edge edges a b) :=
  inferInstanceAs (Decidable (b ∈ edges[a]?.getD []))

theorem Edge.lt {edges : List (List Nat)} {a b : Nat} (h : Edge edges a b) : a < edges.length := by
  by_contra beyond
  rw [Edge, List.getElem?_eq_none (Nat.not_lt.mp beyond)] at h
  cases h

/-- The numbers that a search has not visited. -/
def unvisited (edges : List (List Nat)) (visited : List Nat) : Finset Nat :=
  (Finset.range edges.length).filter (· ∉ visited)

theorem unvisited_mono (edges : List (List Nat)) {visited larger : List Nat} (h : visited ⊆ larger) :
    (unvisited edges larger).card ≤ (unvisited edges visited).card := by
  refine Finset.card_le_card fun v member => ?_
  rw [unvisited, Finset.mem_filter] at member ⊢
  exact ⟨member.1, fun seen => member.2 (h seen)⟩

theorem unvisited_cons {edges : List (List Nat)} {visited : List Nat} {v : Nat}
    (inside : v < edges.length) (new : v ∉ visited) :
    (unvisited edges (v :: visited)).card < (unvisited edges visited).card := by
  refine Finset.card_lt_card ⟨fun w member => ?_, fun subset => ?_⟩
  · rw [unvisited, Finset.mem_filter] at member ⊢
    exact ⟨member.1, fun seen => member.2 (List.mem_cons_of_mem _ seen)⟩
  · have member : v ∈ unvisited edges visited := by
      rw [unvisited, Finset.mem_filter, Finset.mem_range]
      exact ⟨inside, new⟩
    have := subset member
    rw [unvisited, Finset.mem_filter] at this
    exact this.2 List.mem_cons_self

/-! ### Steps of a search -/

/-- What a search does with an edge. -/
def follow (edges : List (List Nat)) (root fuel : Nat) (path : List Nat) (search : CycleSearch)
    (next : Nat) : CycleSearch :=
  if next = root then { search with cycles := search.cycles ++ [(root :: path).reverse] }
  else if next > root ∧ ¬ search.visited.contains next then
    searchCycles edges root fuel (next :: path) next { search with visited := next :: search.visited }
  else search

theorem searchCycles_succ (edges : List (List Nat)) (root fuel : Nat) (path : List Nat) (here : Nat)
    (search : CycleSearch) :
    searchCycles edges root (fuel + 1) path here search
      = (edges[here]?.getD []).foldl (follow edges root fuel path) search := rfl

/-- A search forgets nothing: it visits further numbers and notes further circles. -/
structure Extends (before after : CycleSearch) : Prop where
  visited : before.visited <:+ after.visited
  cycles : before.cycles <+: after.cycles

theorem Extends.refl (search : CycleSearch) : Extends search search :=
  ⟨List.suffix_refl _, List.prefix_refl _⟩

theorem Extends.trans {before between after : CycleSearch} (h : Extends before between)
    (h' : Extends between after) : Extends before after :=
  ⟨h.visited.trans h'.visited, h.cycles.trans h'.cycles⟩

/-- If nothing is noted in two parts of a search together, nothing is noted in either. -/
theorem Extends.quiet {before between after : CycleSearch} (h : Extends before between)
    (h' : Extends between after) (same : after.cycles = before.cycles) :
    between.cycles = before.cycles ∧ after.cycles = between.cycles := by
  have first : between.cycles = before.cycles :=
    (h.cycles.eq_of_length_le (same ▸ h'.cycles.length_le)).symm
  exact ⟨first, same.trans first.symm⟩

theorem extends_foldl {f : CycleSearch → Nat → CycleSearch} (step : ∀ search next, Extends search (f search next))
    (nexts : List Nat) (search : CycleSearch) : Extends search (nexts.foldl f search) := by
  induction nexts generalizing search with
  | nil => exact .refl search
  | cons next nexts ih => exact (step search next).trans (ih _)

/-- A search that visits a number and nothing else. -/
theorem extends_visit (search : CycleSearch) (next : Nat) :
    Extends search { search with visited := next :: search.visited } :=
  ⟨List.suffix_cons _ _, List.prefix_refl _⟩

theorem extends_note (search : CycleSearch) (cycle : List Nat) :
    Extends search { search with cycles := search.cycles ++ [cycle] } :=
  ⟨List.suffix_refl _, List.prefix_append _ _⟩

theorem extends_searchCycles (edges : List (List Nat)) (root fuel : Nat) (path : List Nat) (here : Nat)
    (search : CycleSearch) : Extends search (searchCycles edges root fuel path here search) := by
  induction fuel generalizing path here search with
  | zero => exact .refl search
  | succ fuel ih =>
    rw [searchCycles_succ]
    refine extends_foldl (fun search next => ?_) _ search
    unfold follow
    split
    · exact extends_note search _
    · split
      · exact (extends_visit search next).trans (ih _ _ _)
      · exact .refl search

theorem extends_follow (edges : List (List Nat)) (root fuel : Nat) (path : List Nat)
    (search : CycleSearch) (next : Nat) : Extends search (follow edges root fuel path search next) := by
  unfold follow
  split
  · exact extends_note search _
  · split
    · exact (extends_visit search next).trans (extends_searchCycles _ _ _ _ _ _)
    · exact .refl search

/-! ### What a search has seen -/

/-- A part of a search has seen all that a number leads to: what is above the root is visited, and if the root is
among it, a circle has been noted. -/
def Closed (edges : List (List Nat)) (root : Nat) (before after : CycleSearch) (v : Nat) : Prop :=
  ∀ next, Edge edges v next → (next = root → after.cycles ≠ before.cycles) ∧ (root < next → next ∈ after.visited)

/-- Whatever a part of a search has newly visited is closed. -/
def Explored (edges : List (List Nat)) (root : Nat) (before after : CycleSearch) : Prop :=
  ∀ v ∈ after.visited, v ∉ before.visited → Closed edges root before after v

section Parts

variable {edges : List (List Nat)} {root v : Nat} {before between after : CycleSearch}

theorem Closed.later (h : Closed edges root before between v) (first : Extends before between)
    (second : Extends between after) : Closed edges root before after v := by
  intro next edge
  obtain ⟨noted, seen⟩ := h next edge
  exact ⟨fun back same => noted back (first.quiet second same).1, fun above => second.visited.subset (seen above)⟩

theorem Closed.earlier (h : Closed edges root between after v) (first : Extends before between)
    (second : Extends between after) : Closed edges root before after v := by
  intro next edge
  obtain ⟨noted, seen⟩ := h next edge
  exact ⟨fun back same => noted back (first.quiet second same).2, seen⟩

theorem Explored.refl (edges : List (List Nat)) (root : Nat) (search : CycleSearch) :
    Explored edges root search search :=
  fun _ member new => absurd member new

theorem Explored.trans (h : Explored edges root before between) (h' : Explored edges root between after)
    (first : Extends before between) (second : Extends between after) : Explored edges root before after := by
  intro v member new
  by_cases seen : v ∈ between.visited
  · exact (h v seen new).later first second
  · exact (h' v member seen).earlier first second

end Parts

/-- Searches with some fuel close what they visit, the number that they start from included. -/
def Closes (edges : List (List Nat)) (root fuel : Nat) : Prop :=
  ∀ path here before, (here < edges.length → (unvisited edges before.visited).card < fuel) →
    Explored edges root before (searchCycles edges root fuel path here before) ∧
      Closed edges root before (searchCycles edges root fuel path here before) here

theorem follow_explored {edges : List (List Nat)} {root fuel : Nat} (closes : Closes edges root fuel)
    (path : List Nat) (next : Nat) {before : CycleSearch} (enough : (unvisited edges before.visited).card ≤ fuel) :
    Explored edges root before (follow edges root fuel path before next) ∧
      (next = root → (follow edges root fuel path before next).cycles ≠ before.cycles) ∧
      (root < next → next ∈ (follow edges root fuel path before next).visited) := by
  unfold follow
  split
  · next back =>
    refine ⟨fun v member new => absurd member new, fun _ => by simp, fun above => ?_⟩
    exact absurd back (Nat.ne_of_gt above)
  · next other =>
    split
    · next fresh =>
      have new : next ∉ before.visited := by simpa using fresh.2
      have smaller : next < edges.length → (unvisited edges (next :: before.visited)).card < fuel :=
        fun inside => Nat.lt_of_lt_of_le (unvisited_cons inside new) enough
      obtain ⟨explored, closed⟩ := closes (next :: path) next
        { before with visited := next :: before.visited } smaller
      have grows := extends_searchCycles edges root fuel (next :: path) next
        { before with visited := next :: before.visited }
      refine ⟨fun v member old => ?_, fun back => absurd back other,
        fun _ => grows.visited.subset List.mem_cons_self⟩
      have visits := extends_visit before next
      by_cases same : v = next
      · rw [same]
        exact closed.earlier visits grows
      · exact (explored v member fun seen => old ((List.mem_cons.mp seen).resolve_left same)).earlier visits grows
    · next old =>
      refine ⟨.refl edges root before, fun back => absurd back other, fun above => ?_⟩
      by_contra new
      exact old ⟨above, by simpa using new⟩

theorem foldl_explored {edges : List (List Nat)} {root fuel : Nat} (closes : Closes edges root fuel)
    {path : List Nat} (nexts : List Nat) {before : CycleSearch}
    (enough : (unvisited edges before.visited).card ≤ fuel) :
    Explored edges root before (nexts.foldl (follow edges root fuel path) before) ∧
      ∀ next ∈ nexts, (next = root → (nexts.foldl (follow edges root fuel path) before).cycles ≠ before.cycles) ∧
        (root < next → next ∈ (nexts.foldl (follow edges root fuel path) before).visited) := by
  induction nexts generalizing before with
  | nil => exact ⟨.refl edges root before, nofun⟩
  | cons next nexts ih =>
    rw [List.foldl_cons]
    have first := extends_follow edges root fuel path before next
    have others := extends_foldl (extends_follow edges root fuel path) nexts
      (follow edges root fuel path before next)
    obtain ⟨explored, noted, seen⟩ := follow_explored closes path next enough
    obtain ⟨explored', seen'⟩ := ih (Nat.le_trans (unvisited_mono edges first.visited.subset) enough)
    refine ⟨explored.trans explored' first others, fun next' member => ?_⟩
    rcases List.mem_cons.mp member with rfl | member
    · exact ⟨fun back same => noted back (first.quiet others same).1,
        fun above => others.visited.subset (seen above)⟩
    · exact ⟨fun back same => (seen' next' member).1 back (first.quiet others same).2, (seen' next' member).2⟩

theorem closes_searchCycles (edges : List (List Nat)) (root fuel : Nat) : Closes edges root fuel := by
  induction fuel with
  | zero =>
    intro path here before enough
    exact ⟨.refl edges root before, fun next edge => absurd (enough edge.lt) (Nat.not_lt_zero _)⟩
  | succ fuel ih =>
    intro path here before enough
    by_cases inside : here < edges.length
    · exact foldl_explored ih _ (Nat.le_of_lt_succ (enough inside))
    · have noEdges : edges[here]?.getD [] = [] := by
        rw [List.getElem?_eq_none (Nat.not_lt.mp inside)]
        rfl
      rw [searchCycles_succ, noEdges]
      exact ⟨.refl edges root before, fun next edge => absurd edge.lt inside⟩

/-! ### Ways back to the root -/

/-- A way along edges leads back to the root, through numbers above it that are not among some. -/
inductive LeadsBack (edges : List (List Nat)) (root : Nat) (avoided : List Nat) : Nat → Prop
  | close {v : Nat} (edge : Edge edges v root) : LeadsBack edges root avoided v
  | step {v next : Nat} (edge : Edge edges v next) (above : root < next) (new : next ∉ avoided)
      (rest : LeadsBack edges root avoided next) : LeadsBack edges root avoided v

/-- A search notes a circle if a way leads from where it starts back to its root, through numbers that it has not
visited. -/
theorem LeadsBack.noted {edges : List (List Nat)} {root fuel here : Nat} {path : List Nat} {before : CycleSearch}
    (enough : here < edges.length → (unvisited edges before.visited).card < fuel)
    (back : LeadsBack edges root before.visited here) :
    (searchCycles edges root fuel path here before).cycles ≠ before.cycles := by
  obtain ⟨explored, closed⟩ := closes_searchCycles edges root fuel path here before enough
  clear enough
  generalize searchCycles edges root fuel path here before = after at *
  induction back with
  | close edge => exact (closed root edge).1 rfl
  | @step v next edge above new _ ih => exact ih (explored next ((closed next edge).2 above) new)

/-- The least number on the circles through it leads back to itself. -/
theorem leadsBack_of_least {edges : List (List Nat)} {root : Nat} (circle : TransGen (Edge edges) root root)
    (least : ∀ u, ReflTransGen (Edge edges) root u → TransGen (Edge edges) u root → root ≤ u) :
    LeadsBack edges root [root] root := by
  have back : ∀ {u}, TransGen (Edge edges) u root → ReflTransGen (Edge edges) root u →
      LeadsBack edges root [root] u := by
    intro u way
    induction way using TransGen.head_induction_on with
    | single edge => exact fun _ => .close edge
    | @head u next edge rest ih =>
      intro reached
      have reached := reached.tail edge
      by_cases same : next = root
      · exact .close (same ▸ edge)
      · have above : root < next := Nat.lt_of_le_of_ne (least next reached rest) (Ne.symm same)
        exact .step edge above (by simpa using same) (ih reached)
  exact back circle .refl

/-! ### Whole searches -/

/-- The whole search for circles through a number. -/
def searchFrom (edges : List (List Nat)) (root : Nat) : CycleSearch :=
  searchCycles edges root edges.length [root] root ⟨[root], []⟩

theorem mem_findCycles {edges : List (List Nat)} {cycle : List Nat} :
    cycle ∈ findCycles edges ↔ ∃ root < edges.length, cycle ∈ (searchFrom edges root).cycles := by
  rw [findCycles, List.mem_flatMap]
  simp only [List.mem_range]
  rfl

/-- A whole search has room for all numbers. -/
theorem unvisited_root {edges : List (List Nat)} {root : Nat} (inside : root < edges.length) :
    (unvisited edges [root]).card < edges.length := by
  have fewer := unvisited_cons inside (List.not_mem_nil (a := root))
  have whole : (unvisited edges []).card = edges.length := by simp [unvisited]
  exact whole ▸ fewer

/-! ### Rankings -/

/-- If no circle is found, no number leads back to itself. -/
theorem not_transGen_of_findCycles {edges : List (List Nat)} (none : findCycles edges = []) (v : Nat) :
    ¬ TransGen (Edge edges) v v := by
  intro circle
  -- the search from the least number on any circle would have found one
  classical
  have some : ∃ v, TransGen (Edge edges) v v := ⟨v, circle⟩
  obtain ⟨root, circle, least⟩ : ∃ root, TransGen (Edge edges) root root ∧
      ∀ u, TransGen (Edge edges) u u → root ≤ u :=
    ⟨Nat.find some, Nat.find_spec some, fun u => Nat.find_min' some⟩
  have inside : root < edges.length := by
    obtain ⟨next, edge, -⟩ := TransGen.head'_iff.mp circle
    exact edge.lt
  have back := leadsBack_of_least circle fun u reached way => least u (way.trans_left reached)
  have noted : (searchFrom edges root).cycles ≠ [] := back.noted fun _ => unvisited_root inside
  obtain ⟨cycle, found⟩ := List.exists_mem_of_ne_nil _ noted
  have found := mem_findCycles.mpr ⟨root, inside, found⟩
  rw [none] at found
  cases found

/-- Edges without circles lead down a ranking. -/
theorem exists_rank {edges : List (List Nat)} (acyclic : ∀ v, ¬ TransGen (Edge edges) v v)
    (inside : ∀ {a b}, Edge edges a b → b < edges.length) :
    ∃ rank : Nat → Nat, (∀ v < edges.length, rank v < edges.length) ∧
      ∀ {a b}, Edge edges a b → rank b < rank a := by
  classical
  let below (v : Nat) : Finset Nat := (Finset.range edges.length).filter (TransGen (Edge edges) v)
  refine ⟨fun v => (below v).card, fun v bound => ?_, fun {a b} edge => ?_⟩
  · have proper : below v ⊂ Finset.range edges.length := by
      rw [Finset.filter_ssubset]
      exact ⟨v, Finset.mem_range.mpr bound, acyclic v⟩
    simpa using Finset.card_lt_card proper
  · refine Finset.card_lt_card ⟨fun w member => ?_, fun subset => ?_⟩
    · obtain ⟨bound, reached⟩ := Finset.mem_filter.mp member
      exact Finset.mem_filter.mpr ⟨bound, .head edge reached⟩
    · have member : b ∈ below a :=
        Finset.mem_filter.mpr ⟨Finset.mem_range.mpr (inside edge), .single edge⟩
      exact acyclic b (Finset.mem_filter.mp (subset member)).2

end GrammarKit
