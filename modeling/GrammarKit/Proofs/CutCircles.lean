/-
Module: GrammarKit.Proofs.CutCircles
Purpose: Compiling a grammar side by side with the same grammar to which cutpoints have been added.  The slots get the
  same names in the same order, and the parsers differ by cutpoints only, so both programs have the same circles.
Main exports: Term.AddsCuts, Program.Parallel, Program.build_parallel, Program.sideBySide_ofGrammar
-/
import GrammarKit.Proofs.CircleTwins
import GrammarKit.Proofs.RuleSlots
import GrammarKit.Proofs.TokenGrammars

namespace GrammarKit

open Table (EntriesPaired)

namespace Term

/-- A function that may put a cutpoint around a term, and take away a second one. -/
structure AddsCuts (f : Term → Term) : Prop where
  keeps : KeepsFeatures f
  moves : ∀ t, f t = t ∨ f t = cut t ∨ ∃ inner, t = cut (cut inner) ∧ f t = cut inner

theorem addsCuts_id : AddsCuts id where
  keeps := ⟨fun _ => rfl, fun _ => rfl⟩
  moves _ := .inl rfl

theorem addsCuts_cutLiteral (unique : List String) : AddsCuts (cutLiteral unique) where
  keeps := keepsFeatures_cutLiteral unique
  moves t := by
    unfold cutLiteral
    split
    · split
      · exact .inr (.inl rfl)
      · exact .inl rfl
    · exact .inr (.inr ⟨_, rfl, rfl⟩)
    · exact .inl rfl

mutual
theorem transform_id : ∀ t : Term, t.transform id = t
  | rule _ => rfl
  | literal _ => rfl
  | regex _ => rfl
  | seq ts => congrArg seq (transformAll_id ts)
  | choice ts => congrArg choice (transformAll_id ts)
  | stack ts => congrArg stack (transformAll_id ts)
  | list element separator style => congrArg₂ (list · · style) (transform_id element) (transform_id separator)
  | quant t min max => congrArg (quant · min max) (transform_id t)
  | capture name t => congrArg (capture name) (transform_id t)
  | backref _ none => rfl
  | backref name (some t) => congrArg (backref name <| some ·) (transform_id t)
  | cut t => congrArg cut (transform_id t)
  | withRules t ⟨entries⟩ => congrArg₂ (withRules · ⟨·⟩) (transform_id t) (transformEntries_id entries)

theorem transformAll_id : ∀ ts : List Term, transformAll id ts = ts
  | [] => rfl
  | t :: ts => congrArg₂ List.cons (transform_id t) (transformAll_id ts)

theorem transformEntries_id : ∀ entries : List (String × Term), transformEntries id entries = entries
  | [] => rfl
  | (name, t) :: entries =>
    congrArg₂ (fun t entries => (name, t) :: entries) (transform_id t) (transformEntries_id entries)
end

/-- A rule, and the same rule with cutpoints added. -/
def WithCuts (_ : String) (t u : Term) : Prop :=
  ∃ f, AddsCuts f ∧ u = t.transform f

theorem withCuts_transformEntries {f : Term → Term} (adds : AddsCuts f) :
    ∀ entries : List (String × Term), EntriesPaired WithCuts entries (transformEntries f entries)
  | [] => .nil
  | (_, _) :: entries => .cons ⟨rfl, f, adds, rfl⟩ (withCuts_transformEntries adds entries)

theorem featuresEntries_withCuts {entries entries' : List (String × Term)}
    (paired : EntriesPaired WithCuts entries entries') : featuresEntries entries' = featuresEntries entries := by
  induction paired with
  | nil => rfl
  | @cons a b _ _ first _ ih =>
    obtain ⟨_, t⟩ := a
    obtain ⟨name, u⟩ := b
    obtain ⟨rfl, f, adds, same⟩ := first
    obtain rfl : u = t.transform f := same
    rw [featuresEntries, featuresEntries, features_transform adds.keeps, isStack_transform adds.keeps, ih]

end Term

namespace Program

/-! ### Drafts side by side -/

/-- Two drafts with slots of the same names in the same order. -/
def SameSlots (d d' : Draft) : Prop :=
  d'.slots.map (·.2) = d.slots.map (·.2)

/-- The same names, which lead to slots with one number. -/
def NameTwins (d d' : Draft) (names names' : Names) : Prop :=
  EntriesPaired (fun _ => SlotTwins d d') names names'

/-- What compiling two parts side by side does to two drafts: the same slots are added, and these call twins. -/
structure Parallel (d d' later later' : Draft) : Prop where
  settles : d.Settles later
  settles' : d'.Settles later'
  same : SameSlots later later'
  served : ∀ i, d.slots.length ≤ i → i < later.slots.length → Served later later' i

section Parallel

variable {d d' mid mid' later later' : Draft}

theorem SameSlots.length (same : SameSlots d d') : d'.slots.length = d.slots.length := by
  have lengths := congrArg List.length same
  rwa [List.length_map, List.length_map] at lengths

theorem SameSlots.concat (same : SameSlots d d') (name : String) {parsers parsers' : Array Parser}
    {slot slot' : ParserId} :
    SameSlots ⟨parsers, d.slots ++ [(slot, name)]⟩ ⟨parsers', d'.slots ++ [(slot', name)]⟩ := by
  have same : d'.slots.map (·.2) = d.slots.map (·.2) := same
  simp only [SameSlots, List.map_append, same, List.map_cons, List.map_nil]

theorem NameTwins.mono {names names' : Names} (twins : NameTwins d d' names names') (settles : d.Settles later)
    (settles' : d'.Settles later') : NameTwins later later' names names' :=
  EntriesPaired.mono twins (SlotTwins.mono settles settles')

theorem Served.mono {i : Nat} (served : Served d d' i) (settles : d.Settles later) (settles' : d'.Settles later') :
    Served later later' i := by
  obtain ⟨slot, slot', name, body, body', listed, listed', called, called', twins⟩ := served
  exact ⟨slot, slot', name, body, body', settles.getElem?_slots listed, settles'.getElem?_slots listed',
    settles.call called, settles'.call called', twins.mono settles settles'⟩

namespace Parallel

theorem refl (same : SameSlots d d') : Parallel d d' d d' :=
  ⟨.refl d, .refl d', same, fun _ above below => absurd below (Nat.not_lt.mpr above)⟩

theorem trans (h : Parallel d d' mid mid') (h' : Parallel mid mid' later later') : Parallel d d' later later' where
  settles := h.settles.trans h'.settles
  settles' := h.settles'.trans h'.settles'
  same := h'.same
  served i above below := by
    by_cases inside : i < mid.slots.length
    · exact (h.served i above inside).mono h'.settles h'.settles'
    · exact h'.served i (Nat.not_lt.mp inside) below

/-- Settling parsers without new slots. -/
theorem settle (h : Parallel d d' mid mid') (settles : mid.Settles later) (settles' : mid'.Settles later')
    (slots : later.slots = mid.slots) (slots' : later'.slots = mid'.slots) : Parallel d d' later later' := by
  have same : SameSlots later later' := by
    rw [SameSlots, slots, slots']
    exact h.same
  refine h.trans ⟨settles, settles', same, fun _ above below => ?_⟩
  rw [slots] at below
  exact absurd below (Nat.not_lt.mpr above)

end Parallel

/-! ### Names -/

/-- The slots that a table gets are those that its names lead to. -/
theorem Registered.lookup_slot {names names' locals : Names} {entries : List (String × Term)}
    (r : Registered d names entries names' later locals) (nodup : (entries.map (·.1)).Nodup) {i : Nat}
    (new : d.slots.length ≤ i) {slot : ParserId} {name : String} (here : later.slots[i]? = some (slot, name)) :
    Table.lookup name names' = some slot ∧ name ∈ entries.map (·.1) ∧ name ≠ paddingRule := by
  rw [r.slots, List.getElem?_append_right new] at here
  obtain ⟨entry, member, same⟩ := List.mem_map.mp (List.mem_reverse.mp (List.mem_of_getElem? here))
  obtain ⟨rfl, rfl⟩ := Prod.mk.inj same
  refine ⟨r.lookup_local nodup member, ?_⟩
  have named := List.mem_map_of_mem (f := (·.1)) member
  rw [r.order, List.mem_reverse, List.mem_filter] at named
  simpa using named

/-- Tables with rules of the same names get slots side by side. -/
theorem register_twins {names names' : Names} {entries entries' : List (String × Term)} {opened opened' : Names}
    (registered : d.register names entries = (opened, later))
    (registered' : d'.register names' entries' = (opened', later'))
    (sameNames : entries'.map (·.1) = entries.map (·.1)) (same : SameSlots d d') (twins : NameTwins d d' names names') :
    SameSlots later later' ∧ NameTwins later later' opened opened' := by
  induction entries generalizing d d' names names' entries' with
  | nil =>
    obtain rfl := List.map_eq_nil_iff.mp sameNames
    cases registered
    cases registered'
    exact ⟨same, twins⟩
  | cons entry entries ih =>
    obtain ⟨name, t⟩ := entry
    obtain ⟨⟨other, u⟩, entries', rfl, sameName, rest⟩ := List.map_eq_cons_iff.mp sameNames
    obtain rfl : other = name := sameName
    simp only [Draft.register] at registered registered'
    split at registered
    · next padding =>
      rw [if_pos padding] at registered'
      exact ih registered registered' rest same twins
    · next rule =>
      rw [if_neg rule] at registered'
      refine ih registered registered' rest ?_ ?_
      · exact same.concat other
      · have settles : d.Settles
            { (d.push none (.pending other)).2 with slots := d.slots ++ [(d.parsers.size, other)] } :=
          ⟨(d.grows_push _ _).size, (d.grows_push _ _).settles.parsers, _, rfl⟩
        have settles' : d'.Settles
            { (d'.push none (.pending other)).2 with slots := d'.slots ++ [(d'.parsers.size, other)] } :=
          ⟨(d'.grows_push _ _).size, (d'.grows_push _ _).settles.parsers, _, rfl⟩
        refine .cons ⟨rfl, d.slots.length, other, ?_, ?_⟩ (twins.mono settles settles')
        · exact List.getElem?_concat_length
        · exact same.length ▸ List.getElem?_concat_length

end Parallel

section Register

variable {d d' mid mid' later later' : Draft} {names names' opened opened' : Names}

/-- A name leads to slots that call twins. -/
def LeadsToTwins (d d' : Draft) (names names' : Names) (name : String) : Prop :=
  ∃ slot slot' body body', Table.lookup name names = some slot ∧ Table.lookup name names' = some slot' ∧
    d.parsers[slot]? = some ⟨none, .call body⟩ ∧ d'.parsers[slot']? = some ⟨none, .call body'⟩ ∧
    HeadTwins d d' [body] [body']

theorem LeadsToTwins.mono {name : String} (leads : LeadsToTwins d d' names names' name) (settles : d.Settles later)
    (settles' : d'.Settles later') : LeadsToTwins later later' names names' name := by
  obtain ⟨slot, slot', body, body', found, found', called, called', twins⟩ := leads
  exact ⟨slot, slot', body, body', found, found', settles.call called, settles'.call called',
    twins.mono settles settles'⟩

/-- Once their bodies are made, the slots that were registered side by side call twins. -/
theorem Parallel.register {entries entries' : List (String × Term)} {locals locals' : Names}
    (r : Registered d names entries opened mid locals) (r' : Registered d' names' entries' opened' mid' locals')
    (nodup : (entries.map (·.1)).Nodup) (nodup' : (entries'.map (·.1)).Nodup) (same : SameSlots d d')
    (same₁ : SameSlots mid mid') (h : Parallel mid mid' later later')
    (calls : ∀ name ∈ entries.map (·.1), name ≠ paddingRule → LeadsToTwins later later' opened opened' name) :
    Parallel d d' later later' := by
  refine ⟨r.grows.settles.trans h.settles, r'.grows.settles.trans h.settles', h.same, fun i above below => ?_⟩
  by_cases own : i < mid.slots.length
  · have own' : i < mid'.slots.length := same₁.length ▸ own
    obtain ⟨⟨slot, name⟩, here⟩ : ∃ listed, mid.slots[i]? = some listed := ⟨_, List.getElem?_eq_getElem own⟩
    obtain ⟨⟨slot', name'⟩, here'⟩ : ∃ listed, mid'.slots[i]? = some listed := ⟨_, List.getElem?_eq_getElem own'⟩
    have sameName := congrArg (·[i]?) same₁
    simp only [List.getElem?_map, here, here', Option.map_some, Option.some.injEq] at sameName
    obtain rfl : name' = name := sameName
    obtain ⟨found, member, rule⟩ := r.lookup_slot nodup above here
    obtain ⟨found', -, -⟩ := r'.lookup_slot nodup' (same.length ▸ above) here'
    obtain ⟨slot₁, slot₁', body, body', leads, leads', called, called', twins⟩ := calls name' member rule
    obtain rfl := Option.some.inj (leads.symm.trans found)
    obtain rfl := Option.some.inj (leads'.symm.trans found')
    exact ⟨slot₁, slot₁', name', body, body', h.settles.getElem?_slots here, h.settles'.getElem?_slots here', called,
      called', twins⟩
  · exact h.served i (Nat.not_lt.mp own) below

end Register

/-! ### Compilation -/

section Compilation

open Term

variable {f : Term → Term} {s s' : Surroundings} {d d' mid mid' later later' : Draft} {label : Option String}

/-- The parsers of two terms whose parts are twins. -/
theorem Parallel.push (h : Parallel d d' mid mid') {operator operator' : Operator} (akin : operator.Akin operator')
    (parts : HeadTwins mid mid' operator.parts operator'.parts) (label label' : Option String) :
    Parallel d d' (mid.push label operator).2 (mid'.push label' operator').2 ∧
      HeadTwins (mid.push label operator).2 (mid'.push label' operator').2 [mid.parsers.size] [mid'.parsers.size] := by
  have settles := (mid.grows_push label operator).settles
  have settles' := (mid'.grows_push label' operator').settles
  exact ⟨h.settle settles settles' rfl rfl,
    .akin (mid.getElem?_push _ _) (mid'.getElem?_push _ _) akin (parts.mono settles settles') .nil⟩

theorem Parallel.pushCall (h : Parallel d d' mid mid') {slot slot' : ParserId} (slots : SlotTwins mid mid' slot slot')
    (label label' : Option String) :
    Parallel d d' (mid.push label (.call slot)).2 (mid'.push label' (.call slot')).2 ∧
      HeadTwins (mid.push label (.call slot)).2 (mid'.push label' (.call slot')).2 [mid.parsers.size]
        [mid'.parsers.size] := by
  have settles := (mid.grows_push label (.call slot)).settles
  have settles' := (mid'.grows_push label' (.call slot')).settles
  exact ⟨h.settle settles settles' rfl rfl,
    .call (mid.getElem?_push _ _) (mid'.getElem?_push _ _) (slots.mono settles settles') .nil⟩

theorem Parallel.pushLeft {inner : ParserId} {ids' : List ParserId} (h : Parallel d d' mid mid')
    (twins : HeadTwins mid mid' [inner] ids') (label : Option String) :
    Parallel d d' (mid.push label (.cut inner)).2 mid' ∧
      HeadTwins (mid.push label (.cut inner)).2 mid' [mid.parsers.size] ids' := by
  have settles := (mid.grows_push label (.cut inner)).settles
  exact ⟨h.settle settles (.refl _) rfl rfl, .left (mid.getElem?_push _ _) (twins.mono settles (.refl _))⟩

theorem Parallel.pushRight {inner' : ParserId} {ids : List ParserId} (h : Parallel d d' mid mid')
    (twins : HeadTwins mid mid' ids [inner']) (label : Option String) :
    Parallel d d' mid (mid'.push label (.cut inner')).2 ∧
      HeadTwins mid (mid'.push label (.cut inner')).2 ids [mid'.parsers.size] := by
  have settles' := (mid'.grows_push label (.cut inner')).settles
  exact ⟨h.settle (.refl _) settles' rfl rfl, .right (mid'.getElem?_push _ _) (twins.mono (.refl _) settles')⟩

/-- A cutpoint around the second of two terms makes no difference. -/
theorem parallel_cut {u : Term} {id id' : ParserId} (h' : build s' d' label (.cut u) = .ok (id', later'))
    (bare : ∀ {inner' mid'}, build s' d' label u = .ok (inner', mid') →
      Parallel d d' later mid' ∧ HeadTwins later mid' [id] [inner']) :
    Parallel d d' later later' ∧ HeadTwins later later' [id] [id'] := by
  obtain ⟨⟨inner', mid'⟩, body, h'⟩ := Except.bind_eq_ok h'
  cases h'
  obtain ⟨parallel, twins⟩ := bare body
  exact parallel.pushRight twins label

/-- What holds of a term that is no cutpoint holds of what becomes of it where cutpoints are added. -/
theorem parallel_moved (adds : AddsCuts f) {u : Term} (single : ∀ inner, u ≠ .cut inner) {id id' : ParserId}
    (h' : build s' d' label (f u) = .ok (id', later'))
    (bare : ∀ {id' later'}, build s' d' label u = .ok (id', later') →
      Parallel d d' later later' ∧ HeadTwins later later' [id] [id']) :
    Parallel d d' later later' ∧ HeadTwins later later' [id] [id'] := by
  rcases adds.moves u with same | marked | ⟨inner, doubled, -⟩
  · rw [same] at h'
    exact bare h'
  · rw [marked] at h'
    exact parallel_cut h' bare
  · exact absurd doubled (single _)

theorem nullable_terminal {t : Term} {padding : Option Padding} {made : Terminal} (h : terminal t padding = .ok made) :
    made.nullable = (t == .literal "") := by
  obtain ⟨-, -, -, -, rfl⟩ := terminal_eq_ok h
  rfl

mutual
/-- A term and the same term with cutpoints added are compiled side by side. -/
theorem build_parallel : ∀ {f s s' d d' label t id id' later later'}, AddsCuts f →
    build s d label t = .ok (id, later) → build s' d' label (t.transform f) = .ok (id', later') →
    DistinctNames t.features → SameSlots d d' → NameTwins d d' s.names s'.names →
    Parallel d d' later later' ∧ HeadTwins later later' [id] [id']
  | _, _, _, _, _, _, .capture name t, _, _, _, _, adds, h, h', distinct, same, names => by
    refine parallel_moved adds (u := .capture name (t.transform _)) nofun h' fun h' => ?_
    exact build_parallel (t := t) adds h h' distinct.tail same names
  | f, s, s', d, d', label, .withRules t ⟨entries⟩, _, _, _, _, adds, h, h', distinct, same, names => by
    refine parallel_moved adds (u := .withRules (t.transform f) ⟨transformEntries f entries⟩) nofun h' fun h' => ?_
    obtain ⟨padding, -, h⟩ := Except.bind_eq_ok h
    obtain ⟨padding', -, h'⟩ := Except.bind_eq_ok h'
    generalize registered : d.register s.names entries = made at h
    generalize registered' : d'.register s'.names (transformEntries f entries) = made' at h'
    obtain ⟨opened, d₁⟩ := made
    obtain ⟨opened', d₁'⟩ := made'
    obtain ⟨d₂, filled, h⟩ := Except.bind_eq_ok h
    obtain ⟨d₂', filled', h'⟩ := Except.bind_eq_ok h'
    have paired := withCuts_transformEntries adds entries
    have table := distinct.right
    have nodup : (entries.map (·.1)).Nodup := table _ List.mem_cons_self
    have nodup' : ((transformEntries f entries).map (·.1)).Nodup := by rwa [paired.names]
    obtain ⟨same₁, names₁⟩ := register_twins registered registered' paired.names same names
    have waiting : Waiting { s with names := opened, padding := padding } d₁ entries :=
      waiting_register registered nodup
    have waiting' : Waiting { s' with names := opened', padding := padding' } d₁' (transformEntries f entries) :=
      waiting_register registered' nodup'
    obtain ⟨parallel, calls⟩ := buildEntries_parallel filled filled' paired table.tail waiting waiting' same₁ names₁
    obtain ⟨body, twins⟩ := build_parallel adds h h' distinct.left parallel.same
      (names₁.mono parallel.settles parallel.settles')
    obtain ⟨locals, r⟩ := register_spec registered
    obtain ⟨locals', r'⟩ := register_spec registered'
    refine ⟨.register r r' nodup nodup' same same₁ (parallel.trans body) fun name member rule => ?_, twins⟩
    exact (calls name member rule).mono body.settles body.settles'
  | f, s, s', d, d', label, .cut t, _, _, _, _, adds, h, h', distinct, same, names => by
    obtain ⟨⟨inner, mid⟩, body, h⟩ := Except.bind_eq_ok h
    cases h
    -- the inner terms are twins, and the cutpoints around them do not count
    have bare : ∀ {id' later'}, build s' d' label (t.transform f) = .ok (id', later') →
        Parallel d d' (mid.push label (.cut inner)).2 later' ∧
          HeadTwins (mid.push label (.cut inner)).2 later' [mid.parsers.size] [id'] := by
      intro id' later' h'
      obtain ⟨parallel, twins⟩ := build_parallel adds body h' distinct same names
      exact parallel.pushLeft twins label
    have h' : build s' d' label (f (.cut (t.transform f))) = .ok _ := h'
    rcases adds.moves (.cut (t.transform f)) with kept | marked | ⟨_, doubled, dropped⟩
    · rw [kept] at h'
      exact parallel_cut h' bare
    · rw [marked] at h'
      exact parallel_cut h' fun h' => parallel_cut h' bare
    · rw [dropped, ← Term.cut.inj doubled] at h'
      exact bare h'
  | f, _, _, _, _, label, .rule name, _, _, _, _, adds, h, h', _, same, names => by
    refine parallel_moved adds (u := .rule name) nofun h' fun h' => ?_
    have slots := names.lookup name
    simp only [build] at h h'
    split at h
    · next slot found =>
      split at h'
      · next slot' found' =>
        rw [found, found'] at slots
        cases slots with
        | some slots =>
          cases h
          cases h'
          exact (Parallel.refl same).pushCall slots label label
      · cases h'
    · cases h
  | f, _, _, _, _, label, .literal text, _, _, _, _, adds, h, h', _, same, _ => by
    refine parallel_moved adds (u := .literal text) nofun h' fun h' => ?_
    obtain ⟨made, terminal, h⟩ := Except.bind_eq_ok h
    obtain ⟨made', terminal', h'⟩ := Except.bind_eq_ok h'
    cases h
    cases h'
    refine (Parallel.refl same).push (.terminal ?_) .nil label label
    rw [nullable_terminal terminal, nullable_terminal terminal']
  | f, _, _, _, _, label, .regex pattern, _, _, _, _, adds, h, h', _, same, _ => by
    refine parallel_moved adds (u := .regex pattern) nofun h' fun h' => ?_
    obtain ⟨made, terminal, h⟩ := Except.bind_eq_ok h
    obtain ⟨made', terminal', h'⟩ := Except.bind_eq_ok h'
    cases h
    cases h'
    refine (Parallel.refl same).push (.terminal ?_) .nil label label
    rw [nullable_terminal terminal, nullable_terminal terminal']
  | f, _, _, _, _, label, .seq ts, _, _, _, _, adds, h, h', distinct, same, names => by
    refine parallel_moved adds (u := .seq (transformAll f ts)) nofun h' fun h' => ?_
    obtain ⟨⟨items, mid⟩, parts, h⟩ := Except.bind_eq_ok h
    obtain ⟨⟨items', mid'⟩, parts', h'⟩ := Except.bind_eq_ok h'
    cases h
    cases h'
    obtain ⟨parallel, twins⟩ := buildItems_parallel adds parts parts' distinct same names
    exact parallel.push .seq twins label label
  | f, _, _, _, _, label, .choice ts, _, _, _, _, adds, h, h', distinct, same, names => by
    refine parallel_moved adds (u := .choice (transformAll f ts)) nofun h' fun h' => ?_
    obtain ⟨⟨alternatives, mid⟩, parts, h⟩ := Except.bind_eq_ok h
    obtain ⟨⟨alternatives', mid'⟩, parts', h'⟩ := Except.bind_eq_ok h'
    cases h
    cases h'
    obtain ⟨parallel, twins⟩ := buildAll_parallel adds parts parts' distinct same names
    exact parallel.push .choice twins label label
  | f, _, _, _, _, label, .list element separator style, _, _, _, _, adds, h, h', distinct, same, names => by
    refine parallel_moved adds (u := .list (element.transform f) (separator.transform f) style) nofun h' fun h' => ?_
    obtain ⟨⟨elementId, d₁⟩, first, h⟩ := Except.bind_eq_ok h
    obtain ⟨⟨separatorId, d₂⟩, second, h⟩ := Except.bind_eq_ok h
    obtain ⟨⟨elementId', d₁'⟩, first', h'⟩ := Except.bind_eq_ok h'
    obtain ⟨⟨separatorId', d₂'⟩, second', h'⟩ := Except.bind_eq_ok h'
    cases h
    cases h'
    obtain ⟨parallel, twins⟩ := build_parallel adds first first' distinct.left same names
    obtain ⟨rest, others⟩ := build_parallel adds second second' distinct.right parallel.same
      (names.mono parallel.settles parallel.settles')
    exact (parallel.trans rest).push .list ((twins.mono rest.settles rest.settles').append others) label label
  | f, _, _, _, _, label, .quant t min max, _, _, _, _, adds, h, h', distinct, same, names => by
    refine parallel_moved adds (u := .quant (t.transform f) min max) nofun h' fun h' => ?_
    obtain ⟨⟨inner, mid⟩, body, h⟩ := Except.bind_eq_ok h
    obtain ⟨⟨inner', mid'⟩, body', h'⟩ := Except.bind_eq_ok h'
    cases h
    cases h'
    obtain ⟨parallel, twins⟩ := build_parallel adds body body' distinct.tail same names
    exact parallel.push .quant twins label label
  | f, _, _, _, _, label, .backref name default, _, _, _, _, adds, h, h', distinct, same, names => by
    refine parallel_moved adds (u := .backref name (transformDefault f default)) nofun h' fun h' => ?_
    obtain ⟨⟨made, mid⟩, body, h⟩ := Except.bind_eq_ok h
    obtain ⟨⟨made', mid'⟩, body', h'⟩ := Except.bind_eq_ok h'
    cases h
    cases h'
    obtain ⟨parallel, twins⟩ := buildDefault_parallel adds body body' distinct.tail same names
    exact parallel.push .backref twins label label
  | _, _, _, _, _, _, .stack _, _, _, _, _, _, h, _, _, _, _ => by cases h

theorem buildItems_parallel : ∀ {f s s' d d' ts items items' later later'}, AddsCuts f →
    buildItems s d ts = .ok (items, later) → buildItems s' d' (transformAll f ts) = .ok (items', later') →
    DistinctNames (featuresAll ts) → SameSlots d d' → NameTwins d d' s.names s'.names →
    Parallel d d' later later' ∧ HeadTwins later later' (items.map Item.parser) (items'.map Item.parser)
  | _, _, _, _, _, [], _, _, _, _, _, h, h', _, same, _ => by
    cases h
    cases h'
    exact ⟨.refl same, .nil⟩
  | _, _, _, _, _, t :: ts, _, _, _, _, adds, h, h', distinct, same, names => by
    obtain ⟨⟨id, d₁⟩, here, h⟩ := Except.bind_eq_ok h
    obtain ⟨⟨others, d₂⟩, rest, h⟩ := Except.bind_eq_ok h
    obtain ⟨⟨id', d₁'⟩, here', h'⟩ := Except.bind_eq_ok h'
    obtain ⟨⟨others', d₂'⟩, rest', h'⟩ := Except.bind_eq_ok h'
    cases h
    cases h'
    obtain ⟨parallel, twins⟩ := build_parallel adds here here' distinct.left same names
    obtain ⟨further, more⟩ := buildItems_parallel adds rest rest' distinct.right parallel.same
      (names.mono parallel.settles parallel.settles')
    exact ⟨parallel.trans further, (twins.mono further.settles further.settles').append more⟩

theorem buildAll_parallel : ∀ {f s s' d d' ts ids ids' later later'}, AddsCuts f →
    buildAll s d ts = .ok (ids, later) → buildAll s' d' (transformAll f ts) = .ok (ids', later') →
    DistinctNames (featuresAll ts) → SameSlots d d' → NameTwins d d' s.names s'.names →
    Parallel d d' later later' ∧ HeadTwins later later' ids ids'
  | _, _, _, _, _, [], _, _, _, _, _, h, h', _, same, _ => by
    cases h
    cases h'
    exact ⟨.refl same, .nil⟩
  | _, _, _, _, _, t :: ts, _, _, _, _, adds, h, h', distinct, same, names => by
    obtain ⟨⟨id, d₁⟩, here, h⟩ := Except.bind_eq_ok h
    obtain ⟨⟨others, d₂⟩, rest, h⟩ := Except.bind_eq_ok h
    obtain ⟨⟨id', d₁'⟩, here', h'⟩ := Except.bind_eq_ok h'
    obtain ⟨⟨others', d₂'⟩, rest', h'⟩ := Except.bind_eq_ok h'
    cases h
    cases h'
    obtain ⟨parallel, twins⟩ := build_parallel adds here here' distinct.left same names
    obtain ⟨further, more⟩ := buildAll_parallel adds rest rest' distinct.right parallel.same
      (names.mono parallel.settles parallel.settles')
    exact ⟨parallel.trans further, (twins.mono further.settles further.settles').append more⟩

theorem buildDefault_parallel : ∀ {f s s' d d' default made made' later later'}, AddsCuts f →
    buildDefault s d default = .ok (made, later) →
    buildDefault s' d' (transformDefault f default) = .ok (made', later') →
    DistinctNames (featuresDefault default) → SameSlots d d' → NameTwins d d' s.names s'.names →
    Parallel d d' later later' ∧ HeadTwins later later' made.toList made'.toList
  | _, _, _, _, _, none, _, _, _, _, _, h, h', _, same, _ => by
    cases h
    cases h'
    exact ⟨.refl same, .nil⟩
  | _, _, _, _, _, some t, _, _, _, _, adds, h, h', distinct, same, names => by
    obtain ⟨⟨id, d₁⟩, here, h⟩ := Except.bind_eq_ok h
    obtain ⟨⟨id', d₁'⟩, here', h'⟩ := Except.bind_eq_ok h'
    cases h
    cases h'
    exact build_parallel (t := t) adds here here' distinct same names

theorem buildEntries_parallel : ∀ {s s' d d' entries entries' later later'}, buildEntries s d entries = .ok later →
    buildEntries s' d' entries' = .ok later' → EntriesPaired WithCuts entries entries' →
    DistinctNames (featuresEntries entries) → Waiting s d entries → Waiting s' d' entries' → SameSlots d d' →
    NameTwins d d' s.names s'.names →
    Parallel d d' later later' ∧ ∀ name ∈ entries.map (·.1), name ≠ paddingRule →
      LeadsToTwins later later' s.names s'.names name
  | _, _, _, _, [], _, _, _, h, h', paired, _, _, _, same, _ => by
    cases paired
    cases h
    cases h'
    exact ⟨.refl same, List.forall_mem_nil _⟩
  | s, s', d, d', (name, t) :: entries, (other, u) :: entries', later, later', h, h', .cons first others, distinct,
      waiting, waiting', same, names => by
    obtain ⟨sameName, f, adds, became⟩ := first
    obtain rfl : other = name := sameName
    obtain rfl : u = t.transform f := became
    simp only [buildEntries] at h h'
    split at h
    · next padding =>
      rw [if_pos padding] at h'
      obtain ⟨parallel, calls⟩ := buildEntries_parallel h h' others distinct.right waiting.tail waiting'.tail same names
      refine ⟨parallel, fun name member rule => ?_⟩
      rcases List.mem_cons.mp member with here | further
      · exact absurd (here.trans padding) rule
      · exact calls name further rule
    · next rule =>
      rw [if_neg rule] at h'
      obtain ⟨⟨body, d₁⟩, here, h⟩ := Except.bind_eq_ok h
      obtain ⟨⟨body', d₁'⟩, here', h'⟩ := Except.bind_eq_ok h'
      obtain ⟨slot, found, pending⟩ := waiting.slot other List.mem_cons_self rule
      obtain ⟨slot', found', pending'⟩ := waiting'.slot other List.mem_cons_self rule
      simp only [found] at h
      simp only [found'] at h'
      have counted : DistinctNames t.features := by
        rw [featuresEntries, if_neg fun padding => rule padding.1] at distinct
        exact distinct.left
      have counted' : DistinctNames (t.transform f).features := by rwa [features_transform adds.keeps]
      have grows := (build_spec here counted).1.grows
      have grows' := (build_spec here' counted').1.grows
      obtain ⟨parallel, twins⟩ := build_parallel adds here here' counted same names
      obtain ⟨settles, set, -⟩ := patch_settles body (grows.parser pending)
      obtain ⟨settles', set', -⟩ := patch_settles body' (grows'.parser pending')
      have patched := parallel.settle settles settles' rfl rfl
      obtain ⟨rest, calls⟩ := buildEntries_parallel h h' others distinct.right (waiting.patch grows pending body)
        (waiting'.patch grows' pending' body') patched.same (names.mono patched.settles patched.settles')
      refine ⟨patched.trans rest, fun name member rule => ?_⟩
      rcases List.mem_cons.mp member with rfl | further
      · exact ⟨slot, slot', body, body', found, found', rest.settles.call set, rest.settles'.call set',
          twins.mono (settles.trans rest.settles) (settles'.trans rest.settles')⟩
      · exact calls name further rule
end

end Compilation

/-! ### Whole grammars -/

/-- A grammar and the same grammar with cutpoints added compile to programs side by side. -/
theorem sideBySide_ofGrammar {g g' : Grammar} {p p' : Program} (made : ofGrammar g = .ok p)
    (made' : ofGrammar g' = .ok p') (distinct : DistinctNames g.features)
    (paired : EntriesPaired Term.WithCuts g.entries g'.entries) : SideBySide p p' := by
  have ordered := inOrder_ofGrammar made
  have ordered' := inOrder_ofGrammar made'
  obtain ⟨drafted, -, -⟩ := ordered_ofGrammar made
  obtain ⟨drafted', -, -⟩ := ordered_ofGrammar made'
  obtain ⟨entries⟩ := g
  obtain ⟨entries'⟩ := g'
  obtain ⟨padding, -, made⟩ := Except.bind_eq_ok made
  obtain ⟨padding', -, made'⟩ := Except.bind_eq_ok made'
  generalize registered : Draft.register ⟨#[], []⟩ [] entries = opened at made
  generalize registered' : Draft.register ⟨#[], []⟩ [] entries' = opened' at made'
  obtain ⟨names, d⟩ := opened
  obtain ⟨names', d'⟩ := opened'
  obtain ⟨later, filled, made⟩ := Except.bind_eq_ok made
  obtain ⟨later', filled', made'⟩ := Except.bind_eq_ok made'
  have nodup : (entries.map (·.1)).Nodup := distinct _ List.mem_cons_self
  have nodup' : (entries'.map (·.1)).Nodup := by
    have paired : EntriesPaired Term.WithCuts entries entries' := paired
    rwa [paired.names]
  obtain ⟨same, twins⟩ := register_twins registered registered' paired.names rfl .nil
  have waiting : Waiting ⟨Term.backrefNamesTable ⟨entries⟩, names, padding⟩ d entries :=
    waiting_register registered nodup
  have waiting' : Waiting ⟨Term.backrefNamesTable ⟨entries'⟩, names', padding'⟩ d' entries' :=
    waiting_register registered' nodup'
  obtain ⟨parallel, calls⟩ := buildEntries_parallel filled filled' paired distinct.tail waiting waiting' same twins
  obtain ⟨locals, r⟩ := register_spec registered
  obtain ⟨locals', r'⟩ := register_spec registered'
  have whole : Parallel ⟨#[], []⟩ ⟨#[], []⟩ later later' := .register r r' nodup nodup' rfl same parallel calls
  split at made
  · cases made
  · split at made'
    · cases made'
    · obtain rfl := Except.ok.inj made
      obtain rfl := Except.ok.inj made'
      exact ⟨ordered, ordered', drafted.distinct, drafted'.distinct, whole.same,
        fun i inside => whole.served i (Nat.zero_le i) inside⟩

end Program
end GrammarKit
