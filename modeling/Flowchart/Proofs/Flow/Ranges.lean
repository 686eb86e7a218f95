import Flowchart.Proofs.Flow.StatementNodes
import Flowchart.Proofs.Script.Spans

/-! The ranges of the flow nodes of a parsed script: they are nested as the nodes are, and the nodes
come in the order of their ranges, but for later variables of a declaration. -/
namespace Flowchart

/-- `v` is made by a variable of a declaration, and `u` is inside of a function that an earlier
variable of the same declaration holds. -/
def IsLaterVariable (src : Source) (root : Tree) (u v : Entry) : Prop :=
  ∃ s ∈ root.preorder, s.IsDeclaration ∧ ∃ x y, [x, y].Sublist s.initialized ∧
    x.2.isFunction ∧ u.range.Within (src.range x.2.span) ∧
    Plan.declared src s y.1 y.2 = .node v []

/-- `u` may stand in front of `v` as far as their ranges tell. -/
def Entry.InOrder (src : Source) (root : Tree) (u v : Entry) : Prop :=
  u.range.start ≤ v.range.start ∨ u.range.Within v.range ∧ IsLaterVariable src root u v

namespace FlowTree

theorem entriesAll_flatMap {α : Type} (f : α → List FlowTree) (xs : List α) :
    entriesAll (xs.flatMap f) = xs.flatMap fun x => entriesAll (f x) := by
  induction xs with
  | nil => rfl
  | cons x xs ih => rw [List.flatMap_cons, entriesAll_append, ih, List.flatMap_cons]

theorem entriesAll_node (e : Entry) (ts : List FlowTree) :
    entriesAll [node e ts] = e :: entriesAll ts :=
  List.append_nil _

theorem entry_mem_entriesAll {t : FlowTree} {ts : List FlowTree} (h : t ∈ ts) :
    t.entry ∈ entriesAll ts := by
  induction h with
  | head =>
    cases t
    exact List.mem_append_left _ List.mem_cons_self
  | tail u _ ih => exact List.mem_append_right _ ih

/-- Some trees of the outline lie in a range, and their ranges are nested and ordered. -/
structure Laid (src : Source) (root : Tree) (r : CharRange) (ts : List FlowTree) : Prop where
  nested : EverywhereAll (fun e below => ∀ c ∈ below, c.range.Within e.range) ts
  within : ∀ e ∈ entriesAll ts, e.range.Within r
  inOrder : (entriesAll ts).Pairwise (Entry.InOrder src root)

section
variable {src : Source} {root : Tree} {r s : CharRange} {ts : List FlowTree}

theorem laid_nil : Laid src root r [] :=
  ⟨trivial, fun _ he => absurd he List.not_mem_nil, .nil⟩

theorem Laid.mono (h : Laid src root s ts) (hr : s.Within r) : Laid src root r ts :=
  ⟨h.nested, fun e he => (h.within e he).trans hr, h.inOrder⟩

theorem Laid.node {e : Entry} (h : Laid src root e.range ts) (he : e.range.Within r) :
    Laid src root r [node e ts] := by
  refine ⟨⟨⟨?_, h.nested⟩, trivial⟩, ?_, ?_⟩
  · intro c hc
    obtain ⟨t, ht, rfl⟩ := List.mem_map.mp hc
    exact h.within _ (entry_mem_entriesAll ht)
  · rw [entriesAll_node, List.forall_mem_cons]
    exact ⟨he, fun c hc => (h.within c hc).trans he⟩
  · rw [entriesAll_node, List.pairwise_cons]
    exact ⟨fun c hc => .inl (h.within c hc).start, h.inOrder⟩

theorem laid_flatMap {α : Type} {xs : List α} {f : α → List FlowTree}
    (h : ∀ x ∈ xs, Laid src root r (f x))
    (hord : xs.Pairwise fun x y =>
      ∀ u ∈ entriesAll (f x), ∀ v ∈ entriesAll (f y), u.InOrder src root v) :
    Laid src root r (xs.flatMap f) := by
  refine ⟨?_, ?_, ?_⟩
  · rw [everywhereAll_iff]
    intro t ht
    obtain ⟨x, hx, ht⟩ := List.mem_flatMap.mp ht
    exact everywhereAll_iff.mp (h x hx).nested t ht
  · rw [entriesAll_flatMap]
    intro e he
    obtain ⟨x, hx, he⟩ := List.mem_flatMap.mp he
    exact (h x hx).within e he
  · rw [entriesAll_flatMap, List.pairwise_flatMap]
    exact ⟨fun x hx => (h x hx).inOrder, hord⟩

end
end FlowTree

namespace Tree

section
variable {src : Source} {root t : Tree} (h : root.IsParsed src)
include h

theorem LiesIn.mem_statements {c u : Tree} (hu : LiesIn src root u t) (hc : c ∈ u.statements) :
    LiesIn src root c t :=
  hu.child h (List.mem_filter.mp hc).1

/-- A declarator lies in its declaration, and its value in the declarator. -/
theorem LiesIn.mem_initialized (ht : t ∈ root.preorder) {x : Tree × Tree}
    (hx : x ∈ t.initialized) : LiesIn src root x.1 t ∧ LiesIn src root x.2 x.1 := by
  obtain ⟨d, hd, hx⟩ := List.mem_filterMap.mp hx
  obtain ⟨v, hv, rfl⟩ := Option.map_eq_some_iff.mp hx
  obtain ⟨u, hu, huv⟩ := Option.bind_eq_some_iff.mp hv
  have hdt : LiesIn src root d t :=
    (h.liesIn_self ht).child h (List.mem_filter.mp (List.mem_filter.mp hd).1).1
  exact ⟨hdt, ((h.liesIn_self hdt.mem).field? h hu).unwrap h huv⟩

theorem IsParsed.initialized_inOrder (ht : t ∈ root.preorder) :
    t.initialized.Pairwise fun x y => x.1.Before y.1 := by
  have hsub : (t.namedChildren.filter (·.type = "variable_declarator")).Sublist t.children :=
    List.filter_sublist.trans List.filter_sublist
  rw [initialized, List.pairwise_filterMap]
  refine ((h t ht).children.sublist hsub).imp ?_
  intro c d hcd x hx y hy
  obtain ⟨v, -, rfl⟩ := Option.map_eq_some_iff.mp hx
  obtain ⟨w, -, rfl⟩ := Option.map_eq_some_iff.mp hy
  exact hcd

end
end Tree

namespace Plan
open Flowchart.Tree FlowTree

theorem resolveAll_flatMap {α : Type} (f : Option String → Tree → List FlowTree)
    (plans : α → List Plan) (xs : List α) :
    resolveAll f (xs.flatMap plans) = xs.flatMap fun x => resolveAll f (plans x) := by
  induction xs with
  | nil => rfl
  | cons x xs ih => rw [List.flatMap_cons, resolveAll_append, ih, List.flatMap_cons]

/-- What some parts give lies in the range of a tree. -/
def LaidIn (src : Source) (root : Tree) (visited : Option String → Tree → List FlowTree)
    (t : Tree) (ps : List Plan) : Prop :=
  Laid src root (src.range t.span) (resolveAll visited ps)

section
variable {src : Source} {root t u : Tree} {visited : Option String → Tree → List FlowTree}
  {parts : List Plan}

theorem laidIn_nil : LaidIn src root visited t [] :=
  laid_nil

theorem LaidIn.mono (h : LaidIn src root visited u parts) (hu : LiesIn src root u t) :
    LaidIn src root visited t parts :=
  Laid.mono h hu.within

/-- A node with the range of a tree and parts that lie in that tree. -/
theorem LaidIn.node {e : Entry} (h : LaidIn src root visited u parts)
    (he : e.range = src.range u.span) (hu : LiesIn src root u t) :
    LaidIn src root visited t [node e parts] := by
  have hnode : resolveAll visited [Plan.node e parts] =
      [FlowTree.node e (resolveAll visited parts)] := List.append_nil _
  rw [LaidIn, hnode]
  rw [LaidIn, ← he] at h
  exact h.node (he ▸ hu.within)

variable (h : root.IsParsed src)
include h

/-- Parts that lie in trees of which one comes after the other. -/
theorem laidIn_slots {slots : List (Tree × List Plan)}
    (hin : ∀ s ∈ slots, LiesIn src root s.1 t)
    (hord : (slots.map Prod.fst).Pairwise Before)
    (hparts : ∀ s ∈ slots, LaidIn src root visited s.1 s.2) :
    LaidIn src root visited t (slots.flatMap Prod.snd) := by
  rw [LaidIn, resolveAll_flatMap]
  refine laid_flatMap (fun s hs => (hparts s hs).mono (hin s hs)) ?_
  rw [List.pairwise_map] at hord
  refine hord.imp_of_mem fun {s s'} hs hs' hss' u hu v hv => .inl ?_
  have hu' := (hparts s hs).within u hu
  have hv' := (hparts s' hs').within v hv
  calc u.range.start ≤ u.range.stop := hu'.ordered
    _ ≤ (src.range s.1.span).stop := hu'.stop
    _ ≤ (src.range s'.1.span).start := h.range_stop_le (hin s hs).mem hss'
    _ ≤ v.range.start := hv'.start

theorem laidIn_map {plan : Tree → Plan} {ts : List Tree} (hin : ∀ c ∈ ts, LiesIn src root c t)
    (hord : ts.Pairwise Before) (hplan : ∀ c ∈ ts, LaidIn src root visited c [plan c]) :
    LaidIn src root visited t (ts.map plan) := by
  let slots : List (Tree × List Plan) := ts.map fun c => (c, [plan c])
  have hparts : ts.map plan = slots.flatMap Prod.snd := by
    rw [List.flatMap_map, List.map_eq_flatMap]
  have hfst : slots.map Prod.fst = ts := by
    rw [List.map_map]
    exact List.map_id ts
  rw [hparts]
  exact laidIn_slots h (List.forall_mem_map.mpr hin) (hfst.symm ▸ hord)
    (List.forall_mem_map.mpr hplan)

variable (hv : ∀ name c, c ∈ root.preorder → Laid src root (src.range c.span) (visited name c))
include hv

omit h in
theorem laidIn_visit {name : Option String} (hu : LiesIn src root u t) :
    LaidIn src root visited t [visit name u] := by
  rw [LaidIn, resolveAll, resolveAll, List.append_nil]
  exact (hv name u hu.mem).mono hu.within

theorem laidIn_visit_all {ts : List Tree} (hin : ∀ c ∈ ts, LiesIn src root c t)
    (hord : ts.Pairwise Before) : LaidIn src root visited t (ts.map (visit none)) :=
  laidIn_map h hin hord fun c hc => laidIn_visit hv (h.liesIn_self (hin c hc).mem)

theorem laidIn_visits {o : Option Tree} (hin : ∀ c ∈ o, LiesIn src root c t) :
    LaidIn src root visited t (visits o) :=
  laidIn_visit_all h hv (fun c hc => hin c (Option.mem_toList.mp hc))
    (Occurrence.pairwise_toList o)

theorem laidIn_body (hu : LiesIn src root u t) :
    LaidIn src root visited t (visits (u.field? "body")) :=
  laidIn_visits h hv fun _ hc => hu.field? h hc

theorem function_laidIn (name : Option String) (hu : LiesIn src root u t) :
    LaidIn src root visited t [function src name u] :=
  (laidIn_body h hv (h.liesIn_self hu.mem)).node rfl hu

theorem immediate_laidIn (ht : t ∈ root.preorder) {fn : Tree} (hfn : LiesIn src root fn t) :
    LaidIn src root visited t [immediate src t fn] := by
  refine LaidIn.node (laidIn_visits h hv fun c hc => ?_) rfl (h.liesIn_self ht)
  exact hfn.field? h (Option.filter_eq_some_iff.mp hc).1

theorem arm_laidIn (branch : Branch) (hu : LiesIn src root u t) :
    LaidIn src root visited t [arm src branch u] :=
  (laidIn_visit hv (h.liesIn_self hu.mem)).node rfl hu

/-- What follows `else` is slotted where the whole `else` clause is. -/
theorem conditional_laidIn (ht : t ∈ root.preorder) (htype : t.type = "if_statement") :
    LaidIn src root visited t [conditional src t] := by
  let after (e : Tree) : Option Tree := if e.type = "else_clause" then e.firstStatement? else e
  let slots : List (Tree × List Plan) :=
    (t.field? "consequence").toList.map (fun c => (c, [arm src .onTrue c])) ++
      (t.field? "alternative").toList.map
        (fun e => (e, (after e).toList.map (arm src .onFalse)))
  have hself := h.liesIn_self ht
  have hparts : trueArm src t ++ falseArm src t = slots.flatMap Prod.snd := by
    have hfalse : falseArm src t = (t.field? "alternative").toList.flatMap
        fun e => (after e).toList.map (arm src .onFalse) := by
      rw [falseArm, alternative?]
      cases t.field? "alternative" <;> simp [after]
    rw [hfalse, trueArm, List.flatMap_append, List.flatMap_map, List.flatMap_map,
      List.map_eq_flatMap]
  refine LaidIn.node ?_ rfl hself
  rw [hparts]
  refine laidIn_slots h ?_ ?_ ?_
  · rw [List.forall_mem_append, List.forall_mem_map, List.forall_mem_map]
    exact ⟨fun c hc => hself.field? h (Option.mem_toList.mp hc),
      fun e he => hself.field? h (Option.mem_toList.mp he)⟩
  · have hfst : slots.map Prod.fst = t.armsOf := by
      simp [slots, armsOf, Function.comp_def]
    rw [hfst]
    exact (h t ht).arms htype
  · rw [List.forall_mem_append, List.forall_mem_map, List.forall_mem_map]
    constructor
    · intro c hc
      have hc := (hself.field? h (Option.mem_toList.mp hc)).mem
      exact arm_laidIn h hv .onTrue (h.liesIn_self hc)
    · intro e he
      have he := h.liesIn_self (hself.field? h (Option.mem_toList.mp he)).mem
      have hafter : ∀ a ∈ (after e).toList, LiesIn src root a e := by
        intro a ha
        rw [Option.mem_toList] at ha
        by_cases helse : e.type = "else_clause"
        · exact he.firstStatement? h ((if_pos helse).symm.trans ha)
        · obtain rfl : e = a := Option.some.inj ((if_neg helse).symm.trans ha)
          exact he
      exact laidIn_map h hafter (Occurrence.pairwise_toList _)
        fun a ha => arm_laidIn h hv .onFalse (h.liesIn_self (hafter a ha).mem)

theorem clause_laidIn (hu : LiesIn src root u t) :
    LaidIn src root visited t [clause src u] := by
  have hself := h.liesIn_self hu.mem
  have hsub := clauseStatements_sublist u
  refine LaidIn.node (laidIn_visit_all h hv ?_ ?_) rfl hu
  · exact fun s hs => hself.child h (hsub.subset hs)
  · exact (h u hu.mem).children.sublist hsub

theorem switch_laidIn (ht : t ∈ root.preorder) : LaidIn src root visited t [switch src t] := by
  have hself := h.liesIn_self ht
  refine LaidIn.node ?_ rfl hself
  unfold clauses
  cases hb : t.field? "body" with
  | none => exact laidIn_nil
  | some b =>
    have hbody := hself.field? h hb
    rw [Option.elim_some]
    refine laidIn_map h (fun c hc => ?_) ?_ fun c hc => clause_laidIn h hv (h.liesIn_self ?_)
    · exact hbody.mem_statements h (List.mem_filter.mp hc).1
    · exact (h b hbody.mem).children.sublist (List.filter_sublist.trans List.filter_sublist)
    · exact (hbody.mem_statements h (List.mem_filter.mp hc).1).mem

theorem loop_laidIn (ht : t ∈ root.preorder) (word label : String) :
    LaidIn src root visited t [loop src word label t] :=
  (laidIn_body h hv (h.liesIn_self ht)).node rfl (h.liesIn_self ht)

theorem catchPlan_laidIn (hu : LiesIn src root u t) :
    LaidIn src root visited t [catchPlan src u] :=
  (laidIn_body h hv (h.liesIn_self hu.mem)).node rfl hu

theorem finallyPlan_laidIn (hu : LiesIn src root u t) :
    LaidIn src root visited t [finallyPlan src u] := by
  have hblock : LiesIn src root ((u.field? "body").getD u) t := by
    cases hb : u.field? "body" with
    | none => exact hu
    | some b => exact hu.field? h hb
  exact (laidIn_visit hv (h.liesIn_self hblock.mem)).node rfl hblock

theorem tryBlock_laidIn (ht : t ∈ root.preorder) (htype : t.type = "try_statement") :
    LaidIn src root visited t [tryBlock src t] := by
  let slots : List (Tree × List Plan) :=
    (t.field? "body").toList.map (fun b => (b, [visit none b])) ++
      (t.field? "handler").toList.map (fun c => (c, [catchPlan src c])) ++
      (t.field? "finalizer").toList.map fun f => (f, [finallyPlan src f])
  have hself := h.liesIn_self ht
  have hin {name : String} : ∀ c ∈ (t.field? name).toList, LiesIn src root c t :=
    fun c hc => hself.field? h (Option.mem_toList.mp hc)
  have hparts : visits (t.field? "body") ++ (t.field? "handler").toList.map (catchPlan src) ++
      (t.field? "finalizer").toList.map (finallyPlan src) = slots.flatMap Prod.snd := by
    rw [List.flatMap_append, List.flatMap_append, List.flatMap_map, List.flatMap_map,
      List.flatMap_map, visits, List.map_eq_flatMap, List.map_eq_flatMap, List.map_eq_flatMap]
  refine LaidIn.node ?_ rfl hself
  rw [hparts]
  refine laidIn_slots h ?_ ?_ ?_
  · simp only [slots, List.forall_mem_append, List.forall_mem_map]
    exact ⟨⟨hin, hin⟩, hin⟩
  · have hfst : slots.map Prod.fst = t.blocksOf := by
      simp [slots, blocksOf, Function.comp_def]
    rw [hfst]
    exact (h t ht).blocks htype
  · simp only [slots, List.forall_mem_append, List.forall_mem_map]
    exact ⟨⟨fun b hb => laidIn_visit hv (h.liesIn_self (hin b hb).mem),
      fun c hc => catchPlan_laidIn h hv (h.liesIn_self (hin c hc).mem)⟩,
      fun f hf => finallyPlan_laidIn h hv (h.liesIn_self (hin f hf).mem)⟩

omit hv in
theorem leaf_laidIn (ht : t ∈ root.preorder) {e : Entry} (he : e.range = src.range t.span) :
    LaidIn src root visited t [node e []] :=
  LaidIn.node laidIn_nil he (h.liesIn_self ht)

theorem callPlan_laidIn (ht : t ∈ root.preorder) (hu : LiesIn src root u t) :
    LaidIn src root visited t [callPlan src t u] := by
  unfold callPlan
  split
  · rename_i fn hfn
    obtain ⟨f, hf, hfn⟩ := Option.bind_eq_some_iff.mp (Option.filter_eq_some_iff.mp hfn).1
    exact immediate_laidIn h hv ht ((hu.field? h hf).unwrap h hfn)
  · split
    · exact leaf_laidIn h ht rfl
    · exact leaf_laidIn h ht rfl

theorem expression_laidIn (ht : t ∈ root.preorder) :
    LaidIn src root visited t (expression src t) := by
  unfold expression
  split
  · exact laidIn_nil
  · rename_i x hx
    obtain ⟨f, hf, hx⟩ := Option.bind_eq_some_iff.mp hx
    split_ifs
    · exact callPlan_laidIn h hv ht (((h.liesIn_self ht).firstStatement? h hf).unwrap h hx)
    · unfold assignment
      split
      · exact leaf_laidIn h ht rfl
      · exact leaf_laidIn h ht rfl
    · exact leaf_laidIn h ht rfl
    · exact laidIn_nil

omit h hv in
/-- A variable that holds no function is a node without parts, over the whole declaration. -/
theorem declared_eq_leaf (src : Source) (stmt declarator : Tree) {value : Tree}
    (hfn : value.isFunction = false) : ∃ e, declared src stmt declarator value = node e [] ∧
      e.range = src.range stmt.span := by
  unfold declared
  split
  · exact ⟨_, rfl, rfl⟩
  · rw [if_neg (by simp [hfn])]
    exact ⟨_, rfl, rfl⟩

/-- The variables of a declaration share its range. What is inside of the function that one of them
holds starts after it, and so only there does a later variable fall behind. -/
theorem declaration_laidIn (ht : t ∈ root.preorder) (hdecl : t.IsDeclaration) :
    LaidIn src root visited t (t.initialized.map fun x => variablePlan src t x.1 x.2) := by
  have hself := h.liesIn_self ht
  have hvisit (x : Tree × Tree) (hfn : x.2.isFunction) :
      (variablePlan src t x.1 x.2).resolve visited = visited (variableName src x.1) x.2 := by
    rw [variablePlan, if_pos hfn, resolve]
  have hleaf (x : Tree × Tree) (hfn : x.2.isFunction = false) : ∃ e,
      declared src t x.1 x.2 = node e [] ∧ e.range = src.range t.span ∧
        (variablePlan src t x.1 x.2).resolve visited = [FlowTree.node e []] := by
    obtain ⟨e, he, hr⟩ := declared_eq_leaf src t x.1 hfn
    refine ⟨e, he, hr, ?_⟩
    rw [variablePlan, if_neg (by simp [hfn]), he]
    rfl
  have hlaid : ∀ x ∈ t.initialized, Laid src root (src.range t.span)
      ((variablePlan src t x.1 x.2).resolve visited) := by
    intro x hx
    obtain ⟨hd, hval⟩ := LiesIn.mem_initialized h ht hx
    cases hfn : x.2.isFunction with
    | true =>
      rw [hvisit x hfn]
      exact (hv _ _ hval.mem).mono (hval.trans hd).within
    | false =>
      obtain ⟨e, -, hr, he⟩ := hleaf x hfn
      rw [he]
      exact Laid.node laid_nil (hr ▸ hself.within)
  rw [LaidIn, resolveAll_map]
  refine laid_flatMap hlaid (List.pairwise_iff_forall_sublist.mpr ?_)
  intro x y hxy u hu v hvy
  have hx := hxy.subset (List.mem_cons_self ..)
  have hy := hxy.subset (List.mem_cons_of_mem _ List.mem_cons_self)
  have hv' := (hlaid y hy).within v hvy
  cases hfx : x.2.isFunction with
  | false =>
    obtain ⟨e, -, hr, he⟩ := hleaf x hfx
    rw [he, entriesAll_node] at hu
    obtain rfl := List.mem_singleton.mp hu
    exact .inl (hr ▸ hv'.start)
  | true =>
    obtain ⟨hdx, hvx⟩ := LiesIn.mem_initialized h ht hx
    rw [hvisit x hfx] at hu
    have hu' := (hv _ _ hvx.mem).within u hu
    cases hfy : y.2.isFunction with
    | true =>
      obtain ⟨hdy, hvy'⟩ := LiesIn.mem_initialized h ht hy
      rw [hvisit y hfy] at hvy
      have hv'' := (hv _ _ hvy'.mem).within v hvy
      have hbefore : x.1.Before y.1 :=
        List.pairwise_iff_forall_sublist.mp (h.initialized_inOrder ht) hxy
      refine .inl ?_
      calc u.range.start ≤ u.range.stop := hu'.ordered
        _ ≤ (src.range x.1.span).stop := Int.le_trans hu'.stop hvx.within.stop
        _ ≤ (src.range y.1.span).start := h.range_stop_le hdx.mem hbefore
        _ ≤ v.range.start := Int.le_trans hvy'.within.start hv''.start
    | false =>
      obtain ⟨e, hdec, hr, he⟩ := hleaf y hfy
      rw [he, entriesAll_node] at hvy
      obtain rfl := List.mem_singleton.mp hvy
      have huv : u.range.Within v.range := hr ▸ hu'.trans (hvx.trans hdx).within
      exact .inr ⟨huv, t, ht, hdecl, x, y, hxy, hfx, hu', hdec⟩

/-- What a statement contributes lies in it if what its visits give lies in the trees visited. -/
theorem step_laidIn (ht : t ∈ root.preorder) (name : Option String) :
    LaidIn src root visited t (step src name t) := by
  have hself := h.liesIn_self ht
  unfold step
  cases hc : t.construct with
  | declaration => exact declaration_laidIn h hv ht (isDeclaration_iff.mpr hc)
  | conditional => exact conditional_laidIn h hv ht (construct_eq_conditional_iff.mp hc)
  | block =>
    simp only [ofTree, hc]
    exact laidIn_visit_all h hv (fun c hs => hself.mem_statements h hs)
      ((h t ht).children.sublist List.filter_sublist)
  | function =>
    simp only [ofTree, hc]
    exact function_laidIn h hv name hself
  | switch =>
    simp only [ofTree, hc]
    exact switch_laidIn h hv ht
  | whileLoop | doLoop | forLoop | forInLoop =>
    simp only [ofTree, hc]
    exact loop_laidIn h hv ht _ _
  | tryBlock =>
    simp only [ofTree, hc]
    exact tryBlock_laidIn h hv ht (construct_eq_tryBlock_iff.mp hc)
  | exit kind | jump kind =>
    simp only [ofTree, hc]
    exact leaf_laidIn h ht rfl
  | labeled =>
    simp only [ofTree, hc]
    exact laidIn_body h hv hself
  | expression =>
    simp only [ofTree, hc]
    exact expression_laidIn h hv ht
  | silent =>
    simp only [ofTree, hc]
    exact laidIn_nil

end
end Plan

open Flowchart.Tree FlowTree

theorem laid_outline {src : Source} {root : Tree} (h : root.IsParsed src) (name : Option String)
    (t : Tree) (ht : t ∈ root.preorder) :
    Laid src root (src.range t.span) (t.outline src name) := by
  induction hn : t.size using Nat.strongRecOn generalizing name t with
  | ind n ih =>
    subst hn
    -- Visits of trees that are not smaller do not occur, so they may give nothing.
    let visited (name : Option String) (c : Tree) : List FlowTree :=
      if c.size < t.size then c.outline src name else []
    have hv : ∀ name c, c ∈ root.preorder →
        Laid src root (src.range c.span) (visited name c) := by
      intro name c hc
      by_cases hlt : c.size < t.size
      · simp only [visited, if_pos hlt]
        exact ih c.size hlt name c hc rfl
      · simp only [visited, if_neg hlt]
        exact laid_nil
    rw [Plan.outline_step, Plan.resolveAll_step_congr src name fun name c hlt =>
      ((if_pos hlt).symm : c.outline src name = visited name c)]
    exact Plan.step_laidIn h hv ht name

/-- The range of every flow node of a parsed script lies inside of the range of its parent. Of two
nodes the second one starts where the first one does or later, unless it is a later variable of a
declaration and the first one belongs to the function that an earlier variable holds; it then
contains the first one. -/
theorem extract_ranges {src : Source} {t : Tree} (h : t.IsParsed src) :
    (∀ n ∈ extract src t, ∀ id, n.parent = some id →
      ∃ p ∈ extract src t, p.id = id ∧ n.range.Within p.range) ∧
    (extract src t).Pairwise fun u v => u.range.start ≤ v.range.start ∨
      u.range.Within v.range ∧ IsLaterVariable src t u.toEntry v.toEntry := by
  have hlaid := laid_outline h none t t.mem_preorder_self
  constructor
  · intro n hn id hp
    have hforest := forest_numberAll 0 (t.outline src none)
    obtain ⟨p, hpn, rfl, hc, -⟩ := hforest.exists_parent hn hp
    exact ⟨p, hpn, rfl, below_numberAll 0 none nofun _ hlaid.nested p hpn _
      (List.mem_map_of_mem hc)⟩
  · have hpairs := hlaid.inOrder
    rw [← map_toEntry_numberAll 0 none, List.pairwise_map] at hpairs
    exact hpairs

/-- The tree of a declaration of two variables, of which the first one holds a function that makes a
call. -/
def mixedDeclaration : Tree :=
  let branch (type : String) (start stop : Int) (field : Option String) (cs : List Tree) : Tree :=
    .node ⟨type, true, false, false, ⟨start, stop⟩, field⟩ cs
  branch "program" 0 20 none [
    branch "variable_declaration" 0 20 none [
      .node ⟨"var", false, false, false, ⟨0, 3⟩, none⟩ [],
      branch "variable_declarator" 4 16 none [
        branch "identifier" 4 6 (some "name") [],
        branch "arrow_function" 7 16 (some "value") [
          branch "formal_parameters" 7 9 (some "parameters") [],
          branch "statement_block" 11 16 (some "body") [
            branch "expression_statement" 12 15 none [
              branch "call_expression" 12 15 none [
                branch "identifier" 12 13 (some "function") []]]]]],
      branch "variable_declarator" 17 20 none [
        branch "identifier" 17 18 (some "name") [],
        branch "number" 19 20 (some "value") []]]]

/-- The text has one character of two bytes, so that the ranges end one short of the bytes. -/
theorem extract_ranges_mixedDeclaration :
    let src := Source.ofString "var ü=()=>\x7bg()\x7d,b=2"
    let nodes := extract src mixedDeclaration
    mixedDeclaration.IsParsed src ∧
    nodes.map (fun n => (n.label, n.range)) =
      [("function ü()", ⟨6, 15⟩), ("g()", ⟨11, 14⟩), ("var b", ⟨0, 19⟩)] ∧
    (∀ n ∈ nodes, ∀ id, n.parent = some id → ∃ p ∈ nodes, p.id = id ∧ n.range.Within p.range) ∧
    nodes.Pairwise fun u v => u.range.start ≤ v.range.start ∨
      u.range.Within v.range ∧ IsLaterVariable src mixedDeclaration u.toEntry v.toEntry := by
  intro src nodes
  have h : mixedDeclaration.IsParsed src := by decide +kernel
  exact ⟨h, by decide +kernel, extract_ranges h⟩

end Flowchart
