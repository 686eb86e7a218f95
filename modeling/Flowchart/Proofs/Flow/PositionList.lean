import Flowchart.Proofs.Flow.StatementPosition
import Mathlib.Data.List.Nodup

/-! The places in statement position, each of them once: there is one route only to every place. -/
namespace Flowchart.Occurrence
variable {p q r : Occurrence}

theorem HasClause.inside {c : Occurrence} (h : p.HasClause c) : Inside p c := by
  obtain ⟨-, b, hb, hc, -⟩ := h
  have hbc : Inside b c := inside_of_mem (List.mem_filter.mp hc).1
  exact (inside_of_field? hb).trans_below hbc.below

theorem Declares.inside (h : p.Declares q) : Inside p q := by
  obtain ⟨-, d, hd, -, -, u, hu, hq⟩ := h
  exact (inside_of_mem hd).trans_below ((inside_of_field? hu).below.trans (below_of_unwrap hq))

theorem Calls.inside (h : p.Calls q) : Inside p q := by
  obtain ⟨-, e, x, he, hx, -, u, hu, hq⟩ := h
  exact (inside_of_firstStatement? he).trans_below
    ((below_of_unwrap hx).trans ((inside_of_field? hu).below.trans (below_of_unwrap hq)))

theorem inside_of_mem_fields {name : String} (h : q ∈ p.fields name) : Inside p q :=
  inside_of_mem (List.mem_filter.mp h).1

theorem inside_of_mem_statements (h : q ∈ p.statements) : Inside p q :=
  inside_of_mem (List.mem_filter.mp h).1

/-- What a place holds stands below it. -/
theorem Holds.inside (h : Holds p q) : Inside p q := by
  cases h with
  | statement _ hq => exact inside_of_mem_statements hq
  | body _ hq | consequence _ hq | alternative _ hq _ | tryBody _ hq | finalizer _ hq _ =>
    exact inside_of_field? hq
  | elseClause _ he _ hq =>
    exact (inside_of_field? he).trans_below (inside_of_firstStatement? hq).below
  | clauseBody hc hq => exact hc.inside.trans_below (inside_of_mem_fields hq).below
  | clauseRest hc _ hq _ => exact hc.inside.trans_below (inside_of_mem_statements hq).below
  | handler _ hh hq => exact (inside_of_field? hh).trans_below (inside_of_field? hq).below
  | finalizerBody _ hf hq => exact (inside_of_field? hf).trans_below (inside_of_field? hq).below
  | functionValue hd _ => exact hd.inside
  | calledFunction hf _ hq _ => exact hf.inside.trans_below (inside_of_field? hq).below

theorem inside_of_mem_held (h : q ∈ p.held) : Inside p q :=
  (holds_of_mem_held h).inside

/-! No place that a place holds stands on the way to another one. -/

theorem pairwise_toList {α : Type} {R : α → α → Prop} (o : Option α) : o.toList.Pairwise R := by
  cases o <;> simp

/-- Places in different fields, or below such places, are apart. -/
theorem apart_toList {f g : String} (hne : f ≠ g) {a b : Option Occurrence}
    (ha : ∀ q, a = some q → ∃ u, p.field? f = some u ∧ Below u q)
    (hb : ∀ q, b = some q → ∃ u, p.field? g = some u ∧ Below u q) :
    ∀ q ∈ a.toList, ∀ r ∈ b.toList, Apart q r := by
  intro q hq r hr
  obtain ⟨u, hu, huq⟩ := ha q (Option.mem_toList.mp hq)
  obtain ⟨v, hv, hvr⟩ := hb r (Option.mem_toList.mp hr)
  exact (apart_of_field? hne hu hv).below huq hvr

theorem values_apart (p : Occurrence) : p.values.Pairwise Apart := by
  rw [values, List.pairwise_filterMap]
  refine (p.children_apart.filter _).imp fun {d d'} h v hv v' hv' => ?_
  obtain ⟨u, hu, huv⟩ := Option.bind_eq_some_iff.mp hv
  obtain ⟨u', hu', huv'⟩ := Option.bind_eq_some_iff.mp hv'
  exact h.below ((inside_of_field? hu).below.trans (below_of_unwrap huv))
    ((inside_of_field? hu').below.trans (below_of_unwrap huv'))

theorem clauses_apart (p : Occurrence) : p.clauses.Pairwise Apart := by
  rw [clauses]
  cases p.field? "body" with
  | none => exact List.Pairwise.nil
  | some b =>
    simp only [Option.toList_some, List.flatMap_singleton]
    exact (b.children_apart.filter _).filter _

theorem clauseStatements_sublist (c : Occurrence) : c.clauseStatements.Sublist c.children := by
  unfold clauseStatements
  split
  · exact List.filter_sublist.trans List.filter_sublist
  · exact List.filter_sublist

theorem below_of_alternative? (h : p.alternative? = some q) :
    ∃ u, p.field? "alternative" = some u ∧ Below u q := by
  obtain ⟨e, he, hq⟩ := alternative?_eq_some_iff.mp h
  split_ifs at hq
  · exact ⟨e, he, (inside_of_firstStatement? hq).below⟩
  · exact ⟨e, he, hq ▸ below_refl e⟩

theorem below_of_finalizerBlock? (h : p.finalizerBlock? = some q) :
    ∃ u, p.field? "finalizer" = some u ∧ Below u q := by
  obtain ⟨f, hf, hq | ⟨-, rfl⟩⟩ := finalizerBlock?_eq_some_iff.mp h
  · exact ⟨f, hf, (inside_of_field? hq).below⟩
  · exact ⟨f, hf, below_refl f⟩

theorem held_apart (p : Occurrence) : p.held.Pairwise Apart := by
  have hfield {name : String} : ∀ q, p.field? name = some q →
      ∃ u, p.field? name = some u ∧ Below u q :=
    fun q hq => ⟨q, hq, below_refl q⟩
  have hhandler : ∀ q, (p.field? "handler").bind (·.field? "body") = some q →
      ∃ u, p.field? "handler" = some u ∧ Below u q := by
    intro q hq
    obtain ⟨h, hh, hq⟩ := Option.bind_eq_some_iff.mp hq
    exact ⟨h, hh, (inside_of_field? hq).below⟩
  unfold held
  split
  · exact p.children_apart.filter _
  iterate 6 exact pairwise_toList _
  · exact p.values_apart.filter _
  · exact List.pairwise_append.mpr ⟨pairwise_toList _, pairwise_toList _,
      apart_toList (by decide) hfield fun _ => below_of_alternative?⟩
  · refine List.pairwise_flatMap.mpr
      ⟨fun c _ => ?_, p.clauses_apart.imp fun {c c'} h q hq r hr => ?_⟩
    · exact c.children_apart.sublist (clauseStatements_sublist c)
    · exact h.below (inside_of_mem ((clauseStatements_sublist c).subset hq)).below
        (inside_of_mem ((clauseStatements_sublist c').subset hr)).below
  · refine List.pairwise_append.mpr ⟨List.pairwise_append.mpr ⟨pairwise_toList _,
      pairwise_toList _, apart_toList (by decide) hfield hhandler⟩, pairwise_toList _, ?_⟩
    rw [List.forall_mem_append]
    exact ⟨apart_toList (by decide) hfield fun _ => below_of_finalizerBlock?,
      apart_toList (by decide) hhandler fun _ => below_of_finalizerBlock?⟩
  · exact pairwise_toList _
  all_goals exact List.Pairwise.nil

/-- A place and all places that it holds in turn. -/
def positions (p : Occurrence) : List Occurrence :=
  p :: p.held.attach.flatMap fun q => q.1.positions
termination_by p.tree.size
decreasing_by exact (inside_of_mem_held q.2).size_lt

theorem positions_eq (p : Occurrence) : p.positions = p :: p.held.flatMap positions := by
  rw [positions, List.flatMap_subtype fun _ _ => rfl, List.unattach_attach]

/-- What is held follows from what holds it. -/
theorem held_induction {P : Occurrence → Prop} (step : ∀ p, (∀ q ∈ p.held, P q) → P p)
    (p : Occurrence) : P p := by
  induction hn : p.tree.size using Nat.strongRecOn generalizing p with
  | ind n ih =>
    subst hn
    exact step p fun q hq => ih _ (inside_of_mem_held hq).size_lt q rfl

theorem below_of_mem_positions (p : Occurrence) : ∀ q ∈ p.positions, Below p q := by
  induction p using held_induction with
  | step p ih =>
    intro q hq
    rw [positions_eq] at hq
    rcases List.mem_cons.mp hq with rfl | hq
    · exact below_refl q
    · obtain ⟨r, hr, hq⟩ := List.mem_flatMap.mp hq
      exact (inside_of_mem_held hr).below.trans (ih r hr q hq)

theorem mem_positions_iff : q ∈ p.positions ↔ Relation.ReflTransGen Holds p q := by
  induction p using held_induction with
  | step p ih =>
    rw [positions_eq, Relation.ReflTransGen.cases_head_iff, List.mem_cons, List.mem_flatMap,
      eq_comm]
    refine or_congr_right (exists_congr fun r => ?_)
    rw [← mem_held_iff]
    exact and_congr_right fun hr => ih r hr

/-- No place is listed twice. -/
theorem nodup_positions (p : Occurrence) : (p.positions.map path).Nodup := by
  rw [List.Nodup, List.pairwise_map]
  induction p using held_induction with
  | step p ih =>
    rw [positions_eq]
    refine List.pairwise_cons.mpr ⟨?_, List.pairwise_flatMap.mpr ⟨ih, ?_⟩⟩
    · intro q hq
      obtain ⟨r, hr, hq⟩ := List.mem_flatMap.mp hq
      exact ((inside_of_mem_held hr).trans_below (below_of_mem_positions r q hq)).path_ne
    · refine p.held_apart.imp fun {r r'} h q hq q' hq' he => ?_
      have hapart := h.below (below_of_mem_positions r q hq) (below_of_mem_positions r' q' hq')
      exact hapart.1 (he ▸ List.prefix_refl _)

end Flowchart.Occurrence
