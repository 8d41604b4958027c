import Mathlib.Data.Set.Card
import Mathlib.Logic.Relation
/-!
# Depth-first order

The order in which a depth-first search leaves the nodes of a graph, whatever is done at a node. What
was seen before is not entered again, and neither is what is still open further up.

Results:
1. `Search`: the order, given as a relation, and with each node the way down to it.
2. `Search.unique`, `exists_search`: there is exactly one order, for graphs with cycles as well.
3. `Search.met`, `Search.closed`, `Search.reached`: the order holds what is reached over new nodes.
4. `Search.nodup`, `Search.above_later`: every node is left once, and after those entered over it.
5. `Search.leave_out`: the order over a part of a graph that nothing leads out of can be left out.
-/
namespace ModuleLoader

open Relation (ReflTransGen)

/-- A node, with those over which it was entered, the nearest one first. -/
structure Visit (α : Type) where
  node : α
  above : List α
deriving DecidableEq, Repr

def nodes {α : Type} (order : List (Visit α)) : List α := order.map Visit.node

/-- The order in which a search leaves the nodes that it enters. -/
inductive Search {α : Type} (next : α → List α) :
    Set α → List α → List α → List (Visit α) → Prop
  | done {seen : Set α} {above : List α} : Search next seen above [] []
  | skip {seen : Set α} {above rest : List α} {x : α} {order : List (Visit α)} :
      x ∈ seen → Search next seen above rest order → Search next seen above (x :: rest) order
  | enter {seen : Set α} {above rest : List α} {x : α} {inner outer : List (Visit α)} :
      x ∉ seen →
      Search next (insert x seen) (x :: above) (next x) inner →
      Search next (insert x seen ∪ {y | y ∈ nodes inner}) above rest outer →
      Search next seen above (x :: rest) (inner ++ ⟨x, above⟩ :: outer)

variable {α : Type} {next : α → List α} {seen : Set α} {above todo : List α}
  {order order' : List (Visit α)} {x y : α}

@[simp] theorem nodes_nil : nodes ([] : List (Visit α)) = [] := rfl

@[simp] theorem nodes_cons (v : Visit α) (order : List (Visit α)) :
    nodes (v :: order) = v.node :: nodes order := rfl

@[simp] theorem nodes_append (order order' : List (Visit α)) :
    nodes (order ++ order') = nodes order ++ nodes order' := List.map_append

theorem mem_nodes : x ∈ nodes order ↔ ∃ v ∈ order, v.node = x := List.mem_map

/-- Where no edge leads out of some nodes, no path does. -/
theorem mem_of_path {part : Set α} (hpart : ∀ a ∈ part, ∀ b ∈ next a, b ∈ part) (hx : x ∈ part)
    (hpath : ReflTransGen (fun a b => b ∈ next a) x y) : y ∈ part := by
  induction hpath with
  | refl => exact hx
  | tail _ hedge ih => exact hpart _ ih _ hedge

namespace Search

/-! ## One order -/

theorem unique (h : Search next seen above todo order) (h' : Search next seen above todo order') :
    order = order' := by
  induction h generalizing order' with
  | done => cases h'; rfl
  | skip hseen _ ih =>
    cases h' with
    | skip _ hrest => exact ih hrest
    | enter hnew => exact absurd hseen hnew
  | enter hnew _ _ ihinner ihouter =>
    cases h' with
    | skip hseen => exact absurd hseen hnew
    | enter _ hinner houter =>
      cases ihinner hinner
      cases ihouter houter
      rfl

/-! ## What is entered -/

/-- Whatever was to be entered was seen before or is entered. -/
theorem met (h : Search next seen above todo order) (hx : x ∈ todo) :
    x ∈ seen ∨ x ∈ nodes order := by
  induction h with
  | done => cases hx
  | skip hseen _ ih =>
    rcases List.mem_cons.mp hx with rfl | hrest
    · exact .inl hseen
    · exact ih hrest
  | enter _ _ _ _ ihouter =>
    rcases List.mem_cons.mp hx with rfl | hrest
    · exact .inr (by simp)
    · rcases ihouter hrest with ((rfl | hseen) | hinner) | houter
      · exact .inr (by simp)
      · exact .inl hseen
      · exact .inr (by simp [show x ∈ nodes _ from hinner])
      · exact .inr (by simp [houter])

/-- No edge leads out of what was seen before and what is entered. -/
theorem closed (h : Search next seen above todo order) (hx : x ∈ nodes order) (hy : y ∈ next x) :
    y ∈ seen ∨ y ∈ nodes order := by
  induction h with
  | done => cases hx
  | skip _ _ ih => exact ih hx
  | @enter seen above rest a inner outer hnew hinner houter ihinner ihouter =>
    simp only [nodes_append, nodes_cons, List.mem_append, List.mem_cons] at hx ⊢
    have hin : y ∈ insert a seen ∨ y ∈ nodes inner →
        y ∈ seen ∨ y ∈ nodes inner ∨ y = a ∨ y ∈ nodes outer := by
      rintro ((rfl | hseen) | hnode)
      · exact .inr (.inr (.inl rfl))
      · exact .inl hseen
      · exact .inr (.inl hnode)
    rcases hx with hx | rfl | hx
    · exact hin (ihinner hx)
    · exact hin (hinner.met hy)
    · rcases ihouter hx with hseen | hnode
      · exact hin hseen
      · exact .inr (.inr (.inr hnode))

/-- Every node of the order is reached from what was to be entered. -/
theorem reached (h : Search next seen above todo order) (hx : x ∈ nodes order) :
    ∃ a ∈ todo, ReflTransGen (fun a b => b ∈ next a) a x := by
  induction h with
  | done => cases hx
  | skip _ _ ih =>
    obtain ⟨a, ha, hpath⟩ := ih hx
    exact ⟨a, List.mem_cons_of_mem _ ha, hpath⟩
  | @enter seen above rest a inner outer _ _ _ ihinner ihouter =>
    simp only [nodes_append, nodes_cons, List.mem_append, List.mem_cons] at hx
    rcases hx with hx | rfl | hx
    · obtain ⟨b, hb, hpath⟩ := ihinner hx
      exact ⟨a, List.mem_cons_self, .head hb hpath⟩
    · exact ⟨x, List.mem_cons_self, .refl⟩
    · obtain ⟨b, hb, hpath⟩ := ihouter hx
      exact ⟨b, List.mem_cons_of_mem _ hb, hpath⟩

/-- What is reached from what was to be entered, without a step out of what was seen before, is
in the order. -/
theorem mem_of_reached (h : Search next seen above todo order) (hx : x ∈ todo)
    (hpath : ReflTransGen (fun a b => b ∈ next a) x y) (hseen : ∀ a ∈ seen, ∀ b ∈ next a, b ∈ seen) :
    y ∈ seen ∨ y ∈ nodes order := by
  induction hpath with
  | refl => exact h.met hx
  | tail _ hedge ih =>
    rcases ih with hin | hnode
    · exact .inl (hseen _ hin _ hedge)
    · exact h.closed hnode hedge

/-! ## Every node once -/

theorem not_seen (h : Search next seen above todo order) (hx : x ∈ nodes order) : x ∉ seen := by
  induction h with
  | done => cases hx
  | skip _ _ ih => exact ih hx
  | enter hnew _ _ ihinner ihouter =>
    simp only [nodes_append, nodes_cons, List.mem_append, List.mem_cons] at hx
    rcases hx with hx | rfl | hx
    · exact fun hseen => ihinner hx (.inr hseen)
    · exact hnew
    · exact fun hseen => ihouter hx (.inl (.inr hseen))

theorem nodup (h : Search next seen above todo order) : (nodes order).Nodup := by
  induction h with
  | done => exact List.nodup_nil
  | skip _ _ ih => exact ih
  | enter hnew hinner houter ihinner ihouter =>
    rw [nodes_append, nodes_cons, List.nodup_append, List.nodup_cons]
    refine ⟨ihinner, ⟨fun hx => houter.not_seen hx (.inl (.inl rfl)), ihouter⟩, ?_⟩
    rintro y hy z hz rfl
    rcases List.mem_cons.mp hz with rfl | hz
    · exact hinner.not_seen hy (.inl rfl)
    · exact houter.not_seen hz (.inr hy)

/-- A list is cut at a given member, or before it, or behind it. -/
theorem cut_cases {β : Type} {inner outer before after : List β} {a v : β}
    (h : inner ++ a :: outer = before ++ v :: after) :
    (inner = before ∧ a = v ∧ outer = after) ∨
      (∃ mid, inner = before ++ v :: mid ∧ after = mid ++ a :: outer) ∨
      ∃ mid, before = inner ++ a :: mid ∧ outer = mid ++ v :: after := by
  rcases List.append_eq_append_iff.mp h with ⟨mid, hbefore, hrest⟩ | ⟨mid, hinner, hrest⟩
  · cases mid with
    | nil =>
      cases hrest
      exact .inl ⟨(List.append_nil inner).symm.trans hbefore.symm, rfl, rfl⟩
    | cons w mid =>
      cases hrest
      exact .inr (.inr ⟨mid, hbefore, rfl⟩)
  · cases mid with
    | nil =>
      cases hrest
      exact .inl ⟨hinner.trans (List.append_nil before), rfl, rfl⟩
    | cons w mid =>
      cases hrest
      exact .inr (.inl ⟨mid, hinner, rfl⟩)

/-- What a node was entered over is left after it. -/
theorem above_later {before after : List (Visit α)} {v : Visit α}
    (h : Search next seen above todo order) (horder : order = before ++ v :: after)
    (hx : x ∈ v.above) : x ∈ above ∨ x ∈ nodes after := by
  induction h generalizing before after with
  | done => simp at horder
  | skip _ _ ih => exact ih horder
  | @enter seen above rest a inner outer hnew hinner houter ihinner ihouter =>
    rcases cut_cases horder with ⟨-, rfl, -⟩ | ⟨mid, hinner', rfl⟩ | ⟨mid, -, houter'⟩
    · exact .inl hx
    · rcases ihinner hinner' with habove | hafter
      · rcases List.mem_cons.mp habove with rfl | habove
        · exact .inr (by simp)
        · exact .inl habove
      · exact .inr (by simp [hafter])
    · exact ihouter houter'

/-- What waited from the start is above every node. -/
theorem above_suffix {v : Visit α} (h : Search next seen above todo order) (hv : v ∈ order) :
    above <:+ v.above := by
  induction h with
  | done => cases hv
  | skip _ _ ih => exact ih hv
  | enter _ _ _ ihinner ihouter =>
    rcases List.mem_append.mp hv with hv | hv
    · exact (List.suffix_cons _ _).trans (ihinner hv)
    · rcases List.mem_cons.mp hv with rfl | hv
      · exact List.suffix_refl _
      · exact ihouter hv

/-- An edge out of a node that was entered, or out of what was entered over it, leads to what was seen
before, or back. -/
theorem closed_entered {a b : α} {inner : List (Visit α)}
    (h : Search next (insert a seen) (a :: above) (next a) inner) (hb : b = a ∨ b ∈ nodes inner)
    (hy : y ∈ next b) : y ∈ seen ∨ y = a ∨ y ∈ nodes inner := by
  have hclosed : y ∈ insert a seen ∨ y ∈ nodes inner := by
    rcases hb with rfl | hb
    · exact h.met hy
    · exact h.closed hb hy
  rcases hclosed with (rfl | hseen) | hin
  · exact .inr (.inl rfl)
  · exact .inl hseen
  · exact .inr (.inr hin)

/-- When a node is left, the edges out of those left before lead to nodes that were seen, were left
as well, or are still open. -/
theorem closed_before {before after : List (Visit α)} {v : Visit α}
    (h : Search next seen above todo order) (horder : order = before ++ v :: after)
    (hx : x ∈ nodes before) (hy : y ∈ next x) :
    y ∈ seen ∨ y ∈ nodes before ∨ y = v.node ∨ y ∈ v.above := by
  induction h generalizing before after with
  | done => simp at horder
  | skip _ _ ih => exact ih horder hx
  | @enter seen above rest a inner outer hnew hinner houter ihinner ihouter =>
    rcases cut_cases horder with ⟨rfl, rfl, -⟩ | ⟨mid, hinner', -⟩ | ⟨mid, rfl, houter'⟩
    · rcases hinner.closed_entered (.inr hx) hy with hseen | rfl | hin
      · exact .inl hseen
      · exact .inr (.inr (.inl rfl))
      · exact .inr (.inl hin)
    · rcases ihinner hinner' hx with (rfl | hseen) | hbefore | hopen
      · refine .inr (.inr (.inr ?_))
        exact (hinner.above_suffix (hinner' ▸ by simp)).subset List.mem_cons_self
      · exact .inl hseen
      · exact .inr (.inl hbefore)
      · exact .inr (.inr hopen)
    · simp only [nodes_append, nodes_cons, List.mem_append, List.mem_cons] at hx ⊢
      rw [← or_assoc, or_comm (b := x = a)] at hx
      rcases hx with hx | hx
      · rcases hinner.closed_entered hx hy with hseen | rfl | hin
        · exact .inl hseen
        · exact .inr (.inl (.inr (.inl rfl)))
        · exact .inr (.inl (.inl hin))
      · rcases ihouter houter' hx with ((rfl | hseen) | hin) | hbefore | hopen
        · exact .inr (.inl (.inr (.inl rfl)))
        · exact .inl hseen
        · exact .inr (.inl (.inl hin))
        · exact .inr (.inl (.inr (.inr hbefore)))
        · exact .inr (.inr hopen)

/-- Each node was entered from the one above it, and the first of all was to be entered. -/
theorem way {v : Visit α} (h : Search next seen above todo order) (hv : v ∈ order) :
    ∃ below top, v.node :: v.above = below ++ top :: above ∧ top ∈ todo ∧
      (below ++ [top]).IsChain (fun a b => a ∈ next b) := by
  induction h with
  | done => cases hv
  | skip _ _ ih =>
    obtain ⟨below, top, heq, htop, hchain⟩ := ih hv
    exact ⟨below, top, heq, List.mem_cons_of_mem _ htop, hchain⟩
  | @enter seen above rest a inner outer _ _ _ ihinner ihouter =>
    rcases List.mem_append.mp hv with hv | hv
    · obtain ⟨below, top, heq, htop, hchain⟩ := ihinner hv
      refine ⟨below ++ [top], a, by simp [heq], List.mem_cons_self, ?_⟩
      rw [List.isChain_append]
      refine ⟨hchain, List.isChain_singleton _, ?_⟩
      intro b hb c hc
      simp only [List.getLast?_append, List.getLast?_singleton, Option.some_or,
        Option.mem_def, Option.some.injEq, List.head?_cons] at hb hc
      subst hb hc
      exact htop
    · rcases List.mem_cons.mp hv with rfl | hv
      · exact ⟨[], a, rfl, List.mem_cons_self, List.isChain_singleton _⟩
      · obtain ⟨below, top, heq, htop, hchain⟩ := ihouter hv
        exact ⟨below, top, heq, List.mem_cons_of_mem _ htop, hchain⟩

/-! ## Parts of a graph -/

/-- What is entered over a node of the part lies in the part. -/
theorem entered_subset {part : Set α} {a : α} {inner : List (Visit α)}
    (h : Search next (insert a seen) (a :: above) (next a) inner)
    (hpart : ∀ a ∈ part, ∀ b ∈ next a, b ∈ part) (ha : a ∈ part) : ∀ y ∈ nodes inner, y ∈ part := by
  intro y hy
  obtain ⟨b, hb, hpath⟩ := h.reached hy
  exact mem_of_path hpart (hpart a ha b hb) hpath

/-- Of what is left out, nothing is seen in addition to the part. -/
theorem seen_union_filter (part : Set α) [DecidablePred (· ∈ part)] (a : α) (inner : List (Visit α)) :
    insert a (seen ∪ part) ∪ {y | y ∈ nodes (inner.filter fun v => v.node ∉ part)} =
      insert a seen ∪ {y | y ∈ nodes inner} ∪ part := by
  ext y
  constructor
  · rintro ((rfl | hseen | hy) | hy)
    · exact .inl (.inl (.inl rfl))
    · exact .inl (.inl (.inr hseen))
    · exact .inr hy
    · obtain ⟨v, hv, rfl⟩ := mem_nodes.mp hy
      exact .inl (.inr (mem_nodes.mpr ⟨v, (List.mem_filter.mp hv).1, rfl⟩))
  · rintro (((rfl | hseen) | hy) | hy)
    · exact .inl (.inl rfl)
    · exact .inl (.inr (.inl hseen))
    · by_cases hin : y ∈ part
      · exact .inl (.inr (.inr hin))
      · obtain ⟨v, hv, rfl⟩ := mem_nodes.mp hy
        exact .inr (mem_nodes.mpr ⟨v, List.mem_filter.mpr ⟨hv, by simpa using hin⟩, rfl⟩)
    · exact .inl (.inr (.inr hy))

/-- Where no edge leads out of some nodes, the order over the others does not depend on them. -/
theorem leave_out (h : Search next seen above todo order) (part : Set α) [DecidablePred (· ∈ part)]
    (hpart : ∀ a ∈ part, ∀ b ∈ next a, b ∈ part) :
    Search next (seen ∪ part) above todo (order.filter fun v => v.node ∉ part) := by
  induction h with
  | done => exact .done
  | skip hseen _ ih => exact .skip (.inl hseen) ih
  | @enter seen above rest a inner outer hnew hinner houter ihinner ihouter =>
    rw [List.filter_append, List.filter_cons]
    by_cases ha : a ∈ part
    · have hall := hinner.entered_subset hpart ha
      have hnone : inner.filter (fun v => v.node ∉ part) = [] := by
        rw [List.filter_eq_nil_iff]
        intro v hv
        simpa using hall v.node (mem_nodes.mpr ⟨v, hv, rfl⟩)
      have hset : insert a seen ∪ {y | y ∈ nodes inner} ∪ part = seen ∪ part := by
        ext y
        constructor
        · rintro (((rfl | hseen) | hy) | hy)
          · exact .inr ha
          · exact .inl hseen
          · exact .inr (hall y hy)
          · exact .inr hy
        · rintro (hseen | hy)
          · exact .inl (.inl (.inr hseen))
          · exact .inr hy
      rw [hset] at ihouter
      rw [hnone, List.nil_append, if_neg (by simp [ha])]
      exact .skip (.inr ha) ihouter
    · rw [if_pos (by simp [ha])]
      refine .enter (fun hin => hin.elim hnew ha) ?_ ?_
      · rw [← Set.insert_union]
        exact ihinner
      · rw [seen_union_filter]
        exact ihouter

end Search

/-- There is an order wherever only finitely many nodes are reached. -/
theorem exists_search {region : Set α} (hfinite : region.Finite)
    (hclosed : ∀ x ∈ region, ∀ y ∈ next x, y ∈ region) (htodo : ∀ x ∈ todo, x ∈ region) :
    ∃ order, Search next seen above todo order := by
  induction hcount : (region \ seen).ncard using Nat.strong_induction_on
    generalizing seen above todo with
  | _ count ih =>
    induction todo with
    | nil => exact ⟨[], .done⟩
    | cons x rest ihrest =>
      have hx := htodo x List.mem_cons_self
      have hrest := fun y hy => htodo y (List.mem_cons_of_mem _ hy)
      by_cases hseen : x ∈ seen
      · obtain ⟨order, horder⟩ := ihrest hrest
        exact ⟨order, .skip hseen horder⟩
      · -- entering the node leaves fewer new ones, within it and after it
        have hless : ∀ more : Set α, (region \ (insert x seen ∪ more)).ncard < count := by
          intro more
          rw [← hcount]
          refine Set.ncard_lt_ncard ⟨fun y hy => ⟨hy.1, fun h => hy.2 (.inl (.inr h))⟩, fun h => ?_⟩
            (hfinite.subset Set.sdiff_subset)
          exact (h ⟨hx, hseen⟩).2 (.inl (.inl rfl))
        have hinner := hless ∅
        rw [Set.union_empty] at hinner
        obtain ⟨inner, hinner⟩ : ∃ inner, Search next (insert x seen) (x :: above) (next x) inner :=
          ih _ hinner (hclosed x hx) rfl
        obtain ⟨outer, houter⟩ := ih _ (hless {y | y ∈ nodes inner}) hrest rfl
        exact ⟨_, .enter hseen hinner houter⟩

end ModuleLoader
