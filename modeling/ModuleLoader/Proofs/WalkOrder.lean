import ModuleLoader.Proofs.Membership
import ModuleLoader.Proofs.Remaining

/-!
# The order of a walk

A walk has its jobs to visit on a stack, on which one job can wait at several places. The order of its
visits is that of a recursion all the same: a job first, then everything behind its dependencies, as
it declares them one after the other, and then what waits beside it.

Results:
1. `PreOrder`: depth-first pre-order as a recursion. There is one for every graph of jobs, and it is
   the only one: `exists_preOrder`, `PreOrder.unique`.
2. `PreOrder.mem_iff`, `PreOrder.nodup`: it has everything that is reached, each job once.
3. `Walks.preOrder`: whatever a walk has visited is the beginning of that order.
4. `Stops.fails`, `PreOrder.walks`: how far a walk gets in the order, and what it is stopped by.
5. `walk_exact`: where every walk of every run ends, after finitely many steps of its own.
-/

namespace ModuleLoader

open Relation (ReflTransGen)

/-- The walk that an instantiation is at. -/
def Instantiation.walk? : Instantiation → Option Walk
  | walking walk => some walk
  | _ => none

namespace Loader

/-! ## Depth-first pre-order -/

/-- The jobs that a job depends on, as far as they are known. -/
def dependenciesOf (l : Loader) (j : JobId) : List JobId :=
  match l.linked? j with
  | some (.ok dependencies) => dependencies
  | _ => []

/--
`l.PreOrder visited todo order`: when the jobs to do are visited one after the other, and each time
what is behind a job before the next one, then these come on top of the visited ones in this order.

* `seen`: a job that was visited is passed.
* `visit`: another one comes before all that is behind its dependencies, and that before the rest.
-/
inductive PreOrder (l : Loader) : List JobId → List JobId → List JobId → Prop
  | done {visited : List JobId} : l.PreOrder visited [] []
  | seen {visited rest order : List JobId} {j : JobId} :
      j ∈ visited → l.PreOrder visited rest order → l.PreOrder visited (j :: rest) order
  | visit {visited rest below behind : List JobId} {j : JobId} :
      j ∉ visited → l.PreOrder (visited ++ [j]) (l.dependenciesOf j) below →
      l.PreOrder (visited ++ j :: below) rest behind →
      l.PreOrder visited (j :: rest) (j :: (below ++ behind))

/-- These jobs have all linked their units. -/
def Linked (l : Loader) (jobs : List JobId) : Prop :=
  ∀ x ∈ jobs, ∃ dependencies, l.linked? x = some (.ok dependencies)

/-- The first of these jobs that has not linked its unit has failed to, with this error. -/
def Fails (l : Loader) (jobs : List JobId) (e : LoadError) : Prop :=
  ∃ before j behind, jobs = before ++ j :: behind ∧ l.Linked before ∧
    l.linked? j = some (.error e)

variable {l : Loader} {j root : JobId} {visited todo rest order order' a b seen : List JobId}

theorem dependenciesOf_of_linked {dependencies : List JobId}
    (h : l.linked? j = some (.ok dependencies)) : l.dependenciesOf j = dependencies := by
  unfold dependenciesOf
  rw [h]

theorem edge_iff {k : JobId} : l.Edge j k ↔ k ∈ l.dependenciesOf j := by
  refine ⟨fun ⟨dependencies, hlinked, hin⟩ => dependenciesOf_of_linked hlinked ▸ hin, fun h => ?_⟩
  unfold dependenciesOf at h
  split at h
  next dependencies hlinked => exact ⟨dependencies, hlinked, h⟩
  next => cases h

namespace PreOrder

theorem of_seen (h : l.PreOrder visited (j :: rest) order) (hin : j ∈ visited) :
    l.PreOrder visited rest order := by
  cases h with
  | seen _ hrest => exact hrest
  | visit hnew => exact absurd hin hnew

theorem of_new (h : l.PreOrder visited (j :: rest) order) (hnew : j ∉ visited) :
    ∃ below behind, order = j :: (below ++ behind) ∧
      l.PreOrder (visited ++ [j]) (l.dependenciesOf j) below ∧
      l.PreOrder (visited ++ j :: below) rest behind := by
  cases h with
  | seen hin => exact absurd hin hnew
  | visit _ hbelow hbehind => exact ⟨_, _, rfl, hbelow, hbehind⟩

theorem unique (h : l.PreOrder visited todo order) (h' : l.PreOrder visited todo order') :
    order = order' := by
  induction h generalizing order' with
  | done =>
    cases h'
    rfl
  | seen hin _ ih => exact ih (h'.of_seen hin)
  | visit hnew _ _ ihbelow ihbehind =>
    obtain ⟨below, behind, rfl, hbelow, hbehind⟩ := h'.of_new hnew
    obtain rfl := ihbelow hbelow
    rw [ihbehind hbehind]

/-- What is to do falls into parts, of which the second one comes on top of the first. -/
theorem append (h : l.PreOrder visited a order) (h' : l.PreOrder (visited ++ order) b order') :
    l.PreOrder visited (a ++ b) (order ++ order') := by
  induction h with
  | done => rwa [List.append_nil] at h'
  | seen hin _ ih => exact .seen hin (ih h')
  | @visit visited rest below behind j hnew hbelow _ _ ih =>
    have hparts : visited ++ j :: (below ++ behind) = visited ++ j :: below ++ behind := by
      rw [List.append_assoc, List.cons_append]
    rw [hparts] at h'
    rw [List.cons_append, List.cons_append, List.append_assoc]
    exact .visit hnew hbelow (ih h')

/-- Jobs that were visited can be left out. -/
theorem filter (h : l.PreOrder visited todo order) (hseen : ∀ x ∈ seen, x ∈ visited) :
    l.PreOrder visited (todo.filter fun d => !seen.elem d) order := by
  induction h with
  | done => exact .done
  | @seen visited rest order j hin _ ih =>
    rw [List.filter_cons]
    split
    next => exact .seen hin (ih hseen)
    next => exact ih hseen
  | @visit visited rest below behind j hnew hbelow _ _ ih =>
    have hkept : (!seen.elem j) = true := by
      rw [Bool.not_eq_true', ← Bool.not_eq_true, List.elem_iff]
      exact fun hin => hnew (hseen j hin)
    rw [List.filter_cons, if_pos hkept]
    exact .visit hnew hbelow (ih fun x hx => List.mem_append_left _ (hseen x hx))

/-! ### Which jobs it has -/

/-- Nothing comes twice. -/
theorem nodup (h : l.PreOrder visited todo order) : order.Nodup ∧ ∀ x ∈ order, x ∉ visited := by
  induction h with
  | done => exact ⟨List.nodup_nil, List.forall_mem_nil _⟩
  | seen _ _ ih => exact ih
  | @visit visited rest below behind j hnew _ _ ihbelow ihbehind =>
    obtain ⟨hbelow, hnewbelow⟩ := ihbelow
    obtain ⟨hbehind, hnewbehind⟩ := ihbehind
    have hapart : ∀ x ∈ below, x ≠ j ∧ x ∉ visited := fun x hx =>
      ⟨fun heq => hnewbelow x hx (List.mem_append_right _ (List.mem_singleton.mpr heq)),
        fun hin => hnewbelow x hx (List.mem_append_left _ hin)⟩
    have hbehind' : ∀ x ∈ behind, x ∉ visited ∧ x ≠ j ∧ x ∉ below := fun x hx =>
      ⟨fun hin => hnewbehind x hx (List.mem_append_left _ hin),
        fun heq => hnewbehind x hx (List.mem_append_right _ (heq ▸ List.mem_cons_self)),
        fun hin => hnewbehind x hx (List.mem_append_right _ (List.mem_cons_of_mem _ hin))⟩
    refine ⟨List.nodup_cons.mpr ⟨fun hin => ?_, ?_⟩, fun x hx => ?_⟩
    · rcases List.mem_append.mp hin with hin | hin
      · exact (hapart j hin).1 rfl
      · exact (hbehind' j hin).2.1 rfl
    · exact List.nodup_append.mpr ⟨hbelow, hbehind, fun x hx y hy heq =>
        (hbehind' y hy).2.2 (heq ▸ hx)⟩
    · rcases List.mem_cons.mp hx with rfl | hx
      · exact hnew
      · rcases List.mem_append.mp hx with hx | hx
        · exact (hapart x hx).2
        · exact (hbehind' x hx).1

/-- Only what is reached from the jobs to do comes. -/
theorem reaches (h : l.PreOrder visited todo order) {x : JobId} (hx : x ∈ order) :
    ∃ t ∈ todo, l.Reaches t x := by
  induction h with
  | done => cases hx
  | seen _ _ ih =>
    obtain ⟨t, ht, hreaches⟩ := ih hx
    exact ⟨t, List.mem_cons_of_mem _ ht, hreaches⟩
  | @visit visited rest below behind j _ _ _ ihbelow ihbehind =>
    rcases List.mem_cons.mp hx with rfl | hx
    · exact ⟨x, List.mem_cons_self, .refl⟩
    · rcases List.mem_append.mp hx with hx | hx
      · obtain ⟨t, ht, hreaches⟩ := ihbelow hx
        exact ⟨j, List.mem_cons_self, .head (edge_iff.mpr ht) hreaches⟩
      · obtain ⟨t, ht, hreaches⟩ := ihbehind hx
        exact ⟨t, List.mem_cons_of_mem _ ht, hreaches⟩

/-- What is to do is visited in the end, and so is whatever a visited job depends on. -/
theorem covers (h : l.PreOrder visited todo order) :
    (∀ x ∈ todo, x ∈ visited ++ order) ∧
      ∀ x ∈ order, ∀ d ∈ l.dependenciesOf x, d ∈ visited ++ order := by
  induction h with
  | done => exact ⟨List.forall_mem_nil _, List.forall_mem_nil _⟩
  | seen hin _ ih =>
    refine ⟨fun x hx => ?_, ih.2⟩
    rcases List.mem_cons.mp hx with rfl | hx
    · exact List.mem_append_left _ hin
    · exact ih.1 x hx
  | @visit visited rest below behind j _ _ _ ihbelow ihbehind =>
    have hall : visited ++ j :: (below ++ behind) = visited ++ j :: below ++ behind := by
      rw [List.append_assoc, List.cons_append]
    have hgrows : ∀ d, d ∈ visited ++ [j] ++ below → d ∈ visited ++ j :: (below ++ behind) := by
      intro d hd
      rw [List.append_assoc] at hd
      exact hall ▸ List.mem_append_left _ hd
    refine ⟨fun x hx => ?_, fun x hx d hd => ?_⟩
    · rcases List.mem_cons.mp hx with rfl | hx
      · exact List.mem_append_right _ List.mem_cons_self
      · exact hall ▸ ihbehind.1 x hx
    · rcases List.mem_cons.mp hx with rfl | hx
      · exact hgrows d (ihbelow.1 d hd)
      · rcases List.mem_append.mp hx with hx | hx
        · exact hgrows d (ihbelow.2 x hx d hd)
        · exact hall ▸ ihbehind.2 x hx d hd

/-- From one job the order has exactly what the job reaches. -/
theorem mem_iff (h : l.PreOrder [] [root] order) {x : JobId} : x ∈ order ↔ l.Reaches root x := by
  refine ⟨fun hx => ?_, fun hreaches => ?_⟩
  · obtain ⟨t, ht, hreaches⟩ := h.reaches hx
    exact List.mem_singleton.mp ht ▸ hreaches
  · obtain ⟨htodo, hclosed⟩ := h.covers
    induction hreaches with
    | refl => exact htodo root List.mem_cons_self
    | tail _ hedge ih => exact hclosed _ ih _ (edge_iff.mp hedge)

theorem head (h : l.PreOrder [] [root] order) : order.head? = some root := by
  obtain ⟨below, behind, rfl, -, -⟩ := h.of_new List.not_mem_nil
  rfl

end PreOrder

/-! ### There is one -/

/-- The jobs of a loader that are not among the visited ones. -/
def unseen (l : Loader) (visited : List JobId) : Nat :=
  (Walk.mk visited []).unvisited l.jobs.size

theorem unseen_visit (hnew : j ∉ visited) (hlt : j.index < l.jobs.size) :
    l.unseen (visited ++ [j]) < l.unseen visited :=
  Walk.unvisited_visit (w := ⟨visited, []⟩) [] [] hnew hlt

theorem unseen_append (l : Loader) (visited more : List JobId) :
    l.unseen (visited ++ more) ≤ l.unseen visited := by
  unfold unseen Walk.unvisited
  refine Finset.card_le_card fun i hi => ?_
  obtain ⟨hrange, hnot⟩ := Finset.mem_filter.mp hi
  exact Finset.mem_filter.mpr ⟨hrange, fun hin => hnot (List.mem_append_left _ hin)⟩

theorem dependenciesOf_of_le (h : l.jobs.size ≤ j.index) : l.dependenciesOf j = [] := by
  have hnone : l.linked? j = none := by
    unfold linked? ModuleMap.job?
    rw [Array.getElem?_eq_none h]
    rfl
  unfold dependenciesOf
  rw [hnone]

/-- A visit leaves less jobs for what is behind it, and the rest is shorter. -/
theorem exists_preOrder (l : Loader) (visited todo : List JobId) :
    ∃ order, l.PreOrder visited todo order := by
  obtain ⟨bound, hbound⟩ : ∃ bound, l.unseen visited ≤ bound := ⟨_, Nat.le_refl _⟩
  induction bound using Nat.strong_induction_on generalizing visited todo with
  | _ bound ih =>
    induction todo generalizing visited with
    | nil => exact ⟨[], .done⟩
    | cons j rest ihrest =>
      by_cases hin : j ∈ visited
      · obtain ⟨order, horder⟩ := ihrest visited hbound
        exact ⟨order, .seen hin horder⟩
      · obtain ⟨below, hbelow⟩ : ∃ below, l.PreOrder (visited ++ [j]) (l.dependenciesOf j) below := by
          rcases Nat.lt_or_ge j.index l.jobs.size with hlt | hge
          · exact ih _ (Nat.lt_of_lt_of_le (unseen_visit hin hlt) hbound) _ _ (Nat.le_refl _)
          · rw [dependenciesOf_of_le hge]
            exact ⟨[], .done⟩
        obtain ⟨behind, hbehind⟩ := ihrest (visited ++ j :: below)
          (Nat.le_trans (unseen_append l visited _) hbound)
        exact ⟨_, .visit hin hbelow hbehind⟩

/-! ## Walks go in this order -/

variable {start walk walk' : Walk} {before behind : List JobId} {e : LoadError}

/-- After a visit the rest of the order is left. -/
theorem PreOrder.after_visit {dependencies : List JobId}
    (h : l.PreOrder walk.members (j :: rest) order) (hnew : j ∉ walk.members)
    (hlinked : l.linked? j = some (.ok dependencies)) :
    ∃ order', order = j :: order' ∧ l.PreOrder (walk.visit j rest dependencies).members
      (walk.visit j rest dependencies).stack order' := by
  obtain ⟨below, behind, rfl, hbelow, hbehind⟩ := h.of_new hnew
  have hmembers : walk.members ++ j :: below = walk.members ++ [j] ++ below := by
    rw [List.append_assoc]
    rfl
  rw [dependenciesOf_of_linked hlinked] at hbelow
  exact ⟨below ++ behind, rfl, (hbelow.filter fun _ hx => hx).append (hmembers ▸ hbehind)⟩

/-- What a walk has visited comes first in the order, and what is to come last. -/
theorem Walks.preOrder (h : l.Walks start walk) (hstart : l.PreOrder start.members start.stack order) :
    ∃ rest, l.PreOrder walk.members walk.stack rest ∧
      start.members ++ order = walk.members ++ rest := by
  induction h with
  | refl => exact ⟨order, hstart, rfl⟩
  | pass _ hstack hin ih =>
    obtain ⟨rest, hrest, hsame⟩ := ih
    exact ⟨rest, (hstack ▸ hrest).of_seen hin, hsame⟩
  | @visit walk next _ _ _ hstack hnew hlinked ih =>
    obtain ⟨rest, hrest, hsame⟩ := ih
    obtain ⟨order', rfl, horder⟩ := PreOrder.after_visit (hstack ▸ hrest) hnew hlinked
    refine ⟨order', horder, ?_⟩
    change _ = walk.members ++ [next] ++ order'
    rw [hsame, List.append_assoc]
    rfl

theorem Walks.linked (h : l.Walks (.start root) walk) : l.Linked walk.members := fun x hx =>
  let ⟨dependencies, hlinked, _⟩ := h.walked x hx
  ⟨dependencies, hlinked⟩

/-- What stops a walk is the first failed link phase in its order. -/
theorem Stops.fails (h : l.Stops walk e) (horder : l.PreOrder walk.members walk.stack order) :
    l.Fails order e := by
  induction h generalizing order with
  | @here walk next rest e hstack hnew hlinked =>
    obtain ⟨below, behind, rfl, -, -⟩ := (hstack ▸ horder).of_new hnew
    exact ⟨[], next, _, rfl, List.forall_mem_nil _, hlinked⟩
  | pass hstack hin _ ih => exact ih ((hstack ▸ horder).of_seen hin)
  | @visit walk next rest dependencies e hstack hnew hlinked _ ih =>
    obtain ⟨order', rfl, hrest⟩ := PreOrder.after_visit (hstack ▸ horder) hnew hlinked
    obtain ⟨before, j, behind, rfl, hbefore, hfailed⟩ := ih hrest
    exact ⟨next :: before, j, behind, rfl,
      List.forall_mem_cons.mpr ⟨⟨dependencies, hlinked⟩, hbefore⟩, hfailed⟩

theorem Walks.trans (h : l.Walks start walk) (h' : l.Walks walk walk') : l.Walks start walk' := by
  induction h' with
  | refl => exact h
  | pass _ hstack hin ih => exact .pass ih hstack hin
  | visit _ hstack hnew hlinked ih => exact .visit ih hstack hnew hlinked

/-- A walk passes what it has visited until nothing is left, or the next job of the order. -/
theorem PreOrder.passes (h : l.PreOrder visited todo order) :
    (order = [] → l.Walks ⟨visited, todo⟩ ⟨visited, []⟩) ∧
      ∀ j behind, order = j :: behind → j ∉ visited ∧ ∃ rest,
        l.Walks ⟨visited, todo⟩ ⟨visited, j :: rest⟩ ∧ l.PreOrder visited (j :: rest) order := by
  induction h with
  | done => exact ⟨fun _ => .refl, nofun⟩
  | @seen visited rest order j hin _ ih =>
    have hpass : l.Walks ⟨visited, j :: rest⟩ ⟨visited, rest⟩ := .pass .refl rfl hin
    refine ⟨fun hnil => hpass.trans (ih.1 hnil), fun k behind horder => ?_⟩
    obtain ⟨hnew, rest', hwalks, hrest⟩ := ih.2 k behind horder
    exact ⟨hnew, rest', hpass.trans hwalks, hrest⟩
  | @visit visited rest _ _ j hnew hbelow hbehind =>
    refine ⟨nofun, fun k behind horder => ?_⟩
    obtain ⟨rfl, -⟩ := List.cons_eq_cons.mp horder
    exact ⟨hnew, rest, .refl, .visit hnew hbelow hbehind⟩

/-- A walk gets as far in the order as units are linked. -/
theorem PreOrder.walks (h : l.PreOrder walk.members walk.stack (before ++ behind))
    (hlinked : l.Linked before) :
    ∃ stack, l.Walks walk ⟨walk.members ++ before, stack⟩ ∧
      l.PreOrder (walk.members ++ before) stack behind := by
  induction before generalizing walk with
  | nil =>
    rw [List.append_nil]
    exact ⟨walk.stack, .refl, h⟩
  | cons j before ih =>
    obtain ⟨⟨dependencies, hj⟩, hbefore⟩ := List.forall_mem_cons.mp hlinked
    obtain ⟨hnew, rest, hwalks, hrest⟩ := h.passes.2 j (before ++ behind) rfl
    have hvisit := Walks.visit hwalks rfl hnew hj
    obtain ⟨_, heq, hnext⟩ := PreOrder.after_visit hrest hnew hj
    obtain ⟨-, rfl⟩ := List.cons_eq_cons.mp heq
    obtain ⟨stack, hon, hbehind⟩ := ih hnext hbefore
    have hmembers : (walk.visit j rest dependencies).members ++ before =
        walk.members ++ j :: before := by
      change walk.members ++ [j] ++ before = _
      rw [List.append_assoc]
      rfl
    rw [hmembers] at hon hbehind
    exact ⟨stack, hvisit.trans hon, hbehind⟩

/-- Where every link phase has ended, all have linked their units or one was the first to fail. -/
theorem linked_or_fails {jobs : List JobId} (h : ∀ x ∈ jobs, ∃ result, l.linked? x = some result) :
    l.Linked jobs ∨ ∃ e, l.Fails jobs e := by
  induction jobs with
  | nil => exact .inl (List.forall_mem_nil _)
  | cons x jobs ih =>
    obtain ⟨⟨result, hx⟩, hrest⟩ := List.forall_mem_cons.mp h
    cases result with
    | error e => exact .inr ⟨e, [], x, jobs, rfl, List.forall_mem_nil _, hx⟩
    | ok dependencies =>
      rcases ih hrest with hlinked | ⟨e, before, j, behind, rfl, hbefore, hj⟩
      · exact .inl (List.forall_mem_cons.mpr ⟨⟨dependencies, hx⟩, hlinked⟩)
      · exact .inr ⟨e, x :: before, j, behind, rfl,
          List.forall_mem_cons.mpr ⟨⟨dependencies, hx⟩, hbefore⟩, hj⟩

theorem Fails.of_append {jobs more : List JobId} (h : l.Fails (jobs ++ more) e)
    (hjobs : l.Linked jobs) : l.Fails more e := by
  induction jobs with
  | nil => exact h
  | cons x jobs ih =>
    obtain ⟨⟨dependencies, hx⟩, hrest⟩ := List.forall_mem_cons.mp hjobs
    obtain ⟨before, j, behind, hparts, hbefore, hj⟩ := h
    cases before with
    | nil =>
      obtain ⟨rfl, -⟩ := List.cons_eq_cons.mp hparts
      cases hx.symm.trans hj
    | cons y before =>
      exact ih ⟨before, j, behind, (List.cons_eq_cons.mp hparts).2,
        (List.forall_mem_cons.mp hbefore).2, hj⟩ hrest

/-! ## Walks of a run -/

/-- The walk that a job is at, as far as it has come. -/
def walk? (l : Loader) (root : JobId) : Option Walk :=
  (l.job? root).bind fun job => job.instantiation.walk?

theorem walk?_eq_some : l.walk? root = some walk ↔
    ∃ job, l.job? root = some job ∧ job.instantiation = .walking walk := by
  unfold walk?
  rw [Option.bind_eq_some_iff]
  refine exists_congr fun job => and_congr_right fun _ => ?_
  cases job.instantiation <;> simp [Instantiation.walk?]

/-- Every component has the members that a walk from its root has visited to the end. -/
def Traced (l : Loader) : Prop :=
  ∀ c ∈ l.components, l.Walks (.start c.root) ⟨c.members, []⟩

end Loader

namespace Machine

variable {l : Loader} {m m' : Machine} {action : Action} {root j : JobId} {walk walk' : Walk}
  {rest dependencies : List JobId} {e : LoadError} {goal : Machine → Prop}

theorem Rule.traced (h : Rule m action m') (hr : m.loader.resolver.Sound) (hg : m.loader.Grouped)
    (hm : m.loader.Traced) : m'.loader.Traced := by
  have hlater := h.later hr
  have hold : ∀ c ∈ m.loader.components, m'.loader.Walks (.start c.root) ⟨c.members, []⟩ :=
    fun c hc => (hm c hc).mono hlater
  rcases Regular.components_cases h with hsame | ⟨made, hpush⟩
  · exact fun c hc => hold c (hsame ▸ hc)
  · obtain ⟨job, walk, unit, hjob, hwalking, hstack, -, -, -, hmade⟩ :=
      Regular.component_of_step h hpush
    intro c hc
    rw [hpush] at hc
    rcases Array.mem_push.mp hc with hin | rfl
    · exact hold c hin
    · have hmembers : c.members = walk.members := congrArg Component.members hmade
      rw [hmembers, ← hstack]
      exact (hg.walking _ _ _ hjob hwalking).mono hlater

theorem traced_after (host : Host) (settings : Settings) (events : List Event) :
    ((ofSettings host settings).after events).loader.Traced :=
  (after_induction (m := ofSettings host settings)
    (P := fun m => m.loader.resolver.Sound ∧ m.loader.Grouped ∧ m.loader.Traced)
    (fun hrule h => ⟨hrule.resolver.sound h.1, hrule.grouped h.1 h.2.1, hrule.traced h.1 h.2.1 h.2.2⟩)
    (fun _ h => h)
    ⟨Resolver.sound_ofSettings settings, grouped_after host settings [],
      fun c hc => absurd hc (Array.not_mem_empty c)⟩ events).2.2

/-! ### Steps of a walk -/

/-- The event is a step of the instantiation of this job. -/
def Event.instantiates (root : JobId) : Event → Bool
  | .step action => action = .instantiate root
  | .host _ => false

theorem walk?_setInstantiation (h : m.loader.walk? root = some walk) (walk' : Walk) :
    (m.setInstantiation root (.walking walk')).loader.walk? root = some walk' :=
  let ⟨_, hjob, _⟩ := Loader.walk?_eq_some.mp h
  Loader.walk?_eq_some.mpr ⟨_, Loader.job?_changeJob_self _ hjob, rfl⟩

theorem happen_of_pass (h : m.loader.walk? root = some walk) (hstack : walk.stack = j :: rest)
    (hin : j ∈ walk.members) :
    m.happen (.step (.instantiate root)) =
      m.setInstantiation root (.walking { walk with stack := rest }) := by
  obtain ⟨job, hjob, hwalking⟩ := Loader.walk?_eq_some.mp h
  exact (Rule.walkPass hjob hwalking hstack hin).happen_eq

theorem happen_of_visit (h : m.loader.walk? root = some walk) (hstack : walk.stack = j :: rest)
    (hnew : j ∉ walk.members) (hlinked : m.loader.linked? j = some (.ok dependencies)) :
    m.happen (.step (.instantiate root)) =
      m.setInstantiation root (.walking (walk.visit j rest dependencies)) := by
  obtain ⟨job, hjob, hwalking⟩ := Loader.walk?_eq_some.mp h
  exact (Rule.walkVisit hjob hwalking hstack hnew hlinked).happen_eq

theorem happen_of_stop (h : m.loader.walk? root = some walk) (hstack : walk.stack = j :: rest)
    (hnew : j ∉ walk.members) (hlinked : m.loader.linked? j = some (.error e)) :
    m.happen (.step (.instantiate root)) = m.setInstantiation root (.done (.error e)) := by
  obtain ⟨job, hjob, hwalking⟩ := Loader.walk?_eq_some.mp h
  exact (Rule.walkStopped hjob hwalking hstack hnew hlinked).happen_eq

/-- Nothing else gets a walk further. -/
theorem walk?_happen (h : m.loader.walk? root = some walk) (hr : m.loader.resolver.Sound)
    {event : Event} (hother : event.instantiates root = false) :
    (m.happen event).loader.walk? root = some walk := by
  obtain ⟨job, hjob, hwalking⟩ := Loader.walk?_eq_some.mp h
  cases event with
  | host host => exact h
  | step action =>
    rcases m.happen_cases action with hsame | hrule
    · rw [hsame]
      exact h
    · exact Loader.walk?_eq_some.mpr
        (hrule.walking hr (of_decide_eq_false hother) hjob hwalking)

/--
From any machine that comes after this loader, with this walk on its way, the goal is reached by so
many steps of the walk, whatever else happens between them.
-/
def ComesTo (l : Loader) (root : JobId) (walk : Walk) (n : Nat) (goal : Machine → Prop) : Prop :=
  ∀ (m : Machine) (more : List Event), l.Later m.loader → m.loader.resolver.Sound →
    m.loader.walk? root = some walk → more.countP (·.instantiates root) = n → goal (m.after more)

theorem comesTo_self (l : Loader) (root : JobId) (walk : Walk) :
    ComesTo l root walk 0 fun m => m.loader.walk? root = some walk := by
  intro m more hlater hr hwalking hcount
  induction more generalizing m with
  | nil => exact hwalking
  | cons event more ih =>
    have hall := List.countP_eq_zero.mp hcount
    have hother := Bool.eq_false_iff.mpr (hall event List.mem_cons_self)
    exact ih (m.happen event) (hlater.trans (later_after hr [event])) (sound_after hr [event])
      (walk?_happen hwalking hr hother)
      (List.countP_eq_zero.mpr fun x hx => hall x (List.mem_cons_of_mem _ hx))

/-- The next step of the walk comes first, after anything that is no step of it. -/
theorem comesTo_succ {n : Nat}
    (hstep : ∀ (m : Machine) (more : List Event), l.Later m.loader → m.loader.resolver.Sound →
      m.loader.walk? root = some walk → more.countP (·.instantiates root) = n →
      goal ((m.happen (.step (.instantiate root))).after more)) :
    ComesTo l root walk (n + 1) goal := by
  intro m more hlater hr hwalking hcount
  induction more generalizing m with
  | nil => cases hcount
  | cons event more ih =>
    cases hown : event.instantiates root with
    | true =>
      rw [List.countP_cons_of_pos hown] at hcount
      cases event with
      | host host => cases hown
      | step action =>
        obtain rfl := of_decide_eq_true hown
        exact hstep m more hlater hr hwalking (Nat.succ.inj hcount)
    | false =>
      rw [List.countP_cons_of_neg (Bool.not_eq_true _ ▸ hown)] at hcount
      exact ih (m.happen event) (hlater.trans (later_after hr [event])) (sound_after hr [event])
        (walk?_happen hwalking hr hown) hcount

/-- The step of a walk that takes it to another one. -/
theorem comesTo_of_step {n : Nat} (h : ComesTo l root walk' n goal)
    (hstep : ∀ m : Machine, l.Later m.loader → m.loader.walk? root = some walk →
      m.happen (.step (.instantiate root)) = m.setInstantiation root (.walking walk')) :
    ComesTo l root walk (n + 1) goal := by
  refine comesTo_succ fun m more hlater hr hwalking hcount => ?_
  let event : Event := .step (.instantiate root)
  have hnext : (m.happen event).loader.walk? root = some walk' := by
    rw [hstep m hlater hwalking]
    exact walk?_setInstantiation hwalking walk'
  exact h (m.happen event) more (hlater.trans (later_after hr [event])) (sound_after hr [event])
    hnext hcount

/-- What is reached at the end of a walk is reached from its start. -/
theorem comesTo_of_walks (h : l.Walks walk walk') (hgoal : ∃ n, ComesTo l root walk' n goal) :
    ∃ n, ComesTo l root walk n goal := by
  induction h with
  | refl => exact hgoal
  | pass _ hstack hin ih =>
    obtain ⟨n, hn⟩ := hgoal
    exact ih ⟨n + 1, comesTo_of_step hn fun m _ hwalking => happen_of_pass hwalking hstack hin⟩
  | visit _ hstack hnew hlinked ih =>
    obtain ⟨n, hn⟩ := hgoal
    exact ih ⟨n + 1, comesTo_of_step hn fun m hlater hwalking =>
      happen_of_visit hwalking hstack hnew (hlater.linked hlinked)⟩

/-- A walk whose next job has failed to link its unit ends with that error. -/
theorem comesTo_of_stop (hstack : walk.stack = j :: rest) (hnew : j ∉ walk.members)
    (hlinked : l.linked? j = some (.error e)) :
    ComesTo l root walk 1 fun m => m.loader.instantiated? root = some (.error e) := by
  refine comesTo_succ fun m more hlater hr hwalking _ => ?_
  let event : Event := .step (.instantiate root)
  have hdone : (m.happen event).loader.instantiated? root = some (.error e) := by
    rw [happen_of_stop hwalking hstack hnew (hlater.linked hlinked)]
    obtain ⟨job, hjob, -⟩ := Loader.walk?_eq_some.mp hwalking
    exact Loader.instantiated?_eq_some.mpr ⟨_, Loader.job?_changeJob_self _ hjob, rfl⟩
  exact (later_after (m := m.happen event) (sound_after hr [event]) more).instantiated hdone

/-! ### Where walks end -/

/-- A walk over jobs that have all linked their units visits the whole order. -/
theorem comesTo_order {order : List JobId} (h : l.PreOrder walk.members walk.stack order)
    (hlinked : l.Linked order) :
    ∃ n, ComesTo l root walk n fun m => m.loader.walk? root = some ⟨walk.members ++ order, []⟩ := by
  rw [← List.append_nil order] at h
  obtain ⟨stack, hwalks, hnothing⟩ := h.walks hlinked
  exact comesTo_of_walks (hwalks.trans (hnothing.passes.1 rfl)) ⟨0, comesTo_self l root _⟩

/-- A walk ends with the first error in its order. -/
theorem comesTo_error {order : List JobId} (h : l.PreOrder walk.members walk.stack order)
    (hfails : l.Fails order e) :
    ∃ n, ComesTo l root walk n fun m => m.loader.instantiated? root = some (.error e) := by
  obtain ⟨before, j, behind, rfl, hbefore, hfailed⟩ := hfails
  obtain ⟨stack, hwalks, hnext⟩ := h.walks hbefore
  obtain ⟨hnew, rest, hpasses, -⟩ := hnext.passes.2 j behind rfl
  exact comesTo_of_walks (hwalks.trans hpasses) ⟨1, comesTo_of_stop rfl hnew hfailed⟩

/--
The walk of a job, after any events and in any schedule. The jobs that it reaches have one depth-first
pre-order over their dependencies as they are declared: the job itself comes first, and each of the
others once. And of this order

* every component of the job has exactly these members, in this order;
* an instantiation fails by the first failed link phase in this order, unless it fails by its own
  preparation or by what its component came to;
* a walk on its way has visited the beginning, and all of it if nothing is left on the stack;
* if all link phases in it have ended, then the walk ends after finitely many steps of its own,
  whatever happens between them: with the whole order if they went well, or else with the first
  error in it.
-/
theorem walk_exact (host : Host) (settings : Settings) (events : List Event) (root : JobId) :
    let m := (ofSettings host settings).after events
    ∃ order, m.loader.PreOrder [] [root] order ∧
      (∀ other, m.loader.PreOrder [] [root] other → other = order) ∧
      order.head? = some root ∧ order.Nodup ∧ (∀ x, x ∈ order ↔ m.loader.Reaches root x) ∧
      (∀ c ∈ m.loader.components, c.root = root → c.members = order) ∧
      (∀ e, m.loader.instantiated? root = some (.error e) →
        m.loader.Fails order e ∨ m.loader.prepared? root = some (.error e) ∨
          ∃ i c, m.loader.Joined root i c ∧ c.outcome = .error e) ∧
      ∀ walk, m.loader.walk? root = some walk →
        walk.members <+: order ∧ (walk.stack = [] → walk.members = order) ∧
        ((∀ x, m.loader.Reaches root x → ∃ result, m.loader.linked? x = some result) →
          (m.loader.Linked order ∧ ∃ n, ∀ more, more.countP (·.instantiates root) = n →
            (m.after more).loader.walk? root = some ⟨order, []⟩) ∨
          ∃ e, m.loader.Fails order e ∧ ∃ n, ∀ more, more.countP (·.instantiates root) = n →
            (m.after more).loader.instantiated? root = some (.error e)) := by
  intro m
  have hg : m.loader.Grouped := grouped_after host settings events
  have hsound := sound_fresh host settings events
  obtain ⟨order, horder⟩ := Loader.exists_preOrder m.loader [] [root]
  refine ⟨order, horder, fun other hother => hother.unique horder, horder.head, horder.nodup.1,
    fun x => horder.mem_iff, fun c hc hroot => ?_, fun e he => ?_, fun walk hwalking => ?_⟩
  · subst hroot
    obtain ⟨rest, hnothing, hsame⟩ := (traced_after host settings events c hc).preOrder horder
    cases hnothing
    exact (hsame.trans (List.append_nil _)).symm
  · obtain ⟨job, hjob, hdone⟩ := Loader.instantiated?_eq_some.mp he
    rcases hg.ended root job _ hjob hdone with ⟨i, c, hj, hc⟩ | ⟨e', he', hstops | hprepared⟩
    · exact .inr (.inr ⟨i, c, hj, hc.symm⟩)
    · obtain rfl := Except.error.inj he'
      exact .inl (hstops.fails horder)
    · obtain rfl := Except.error.inj he'
      exact .inr (.inl hprepared)
  · obtain ⟨job, hjob, hinstantiation⟩ := Loader.walk?_eq_some.mp hwalking
    have hwalks := hg.walking root job walk hjob hinstantiation
    obtain ⟨rest, hrest, hsame⟩ := hwalks.preOrder horder
    obtain rfl : order = walk.members ++ rest := hsame
    refine ⟨List.prefix_append _ _, fun hnil => ?_, fun hended => ?_⟩
    · rw [hnil] at hrest
      cases hrest
      exact (List.append_nil _).symm
    · rcases Loader.linked_or_fails fun x hx => hended x (horder.mem_iff.mp hx) with hlinked | ⟨e, hfails⟩
      · obtain ⟨n, hn⟩ := comesTo_order hrest fun x hx => hlinked x (List.mem_append_right _ hx)
        exact .inl ⟨hlinked, n, fun more => hn m more (.refl _) hsound hwalking⟩
      · obtain ⟨n, hn⟩ := comesTo_error hrest (hfails.of_append hwalks.linked)
        exact .inr ⟨e, hfails, n, fun more => hn m more (.refl _) hsound hwalking⟩

/-- Modules that import each other and themselves, one of them twice. -/
def tangle : Machine :=
  ofSettings (.ofScripts [("/a", "import './b'; import './c'; import '././b'; import './a';"),
    ("/b", "import './d'; import './a';"), ("/c", "import './d';"),
    ("/d", "import './c'; import './b';")]) .atRoot

/-- All of them are linked, and the first one begins its walk. -/
def tangleLinked : List Event :=
  ((tangle.answering 100
    [.find "./a" none .linked, .find "./a" none .instantiated]).take 94).map .step

theorem tangle_linked :
    let l := (tangle.after tangleLinked).loader
    l.walk? ⟨0⟩ = some (.start ⟨0⟩) ∧ l.dependenciesOf ⟨0⟩ = [⟨1⟩, ⟨2⟩, ⟨1⟩, ⟨0⟩] ∧
      l.dependenciesOf ⟨1⟩ = [⟨3⟩, ⟨0⟩] ∧ l.dependenciesOf ⟨2⟩ = [⟨3⟩] ∧
      l.dependenciesOf ⟨3⟩ = [⟨2⟩, ⟨1⟩] ∧
      ∀ x ∈ [JobId.mk 0, ⟨1⟩, ⟨3⟩, ⟨2⟩],
        ((l.linked? x).any fun linked => linked.isOk) = true := by
  decide +kernel

theorem linked_of_any (h : ((l.linked? j).any fun linked => linked.isOk) = true) :
    ∃ dependencies, l.linked? j = some (.ok dependencies) := by
  obtain ⟨hsome, hok⟩ := (Option.any_eq_true_iff_get _ _).mp h
  obtain ⟨result, hresult⟩ := Option.isSome_iff_exists.mp hsome
  cases result with
  | ok dependencies => exact ⟨dependencies, hresult⟩
  | error e =>
    simp only [hresult, Option.get_some] at hok
    cases hok

theorem tangle_preOrder :
    (tangle.after tangleLinked).loader.PreOrder [] [⟨0⟩] [⟨0⟩, ⟨1⟩, ⟨3⟩, ⟨2⟩] := by
  obtain ⟨-, hroot, hfirst, hsecond, hthird, -⟩ := tangle_linked
  refine @Loader.PreOrder.visit _ _ _ [⟨1⟩, ⟨3⟩, ⟨2⟩] [] _ (by decide) ?_ .done
  rw [hroot]
  refine @Loader.PreOrder.visit _ _ _ [⟨3⟩, ⟨2⟩] [] _ (by decide) ?_
    (.seen (by decide) (.seen (by decide) (.seen (by decide) .done)))
  rw [hfirst]
  refine @Loader.PreOrder.visit _ _ _ [⟨2⟩] [] _ (by decide) ?_ (.seen (by decide) .done)
  rw [hthird]
  refine @Loader.PreOrder.visit _ _ _ [] [] _ (by decide) ?_ (.seen (by decide) .done)
  rw [hsecond]
  exact .seen (by decide) .done

/-- The third one is visited behind the fourth, which imports it. -/
theorem walk_exact_tangle :
    (tangle.after tangleLinked).loader.walk? ⟨0⟩ = some (.start ⟨0⟩) ∧
      ∃ n, ∀ more : List Event, more.countP (·.instantiates ⟨0⟩) = n →
        ((tangle.after tangleLinked).after more).loader.walk? ⟨0⟩ =
          some ⟨[⟨0⟩, ⟨1⟩, ⟨3⟩, ⟨2⟩], []⟩ := by
  obtain ⟨hwalk, -, -, -, -, hlinked⟩ := tangle_linked
  obtain ⟨order, -, hunique, -, -, hmem, -, -, hwalks⟩ := walk_exact _ _ tangleLinked ⟨0⟩
  obtain rfl := hunique _ tangle_preOrder
  have hok : ∀ x ∈ [JobId.mk 0, ⟨1⟩, ⟨3⟩, ⟨2⟩], ∃ dependencies,
      (tangle.after tangleLinked).loader.linked? x = some (.ok dependencies) :=
    fun x hx => linked_of_any (hlinked x hx)
  obtain ⟨-, -, hends⟩ := hwalks _ hwalk
  refine ⟨hwalk, ?_⟩
  have hended : ∀ x, (tangle.after tangleLinked).loader.Reaches ⟨0⟩ x →
      ∃ result, (tangle.after tangleLinked).loader.linked? x = some result := fun x hx =>
    let ⟨dependencies, hx⟩ := hok x ((hmem x).mpr hx)
    ⟨.ok dependencies, hx⟩
  rcases hends hended with
    ⟨-, hvisits⟩ | ⟨e, ⟨before, j, behind, hparts, -, hfailed⟩, -⟩
  · exact hvisits
  · obtain ⟨dependencies, hj⟩ := hok j (hparts ▸ List.mem_append_right _ List.mem_cons_self)
    cases hj.symm.trans hfailed

end Machine

end ModuleLoader
