import ModuleLoader.Proofs.EvaluationOrder
/-!
# Lives of scripts under any calls

Whatever is called on scripts, and in whatever order, an instantiation and an evaluation take every
script further along its life or leave it where it is. Linking a script does not look at how far it
has come: it begins anew, and an outcome that was kept is lost.

Results:
1. `Status.Next`, `Status.Forward`: the order in which a script gets its statuses.
2. `Advances`, `advances_operate`: a call is a chain of changes, each of which takes one unit one
   status further.
3. `forward_operate_iff`: a unit goes back exactly if it is linked after it was entered.
4. `Operated.count_le_one`: a body runs once between two such links.
5. `life_cycle`: all of it, for any scripts and any calls.
-/
namespace ModuleLoader

open Relation (ReflTransGen)

namespace Status

/-- One status follows another in the life of a script. -/
inductive Next : Status → Status → Prop
  | linked : Next unlinked linked
  | entered : Next linked instantiating
  | bound : Next instantiating instantiated
  | unbound (e : LoadError) : Next instantiating (errored e)
  | begun : Next instantiated evaluating
  | ran (completion : Option Value) : Next evaluating (evaluated completion)
  | failed (e : LoadError) : Next evaluating (errored e)

/-- A status is the same as another or comes after it. -/
def Forward : Status → Status → Prop := ReflTransGen Next

/-- Whether the body has run or will not run any more. -/
def isSpent : Status → Bool
  | evaluating | evaluated _ | errored _ => true
  | _ => false

variable {status status' : Status}

theorem Next.isEntered (h : Next status status') (hs : status.isEntered = true) :
    status'.isEntered = true := by
  cases h <;> first | rfl | cases hs

theorem Next.isSpent (h : Next status status') (hs : status.isSpent = true) :
    status'.isSpent = true := by
  cases h <;> first | rfl | cases hs

theorem Forward.isEntered (h : Forward status status') (hs : status.isEntered = true) :
    status'.isEntered = true := by
  induction h with
  | refl => exact hs
  | tail _ hnext ih => exact hnext.isEntered ih

theorem Forward.isSpent (h : Forward status status') (hs : status.isSpent = true) :
    status'.isSpent = true := by
  induction h with
  | refl => exact hs
  | tail _ hnext ih => exact hnext.isSpent ih

/-- An outcome is the last status. -/
theorem Forward.of_outcome {r : Except LoadError (Option Value)}
    (h : Forward (Store.completionStatus r) status) : status = Store.completionStatus r := by
  generalize hstart : Store.completionStatus r = start at h
  induction h with
  | refl => rfl
  | tail _ hnext ih =>
    rw [ih, ← hstart] at hnext
    cases r <;> cases hnext

/-- After the instantiation comes nothing but an evaluation. -/
theorem Forward.spent_of_instantiated (h : Forward .instantiated status)
    (hne : status ≠ .instantiated) : status.isSpent = true := by
  obtain rfl | ⟨_, hnext, hrest⟩ := h.cases_head
  · exact absurd rfl hne
  · cases hnext
    exact Forward.isSpent hrest rfl

/-- A script that was entered does not get back to being linked. -/
theorem forward_linked_iff : Forward status .linked ↔ status.isEntered = false := by
  constructor
  · intro h
    by_contra hentered
    have hlinked := h.isEntered (eq_true_of_ne_false hentered)
    cases hlinked
  · intro h
    cases status with
    | unlinked => exact .single .linked
    | linked => exact .refl
    | _ => cases h

end Status

namespace Store

variable {s s' t s₀ : Store} {x y : UnitId} {status : Status} {log : List UnitId}

/-! ## Calls -/

/-- What can be called on a script. -/
inductive Operation
  | link (x : UnitId)
  /-- A unit that a link has asked for is there. -/
  | wire (x : UnitId) (specifier : String) (y : UnitId)
  | instantiate (x : UnitId)
  | evaluate (x : UnitId)

def operate (s : Store) : Operation → Store
  | .link x => (s.beginLink x).1
  | .wire x specifier y => s.wire x specifier y
  | .instantiate x => (s.instantiate x).1
  | .evaluate x => (s.evaluate x).1

def operateAll (s : Store) (ops : List Operation) : Store := ops.foldl operate s

/-- The bodies that some calls run, in the order in which they do. -/
inductive Operated : Store → List Operation → List UnitId → Store → Prop
  | none {s : Store} : Operated s [] [] s
  | evaluate {s s' : Store} {x : UnitId} {ops : List Operation} {log past : List UnitId} :
      evaluation.Runs s [.ok x] log (s.evaluate x).1 ((s.evaluate x).2.map fun _ => ()) →
      Operated (s.evaluate x).1 ops past s' → Operated s (.evaluate x :: ops) (log ++ past) s'
  | other {s s' : Store} {op : Operation} {ops : List Operation} {past : List UnitId} :
      (∀ x, op ≠ .evaluate x) → Operated (s.operate op) ops past s' →
      Operated s (op :: ops) past s'

/-- Some calls link a unit after it was entered. -/
def Relinks (s : Store) (x : UnitId) : List Operation → Prop
  | [] => False
  | op :: ops => (op = .link x ∧ (s.status x).isEntered = true) ∨ (s.operate op).Relinks x ops

/-! ## Changes forward -/

/-- A change in which one unit gets its next status, or none gets another. -/
inductive Advance (s t : Store) : Prop
  | next {x : UnitId} : (s.status x).Next (t.status x) →
      (∀ y, x ≠ y → t.status y = s.status y) → Advance s t
  | still : (∀ x, t.status x = s.status x) → Advance s t

/-- One such change after the other. -/
def Advances : Store → Store → Prop := ReflTransGen Advance

theorem Advance.setStatus (hs : s.NoManifests) (hx : (s.unit? x).isSome = true)
    (h : (s.status x).Next status) : s.Advance (s.setStatus x status) :=
  .next (x := x) (by rwa [status_setStatus status hs hx])
    fun _ hne => status_setStatus_of_ne s status hne

theorem Advances.forward (h : s.Advances t) (x : UnitId) :
    (s.status x).Forward (t.status x) := by
  induction h with
  | refl => exact .refl
  | tail _ hlast ih =>
    cases hlast with
    | @next y hnext hothers =>
      by_cases hne : y = x
      · exact ih.tail (hne ▸ hnext)
      · rw [hothers x hne]
        exact ih
    | still hstatus =>
      rw [hstatus x]
      exact ih

/-! ### Searches -/

theorem status_withStatus {unit : ModuleUnit} (hs : s.NoManifests)
    (hunit : s.unit? x = some (unit.withStatus status)) : s.status x = status := by
  rw [status_of_unit? hunit]
  cases unit with
  | script u => rfl
  | bridge b => rfl
  | manifest m => exact absurd hunit (hs x m)

/-- A search goes forward if its beginnings, its turns and its failures do. -/
theorem advances_runs {p : Phase} (hp : p.Lawful) {before : Status}
    {targets : List (Except LoadError UnitId)} {r : Except LoadError Unit}
    (hbefore : ∀ unit : ModuleUnit, p.answer unit = none → unit.status = before)
    (hbegin : before.Next p.during) (hfail : ∀ e, p.during.Next (.errored e))
    (hend : ∀ (s : Store) x unit status, (p.act s x unit).2 = .ok status → p.during.Next status)
    (hstill : ∀ (s : Store) x unit y, (p.act s x unit).1.status y = s.status y)
    (h : p.Runs s targets log s' r) (hs : s.NoManifests) : s.Advances s' := by
  refine (h.preserve hp (P := fun t => t.NoManifests ∧ s.Advances t) ?_ ?_ ?_ ⟨hs, .refl⟩).2
  · rintro t x unit ⟨ht, hadvances⟩ hunit hanswer
    refine ⟨(sameShape_setStatus t x _).noManifests ht,
      hadvances.tail (.setStatus ht (by rw [hunit]; rfl) ?_)⟩
    rw [status_of_unit? hunit, hbefore unit hanswer]
    exact hbegin
  · rintro t x unit t' r ⟨ht, hadvances⟩ hunit hanswer hturn
    have hshape := hp.shape t x unit
    have hacted := hshape.noManifests ht
    have hthere : ((p.act t x unit).1.unit? x).isSome = true := by
      rw [hshape.isSome, hunit]
      rfl
    have hwas : (p.act t x unit).1.status x = p.during :=
      (hstill t x unit x).trans (status_withStatus ht hunit)
    have hsettle : ∀ status, p.during.Next status →
        ((p.act t x unit).1.setStatus x status).NoManifests ∧
          s.Advances ((p.act t x unit).1.setStatus x status) := fun status hnext =>
      ⟨(sameShape_setStatus _ x _).noManifests hacted,
        (hadvances.tail (.still (hstill t x unit))).tail (.setStatus hacted hthere (hwas ▸ hnext))⟩
    rcases Phase.settle_cases hturn with ⟨status, hok, rfl, -⟩ | ⟨e, -, rfl, -⟩
    · exact hsettle status (hend t x unit status hok)
    · exact hsettle _ (hfail e)
  · rintro t x unit e ⟨ht, hadvances⟩ hunit
    refine ⟨(sameShape_setStatus t x _).noManifests ht,
      hadvances.tail (.setStatus ht (by rw [hunit]; rfl) ?_)⟩
    rw [status_withStatus ht hunit]
    exact hfail e

theorem advances_instantiate (hs : s.NoManifests) (x : UnitId) : s.Advances (s.instantiate x).1 := by
  obtain ⟨log, hruns⟩ := instantiate_runs hs x
  refine advances_runs instantiation_lawful (fun _ => status_of_answer_instantiation)
    .entered .unbound (fun s x unit status h => ?_) (fun s x unit y => ?_) hruns hs
  · rw [status_of_act_instantiation h]
    exact .bound
  · cases unit with
    | script u => exact status_bindImports s x u y
    | bridge b => rfl
    | manifest m => rfl

theorem advances_evaluate (hs : s.NoManifests) (x : UnitId) : s.Advances (s.evaluate x).1 := by
  obtain ⟨log, hruns⟩ := evaluate_runs hs x
  refine advances_runs evaluation_lawful (fun _ => status_of_answer_evaluation)
    .begun .failed (fun s x unit status h => ?_) (fun s x unit y => ?_) hruns hs
  · obtain ⟨v, rfl⟩ := status_of_act_evaluation h
    exact .ran v
  · cases unit with
    | script u => rfl
    | bridge b => exact status_runExecutor s x b y
    | manifest m => rfl

/-! ### Links -/

/-- Linking makes a script linked, however far it had come, and leaves everything else alone. -/
theorem operate_link (hs : s.NoManifests) (x : UnitId) :
    (∃ u, s.unit? x = some (.script u)) ∧ s.operate (.link x) = s.setStatus x .linked ∨
      (∀ u, s.unit? x ≠ some (.script u)) ∧ s.operate (.link x) = s := by
  change _ ∧ (s.beginLink x).1 = _ ∨ _ ∧ (s.beginLink x).1 = _
  unfold beginLink
  cases hunit : s.unit? x with
  | none => exact .inr ⟨fun _ h => (by cases h), rfl⟩
  | some unit =>
    cases unit with
    | script u => exact .inl ⟨⟨u, rfl⟩, rfl⟩
    | bridge b => exact .inr ⟨fun _ h => (by cases h), rfl⟩
    | manifest m => exact absurd hunit (hs x m)

theorem noManifests_operate (hs : s.NoManifests) (op : Operation) : (s.operate op).NoManifests := by
  cases op with
  | link x =>
    rcases operate_link hs x with ⟨-, h⟩ | ⟨-, h⟩
    · rw [h]
      exact (sameShape_setStatus s x _).noManifests hs
    · rw [h]
      exact hs
  | wire x specifier y =>
    intro z m hm
    change (s.change x _).unit? z = _ at hm
    rw [unit?_change] at hm
    split at hm
    next =>
      obtain ⟨unit, hunit, heq⟩ := Option.map_eq_some_iff.mp hm
      cases unit with
      | script u => cases heq
      | bridge b => cases heq
      | manifest m' => exact hs z m' hunit
    next => exact hs z m hm
  | instantiate x =>
    obtain ⟨_, hruns⟩ := instantiate_runs hs x
    exact (hruns.forth instantiation_lawful).shape.noManifests hs
  | evaluate x =>
    obtain ⟨_, hruns⟩ := evaluate_runs hs x
    exact (hruns.forth evaluation_lawful).shape.noManifests hs

theorem noManifests_operateAll (hs : s.NoManifests) (ops : List Operation) :
    (s.operateAll ops).NoManifests := by
  induction ops generalizing s with
  | nil => exact hs
  | cons op ops ih => exact ih (noManifests_operate hs op)

/-- A call goes forward unless it links a unit that was entered. -/
theorem advances_operate (hs : s.NoManifests) {op : Operation}
    (h : ∀ x, ¬ (op = .link x ∧ (s.status x).isEntered = true)) : s.Advances (s.operate op) := by
  cases op with
  | link x =>
    have hearly : (s.status x).isEntered = false :=
      eq_false_of_ne_true fun hentered => h x ⟨rfl, hentered⟩
    rcases operate_link hs x with ⟨⟨u, hu⟩, heq⟩ | ⟨-, heq⟩
    · rw [heq]
      cases hstatus : s.status x with
      | unlinked => exact .single (.setStatus hs (by rw [hu]; rfl) (hstatus ▸ .linked))
      | linked =>
        refine .single (.still fun y => ?_)
        by_cases hne : x = y
        · rw [← hne, status_setStatus .linked hs (by rw [hu]; rfl), hstatus]
        · exact status_setStatus_of_ne s .linked hne
      | _ => rw [hstatus] at hearly; cases hearly
    · rw [heq]
      exact .refl
  | wire x specifier y => exact .single (.still (status_wire s x specifier y))
  | instantiate x => exact advances_instantiate hs x
  | evaluate x => exact advances_evaluate hs x

/-- A call on other units, or one that comes in time, takes a unit forward. -/
theorem forward_operate (hs : s.NoManifests) {op : Operation}
    (h : ¬ (op = .link x ∧ (s.status x).isEntered = true)) :
    (s.status x).Forward ((s.operate op).status x) := by
  by_cases hlink : ∃ y, op = .link y ∧ (s.status y).isEntered = true
  · -- another unit is linked anew
    obtain ⟨y, rfl, hentered⟩ := hlink
    have hne : y ≠ x := fun heq => h ⟨heq ▸ rfl, heq ▸ hentered⟩
    rcases operate_link hs y with ⟨-, heq⟩ | ⟨-, heq⟩
    · rw [heq, status_setStatus_of_ne s .linked hne]
      exact .refl
    · rw [heq]
      exact .refl
  · exact (advances_operate hs (not_exists.mp hlink)).forward x

/-- A script goes back exactly if it is linked after it was entered. -/
theorem forward_operate_iff {u : ScriptUnit} (hs : s.NoManifests)
    (hu : s.unit? x = some (.script u)) (op : Operation) :
    (s.status x).Forward ((s.operate op).status x) ↔
      ¬ (op = .link x ∧ (s.status x).isEntered = true) := by
  refine ⟨?_, forward_operate hs⟩
  rintro hforward ⟨rfl, hentered⟩
  rcases operate_link hs x with ⟨-, heq⟩ | ⟨hno, -⟩
  · rw [heq, status_setStatus .linked hs (by rw [hu]; rfl), Status.forward_linked_iff,
      hentered] at hforward
    cases hforward
  · exact hno u hu

theorem status_kept {r : Except LoadError (Option Value)} {ops : List Operation}
    (hs : s.NoManifests) (h : ¬ s.Relinks x ops) (hx : s.status x = completionStatus r) :
    (s.operateAll ops).status x = completionStatus r := by
  induction ops generalizing s with
  | nil => exact hx
  | cons op ops ih =>
    obtain ⟨hop, hops⟩ := not_or.mp h
    have hforward := forward_operate hs hop
    rw [hx] at hforward
    exact ih (noManifests_operate hs op) hops hforward.of_outcome

/-! ## Bodies -/

theorem exists_operated (hs : s.NoManifests) (ops : List Operation) :
    ∃ log, Operated s ops log (s.operateAll ops) := by
  induction ops generalizing s with
  | nil => exact ⟨[], .none⟩
  | cons op ops ih =>
    obtain ⟨past, hpast⟩ := ih (noManifests_operate hs op)
    cases op with
    | evaluate x =>
      obtain ⟨log, hruns⟩ := evaluate_runs hs x
      exact ⟨log ++ past, .evaluate hruns hpast⟩
    | link x => exact ⟨past, .other (fun _ h => by cases h) hpast⟩
    | wire x specifier y => exact ⟨past, .other (fun _ h => by cases h) hpast⟩
    | instantiate x => exact ⟨past, .other (fun _ h => by cases h) hpast⟩

theorem not_opens_of_isSpent (hx : (s.status x).isSpent = true) : ¬ evaluation.Opens s x := by
  rintro ⟨unit, hunit, hanswer⟩
  rw [status_of_unit? hunit, status_of_answer_evaluation hanswer] at hx
  cases hx

/-- A unit whose body has run is spent. -/
theorem isSpent_of_mem {targets : List (Except LoadError UnitId)} {r : Except LoadError Unit}
    (hs : s.NoManifests) (h : evaluation.Runs s targets log s' r) (hadvances : s.Advances s')
    (hx : x ∈ log) : (s'.status x).isSpent = true := by
  have honce := h.once evaluation_lawful
  obtain ⟨unit, hunit, hanswer⟩ := honce.before x hx
  have hforward := hadvances.forward x
  rw [status_of_unit? hunit, status_of_answer_evaluation hanswer] at hforward
  refine hforward.spent_of_instantiated fun hstatus => honce.after x hx ?_
  obtain ⟨unit', hunit'⟩ := exists_unit_of_status (by rw [hstatus]; simp)
  rw [status_of_unit? hunit'] at hstatus
  refine ⟨unit', hunit', ?_⟩
  rw [answer_evaluation ((h.forth evaluation_lawful).shape.noManifests hs) hunit', hstatus]

/-- The body of a spent unit does not run until the unit is linked anew. -/
theorem Operated.not_mem {ops : List Operation} (h : Operated s ops log s') (hs : s.NoManifests)
    (hno : ¬ s.Relinks x ops) (hx : (s.status x).isSpent = true) : x ∉ log := by
  induction h with
  | none => exact List.not_mem_nil
  | @evaluate s s' y ops log past hruns _ ih =>
    obtain ⟨hop, hops⟩ := not_or.mp hno
    rw [List.mem_append]
    rintro (hin | hin)
    · exact not_opens_of_isSpent hx ((hruns.once evaluation_lawful).before x hin)
    · exact ih (noManifests_operate hs (.evaluate y)) hops
        ((forward_operate hs hop).isSpent hx) hin
  | @other s s' op ops past _ _ ih =>
    obtain ⟨hop, hops⟩ := not_or.mp hno
    exact ih (noManifests_operate hs op) hops ((forward_operate hs hop).isSpent hx)

/-- A body runs at most once as long as its unit is not linked anew. -/
theorem Operated.count_le_one {ops : List Operation} (h : Operated s ops log s')
    (hs : s.NoManifests) (hno : ¬ s.Relinks x ops) : log.count x ≤ 1 := by
  induction h with
  | none => simp
  | @evaluate s s' y ops log past hruns hpast ih =>
    obtain ⟨hop, hops⟩ := not_or.mp hno
    have hs' := noManifests_operate hs (.evaluate y)
    rw [List.count_append]
    by_cases hin : x ∈ log
    · have hspent := isSpent_of_mem hs hruns (advances_evaluate hs y) hin
      rw [List.count_eq_zero_of_not_mem (hpast.not_mem hs' hops hspent), Nat.add_zero]
      exact List.nodup_iff_count_le_one.mp (hruns.once evaluation_lawful).nodup x
    · rw [List.count_eq_zero_of_not_mem hin, Nat.zero_add]
      exact ih hs' hops
  | @other s s' op ops past _ _ ih =>
    exact ih (noManifests_operate hs op) (not_or.mp hno).2

/-! ## The life of a script -/

/-- Some scripts, wired to each other in any way and at any point of their lives. -/
def ofScripts (cells : Cells) (scripts : List ScriptUnit) : Store where
  cells
  units := (scripts.map fun u => some (.script u)).toArray

theorem noManifests_ofScripts (cells : Cells) (scripts : List ScriptUnit) :
    (ofScripts cells scripts).NoManifests := by
  intro x m hm
  simp only [ofScripts, unit?, List.getElem?_toArray, List.getElem?_map] at hm
  cases hx : scripts[x.index]? <;> rw [hx] at hm <;> cases hm

/--
What becomes of scripts under any calls in any order.

* A call takes a script forward along its life or leaves it where it is, exactly unless it links the
  script after that was entered.
* Unless a call does so, all that it does is a chain of changes of one unit each by one status.
* An outcome is kept, and told by every later evaluation, until the script is linked anew.
* Until then no body runs twice.
-/
theorem life_cycle (cells : Cells) (scripts : List ScriptUnit) (ops : List Operation) :
    let s₀ := ofScripts cells scripts
    let s := s₀.operateAll ops
    (∀ op x u, s.unit? x = some (.script u) →
      ((s.status x).Forward ((s.operate op).status x) ↔
        ¬ (op = .link x ∧ (s.status x).isEntered = true))) ∧
    (∀ op, (∀ x, ¬ (op = .link x ∧ (s.status x).isEntered = true)) →
      s.Advances (s.operate op)) ∧
    (∀ later x r, s.status x = completionStatus r → ¬ s.Relinks x later →
      (s.operateAll later).evaluate x = (s.operateAll later, r)) ∧
    (∃ log, Operated s₀ ops log s) ∧
    ∀ log x, Operated s₀ ops log s → ¬ s₀.Relinks x ops → log.count x ≤ 1 := by
  intro s₀ s
  have hs₀ : s₀.NoManifests := noManifests_ofScripts cells scripts
  have hs : s.NoManifests := noManifests_operateAll hs₀ ops
  exact ⟨fun op x u hu => forward_operate_iff hs hu op, fun op => advances_operate hs,
    fun later x r hx hno =>
      evaluate_of_outcome (noManifests_operateAll hs later) (status_kept hs hno hx),
    exists_operated hs₀ ops, fun log x h hno => h.count_le_one hs₀ hno⟩

/-! ### A script that is linked anew -/

/-- A script alone whose body uses a name that nobody declares, with this status. -/
def faulty (status : Status) : Store :=
  ofScripts {} [{
    url := { scheme := "file", path := .segments ["a.js"] }
    program := ⟨[.expression (.identifier "x" ⟨0, 1, ⟨1, 1⟩⟩)]⟩
    locals := []
    exports := []
    status }]

/-- The error that its body ends with. -/
def fault : LoadError :=
  .evaluate { scheme := "file", path := .segments ["a.js"] } (.script (.undefinedName "x"))

theorem faulty_linked (status : Status) : (faulty status).operate (.link ⟨0⟩) = faulty .linked := rfl

theorem faulty_instantiated :
    (faulty .linked).operate (.instantiate ⟨0⟩) = faulty .instantiated := rfl

theorem faulty_evaluated :
    (faulty .instantiated).evaluate ⟨0⟩ = (faulty (.errored fault), .error fault) := rfl

theorem faulty_runs :
    evaluation.Runs (faulty .instantiated) [.ok ⟨0⟩] [⟨0⟩] (faulty (.errored fault)) (.error fault) := by
  have hbegun : evaluation.Runs ((faulty .instantiated).setStatus ⟨0⟩ .evaluating) [] []
      (faulty .evaluating) (.ok ()) := .done
  rw [← List.nil_append [(⟨0⟩ : UnitId)]]
  exact .fail rfl rfl hbegun rfl

theorem faulty_round (status : Status) :
    (faulty status).operateAll [.link ⟨0⟩, .instantiate ⟨0⟩, .evaluate ⟨0⟩] =
      faulty (.errored fault) := by
  unfold operateAll
  rw [List.foldl_cons, faulty_linked, List.foldl_cons, faulty_instantiated, List.foldl_cons]
  exact congrArg Prod.fst faulty_evaluated

/-- A link between two rounds of calls makes a script that has failed a linked one, and its body runs
once more. -/
theorem outcome_lost_by_link :
    let round : List Operation := [.link ⟨0⟩, .instantiate ⟨0⟩, .evaluate ⟨0⟩]
    let s := (faulty .unlinked).operateAll round
    (∃ e, s.status ⟨0⟩ = .errored e) ∧
      ¬ (s.status ⟨0⟩).Forward ((s.operate (.link ⟨0⟩)).status ⟨0⟩) ∧
      Operated (faulty .unlinked) (round ++ round) [⟨0⟩, ⟨0⟩] (s.operateAll round) := by
  intro round s
  have hs : s = faulty (.errored fault) := faulty_round _
  have hruns : evaluation.Runs (faulty .instantiated) [.ok ⟨0⟩] [⟨0⟩]
      ((faulty .instantiated).evaluate ⟨0⟩).1
      (((faulty .instantiated).evaluate ⟨0⟩).2.map fun _ => ()) := by
    rw [faulty_evaluated]
    exact faulty_runs
  have hlater : ∀ {status log ops t}, Operated (faulty (.errored fault)) ops log t →
      Operated (faulty status) (round ++ ops) (⟨0⟩ :: log) t := fun {status _ _ _} h => by
    refine .other nofun ?_
    rw [faulty_linked]
    refine .other nofun ?_
    rw [faulty_instantiated]
    refine .evaluate hruns ?_
    rw [faulty_evaluated]
    exact h
  rw [hs, faulty_linked, faulty_round]
  refine ⟨⟨fault, rfl⟩, fun hforward => ?_, hlater (hlater .none)⟩
  have hentered := Status.forward_linked_iff.mp hforward
  cases hentered

end Store

end ModuleLoader
