import ModuleLoader.Proofs.ModuleMap
/-!
# Formats and the map of modules

The map of modules knows jobs by their URLs alone. A request gets the job that another request has
made, with the format that this other one found, so the URL would have to say what the format is.
It does for specifiers that are joined to a base: the format follows from the scheme. The eval
specifier and specifiers with the builtin prefix have formats of their own, and their URLs can be
spelled out, in which case the scheme makes them remote.

Results:
1. `resolve_eq_ok`: the ways in which a specifier leads to a module.
2. `format_of_joined`, `format_of_fixed`: what the format is for the two kinds of specifiers.
3. `format_eq_iff`: requests for one URL agree in format exactly if their specifiers are of one
   kind.
4. `Asked.resolve_of_outcome`: with files that stay the same, a request that is worked on in steps
   has the outcome that `Settings.resolve` computes.
5. `format_of_job`: the format of a job is that of the request that was served first, so a request
   gets a job of its own format exactly if its specifier and the first one are of one kind.
-/
namespace ModuleLoader

/-! ## The scheme of a URL -/

namespace Url

theorem scheme_withTail (k : Kind) (u : Url) (cs : List Char) :
    (withTail k u cs).scheme = u.scheme := by
  unfold withTail
  split <;> rfl

theorem scheme_hierarchical {scheme : String} {cs : List Char} {url : Url}
    (h : hierarchical scheme cs = .ok url) : url.scheme = scheme := by
  unfold hierarchical at h
  cases hread : readAuthority scheme cs with
  | error e => rw [hread] at h; cases h
  | ok result =>
    rw [hread] at h
    cases h
    exact scheme_withTail _ _ _

theorem scheme_plain {scheme : String} {cs : List Char} {url : Url}
    (h : plain scheme cs = .ok url) : url.scheme = scheme := by
  unfold plain at h
  split at h
  next => exact scheme_hierarchical h
  next => cases h; exact scheme_withTail _ _ _
  next => cases h; exact scheme_withTail _ _ _

/-- The blanks that do not count are around a text, and a scheme in front of it has none. -/
theorem significant_builtin (s : String) :
    ∃ rest, significant ("builtin:" ++ s) = "builtin:".toList ++ rest := by
  have hfront : ("builtin:".toList ++ s.toList).dropWhile isControlOrSpace =
      "builtin:".toList ++ s.toList := rfl
  have hback : "builtin:".toList.reverse.dropWhile isControlOrSpace = "builtin:".toList.reverse :=
    rfl
  have hinner : "builtin:".toList.filter (fun c => !isTabOrNewline c) = "builtin:".toList := rfl
  unfold significant
  dsimp only
  rw [String.toList_append, hfront, List.reverse_append, List.dropWhile_append, hback]
  split
  next => exact ⟨[], by rw [List.reverse_reverse, hinner, List.append_nil]⟩
  next =>
    rw [List.reverse_append, List.reverse_reverse, List.filter_append, hinner]
    exact ⟨_, rfl⟩

theorem scheme?_builtin (rest : List Char) :
    scheme? ("builtin:".toList ++ rest) = some ("builtin", rest) := by
  have hname : ("builtin:".toList ++ rest).takeWhile
      (fun c => c.isAlphanum || c = '+' || c = '-' || c = '.') = "builtin".toList := rfl
  unfold scheme?
  dsimp only
  rw [hname]
  rfl

theorem scheme_of_parse_builtin {s : String} {url : Url}
    (h : parse ("builtin:" ++ s) = .ok url) : url.scheme = "builtin" := by
  obtain ⟨rest, hrest⟩ := significant_builtin s
  unfold parse parseWith at h
  simp only [hrest, scheme?_builtin] at h
  exact scheme_plain h

/-- The format of a URL as its scheme has it. -/
def schemeFormat (u : Url) : Format :=
  if u.scheme = "file" ∨ u.scheme = "data" then .js else .remote

end Url

/-! ## The format of a request -/

namespace Settings

/-- Whether a specifier has a URL and a format of its own, whatever base it could be joined to. -/
def isFixed (settings : Settings) (specifier : String) : Bool :=
  specifier = settings.evalSpecifier || isPrefix settings.builtinPrefix specifier

variable {settings : Settings} {files : Files} {specifier : String} {referrer : Option Url}
  {target : Resolved}

theorem isFixed_eq_false : settings.isFixed specifier = false ↔
    specifier ≠ settings.evalSpecifier ∧ isPrefix settings.builtinPrefix specifier = false := by
  simp [isFixed]

theorem target_of_eval (h : specifier = settings.evalSpecifier) :
    settings.target specifier referrer = .settled (.ok ⟨Url.evalModule, .js⟩) := if_pos h

theorem target_of_joined {url : Url} (hfixed : settings.isFixed specifier = false)
    (hjoin : (settings.start referrer).join specifier = .ok url) :
    settings.target specifier referrer = settings.targetOf specifier url := by
  obtain ⟨heval, hprefix⟩ := isFixed_eq_false.mp hfixed
  unfold target
  rw [if_neg heval, hprefix, if_neg Bool.false_ne_true, hjoin]

/-- Only what is joined to a base and has a local path can stand for two paths. -/
theorem joined_of_candidates {c : Candidates} (h : settings.target specifier referrer = .candidates c) :
    settings.isFixed specifier = false ∧ (settings.start referrer).join specifier = .ok c.url ∧
      c.url.scheme = "file" := by
  unfold target at h
  split at h
  next => cases h
  next heval =>
    split at h
    next => split at h <;> cases h
    next hprefix =>
      split at h
      next url hjoin =>
        unfold targetOf at h
        split at h
        next hfile =>
          split at h
          next => cases h
          next =>
            cases h
            exact ⟨isFixed_eq_false.mpr ⟨heval, Bool.eq_false_iff.2 hprefix⟩, hjoin, hfile⟩
        next => split at h <;> cases h
      next => cases h

/-- `settings.Leads files specifier referrer target`: there is one rule for each way in which a
specifier leads to a module. -/
inductive Leads (settings : Settings) (files : Files) (specifier : String)
    (referrer : Option Url) : Resolved → Prop
  -- the specifier has a URL of its own
  | eval : specifier = settings.evalSpecifier →
      Leads settings files specifier referrer ⟨Url.evalModule, .js⟩
  | builtin {url : Url} : specifier ≠ settings.evalSpecifier →
      isPrefix settings.builtinPrefix specifier = true →
      Url.parse ("builtin:" ++ specifier) = .ok url →
      Leads settings files specifier referrer ⟨url, .builtin⟩
  -- the specifier is joined to a base, and no file has a say
  | data {url : Url} : settings.isFixed specifier = false →
      (settings.start referrer).join specifier = .ok url → url.scheme = "data" →
      Leads settings files specifier referrer ⟨url, .js⟩
  | remote {url : Url} : settings.isFixed specifier = false →
      (settings.start referrer).join specifier = .ok url → url.scheme ≠ "file" →
      url.scheme ≠ "data" → Leads settings files specifier referrer ⟨url, .remote⟩
  -- one of two files is there
  | literal {c : Candidates} : settings.target specifier referrer = .candidates c →
      files.hasFile c.literal = true → Leads settings files specifier referrer ⟨c.url, .js⟩
  | extended {c : Candidates} : settings.target specifier referrer = .candidates c →
      files.hasFile c.literal = false → files.hasFile c.extended = true →
      Leads settings files specifier referrer ⟨c.extendedUrl, .js⟩

theorem leads_of_settled (h : settings.target specifier referrer = .settled (.ok target)) :
    settings.Leads files specifier referrer target := by
  unfold Settings.target at h
  split at h
  next heval => cases h; exact .eval heval
  next heval =>
    split at h
    next hprefix =>
      split at h
      next url hparse => cases h; exact .builtin heval hprefix hparse
      next => cases h
    next hprefix =>
      have hfixed := isFixed_eq_false.mpr ⟨heval, Bool.eq_false_iff.2 hprefix⟩
      split at h
      next url hjoin =>
        unfold targetOf at h
        split at h
        next => split at h <;> cases h
        next hfile =>
          split at h
          next hdata => cases h; exact .data hfixed hjoin hdata
          next hdata => cases h; exact .remote hfixed hjoin hfile hdata
      next => cases h

/-- A specifier is resolved to what it leads to, and to nothing else. -/
theorem resolve_eq_ok : settings.resolve files specifier referrer = .ok target ↔
    settings.Leads files specifier referrer target := by
  constructor
  · intro h
    unfold resolve at h
    split at h
    next result hsettled => exact leads_of_settled (h ▸ hsettled)
    next c hcandidates =>
      unfold Candidates.conclude at h
      split at h
      next hliteral => cases h; exact .literal hcandidates hliteral
      next hliteral =>
        split at h
        next hextended =>
          cases h
          exact .extended hcandidates (Bool.eq_false_iff.2 hliteral) hextended
        next => cases h
  · intro h
    cases h with
    | eval heval => rw [resolve, target_of_eval heval]
    | builtin heval hprefix hparse => simp [resolve, Settings.target, heval, hprefix, hparse]
    | data hfixed hjoin hdata =>
      simp [resolve, target_of_joined hfixed hjoin, targetOf, hdata]
    | remote hfixed hjoin hfile hdata =>
      simp [resolve, target_of_joined hfixed hjoin, targetOf, hfile, hdata]
    | literal hcandidates hliteral => simp [resolve, hcandidates, Candidates.conclude, hliteral]
    | extended hcandidates hliteral hextended =>
      simp [resolve, hcandidates, Candidates.conclude, hliteral, hextended]

/-- Joined to a base, a specifier leads to a URL whose scheme says what the format is. -/
theorem format_of_joined (h : settings.resolve files specifier referrer = .ok target)
    (hjoined : settings.isFixed specifier = false) :
    target.format = target.url.schemeFormat := by
  obtain ⟨heval, hprefix⟩ := isFixed_eq_false.mp hjoined
  cases resolve_eq_ok.mp h with
  | eval heval' => exact absurd heval' heval
  | builtin _ hprefix' => cases hprefix.symm.trans hprefix'
  | data _ _ hdata => exact (if_pos (.inr hdata)).symm
  | remote _ _ hfile hdata => exact (if_neg (not_or.mpr ⟨hfile, hdata⟩)).symm
  | literal hcandidates | extended hcandidates =>
    exact (if_pos (.inl (joined_of_candidates hcandidates).2.2)).symm

/-- The eval specifier has one URL, and specifiers with the builtin prefix have builtin ones. -/
theorem format_of_fixed (h : settings.resolve files specifier referrer = .ok target)
    (hfixed : settings.isFixed specifier = true) :
    target = ⟨Url.evalModule, .js⟩ ∨ target.url.scheme = "builtin" ∧ target.format = .builtin := by
  cases resolve_eq_ok.mp h with
  | eval => exact .inl rfl
  | builtin _ _ hparse => exact .inr ⟨Url.scheme_of_parse_builtin hparse, rfl⟩
  | data hjoined | remote hjoined => cases hfixed.symm.trans hjoined
  | literal hcandidates | extended hcandidates =>
    cases hfixed.symm.trans (joined_of_candidates hcandidates).1

/-- The URL of a fixed specifier, spelled out, has another format. -/
theorem format_ne_schemeFormat (h : settings.resolve files specifier referrer = .ok target)
    (hfixed : settings.isFixed specifier = true) : target.format ≠ target.url.schemeFormat := by
  rcases format_of_fixed h hfixed with rfl | ⟨hscheme, hformat⟩
  · decide
  · rw [hformat, Url.schemeFormat, hscheme]
    decide

/-- Among fixed specifiers the URL says what the format is. -/
theorem format_eq_of_fixed {s₁ s₂ : String} {r₁ r₂ : Option Url} {t₁ t₂ : Resolved}
    (h₁ : settings.resolve files s₁ r₁ = .ok t₁) (h₂ : settings.resolve files s₂ r₂ = .ok t₂)
    (hfixed₁ : settings.isFixed s₁ = true) (hfixed₂ : settings.isFixed s₂ = true)
    (hurl : t₁.url = t₂.url) : t₁.format = t₂.format := by
  have heval : Url.evalModule.scheme ≠ "builtin" := by decide
  rcases format_of_fixed h₁ hfixed₁ with rfl | ⟨hscheme₁, hformat₁⟩
  · rcases format_of_fixed h₂ hfixed₂ with rfl | ⟨hscheme₂, -⟩
    · rfl
    · exact absurd ((congrArg Url.scheme hurl).trans hscheme₂) heval
  · rcases format_of_fixed h₂ hfixed₂ with rfl | ⟨-, hformat₂⟩
    · exact absurd ((congrArg Url.scheme hurl).symm.trans hscheme₁) heval
    · rw [hformat₁, hformat₂]

/-- Requests for one URL agree in format exactly if their specifiers are of one kind. -/
theorem format_eq_iff {s₁ s₂ : String} {r₁ r₂ : Option Url} {t₁ t₂ : Resolved}
    (h₁ : settings.resolve files s₁ r₁ = .ok t₁) (h₂ : settings.resolve files s₂ r₂ = .ok t₂)
    (hurl : t₁.url = t₂.url) :
    t₁.format = t₂.format ↔ settings.isFixed s₁ = settings.isFixed s₂ := by
  cases hfixed₁ : settings.isFixed s₁ with
  | true =>
    cases hfixed₂ : settings.isFixed s₂ with
    | true => exact iff_of_true (format_eq_of_fixed h₁ h₂ hfixed₁ hfixed₂ hurl) rfl
    | false =>
      refine iff_of_false (fun heq => ?_) Bool.noConfusion
      apply format_ne_schemeFormat h₁ hfixed₁
      rw [heq, hurl]
      exact format_of_joined h₂ hfixed₂
  | false =>
    cases hfixed₂ : settings.isFixed s₂ with
    | true =>
      refine iff_of_false (fun heq => ?_) Bool.noConfusion
      apply format_ne_schemeFormat h₂ hfixed₂
      rw [← heq, ← hurl]
      exact format_of_joined h₁ hfixed₁
    | false =>
      refine iff_of_true ?_ rfl
      rw [format_of_joined h₁ hfixed₁, format_of_joined h₂ hfixed₂, hurl]

end Settings

/-! ## Requests that are worked on in steps -/

/-- A request on its way from a target to what the files make of it. -/
def Request.Of (files : Files) (target : Target) : Request → Prop
  | .settled result => target = .settled result
  | .probing p => target = .candidates p.candidates ∧
      ∀ c found, p.inquiry c = .answered found → found = files.hasFile (p.path c)
  | .abandoned => True

/-- A resolver whose requests came in this order, and whose files never change. -/
structure Resolver.Asked (settings : Settings) (files : Files) (r : Resolver)
    (asked : List (String × Option Url)) : Prop where
  configured : r.settings = settings
  size : r.requests.size = asked.length
  request : ∀ (i : Nat) (request : Request) specifier referrer, r.requests[i]? = some request →
    asked[i]? = some (specifier, referrer) →
    request.Of files (settings.target specifier referrer)

namespace Resolver

variable {settings : Settings} {files : Files} {r r' : Resolver}
  {asked new : List (String × Option Url)}

theorem asked_ofSettings : Asked settings files (ofSettings settings) [] where
  configured := rfl
  size := rfl
  request i _ _ _ _ h := by cases h

theorem Asked.ask (h : Asked settings files r asked) (specifier : String)
    (referrer : Option Url) :
    Asked settings files (r.ask specifier referrer).1 (asked ++ [(specifier, referrer)]) where
  configured := h.configured
  size := by
    show (r.requests.push _).size = _
    rw [Array.size_push, List.length_append, h.size]
    rfl
  request i request s ref hrequest hasked := by
    rw [getElem?_ask] at hrequest
    split at hrequest
    next hi =>
      rw [hi, h.size, List.getElem?_append_right (Nat.le_refl _), Nat.sub_self] at hasked
      cases hasked
      cases hrequest
      rw [h.configured]
      cases htarget : settings.target specifier referrer with
      | settled result => exact rfl
      | candidates c => exact ⟨rfl, fun c _ ha => by cases c <;> cases ha⟩
    next hi =>
      have hlt : i < asked.length := h.size ▸ (Array.getElem?_eq_some_iff.mp hrequest).1
      rw [List.getElem?_append_left hlt] at hasked
      exact h.request i request s ref hrequest hasked

/-- A question gets another state, and if that is an answer, then the right one. -/
theorem Asked.setInquiry (h : Asked settings files r asked) (probe : Probe) (inquiry : Inquiry)
    {p : Probing} (hp : r.requests[probe.request.index]? = some (.probing p))
    (hright : ∀ found, inquiry = .answered found → found = files.hasFile (p.path probe.candidate)) :
    Asked settings files (r.setInquiry probe inquiry) asked where
  configured := h.configured
  size := by
    show (r.requests.modify _ _).size = _
    rw [Array.size_modify, h.size]
  request i request s ref hrequest hasked := by
    rw [getElem?_setInquiry] at hrequest
    split at hrequest
    next hi =>
      subst hi
      rw [hp] at hrequest
      cases hrequest
      obtain ⟨htarget, hanswers⟩ := h.request _ _ s ref hp hasked
      refine ⟨by rw [htarget, candidates_withInquiry], fun c found hc => ?_⟩
      have hpath : (p.withInquiry inquiry probe.candidate).path c = p.path c := by
        cases c <;> cases probe.candidate <;> rfl
      rw [inquiry_withInquiry] at hc
      rw [hpath]
      split at hc
      next hsame => exact hsame ▸ hright found hc
      next => exact hanswers c found hc
    next => exact h.request i request s ref hrequest hasked

theorem Asked.abandon (h : Asked settings files r asked) (id : RequestId) :
    Asked settings files (r.abandon id) asked := by
  unfold Resolver.abandon
  split
  next => exact h
  next =>
    refine ⟨h.configured, ?_, fun i request s ref hrequest hasked => ?_⟩
    · show (r.requests.modify _ _).size = _
      rw [Array.size_modify, h.size]
    · rw [show (r.requests.modify id.index fun _ => Request.abandoned)[i]? = _ from
        getElem?_abandoned r id i] at hrequest
      split at hrequest
      next =>
        obtain ⟨_, -, rfl⟩ := Option.map_eq_some_iff.mp hrequest
        trivial
      next => exact h.request i request s ref hrequest hasked

theorem Asked.abandonAll (h : Asked settings files r asked) (dependencies : List Dependency) :
    Asked settings files (r.abandonAll dependencies) asked :=
  abandonAll_induction (P := fun r => Asked settings files r asked) (fun id h => h.abandon id) h
    dependencies

theorem Asked.step (h : Asked settings files r asked) (hstep : r.Step files new r') :
    Asked settings files r' (asked ++ new) := by
  cases hstep with
  | none => rw [List.append_nil]; exact h
  | ask specifier referrer => exact h.ask specifier referrer
  | abandonAll dependencies => rw [List.append_nil]; exact h.abandonAll dependencies
  | @acquire probe _ hacquire =>
    obtain ⟨p, hp, -, rfl⟩ := acquire?_eq_some hacquire
    rw [List.append_nil]
    have hset := h.setInquiry probe .asked hp nofun
    exact ⟨hset.configured, hset.size, hset.request⟩
  | @answer probe _ hanswer =>
    obtain ⟨p, hp, -, rfl⟩ := answer?_eq_some hanswer
    rw [List.append_nil]
    have hset := h.setInquiry probe _ hp fun _ hfound => (Inquiry.answered.inj hfound).symm
    exact ⟨hset.configured, hset.size, hset.request⟩

/-- A request that is worked on in steps has the outcome that it has when all files are known. -/
theorem Asked.resolve_of_outcome (h : Asked settings files r asked) {id : RequestId}
    {outcome : Except LoadError Resolved} (houtcome : r.outcome? id = some outcome) :
    ∃ specifier referrer, asked[id.index]? = some (specifier, referrer) ∧
      settings.resolve files specifier referrer = outcome := by
  obtain ⟨request, hrequest, hout⟩ := Option.bind_eq_some_iff.mp houtcome
  have hlt : id.index < asked.length := h.size ▸ outcome?_lt houtcome
  obtain ⟨⟨specifier, referrer⟩, hasked⟩ : ∃ entry, asked[id.index]? = some entry :=
    ⟨_, List.getElem?_eq_getElem hlt⟩
  have hof := h.request _ request specifier referrer hrequest hasked
  refine ⟨specifier, referrer, hasked, ?_⟩
  unfold Settings.resolve
  cases request with
  | settled result =>
    cases hout
    rw [show settings.target specifier referrer = .settled outcome from hof]
  | probing p =>
    obtain ⟨htarget, hanswers⟩ := hof
    obtain ⟨literal, hliteral, hout⟩ := Option.bind_eq_some_iff.mp hout
    obtain ⟨extended, hextended, hout⟩ := Option.bind_eq_some_iff.mp hout
    have hfound : ∀ {inquiry : Inquiry} {found}, inquiry.found? = some found →
        inquiry = .answered found := by
      intro inquiry found hq
      cases inquiry <;> cases hq
      rfl
    rw [htarget]
    dsimp only
    rw [← Option.some.inj hout, hanswers .literal literal (hfound hliteral),
      hanswers .extended extended (hfound hextended)]
    rfl
  | abandoned => cases hout

end Resolver

/-! ## The format of a job -/

namespace Loader

/-- The first request that got a job. -/
def first? (l : Loader) (id : JobId) : Option RequestId :=
  (l.served.find? fun entry => entry.2 = id).map Prod.fst

/-- Every job has the URL and the format of the first request that got it. -/
structure Firsts (l : Loader) (resolved : List (RequestId × Resolved)) : Prop extends l.Indexed where
  first : ∀ (i : Nat) entry, l.entries[i]? = some entry →
    ∃ request, l.first? ⟨i⟩ = some request ∧ (request, entry) ∈ resolved
  made : ∀ entry ∈ l.served, entry.2.index < l.entries.size

variable {l l' : Loader} {log resolved : List (RequestId × Resolved)}

theorem first?_append {request : RequestId} {id i : JobId}
    (hserved : l'.served = l.served ++ [(request, id)]) :
    l'.first? i = (l.first? i).or (if id = i then some request else none) := by
  unfold first?
  rw [hserved, List.find?_append]
  cases l.served.find? fun entry => entry.2 = i with
  | some entry => rfl
  | none =>
    by_cases hid : id = i
    · simp [hid]
    · simp [hid]

theorem Firsts.step (h : l.Firsts log) (hstep : l.MapStep resolved l') :
    l'.Firsts (log ++ resolved) := by
  have hindexed := hstep.indexed h.toIndexed
  cases hstep with
  | kept hsame =>
    rw [List.append_nil]
    refine ⟨hindexed, fun i entry he => ?_, ?_⟩
    · rw [hsame.entries] at he
      unfold first?
      rw [hsame.served]
      exact h.first i entry he
    · rw [hsame.served, hsame.entries]
      exact h.made
  | hit hfound hsame _ _ hserved =>
    refine ⟨hindexed, fun i entry he => ?_, fun entry he => ?_⟩
    · rw [hsame.entries] at he
      obtain ⟨request, hfirst, hin⟩ := h.first i entry he
      refine ⟨request, ?_, List.mem_append_left _ hin⟩
      rw [first?_append hserved, hfirst]
      rfl
    · rw [hserved] at he
      rw [hsame.entries]
      rcases List.mem_append.mp he with hold | hnew
      · exact h.made entry hold
      · cases List.mem_singleton.mp hnew
        obtain ⟨_, hentry, -⟩ := h.found _ _ hfound
        exact (Array.getElem?_eq_some_iff.mp hentry).1
  | @miss _ request target hnone hinserts _ _ hserved =>
    have hnext : l.nextId = ⟨l.entries.size⟩ := congrArg JobId.mk l.size_entries.symm
    rw [hnext] at hserved
    refine ⟨hindexed, fun i entry he => ?_, fun entry he => ?_⟩
    · rw [hinserts.entries, Array.getElem?_push] at he
      split at he
      next hi =>
        -- nobody got the job before it was made
        cases he
        have hfresh : l.first? ⟨i⟩ = none := by
          refine Option.map_eq_none_iff.mpr (List.find?_eq_none.mpr fun entry hentry heq => ?_)
          have hlt := h.made entry hentry
          rw [of_decide_eq_true heq, hi] at hlt
          exact Nat.lt_irrefl _ hlt
        refine ⟨request, ?_, List.mem_append_right _ List.mem_cons_self⟩
        rw [first?_append hserved, hfresh, hi, if_pos rfl]
        rfl
      next =>
        obtain ⟨other, hfirst, hin⟩ := h.first i entry he
        refine ⟨other, ?_, List.mem_append_left _ hin⟩
        rw [first?_append hserved, hfirst]
        rfl
    · rw [hserved] at he
      rw [hinserts.entries, Array.size_push]
      rcases List.mem_append.mp he with hold | hnew
      · exact Nat.lt_succ_of_lt (h.made entry hold)
      · cases List.mem_singleton.mp hnew
        exact Nat.lt_succ_self _

end Loader

namespace Machine

theorem firsts_fresh (host : Host) (settings : Settings) :
    (ofSettings host settings).loader.Firsts [] where
  toIndexed := indexed_fresh host settings
  first i entry h := by
    rw [Loader.getElem?_entries] at h
    obtain ⟨job, hjob, -⟩ := Option.map_eq_some_iff.mp h
    exact absurd (Array.getElem?_eq_some_iff.mp hjob).1 (Nat.not_lt_zero i)
  made _ h := absurd h List.not_mem_nil

theorem firsts_after (host : Host) (settings : Settings) (events : List Event) :
    ((ofSettings host settings).after events).loader.Firsts
      ((ofSettings host settings).logged resolutions events) :=
  logged_induction (P := fun m log => m.loader.Firsts log) resolutions events
    (fun hrule h => h.step hrule.mapStep) (fun _ _ h => h) [] (firsts_fresh host settings)

/-- The requests that the steps of a loader make, when nobody else is at work in its host. -/
def asked (m : Machine) (actions : List Action) : List (String × Option Url) :=
  m.logged asks (actions.map .step)

theorem asked_acts (host : Host) (settings : Settings) (actions : List Action) :
    ((ofSettings host settings).acts actions).loader.resolver.Asked settings host.files
      ((ofSettings host settings).asked actions) := by
  have h := acts_logged_induction (m := ofSettings host settings)
    (P := fun m log => m.host.files = host.files ∧
      m.loader.resolver.Asked settings host.files log) asks
    (fun hrule ⟨hfiles, h⟩ =>
      ⟨hrule.sameSetup.files.trans hfiles, h.step (hfiles ▸ hrule.resolver)⟩)
    [] ⟨rfl, Resolver.asked_ofSettings⟩ actions
  exact h.2

/--
The job that a request gets has the URL of the request, and its format is that of the request
exactly if the specifier is of the same kind as that of the first request that got the job.
-/
theorem format_of_job (host : Host) (settings : Settings) (actions : List Action)
    {request : RequestId} {id : JobId}
    (h : (request, id) ∈ ((ofSettings host settings).acts actions).loader.served) :
    ∃ first specifier₀ referrer₀ specifier referrer target job,
      ((ofSettings host settings).acts actions).loader.first? id = some first ∧
      ((ofSettings host settings).asked actions)[first.index]? = some (specifier₀, referrer₀) ∧
      ((ofSettings host settings).asked actions)[request.index]? = some (specifier, referrer) ∧
      settings.resolve host.files specifier referrer = .ok target ∧
      ((ofSettings host settings).acts actions).loader.job? id = some job ∧
      job.url = target.url ∧
      (job.format = target.format ↔
        settings.isFixed specifier₀ = settings.isFixed specifier) := by
  -- who got the job first decides on its format, and the map on who gets it
  have hmap := mapOf_after host settings (actions.map .step)
  have hfirsts := firsts_after host settings (actions.map .step)
  have hasked := asked_acts host settings actions
  change ((ofSettings host settings).acts actions).loader.MapOf _ at hmap
  change ((ofSettings host settings).acts actions).loader.Firsts _ at hfirsts
  generalize ((ofSettings host settings).acts actions).loader = l at *
  generalize (ofSettings host settings).logged resolutions (actions.map .step) = log at *
  generalize (ofSettings host settings).asked actions = asked at *
  obtain ⟨target, hin, hfind⟩ := hmap.target_of_served h
  obtain ⟨job, hjob, hurl⟩ := (hmap.inverse _ _).mp hfind
  obtain ⟨first, hfirst, hfirstIn⟩ := hfirsts.first id.index ⟨job.url, job.format⟩ (by
    rw [Loader.getElem?_entries]
    exact Option.map_eq_some_iff.mpr ⟨job, hjob, rfl⟩)
  obtain ⟨specifier₀, referrer₀, hasked₀, hresolve₀⟩ :=
    hasked.resolve_of_outcome (hmap.outcome _ hfirstIn)
  obtain ⟨specifier, referrer, hasked₁, hresolve⟩ := hasked.resolve_of_outcome (hmap.outcome _ hin)
  exact ⟨first, specifier₀, referrer₀, specifier, referrer, target, job, hfirst, hasked₀, hasked₁,
    hresolve, hjob, hurl, Settings.format_eq_iff hresolve₀ hresolve hurl⟩

/--
Requests for one URL agree in format exactly if their specifiers are of one kind. So after any run
of a loader, a request has got a job of the format that it leads to exactly if its specifier is of
the same kind as that of the request for which the job was made.
-/
theorem format_by_kind (host : Host) (settings : Settings) (actions : List Action) :
    (∀ s₁ r₁ t₁ s₂ r₂ t₂, settings.resolve host.files s₁ r₁ = .ok t₁ →
      settings.resolve host.files s₂ r₂ = .ok t₂ → t₁.url = t₂.url →
      (t₁.format = t₂.format ↔ settings.isFixed s₁ = settings.isFixed s₂)) ∧
    ∀ request id, (request, id) ∈ ((ofSettings host settings).acts actions).loader.served →
      ∃ first specifier₀ referrer₀ specifier referrer target job,
        ((ofSettings host settings).acts actions).loader.first? id = some first ∧
        ((ofSettings host settings).asked actions)[first.index]? = some (specifier₀, referrer₀) ∧
        ((ofSettings host settings).asked actions)[request.index]? = some (specifier, referrer) ∧
        settings.resolve host.files specifier referrer = .ok target ∧
        ((ofSettings host settings).acts actions).loader.job? id = some job ∧
        job.url = target.url ∧
        (job.format = target.format ↔
          settings.isFixed specifier₀ = settings.isFixed specifier) :=
  ⟨fun _ _ _ _ _ _ h₁ h₂ hurl => Settings.format_eq_iff h₁ h₂ hurl,
    fun _ _ h => format_of_job host settings actions h⟩

/-- Two requests for the job of the eval module: its URL spelled out, and the eval specifier. -/
def spelledOut : List Action :=
  [.start (.find "internal:[eval]" none .job), .advance ⟨0⟩,
    .start (.find "[eval]" none .job), .advance ⟨1⟩]

/--
The URL does not say what the format is. Where the URL of the eval module is requested first, the
eval specifier, which leads to a module with a source, gets a job for a remote one.
-/
theorem format_not_by_url :
    (¬ ∀ s₁ s₂ t₁ t₂, Settings.atRoot.resolve [] s₁ none = .ok t₁ →
      Settings.atRoot.resolve [] s₂ none = .ok t₂ → t₁.url = t₂.url → t₁.format = t₂.format) ∧
    Settings.atRoot.resolve [] "[eval]" none = .ok ⟨Url.evalModule, .js⟩ ∧
    ((ofSettings {} .atRoot).acts spelledOut).loader.served = [(⟨0⟩, ⟨0⟩), (⟨1⟩, ⟨0⟩)] ∧
    (((ofSettings {} .atRoot).acts spelledOut).loader.job? ⟨0⟩).map Job.format = some .remote := by
  refine ⟨fun h => ?_, rfl, by decide +kernel, by decide +kernel⟩
  have hremote := h "internal:[eval]" "[eval]" ⟨Url.evalModule, .remote⟩ ⟨Url.evalModule, .js⟩
    rfl rfl rfl
  cases hremote

end Machine

end ModuleLoader
